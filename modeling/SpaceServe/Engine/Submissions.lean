import SpaceServe.Engine.Frontend

/-!
# Outputs and aborts meet their own submission

Messages between the frontend and the engine carry request ids only. As long as an id is used again only
when nothing of an earlier submission is left, every output is processed by the request state of the
submission it was made for, and no abort ends a later submission. An id may well be used again while
aborts of it are on their way to the engine: they overtake nothing.

* `Marked`, `Clear`: what belongs to a submission, and that nothing of one is left;
* `Timely`: the aborts in the channel meet no later submission;
* `Correct`: outputs and aborts have met their own submission;
* `SubmissionInv`, **`SubmissionInv.step`**;
* **`outputs_meet_submission`**; `reused_id_meets_wrong_submission`: what goes wrong without that.
-/

set_option autoImplicit false

namespace SpaceServe

open Py Scheduler

/-- The id that a message adds to the engine. -/
def ClientMessage.addedId : ClientMessage → Option ReqId
  | .add submission => some submission.request.requestId
  | _ => none

namespace AsyncLLM

variable {D E V O : Type} (σ : AsyncLLM D E)

/-- `P` holds of the id and the number of everything that belongs to a submission: request states and
calls of `generate`, requests that are sent or in the engine, outputs in flight, and aborts that are not
through in the frontend. The aborts on their way to the engine are left out. -/
structure Marks (P : ReqId → Option ℕ → Prop) : Prop where
  state : ∀ id st, σ.requestStates.get? id = some st → P id (some st.submission)
  task : ∀ s ∈ σ.tasks, P s.request.requestId (some s.number)
  sending : ∀ s ∈ σ.sending, P s.request.requestId (some s.number)
  input : ∀ s, .add s ∈ σ.inputs → P s.request.requestId (some s.number)
  core : ∀ id ∈ σ.core.scheduler.requests.keys, P id (σ.owner.get? id)
  output : ∀ batch ∈ σ.outputs ++ σ.slices, ∀ o ∈ batch, P o.output.requestId o.submission
  stop : ∀ aborts, σ.reqsToAbort = some aborts → ∀ a ∈ aborts, P a.requestId a.issuedFor
  abort : ∀ a ∈ σ.aborting, ∀ n, a.issuedFor = some n → P a.requestId (some n)

/-- Nothing of a submission of the id is left. -/
def Clear (id : ReqId) : Prop := σ.Marks fun id' _ => id' ≠ id

variable {σ} in
theorem Marks.imp {P Q R : ReqId → Option ℕ → Prop} (h : σ.Marks P) (h' : σ.Marks Q)
    (hR : ∀ id n, P id n → Q id n → R id n) : σ.Marks R where
  state id st hst := hR _ _ (h.state id st hst) (h'.state id st hst)
  task s hs := hR _ _ (h.task s hs) (h'.task s hs)
  sending s hs := hR _ _ (h.sending s hs) (h'.sending s hs)
  input s hs := hR _ _ (h.input s hs) (h'.input s hs)
  core id hid := hR _ _ (h.core id hid) (h'.core id hid)
  output batch hb o ho := hR _ _ (h.output batch hb o ho) (h'.output batch hb o ho)
  stop aborts hr a ha := hR _ _ (h.stop aborts hr a ha) (h'.stop aborts hr a ha)
  abort a ha n hn := hR _ _ (h.abort a ha n hn) (h'.abort a ha n hn)

theorem mem_addedIds {l : List ClientMessage} {id : ReqId} :
    id ∈ l.filterMap (·.addedId) ↔ ∃ s, .add s ∈ l ∧ s.request.requestId = id := by
  rw [List.mem_filterMap]
  constructor
  · rintro ⟨m, hm, hid⟩
    cases m with
    | add s => exact ⟨s, hm, Option.some.inj hid⟩
    | abort aborts => cases hid
    | resetPrefixCache => cases hid
  · rintro ⟨s, hs, rfl⟩
    exact ⟨.add s, hs, rfl⟩

/-- Whether nothing of a submission of the id is left can be decided. -/
theorem clear_iff {id : ReqId} : (id ∉ σ.requestStates.keys ∧
    (∀ s ∈ σ.tasks ++ σ.sending, s.request.requestId ≠ id) ∧
    id ∉ σ.inputs.filterMap (·.addedId) ∧ id ∉ σ.core.scheduler.requests.keys ∧
    (∀ batch ∈ σ.outputs ++ σ.slices, ∀ o ∈ batch, o.output.requestId ≠ id) ∧
    (∀ a ∈ σ.reqsToAbort.getD [], a.requestId ≠ id) ∧
    ∀ a ∈ σ.aborting, a.issuedFor.isSome = true → a.requestId ≠ id) ↔ σ.Clear id := by
  constructor
  · rintro ⟨h1, h2, h3, h4, h5, h6, h7⟩
    refine ⟨fun id' st hst he => ?_, fun s hs => ?_, fun s hs => ?_, fun s hs he => ?_,
      fun id' hid he => ?_, h5, fun aborts hr a ha => ?_, fun a ha n hn => ?_⟩
    · exact h1 (he ▸ Dict.mem_keys_of_get? hst)
    · exact h2 s (List.mem_append_left _ hs)
    · exact h2 s (List.mem_append_right _ hs)
    · exact h3 (mem_addedIds.mpr ⟨s, hs, he⟩)
    · exact h4 (he ▸ hid)
    · exact h6 a (by rw [hr]; exact ha)
    · exact h7 a ha (by rw [hn]; rfl)
  · intro h
    refine ⟨fun hid => ?_, fun s hs => ?_, fun hid => ?_, fun hid => h.core id hid rfl, h.output,
      fun a ha => ?_, fun a ha hsome => ?_⟩
    · obtain ⟨st, hst⟩ := Dict.exists_get?_of_mem hid
      exact h.state id st hst rfl
    · exact (List.mem_append.mp hs).elim (h.task s) (h.sending s)
    · obtain ⟨s, hs, he⟩ := mem_addedIds.mp hid
      exact h.input s hs he
    · cases hr : σ.reqsToAbort with
      | none =>
        rw [hr] at ha
        cases ha
      | some aborts =>
        rw [hr] at ha
        exact h.stop aborts hr a ha
    · obtain ⟨n, hn⟩ := Option.isSome_iff_exists.mp hsome
      exact h.abort a ha n hn

instance (id : ReqId) : Decidable (σ.Clear id) := decidable_of_iff _ σ.clear_iff

/-! ## Aborts on their way -/

/-- The aborts in the channel end no later submission, if the engine holds the requests `held`. -/
def Timely (latest : Dict ReqId ℕ) : (ReqId → Prop) → List ClientMessage → Prop
  | _, [] => True
  | held, .add s :: rest => Timely latest (fun id => held id ∨ id = s.request.requestId) rest
  | held, .abort aborts :: rest =>
    (∀ a ∈ aborts, held a.requestId → ∀ n, a.issuedFor = some n →
      latest.get? a.requestId = some n) ∧ Timely latest held rest
  | held, .resetPrefixCache :: rest => Timely latest held rest

variable {latest latest' : Dict ReqId ℕ}

theorem Timely.mono : ∀ {l : List ClientMessage} {held held' : ReqId → Prop},
    (∀ id, held' id → held id) → Timely latest held l → Timely latest held' l
  | [], _, _, _, _ => trivial
  | .add _ :: l, _, _, hsub, h =>
    Timely.mono (l := l) (fun id hid => hid.imp_left (hsub id)) h
  | .abort _ :: l, _, _, hsub, h =>
    ⟨fun a ha hid => h.1 a ha (hsub _ hid), Timely.mono (l := l) hsub h.2⟩
  | .resetPrefixCache :: l, _, _, hsub, h => Timely.mono (l := l) hsub h

/-- A message enters the channel; an abort is issued for the last submission. -/
theorem Timely.append {m : ClientMessage} (hm : ∀ aborts, m = .abort aborts → ∀ a ∈ aborts, ∀ n,
    a.issuedFor = some n → latest.get? a.requestId = some n) :
    ∀ {l : List ClientMessage} {held : ReqId → Prop}, Timely latest held l →
      Timely latest held (l ++ [m])
  | [], _, _ => by
    cases m with
    | add s => trivial
    | abort aborts => exact ⟨fun a ha _ => hm aborts rfl a ha, trivial⟩
    | resetPrefixCache => trivial
  | .add _ :: l, _, h => Timely.append hm (l := l) h
  | .abort _ :: l, _, h => ⟨h.1, Timely.append hm (l := l) h.2⟩
  | .resetPrefixCache :: l, _, h => Timely.append hm (l := l) h

/-- A new submission of an id that is not on its way and not held. -/
theorem Timely.relabel {id : ReqId} (hlatest : ∀ id', id' ≠ id → latest'.get? id' = latest.get? id') :
    ∀ {l : List ClientMessage} {held : ReqId → Prop}, ¬ held id → id ∉ l.filterMap (·.addedId) →
      Timely latest held l → Timely latest' held l
  | [], _, _, _, _ => trivial
  | .add s :: l, _, hid, hl, h => by
    simp only [List.filterMap_cons, ClientMessage.addedId, List.mem_cons, not_or] at hl
    exact Timely.relabel hlatest (l := l) (fun hc => hc.elim hid hl.1) hl.2 h
  | .abort aborts :: l, _, hid, hl, h => by
    refine ⟨fun a ha hheld n hn => ?_, Timely.relabel hlatest (l := l) hid hl h.2⟩
    rw [hlatest _ fun he => hid (he ▸ hheld)]
    exact h.1 a ha hheld n hn
  | .resetPrefixCache :: l, _, hid, hl, h => Timely.relabel hlatest (l := l) hid hl h

/-! ## The invariant -/

/-- Outputs and aborts have met their own submission: an output was processed by the request state of
the submission it was made for, and no abort has ended a later submission than it was issued for. -/
structure Correct : Prop where
  processed : ∀ y ∈ σ.processed, y.1 = some y.2
  finished : ∀ n k, (some n, some k) ∈ σ.finished → ¬ n < k

/-- The ids of the requests on their way to the engine. -/
def queuedIds : List ReqId :=
  σ.inputs.filterMap (·.addedId) ++ σ.sending.map (·.request.requestId)

/-- What belongs to a submission belongs to the last one of its id, and at most one request of an id is
on its way or in the engine. -/
structure SubmissionInv (p : SchedulerParams) : Prop where
  sound : Sound p σ.core.scheduler
  marks : σ.Marks fun id n => n.isSome = true ∧ n = σ.latest.get? id
  isNew : ∀ s, .add s ∈ σ.inputs ∨ s ∈ σ.sending → s.request.IsNew
  queued : σ.queuedIds.Nodup
  notHeld : ∀ id ∈ σ.queuedIds, id ∉ σ.core.scheduler.requests.keys
  timely : Timely σ.latest (· ∈ σ.core.scheduler.requests.keys) σ.inputs
  correct : σ.Correct

variable {σ} {σ' : AsyncLLM D E} {p : SchedulerParams} {detok : Detokenizer D} {x : Executor E V O}

theorem SubmissionInv.init (executor : E) :
    SubmissionInv (init p executor : AsyncLLM D E) p where
  sound := Sound.init p
  marks :=
    { state := fun _ _ h => by cases h
      task := fun _ h => by cases h
      sending := fun _ h => by cases h
      input := fun _ h => by cases h
      core := fun _ h => by cases h
      output := fun _ h => by cases h
      stop := fun _ h => by cases h
      abort := fun _ h => by cases h }
  isNew s h := by cases h <;> contradiction
  queued := List.nodup_nil
  notHeld id h := by cases h
  timely := trivial
  correct := ⟨fun y h => (by cases h), fun n k h => by cases h⟩

/-! ## Events of the frontend -/

theorem mem_snoc {α : Type} {P : α → Prop} {l : List α} {a : α} (hl : ∀ b ∈ l, P b) (ha : P a) :
    ∀ b ∈ l ++ [a], P b := by
  intro b hb
  obtain hb | hb := List.mem_append.mp hb
  · exact hl b hb
  · rw [List.mem_singleton.mp hb]
    exact ha

/-- `generate`. -/
theorem SubmissionInv.generate (h : σ.SubmissionInv p) {r : Request} (hnew : r.IsNew)
    (hclear : σ.Clear r.requestId) (d : D) (queues : Dict ℕ (List RequestOutput)) :
    SubmissionInv { σ with
      requestStates := σ.requestStates.set r.requestId ⟨σ.count, d⟩
      queues := queues
      count := σ.count + 1
      latest := σ.latest.set r.requestId σ.count
      tasks := σ.tasks ++ [⟨σ.count, r⟩]
      sending := σ.sending ++ [⟨σ.count, r⟩] } p := by
  have hqueued : r.requestId ∉ σ.queuedIds := by
    intro hq
    obtain hq | hq := List.mem_append.mp hq
    · obtain ⟨s, hs, he⟩ := mem_addedIds.mp hq
      exact hclear.input s hs he
    · obtain ⟨s, hs, he⟩ := List.mem_map.mp hq
      exact hclear.sending s hs he
  have hheld : r.requestId ∉ σ.core.scheduler.requests.keys := fun hk => hclear.core _ hk rfl
  have hids : σ.inputs.filterMap (·.addedId) ++ (σ.sending ++ [(⟨σ.count, r⟩ : Submission)]).map
      (·.request.requestId) = σ.queuedIds ++ [r.requestId] := by
    rw [List.map_append, ← List.append_assoc]
    rfl
  -- everything that was there is of another id
  have hold : σ.Marks fun id n =>
      n.isSome = true ∧ n = (σ.latest.set r.requestId σ.count).get? id := by
    refine h.marks.imp hclear fun id n hn hne => ?_
    rw [Dict.get?_set_ne _ hne]
    exact hn
  have hown : (some σ.count).isSome = true ∧
      some σ.count = (σ.latest.set r.requestId σ.count).get? r.requestId :=
    ⟨rfl, (Dict.get?_set_self _ _ _).symm⟩
  refine ⟨h.sound, ⟨fun id st hst => ?_, mem_snoc hold.task hown, mem_snoc hold.sending hown,
    hold.input, hold.core, hold.output, hold.stop, hold.abort⟩, fun s hs => ?_, ?_, fun id hid => ?_,
    ?_, h.correct.processed, h.correct.finished⟩
  · simp only [Dict.get?_set] at hst
    split_ifs at hst with he
    · cases hst
      rw [he]
      exact hown
    · exact hold.state id st hst
  · exact hs.elim (fun hs => h.isNew s (Or.inl hs))
      (mem_snoc (fun s hs => h.isNew s (Or.inr hs)) hnew s)
  · change (σ.inputs.filterMap (·.addedId) ++ _).Nodup
    rw [hids, ← List.concat_eq_append]
    exact h.queued.concat hqueued
  · change id ∈ σ.inputs.filterMap (·.addedId) ++ _ at hid
    rw [hids] at hid
    exact mem_snoc h.notHeld hheld id hid
  · exact h.timely.relabel (fun id' hne => Dict.get?_set_ne _ hne _) hheld
      fun hc => hqueued (List.mem_append_left _ hc)

/-- A message that adds no request is sent. -/
theorem SubmissionInv.send (h : σ.SubmissionInv p) {m : ClientMessage} (hadd : m.addedId = none)
    (hm : ∀ aborts, m = .abort aborts → ∀ a ∈ aborts, ∀ n, a.issuedFor = some n →
      σ.latest.get? a.requestId = some n) :
    SubmissionInv { σ with inputs := σ.inputs ++ [m] } p := by
  have hmem : ∀ s, .add s ∈ σ.inputs ++ [m] → .add s ∈ σ.inputs := by
    intro s hs
    refine (List.mem_append.mp hs).resolve_right fun hc => ?_
    rw [← List.mem_singleton.mp hc] at hadd
    cases hadd
  have hqueued : queuedIds { σ with inputs := σ.inputs ++ [m] } = σ.queuedIds := by
    unfold queuedIds
    rw [List.filterMap_append, List.filterMap_cons_none hadd, List.filterMap_nil, List.append_nil]
  have hmarks := h.marks
  exact ⟨h.sound, ⟨hmarks.state, hmarks.task, hmarks.sending, fun s hs => hmarks.input s (hmem s hs),
    hmarks.core, hmarks.output, hmarks.stop, hmarks.abort⟩,
    fun s hs => h.isNew s (hs.imp_left (hmem s)), hqueued ▸ h.queued, hqueued ▸ h.notHeld,
    h.timely.append hm, h.correct.processed, h.correct.finished⟩

theorem SubmissionInv.abortRequestsAsync (h : σ.SubmissionInv p) {aborts : List Abort}
    (hm : ∀ a ∈ aborts, ∀ n, a.issuedFor = some n → σ.latest.get? a.requestId = some n) :
    (σ.abortRequestsAsync aborts).SubmissionInv p := by
  unfold AsyncLLM.abortRequestsAsync
  split_ifs
  · exact h
  · refine h.send rfl fun aborts' he => ?_
    cases he
    exact hm

/-- `sendRequest`: the request follows the messages that were sent before. -/
theorem SubmissionInv.sendRequest (h : σ.SubmissionInv p) {s : Submission} (hs : s ∈ σ.sending) :
    SubmissionInv { σ with
      sending := σ.sending.erase s
      inputs := σ.inputs ++ [.add s] } p := by
  have hmarks := h.marks
  have hperm : (queuedIds { σ with sending := σ.sending.erase s, inputs := σ.inputs ++ [.add s] }).Perm
      σ.queuedIds := by
    have hmap := (List.perm_cons_erase hs).symm.map fun s : Submission => s.request.requestId
    unfold queuedIds
    rw [List.filterMap_append, List.append_assoc]
    exact hmap.append_left _
  refine ⟨h.sound, ⟨hmarks.state, hmarks.task, fun s' hs' => hmarks.sending s' (List.mem_of_mem_erase hs'),
    fun s' hs' => ?_, hmarks.core, hmarks.output, hmarks.stop, hmarks.abort⟩, fun s' hs' => ?_,
    hperm.nodup_iff.mpr h.queued, fun id hid => h.notHeld id (hperm.mem_iff.mp hid),
    h.timely.append (fun _ he => by cases he), h.correct.processed, h.correct.finished⟩
  · obtain hs' | hs' := List.mem_append.mp hs'
    · exact hmarks.input s' hs'
    · cases List.mem_singleton.mp hs'
      exact hmarks.sending s hs
  · obtain hs' | hs' := hs'
    · obtain hs' | hs' := List.mem_append.mp hs'
      · exact h.isNew s' (Or.inl hs')
      · cases List.mem_singleton.mp hs'
        exact h.isNew s (Or.inr hs)
    · exact h.isNew s' (Or.inr (List.mem_of_mem_erase hs'))

/-- A call of `generate` ends. -/
theorem SubmissionInv.endTask (h : σ.SubmissionInv p) {queues : Dict ℕ (List RequestOutput)}
    {tasks sending : List Submission} (htasks : ∀ s ∈ tasks, s ∈ σ.tasks)
    (hsending : List.Sublist sending σ.sending) :
    SubmissionInv { σ with queues := queues, tasks := tasks, sending := sending } p := by
  have hmarks := h.marks
  have hsub : List.Sublist (queuedIds { σ with queues := queues, tasks := tasks, sending := sending })
      σ.queuedIds := (hsending.map _).append_left _
  exact ⟨h.sound, ⟨hmarks.state, fun s hs => hmarks.task s (htasks s hs),
    fun s hs => hmarks.sending s (hsending.subset hs), hmarks.input, hmarks.core, hmarks.output,
    hmarks.stop, hmarks.abort⟩, fun s hs => h.isNew s (hs.imp_right fun hs => hsending.subset hs),
    h.queued.sublist hsub, fun id hid => h.notHeld id (hsub.subset hid), h.timely,
    h.correct.processed, h.correct.finished⟩

/-- `abort` starts. -/
theorem SubmissionInv.startAbort (h : σ.SubmissionInv p) {a : Abort}
    (ha : ∀ n, a.issuedFor = some n → σ.latest.get? a.requestId = some n) :
    (σ.startAbort a).SubmissionInv p := by
  have hsent : (σ.abortRequestsAsync [a]).SubmissionInv p :=
    h.abortRequestsAsync fun a' ha' => by rw [List.mem_singleton.mp ha']; exact ha
  have hmarks := hsent.marks
  refine ⟨hsent.sound, ⟨hmarks.state, hmarks.task, hmarks.sending, hmarks.input, hmarks.core,
    hmarks.output, hmarks.stop, mem_snoc hmarks.abort fun n hn => ⟨rfl, (ha n hn).symm⟩⟩, hsent.isNew,
    hsent.queued, hsent.notHeld, hsent.timely, hsent.correct.processed, hsent.correct.finished⟩

/-- `abort` ends: it removes the state of the submission it was issued for. -/
theorem SubmissionInv.finishAbort (h : σ.SubmissionInv p) {a : Abort}
    (ha : ∀ n, a.issuedFor = some n → σ.latest.get? a.requestId = some n) :
    (σ.finishAbort a).SubmissionInv p := by
  unfold AsyncLLM.finishAbort
  cases hst : σ.requestStates.get? a.requestId with
  | none => exact h
  | some st =>
    have hmarks := h.marks
    refine ⟨h.sound, ⟨fun id st' hst' => ?_, hmarks.task, hmarks.sending, hmarks.input, hmarks.core,
      hmarks.output, hmarks.stop, hmarks.abort⟩, h.isNew, h.queued, h.notHeld, h.timely,
      h.correct.processed, fun n k hy => ?_⟩
    · simp only [Dict.get?_pop] at hst'
      split_ifs at hst'
      exact hmarks.state id st' hst'
    · obtain hy | hy := List.mem_append.mp hy
      · exact h.correct.finished n k hy
      · obtain ⟨h1, h2⟩ := Prod.mk.inj (List.mem_singleton.mp hy)
        have hl := (hmarks.state _ st hst).2
        rw [ha n h1.symm, ← h2] at hl
        cases hl
        exact Nat.lt_irrefl _

/-! ## The output handler -/

theorem mem_of_mem_arraySplit {α : Type} : ∀ {k : ℕ} {xs slice : List α} {a : α},
    slice ∈ arraySplit xs k → a ∈ slice → a ∈ xs
  | k + 1, xs, slice, a, hs, ha => by
    rw [arraySplit, List.mem_cons] at hs
    obtain rfl | hs := hs
    · exact List.mem_of_mem_take ha
    · exact List.mem_of_mem_drop (mem_of_mem_arraySplit hs ha)

theorem mem_of_mem_outputSlices {α : Type} {chunkSize : ℕ} {xs slice : List α} {a : α}
    (hs : slice ∈ outputSlices chunkSize xs) (ha : a ∈ slice) : a ∈ xs := by
  unfold outputSlices at hs
  split_ifs at hs
  · rwa [List.mem_singleton.mp hs] at ha
  · exact mem_of_mem_arraySplit hs ha

/-- Outputs are received, or leave the handler. -/
theorem SubmissionInv.handOver (h : σ.SubmissionInv p) {slices outputs : List (List TaggedOutput)}
    (hsub : ∀ batch ∈ outputs ++ slices, ∀ o ∈ batch, ∃ batch' ∈ σ.outputs ++ σ.slices, o ∈ batch') :
    SubmissionInv { σ with slices := slices, outputs := outputs } p := by
  have hmarks := h.marks
  refine ⟨h.sound, ⟨hmarks.state, hmarks.task, hmarks.sending, hmarks.input, hmarks.core,
    fun batch hb o ho => ?_, hmarks.stop, hmarks.abort⟩, h.isNew, h.queued, h.notHeld, h.timely,
    h.correct.processed, h.correct.finished⟩
  obtain ⟨batch', hb', ho'⟩ := hsub batch hb o ho
  exact hmarks.output batch' hb' o ho'

/-- What the output of a request can do. -/
theorem deliver_eq (σ : AsyncLLM D E) (st : RequestState D) (o : TaggedOutput)
    (out : Option DetokenizerOutput) (d : D) : ∃ states queues,
      (σ.deliver st o out d).1 = { σ with
        processed := σ.processed ++ [(o.submission, st.submission)]
        requestStates := states
        queues := queues } ∧
      (∀ id st', states.get? id = some st' →
        (id = o.output.requestId ∧ st'.submission = st.submission) ∨
          σ.requestStates.get? id = some st') ∧
      ∀ a ∈ (σ.deliver st o out d).2, a = ⟨o.output.requestId, some st.submission⟩ := by
  have hset : ∀ id st', (σ.requestStates.set o.output.requestId
      ({ st with detokenizer := d } : RequestState D)).get? id = some st' →
      (id = o.output.requestId ∧ st'.submission = st.submission) ∨
        σ.requestStates.get? id = some st' := by
    intro id st' hst'
    rw [Dict.get?_set] at hst'
    split_ifs at hst' with he
    · cases hst'
      exact Or.inl ⟨he, rfl⟩
    · exact Or.inr hst'
  cases out with
  | none => exact ⟨_, _, rfl, hset, fun a ha => by cases ha⟩
  | some out =>
    by_cases hfin : out.finished = true
    · simp only [deliver, if_pos hfin]
      refine ⟨_, _, rfl, fun id st' hst' => ?_, fun a ha => ?_⟩
      · rw [Dict.get?_pop] at hst'
        split_ifs at hst'
        exact hset id st' hst'
      · split_ifs at ha
        · cases ha
        · exact List.mem_singleton.mp ha
    · simp only [deliver, if_neg hfin]
      exact ⟨_, _, rfl, hset, fun a ha => by cases ha⟩

variable (detok) in
/-- **One round of `process_outputs`**: the output meets the state of its own submission. -/
theorem SubmissionInv.processOutput (h : σ.SubmissionInv p) {aborts : List Abort}
    (ha : ∀ a ∈ aborts, a.issuedFor.isSome = true ∧ a.issuedFor = σ.latest.get? a.requestId)
    {o : TaggedOutput} (ho : o.submission = σ.latest.get? o.output.requestId) :
    (AsyncLLM.processOutput detok (σ, aborts) o).1.SubmissionInv p ∧
      (AsyncLLM.processOutput detok (σ, aborts) o).1.latest = σ.latest ∧
      ∀ a ∈ (AsyncLLM.processOutput detok (σ, aborts) o).2, a.issuedFor.isSome = true ∧
        a.issuedFor = σ.latest.get? a.requestId := by
  unfold AsyncLLM.processOutput
  cases hst : σ.requestStates.get? o.output.requestId with
  | none => exact ⟨h, rfl, ha⟩
  | some st =>
    simp only
    have hmarks := h.marks
    have hown := hmarks.state _ st hst
    obtain ⟨states, queues, he, hstates, hnew⟩ := σ.deliver_eq st o
      (detok.updateFromOutput st.detokenizer o.output).1
      (detok.updateFromOutput st.detokenizer o.output).2
    rw [he]
    refine ⟨⟨h.sound, ⟨fun id st' hst' => ?_, hmarks.task, hmarks.sending, hmarks.input, hmarks.core,
      hmarks.output, hmarks.stop, hmarks.abort⟩, h.isNew, h.queued, h.notHeld, h.timely,
      mem_snoc h.correct.processed (ho.trans hown.2.symm), h.correct.finished⟩, rfl, fun a ha' => ?_⟩
    · obtain ⟨rfl, hsub⟩ | hst' := hstates id st' hst'
      · rw [hsub]
        exact hown
      · exact hmarks.state id st' hst'
    · obtain ha' | ha' := List.mem_append.mp ha'
      · exact ha a ha'
      · rw [hnew a ha']
        exact hown

variable (detok) in
/-- `process_outputs`. -/
theorem SubmissionInv.processOutputs : ∀ {outs : List TaggedOutput} {σ : AsyncLLM D E}
    (aborts : List Abort), σ.SubmissionInv p →
      (∀ a ∈ aborts, a.issuedFor.isSome = true ∧ a.issuedFor = σ.latest.get? a.requestId) →
      (∀ o ∈ outs, o.submission = σ.latest.get? o.output.requestId) →
      (outs.foldl (AsyncLLM.processOutput detok) (σ, aborts)).1.SubmissionInv p ∧
        (outs.foldl (AsyncLLM.processOutput detok) (σ, aborts)).1.latest = σ.latest ∧
        ∀ a ∈ (outs.foldl (AsyncLLM.processOutput detok) (σ, aborts)).2,
          a.issuedFor.isSome = true ∧ a.issuedFor = σ.latest.get? a.requestId
  | [], σ, aborts, h, ha, _ => ⟨h, rfl, ha⟩
  | o :: outs, σ, aborts, h, ha, ho => by
    obtain ⟨h₁, hlatest, ha₁⟩ := h.processOutput detok ha (ho o List.mem_cons_self)
    rw [List.foldl_cons]
    rw [← hlatest] at ha₁ ⊢
    exact SubmissionInv.processOutputs _ h₁ ha₁ fun o' ho' =>
      hlatest ▸ ho o' (List.mem_cons_of_mem _ ho')

/-- The round of the output handler for a slice. -/
theorem SubmissionInv.process (h : σ.SubmissionInv p) : (σ.process detok).SubmissionInv p := by
  -- the slice is taken from the handler first
  have hslice : ∀ slice rest, σ.slices = slice :: rest →
      SubmissionInv { σ with slices := rest } p ∧
        ∀ o ∈ slice, o.submission = σ.latest.get? o.output.requestId := by
    intro slice rest hs
    refine ⟨h.handOver fun batch hb o ho => ⟨batch, ?_, ho⟩, fun o ho => ?_⟩
    · rw [hs]
      exact (List.mem_append.mp hb).elim (List.mem_append_left _)
        fun hb => List.mem_append_right _ (List.mem_cons_of_mem _ hb)
    · refine (h.marks.output slice ?_ o ho).2
      rw [hs]
      exact List.mem_append_right _ List.mem_cons_self
  unfold AsyncLLM.process
  split
  · exact h
  · rename_i slice _ hs
    obtain ⟨h₁, ho⟩ := hslice slice [] hs
    obtain ⟨h₂, hlatest, ha⟩ := h₁.processOutputs detok []
      (fun a ha => by cases ha) ho
    exact h₂.abortRequestsAsync fun a ha' n hn => by
      rw [hlatest, ← hn]
      exact (ha a ha').2.symm
  · rename_i slice rest _ _ hs
    obtain ⟨h₁, ho⟩ := hslice slice rest hs
    obtain ⟨h₂, hlatest, ha⟩ := h₁.processOutputs detok []
      (fun a ha => by cases ha) ho
    have hmarks := h₂.marks
    refine ⟨h₂.sound, ⟨hmarks.state, hmarks.task, hmarks.sending, hmarks.input, hmarks.core,
      hmarks.output, fun aborts hr a ha' => ?_, hmarks.abort⟩, h₂.isNew, h₂.queued, h₂.notHeld,
      h₂.timely, h₂.correct.processed, h₂.correct.finished⟩
    cases hr
    exact ⟨(ha a ha').1,
      (ha a ha').2.trans (congrArg (fun latest => latest.get? a.requestId) hlatest.symm)⟩
  · exact h

/-! ## The engine -/

/-- The engine handles a message. -/
theorem SubmissionInv.handle (h : σ.SubmissionInv p) {m : ClientMessage} {rest : List ClientMessage}
    (hin : σ.inputs = m :: rest) (hs : σ.handle p x rest m = .ok σ') : σ'.SubmissionInv p := by
  have hmarks := h.marks
  have htimely := h.timely
  rw [hin] at htimely
  have hrest : ∀ s, .add s ∈ rest → .add s ∈ σ.inputs := fun s hs =>
    hin ▸ List.mem_cons_of_mem _ hs
  have hids : List.Sublist (rest.filterMap (·.addedId) ++ σ.sending.map (·.request.requestId))
      σ.queuedIds := by
    unfold queuedIds
    rw [hin]
    exact ((List.sublist_cons_self m rest).filterMap _).append_right _
  cases m with
  | add s =>
    cases hs
    have hqueue : σ.queuedIds = s.request.requestId ::
        (rest.filterMap (·.addedId) ++ σ.sending.map (·.request.requestId)) := by
      unfold queuedIds
      rw [hin]
      rfl
    have hnd := h.queued
    rw [hqueue] at hnd
    obtain ⟨hne, hnd⟩ := List.nodup_cons.mp hnd
    have hheld : s.request.requestId ∉ σ.core.scheduler.requests.keys :=
      h.notHeld _ (hqueue ▸ List.mem_cons_self)
    have hadd : .add s ∈ σ.inputs := hin ▸ List.mem_cons_self
    have hkeys : ∀ id, id ∈ (σ.core.scheduler.addRequest s.request).requests.keys ↔
        id = s.request.requestId ∨ id ∈ σ.core.scheduler.requests.keys := fun id =>
      Dict.mem_keys_set _ _ _ _
    refine ⟨h.sound.addRequest (h.isNew s (Or.inl hadd)) hheld, ⟨hmarks.state, hmarks.task,
      hmarks.sending, fun s' hs' => hmarks.input s' (hrest s' hs'), fun id hid => ?_, hmarks.output,
      hmarks.stop, hmarks.abort⟩, fun s' hs' => h.isNew s' (hs'.imp_left (hrest s')), hnd,
      fun id hid hk => ?_, htimely.mono fun id hid => ?_, h.correct.processed, h.correct.finished⟩
    · simp only [Dict.get?_set]
      split_ifs with he
      · rw [he]
        exact hmarks.input s hadd
      · exact hmarks.core id (((hkeys id).mp hid).resolve_left he)
    · obtain rfl | hk := (hkeys id).mp hk
      · exact hne hid
      · exact h.notHeld id (hids.subset hid) hk
    · exact ((hkeys id).mp hid).symm
  | abort aborts =>
    simp only [AsyncLLM.handle, EngineCore.next, bind_eq_ok] at hs
    obtain ⟨⟨progress, c⟩, ⟨s, hfin, hc⟩, hs⟩ := hs
    cases hc
    cases hs
    have hkeys : ∀ id ∈ s.requests.keys, id ∈ σ.core.scheduler.requests.keys := by
      intro id hid
      rw [Dict.mem_keys, finishRequests_get? h.sound.wf hfin] at hid
      rw [Dict.mem_keys]
      split_ifs at hid
      · cases hid
      · exact hid
    refine ⟨h.sound.finishRequests hfin, ⟨hmarks.state, hmarks.task, hmarks.sending,
      fun s hs => hmarks.input s (hrest s hs), fun id hid => hmarks.core id (hkeys id hid),
      hmarks.output, hmarks.stop, hmarks.abort⟩, fun s hs => h.isNew s (hs.imp_left (hrest s)),
      h.queued.sublist hids, fun id hid hk => h.notHeld id (hids.subset hid) (hkeys id hk),
      htimely.2.mono hkeys, h.correct.processed, fun n k hy => ?_⟩
    obtain hy | hy := List.mem_append.mp hy
    · exact h.correct.finished n k hy
    · -- the request in the engine is of the submission the abort was issued for
      obtain ⟨a, ha, he⟩ := List.mem_map.mp hy
      obtain ⟨ha, hheld⟩ := List.mem_filter.mp ha
      obtain ⟨h1, h2⟩ := Prod.mk.inj he
      have hl := htimely.1 a ha (of_decide_eq_true hheld) n h1
      rw [← (hmarks.core a.requestId (of_decide_eq_true hheld)).2, h2] at hl
      cases hl
      exact Nat.lt_irrefl _
  | resetPrefixCache =>
    cases hs
    exact ⟨h.sound.resetPrefixCache, ⟨hmarks.state, hmarks.task, hmarks.sending,
      fun s hs => hmarks.input s (hrest s hs), hmarks.core, hmarks.output, hmarks.stop, hmarks.abort⟩,
      fun s hs => h.isNew s (hs.imp_left (hrest s)), h.queued.sublist hids,
      fun id hid => h.notHeld id (hids.subset hid), htimely, h.correct.processed, h.correct.finished⟩

/-- The engine drops requests. -/
theorem SubmissionInv.core (h : σ.SubmissionInv p) {c : EngineCore E} (hsound : Sound p c.scheduler)
    (hkeys : ∀ id ∈ c.scheduler.requests.keys, id ∈ σ.core.scheduler.requests.keys) :
    SubmissionInv { σ with core := c } p := by
  have hmarks := h.marks
  exact ⟨hsound, ⟨hmarks.state, hmarks.task, hmarks.sending, hmarks.input,
    fun id hid => hmarks.core id (hkeys id hid), hmarks.output, hmarks.stop, hmarks.abort⟩, h.isNew,
    h.queued, fun id hid hk => h.notHeld id hid (hkeys id hk), h.timely.mono hkeys,
    h.correct.processed, h.correct.finished⟩

/-- The engine emits outputs for requests it holds. -/
theorem SubmissionInv.emit (h : σ.SubmissionInv p) {outs : List EngineCoreOutput}
    (houts : ∀ o ∈ outs, o.requestId ∈ σ.core.scheduler.requests.keys) :
    SubmissionInv { σ with outputs := σ.outputs ++ [σ.tag outs] } p := by
  have hmarks := h.marks
  refine ⟨h.sound, ⟨hmarks.state, hmarks.task, hmarks.sending, hmarks.input, hmarks.core,
    fun batch hb o ho => ?_, hmarks.stop, hmarks.abort⟩, h.isNew, h.queued, h.notHeld, h.timely,
    h.correct.processed, h.correct.finished⟩
  simp only [List.mem_append, List.mem_singleton] at hb
  obtain (hb | rfl) | hb := hb
  · exact hmarks.output batch (List.mem_append_left _ hb) o ho
  · obtain ⟨o', ho', rfl⟩ := List.mem_map.mp ho
    exact hmarks.core _ (houts o' ho')
  · exact hmarks.output batch (List.mem_append_right _ hb) o ho

/-- An id is used again only when nothing of an earlier submission is left. -/
def ReusesCleared (σ : AsyncLLM D E) : AsyncEvent V O → Prop
  | .generate request => σ.Clear request.requestId
  | _ => True

instance (σ : AsyncLLM D E) : (e : AsyncEvent V O) → Decidable (σ.ReusesCleared e)
  | .generate request => inferInstanceAs (Decidable (σ.Clear request.requestId))
  | .sendRequest _ => inferInstanceAs (Decidable True)
  | .consume _ => inferInstanceAs (Decidable True)
  | .cancel _ => inferInstanceAs (Decidable True)
  | .abort _ => inferInstanceAs (Decidable True)
  | .aborted _ => inferInstanceAs (Decidable True)
  | .resetPrefixCache => inferInstanceAs (Decidable True)
  | .receive => inferInstanceAs (Decidable True)
  | .process => inferInstanceAs (Decidable True)
  | .sendAborts => inferInstanceAs (Decidable True)
  | .handleClientRequest => inferInstanceAs (Decidable True)
  | .encoderResult _ => inferInstanceAs (Decidable True)
  | .advance _ _ => inferInstanceAs (Decidable True)

/-- **Every event keeps the invariant.** -/
theorem SubmissionInv.step (h : σ.SubmissionInv p) {chunkSize : ℕ} {e : AsyncEvent V O}
    (hadm : σ.Admissible e) (hreuse : σ.ReusesCleared e)
    (hs : step detok chunkSize p x σ e = .ok σ') : σ'.SubmissionInv p := by
  cases e with
  | generate r =>
    simp only [AsyncLLM.step] at hs
    split_ifs at hs
    cases hs
    exact h.generate hadm hreuse _ _
  | sendRequest s =>
    simp only [AsyncLLM.step] at hs
    split_ifs at hs with hmem
    · cases hs
      exact h.sendRequest hmem
    · cases hs
      exact h
  | consume s =>
    simp only [AsyncLLM.step] at hs
    split_ifs at hs
    · cases hs
      exact h.endTask (fun s' hs' => List.mem_of_mem_erase hs') (List.Sublist.refl _)
    · cases hs
      exact h.endTask (fun s' hs' => hs') (List.Sublist.refl _)
    · cases hs
      exact h
  | cancel s =>
    simp only [AsyncLLM.step] at hs
    split_ifs at hs with hmem
    · cases hs
      have hend : SubmissionInv { σ with tasks := σ.tasks.erase s, sending := σ.sending.erase s } p :=
        h.endTask (fun s' hs' => List.mem_of_mem_erase hs') List.erase_sublist
      refine hend.startAbort fun n hn => ?_
      rw [← hn]
      exact (h.marks.task s hmem).2.symm
    · cases hs
      exact h
  | abort id =>
    cases hs
    exact h.startAbort fun n hn => hn
  | aborted a =>
    simp only [AsyncLLM.step] at hs
    split_ifs at hs with hmem
    · cases hs
      have hmarks := h.marks
      have herase : SubmissionInv { σ with aborting := σ.aborting.erase a } p :=
        ⟨h.sound, ⟨hmarks.state, hmarks.task, hmarks.sending, hmarks.input, hmarks.core, hmarks.output,
          hmarks.stop, fun a' ha' => hmarks.abort a' (List.mem_of_mem_erase ha')⟩, h.isNew, h.queued,
          h.notHeld, h.timely, h.correct.processed, h.correct.finished⟩
      exact herase.finishAbort fun n hn => (hmarks.abort a hmem n hn).2.symm
    · cases hs
      exact h
  | resetPrefixCache =>
    cases hs
    exact h.send rfl fun _ he => by cases he
  | receive =>
    simp only [AsyncLLM.step] at hs
    split at hs
    · rename_i batch rest _ hsl hout
      cases hs
      refine h.handOver fun batch' hb o ho => ?_
      rw [hout, hsl, List.append_nil]
      obtain hb | hb := List.mem_append.mp hb
      · exact ⟨batch', List.mem_cons_of_mem _ hb, ho⟩
      · exact ⟨batch, List.mem_cons_self, mem_of_mem_outputSlices hb ho⟩
    · cases hs
      exact h
  | process =>
    cases hs
    exact h.process
  | sendAborts =>
    simp only [AsyncLLM.step] at hs
    split at hs
    · cases hs
      exact h
    · rename_i aborts hr
      cases hs
      have hmarks := h.marks
      have hsent : SubmissionInv { σ with reqsToAbort := none } p :=
        ⟨h.sound, ⟨hmarks.state, hmarks.task, hmarks.sending, hmarks.input, hmarks.core, hmarks.output,
          fun aborts hr => (by cases hr), hmarks.abort⟩, h.isNew, h.queued, h.notHeld, h.timely,
          h.correct.processed, h.correct.finished⟩
      refine hsent.abortRequestsAsync fun a ha n hn => ?_
      rw [← hn]
      exact (hmarks.stop aborts hr a ha).2.symm
  | handleClientRequest =>
    simp only [AsyncLLM.step] at hs
    split at hs
    · cases hs
      exact h
    · rename_i m rest hin
      exact h.handle hin hs
  | encoderResult res =>
    simp only [AsyncLLM.step, EngineCore.next, bind_eq_ok] at hs
    obtain ⟨⟨progress, c⟩, ⟨executor, -, hc⟩, hs⟩ := hs
    cases hc
    cases hs
    have hmarks := h.marks
    exact ⟨h.sound, ⟨hmarks.state, hmarks.task, hmarks.sending, hmarks.input, hmarks.core,
      hmarks.output, hmarks.stop, hmarks.abort⟩, h.isNew, h.queued, h.notHeld, h.timely,
      h.correct.processed, h.correct.finished⟩
  | advance polled outcome =>
    simp only [AsyncLLM.step, bind_eq_ok] at hs
    obtain ⟨⟨progress, exec, c⟩, hcall, hs⟩ := hs
    have hsound := (call_effect h.sound hcall .empty).1
    obtain ⟨hkeys, houts⟩ := call_keys h.sound hcall
    cases progress with
    | discarded out =>
      cases hs
      exact h.core hsound hkeys
    | idle =>
      cases hs
      exact (h.emit houts).core hsound hkeys
    | executed out =>
      cases hs
      exact (h.emit houts).core hsound hkeys

/-- **Outputs and aborts meet their own submission**, in every run in which an id is used again only
when nothing of an earlier submission is left. -/
theorem outputs_meet_submission {chunkSize : ℕ} {executor : E}
    (h : Reachable (fun σ e => step detok chunkSize p x σ e)
      (fun (σ : AsyncLLM D E) (e : AsyncEvent V O) => σ.Admissible e ∧ σ.ReusesCleared e)
      (init p executor) σ) : σ.Correct :=
  (h.invariant (P := fun σ : AsyncLLM D E => σ.SubmissionInv p) (SubmissionInv.init executor)
    fun _ _ _ hσ hadm hs => hσ.step hadm.1 hadm.2 hs).correct

/-! ## Small runs -/

open SchedulerRun (smallParams)

/-- A detokenizer without text and stop strings. -/
def plainDetokenizer : Detokenizer Unit where
  fromNewRequest _ := ()
  updateFromOutput d o :=
    (some ⟨"", o.newTokenIds, o.finished, o.finishReason, o.stopReason.map .inl⟩, d)

/-- One event of a small frontend with one worker. -/
def smallStep (σ : AsyncLLM Unit (GPUModelRunner (List ℕ)))
    (e : AsyncEvent (List ℕ) (List TokenId)) :
    Except Exn (AsyncLLM Unit (GPUModelRunner (List ℕ))) :=
  σ.step plainDetokenizer 128 smallParams (uniProcExecutor ℕ smallParams.maxNumRunningReqs) e

/-- A small frontend. -/
def smallInit : AsyncLLM Unit (GPUModelRunner (List ℕ)) :=
  init smallParams (.init smallParams.maxNumRunningReqs)

/-- A request for one token. -/
def oneToken : Request :=
  { Request.ofPrompt "a" [1, 2, 3] [] with
    samplingParams := { maxTokens := 1, ignoreEos := true, stopTokenIds := [] } }

/-- A request for four tokens with the same id. -/
def fourTokens : Request := .ofPrompt "a" [4, 5] []

/-- A request has finished when its `generate` is cancelled, and its id is used again while the abort is
on its way to the engine. -/
def clearedReuse : List (AsyncEvent (List ℕ) (List TokenId)) :=
  [.generate oneToken, .sendRequest ⟨0, oneToken⟩, .handleClientRequest, .advance none [7],
    .receive, .process, .cancel ⟨0, oneToken⟩, .aborted ⟨"a", some 0⟩,
    .generate fourTokens, .sendRequest ⟨1, fourTokens⟩, .handleClientRequest, .handleClientRequest,
    .advance none [8], .receive, .process]

theorem outputs_meet_submission_cleared : ∃ σ : AsyncLLM Unit (GPUModelRunner (List ℕ)),
    Reachable smallStep (fun σ e => σ.Admissible e ∧ σ.ReusesCleared e) smallInit σ ∧
    σ.processed = [(some 0, 0), (some 1, 1)] ∧ σ.Correct := by
  obtain ⟨σ, hσ, hp⟩ := exists_reachable smallStep
    (fun σ e => σ.Admissible e ∧ σ.ReusesCleared e) smallInit clearedReuse
    (fun σ => σ.processed = [(some 0, 0), (some 1, 1)]) (by decide +kernel)
  exact ⟨σ, hσ, hp, outputs_meet_submission hσ⟩

/-- A request is aborted while an output of it is in flight, and its id is used again. -/
def outputInFlight : List (AsyncEvent (List ℕ) (List TokenId)) :=
  [.generate fourTokens, .sendRequest ⟨0, fourTokens⟩, .handleClientRequest, .advance none [7],
    .abort "a", .aborted ⟨"a", some 0⟩, .handleClientRequest, .generate oneToken, .receive, .process]

/-- The `generate` of a finished request is cancelled after its id was used again. -/
def lateCancel : List (AsyncEvent (List ℕ) (List TokenId)) :=
  [.generate oneToken, .sendRequest ⟨0, oneToken⟩, .handleClientRequest, .advance none [7],
    .receive, .process, .generate fourTokens, .sendRequest ⟨1, fourTokens⟩, .handleClientRequest,
    .cancel ⟨0, oneToken⟩, .handleClientRequest]

/-- **An id that is used again too early**: an output of the first submission is processed by the state
of the second, and an abort of the first ends the second. -/
theorem reused_id_meets_wrong_submission :
    (∃ σ : AsyncLLM Unit (GPUModelRunner (List ℕ)),
      Reachable smallStep (fun σ e => σ.Admissible e) smallInit σ ∧
      (some 0, 1) ∈ σ.processed ∧ ¬ σ.Correct) ∧
    ∃ σ : AsyncLLM Unit (GPUModelRunner (List ℕ)),
      Reachable smallStep (fun σ e => σ.Admissible e) smallInit σ ∧
      (some 0, some 1) ∈ σ.finished ∧ ¬ σ.Correct := by
  obtain ⟨σ₁, h₁, hp⟩ := exists_reachable smallStep (fun σ e => σ.Admissible e) smallInit
    outputInFlight (fun σ => (some 0, 1) ∈ σ.processed) (by decide +kernel)
  obtain ⟨σ₂, h₂, hf⟩ := exists_reachable smallStep (fun σ e => σ.Admissible e) smallInit
    lateCancel (fun σ => (some 0, some 1) ∈ σ.finished) (by decide +kernel)
  refine ⟨⟨σ₁, h₁, hp, fun hc => ?_⟩, σ₂, h₂, hf, fun hc => hc.finished 0 1 hf Nat.zero_lt_one⟩
  have := hc.processed _ hp
  cases this

end AsyncLLM

end SpaceServe
