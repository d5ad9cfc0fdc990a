import SpaceServe.Engine.Model
import SpaceServe.Scheduler.Inputs
import SpaceServe.Scheduler.Notices
import SpaceServe.Scheduler.Preemptions

/-!
# Runs of the engine

What one event does to the engine and to the part of the log that is about requests and encoder
results, and what holds of the queues of the scheduler in every run with unique request ids.

* `Traces`: the ids that were added, the results that were handled, the inputs that were released;
* `Stepped`, **`step_stepped`**: the ways an event can go;
* `UniqueIds`, `Queues`, **`Queues.step`**; `Alive`, `Alive.of_step`;
* `SparesReleased`, `Suffices.spares`, **`Behind.step`**.
-/

set_option autoImplicit false

namespace SpaceServe

open Py

/-- The part of the log that is about requests and encoder results. -/
structure Traces where
  seen : List ReqId
  delivered : List (ReqId × ℕ)
  released : List (ReqId × ℕ)

/-- The traces of a log. -/
def EngineLog.traces (log : EngineLog) : Traces where
  seen := log.seen
  delivered := log.delivered
  released := log.released.map Prod.fst

/-- The pairs of a result that was polled. -/
def polledPairs {V : Type} : Option (EncoderResult V) → List (ReqId × ℕ)
  | none => []
  | some res => res.pairs

section

variable {E V O : Type} (p : SchedulerParams) (x : Executor E V O)

/-- The ways an event can go, with what it adds to the traces. -/
inductive Stepped (c : EngineCore E) (t : Traces) : EngineEvent V O → EngineCore E → Traces → Prop
  | add (r : Request) : Stepped c t (.addRequest r)
      { c with scheduler := c.scheduler.addRequest r } { t with seen := t.seen ++ [r.requestId] }
  | abort {ids : List ReqId} {s : Scheduler} :
      c.scheduler.finishRequests p ids .finishedAborted = .ok s →
      Stepped c t (.abortRequests ids) { c with scheduler := s } t
  | reset : Stepped c t .resetPrefixCache { c with scheduler := c.scheduler.resetPrefixCache p } t
  | result {res : EncoderResult V} {executor : E} :
      x.handleEncoderResult c.executor res = .ok executor →
      Stepped c t (.encoderResult res) { c with executor := executor }
        { t with delivered := t.delivered ++ res.pairs }
  | idle {outcome : O} : Stepped c t (.advance none outcome) c t
  | discard {polled : Option (EncoderResult V)} {outcome : O} {out : SchedulerOutput}
      {s : Scheduler} {executor : E} : c.scheduler.schedule p (c.available x) = .ok (out, s) →
      EngineCore.handle x c.executor polled = .ok executor → out.totalNumScheduledTokens = 0 →
      Stepped c t (.advance polled outcome) ⟨s, executor, true⟩
        { t with delivered := t.delivered ++ polledPairs polled }
  | execute {polled : Option (EncoderResult V)} {outcome : O} {out : SchedulerOutput}
      {s s' : Scheduler} {executor executor' : E} {output : ModelRunnerOutput}
      {outputs : List EngineCoreOutput} : c.scheduler.schedule p (c.available x) = .ok (out, s) →
      EngineCore.handle x c.executor polled = .ok executor → out.totalNumScheduledTokens ≠ 0 →
      x.executeModel executor out outcome = .ok (output, executor') →
      s.updateFromOutput p out output = .ok (outputs, s') →
      Stepped c t (.advance polled outcome) ⟨s', executor', false⟩
        { t with
          delivered := t.delivered ++ polledPairs polled
          released := t.released ++ s'.encoderCacheManager.freed }

variable {p x}

theorem traces_note (log : EngineLog) (ids : List ReqId) (pairs : List (ReqId × ℕ)) :
    (log.note ids pairs).traces = { log.traces with released := log.traces.released ++ pairs } := by
  simp [EngineLog.traces, EngineLog.note, Function.comp_def]

theorem traces_proceed (log : EngineLog) (progress : Progress) :
    (log.proceed progress).traces = log.traces := by
  cases progress <;> rfl

/-- **How an event has gone.** -/
theorem step_stepped {σ σ' : EngineRun E} {e : EngineEvent V O} (ho : σ.core.Orderly e)
    (hs : EngineRun.step p x σ e = .ok σ') :
    Stepped p x σ.core σ.log.traces e σ'.core σ'.log.traces := by
  unfold EngineRun.step at hs
  rw [bind_eq_ok] at hs
  obtain ⟨⟨progress, c⟩, hc, hs⟩ := hs
  cases hs
  simp only [traces_note, traces_proceed]
  cases e with
  | addRequest r =>
    cases hc
    simp only [Progress.added, Scheduler.addRequest, List.drop_length, List.append_nil]
    exact Stepped.add r
  | abortRequests ids =>
    simp only [EngineCore.next, bind_eq_ok] at hc
    obtain ⟨s, hf, hc⟩ := hc
    cases hc
    simp only [Progress.added, (finishRequests_notices hf).2, List.drop_length, List.append_nil]
    exact Stepped.abort hf
  | resetPrefixCache =>
    cases hc
    simp only [Progress.added, Scheduler.resetPrefixCache, List.drop_length, List.append_nil]
    exact Stepped.reset
  | encoderResult res =>
    simp only [EngineCore.next, bind_eq_ok] at hc
    obtain ⟨executor, hh, hc⟩ := hc
    cases hc
    simp only [Progress.added, List.drop_length, List.append_nil]
    exact Stepped.result hh
  | advance polled outcome =>
    have hdel : (σ.log.receive (.advance polled outcome : EngineEvent V O)).traces =
        { σ.log.traces with delivered := σ.log.traces.delivered ++ polledPairs polled } := by
      cases polled with
      | none => simp [EngineLog.receive, EngineLog.traces, polledPairs]
      | some res => rfl
    rw [hdel]
    obtain ⟨rfl, rfl, hspin⟩ | ⟨out, s, executor, hsched, hh, hcase⟩ := EngineCore.advance_eq_ok hc
    · obtain rfl := ho hspin
      simp only [Progress.added, polledPairs, List.drop_length, List.append_nil]
      exact Stepped.idle
    · obtain ⟨hz, rfl, rfl⟩ | ⟨hz, rfl, output, executor', outputs, s', he, hu, rfl⟩ := hcase
      · have hempty : s.encoderCacheManager.freed = [] :=
          (Prod.mk.inj (schedule_notices hsched).2).2
        simp only [Progress.added, hempty, List.append_nil]
        exact Stepped.discard hsched hh hz
      · exact Stepped.execute hsched hh hz he hu

/-! ## The queues -/

/-- Requests are new and their ids are fresh. -/
def UniqueIds (seen : List ReqId) : EngineEvent V O → Prop
  | .addRequest r => r.IsNew ∧ r.requestId ∉ seen
  | _ => True

instance (seen : List ReqId) : (e : EngineEvent V O) → Decidable (UniqueIds seen e)
  | .addRequest r => inferInstanceAs (Decidable (r.IsNew ∧ r.requestId ∉ seen))
  | .abortRequests _ => inferInstanceAs (Decidable True)
  | .resetPrefixCache => inferInstanceAs (Decidable True)
  | .encoderResult _ => inferInstanceAs (Decidable True)
  | .advance _ _ => inferInstanceAs (Decidable True)

/-- The queues agree with the requests, and all ids around are ids that were added. -/
structure Queues (p : SchedulerParams) (s : Scheduler) (t : Traces) : Prop where
  wf : s.WF p
  seen : ∀ id ∈ s.requests.keys, id ∈ t.seen
  finished : ∀ id ∈ s.finishedReqIds, id ∈ t.seen ∧ id ∉ s.requests.keys
  released : ∀ pair ∈ t.released, pair.1 ∈ t.seen
  freed : ∀ pair ∈ s.encoderCacheManager.freed, pair ∈ t.released

theorem Queues.init (p : SchedulerParams) : Queues p (.init p) EngineLog.empty.traces := by
  refine ⟨⟨?_, ?_, ?_, ?_, ?_, ?_⟩, ?_, ?_, ?_, ?_⟩
  · intro id r hg; cases hg
  · intro id; simp [Scheduler.init]
  · exact List.nodup_nil
  · intro id r hid; cases hid
  · intro id r hid; cases hid
  · exact Nat.zero_le _
  all_goals intro a ha; cases ha

variable {c c' : EngineCore E} {t t' : Traces} {e : EngineEvent V O} {s s' : Scheduler}

/-- What updates and aborts leave of the queues. -/
theorem Queues.onward (h : Queues p s t) (hw : s'.WF p) (ho : Scheduler.Onward s s')
    {released : List (ReqId × ℕ)}
    (hrel : released = t.released ++ s'.encoderCacheManager.freed ∨
      (released = t.released ∧ s'.encoderCacheManager.freed = s.encoderCacheManager.freed)) :
    Queues p s' { t with released := released } := by
  have hfreed : ∀ pair ∈ s'.encoderCacheManager.freed, pair.1 ∈ t.seen := by
    intro pair hpair
    obtain ⟨l, hl, hall⟩ := ho.freed
    rw [hl, List.mem_append] at hpair
    obtain hpair | hpair := hpair
    · exact h.released pair (h.freed pair hpair)
    · exact h.seen _ ((h.wf.known _).mpr (Or.inl (hall pair.1 pair.2 hpair).1))
  refine ⟨hw, fun id hid => h.seen id (ho.keys id hid), fun id hid => ?_, ?_, ?_⟩
  · obtain hid | ⟨h1, h2⟩ := ho.finished id hid
    · obtain ⟨h1, h2⟩ := h.finished id hid
      exact ⟨h1, fun hk => h2 (ho.keys id hk)⟩
    · exact ⟨h.seen id h1, h2⟩
  · intro pair hpair
    obtain rfl | ⟨rfl, -⟩ := hrel
    · obtain hpair | hpair := List.mem_append.mp hpair
      · exact h.released pair hpair
      · exact hfreed pair hpair
    · exact h.released pair hpair
  · intro pair hpair
    obtain rfl | ⟨rfl, he⟩ := hrel
    · exact List.mem_append_right _ hpair
    · exact h.freed pair (he ▸ hpair)

/-- What a call of `schedule` leaves of them. -/
theorem Queues.schedule (h : Queues p s t) {available : ReqId → ℕ → Bool} {out : SchedulerOutput}
    (hs : s.schedule p available = .ok (out, s')) : Queues p s' t := by
  obtain ⟨h1, h2⟩ := Prod.mk.inj (schedule_notices hs).2
  refine ⟨Scheduler.schedule_wf h.wf hs, fun id hid => ?_, fun id hid => ?_, h.released,
    fun pair hpair => ?_⟩
  · exact h.seen id (((Scheduler.schedule_requests h.wf hs).1 id).mp hid)
  · rw [h1] at hid
    cases hid
  · rw [h2] at hpair
    cases hpair

/-- **The queues keep agreeing.** -/
theorem Queues.step (h : Queues p c.scheduler t) (hu : UniqueIds t.seen e)
    (hs : Stepped p x c t e c' t') : Queues p c'.scheduler t' := by
  cases hs with
  | add r =>
    obtain ⟨hnew, hfresh⟩ := hu
    have hkey : r.requestId ∉ c.scheduler.requests.keys := fun hk => hfresh (h.seen _ hk)
    refine ⟨h.wf.addRequest hkey hnew, fun id hid => ?_, fun id hid => ?_, fun pair hp => ?_,
      h.freed⟩
    · rw [List.mem_append, List.mem_singleton]
      obtain rfl | hid := (Dict.mem_keys_set _ _ _ _).mp hid
      · exact Or.inr rfl
      · exact Or.inl (h.seen id hid)
    · obtain ⟨h1, h2⟩ := h.finished id hid
      refine ⟨List.mem_append_left _ h1, fun hk => ?_⟩
      obtain rfl | hk := (Dict.mem_keys_set _ _ _ _).mp hk
      · exact hfresh h1
      · exact h2 hk
    · exact List.mem_append_left _ (h.released pair hp)
  | abort hf =>
    obtain ⟨hw, ho⟩ := Scheduler.finishRequests_onward h.wf hf
    exact h.onward hw ho (Or.inr ⟨rfl, (finishRequests_notices hf).2⟩)
  | reset =>
    exact ⟨⟨h.wf.requestId, h.wf.known, h.wf.nodup, h.wf.running, h.wf.waiting, h.wf.running_le⟩,
      h.seen, h.finished, h.released, h.freed⟩
  | result hh => exact ⟨h.wf, h.seen, h.finished, h.released, h.freed⟩
  | idle => exact h
  | discard hsched hh hz =>
    have h' := h.schedule hsched
    exact ⟨h'.wf, h'.seen, h'.finished, h'.released, h'.freed⟩
  | execute hsched hh hz he hup =>
    have h' := h.schedule hsched
    obtain ⟨hw, ho⟩ := Scheduler.updateFromOutput_onward h'.wf hup
    have h'' := h'.onward hw ho (Or.inl rfl)
    exact ⟨h''.wf, h''.seen, h''.finished, h''.released, h''.freed⟩

/-- A request that is in the scheduler or still to come. -/
def Alive (s : Scheduler) (t : Traces) (id : ReqId) : Prop := id ∈ s.requests.keys ∨ id ∉ t.seen

/-- No request comes back. -/
theorem Alive.of_step (hq : Queues p c.scheduler t) (hu : UniqueIds t.seen e)
    (hs : Stepped p x c t e c' t') {id : ReqId} (h : Alive c'.scheduler t' id) : Alive c.scheduler t id := by
  cases hs with
  | add r =>
    obtain h | h := h
    · obtain rfl | h := (Dict.mem_keys_set _ _ _ _).mp h
      · exact Or.inr hu.2
      · exact Or.inl h
    · exact Or.inr fun hseen => h (List.mem_append_left _ hseen)
  | abort hf => exact h.imp_left ((Scheduler.finishRequests_onward hq.wf hf).2.keys id)
  | reset => exact h
  | result hh => exact h
  | idle => exact h
  | discard hsched hh hz =>
    exact h.imp_left ((Scheduler.schedule_requests hq.wf hsched).1 id).mp
  | execute hsched hh hz he hup =>
    refine h.imp_left fun hid => ((Scheduler.schedule_requests hq.wf hsched).1 id).mp ?_
    exact (Scheduler.updateFromOutput_onward (hq.schedule hsched).wf hup).2.keys id hid

/-- An output does not finish a request that is alive. -/
theorem Alive.not_finished (hq : Queues p s t) {available : ReqId → ℕ → Bool} {out : SchedulerOutput}
    (hs : s.schedule p available = .ok (out, s')) {id : ReqId} (h : Alive s t id) :
    id ∉ out.finishedReqIds := by
  rw [(Prod.mk.inj (schedule_notices hs).1).1]
  intro hfin
  obtain ⟨h1, h2⟩ := hq.finished id hfin
  exact h.elim h2 fun h' => h' h1

/-! ## Released inputs -/

variable (p x) in
/-- Where `schedule` has to preempt the last running request, this has no released input. -/
def SparesReleased (c : EngineCore E) (t : Traces) : EngineEvent V O → Prop
  | .advance _ _ => ∀ st, AtPreemption p (c.available x) c.scheduler st →
      ∀ victim, st.sched.running.getLast? = some victim → ∀ pair ∈ t.released, pair.1 ≠ victim
  | _ => True

variable (p x) in
/-- The blocks suffice for all running requests. -/
def Suffices (c : EngineCore E) : EngineEvent V O → Prop
  | .advance _ _ => (Scheduling.loops p (c.available x) c.scheduler).toOption.any
      (fun st => st.preemptedReqs.isEmpty) = true
  | _ => True

instance (c : EngineCore E) : (e : EngineEvent V O) → Decidable (Suffices p x c e)
  | .advance _ _ => inferInstanceAs (Decidable (_ = true))
  | .addRequest _ => isTrue trivial
  | .abortRequests _ => isTrue trivial
  | .resetPrefixCache => isTrue trivial
  | .encoderResult _ => isTrue trivial

/-- Then there is nobody to preempt. -/
theorem Suffices.spares {e : EngineEvent V O} (h : Suffices p x c e) : SparesReleased p x c t e := by
  cases e with
  | advance polled outcome =>
    obtain ⟨st', hl, hnone⟩ := exists_ok_of_any h
    intro st hat
    exact absurd (List.isEmpty_iff.mp hnone) (hat.preempts hl)
  | addRequest => trivial
  | abortRequests => trivial
  | resetPrefixCache => trivial
  | encoderResult => trivial

theorem Behind.mono {F F' : List (ReqId × ℕ)} {l : List ReqId} (h : Behind F l s)
    (hF : ∀ pair ∈ F', pair ∈ F) : Behind F' l s :=
  fun id i r pos hmem => h id i r pos (hF _ hmem)

theorem Behind.addRequest {F : List (ReqId × ℕ)} {l : List ReqId} (h : Behind F l s) {r : Request}
    (hF : ∀ pair ∈ F, pair.1 ≠ r.requestId) : Behind F l (s.addRequest r) := by
  intro id i r' pos hmem hr hpos
  change (s.requests.set r.requestId r).get? id = some r' at hr
  rw [Dict.get?_set_ne _ (hF _ hmem)] at hr
  exact h id i r' pos hmem hr hpos

theorem Behind.schedule (hq : Queues p c.scheduler t) (hb : Behind t.released [] c.scheduler)
    {polled : Option (EncoderResult V)} {outcome : O} {out : SchedulerOutput}
    (hspare : SparesReleased p x c t (.advance polled outcome))
    (hs : c.scheduler.schedule p (c.available x) = .ok (out, s)) : Behind t.released [] s := by
  obtain ⟨st, hl, hbs⟩ := Scheduler.schedule_behind hq.wf hs hb
  have hpre := loops_preempts (P := fun victim => ∀ pair ∈ t.released, pair.1 ≠ victim) hl hspare
  intro id i r pos hmem hr hpos
  exact Or.inl ((hbs id i r pos hmem hr hpos).resolve_right fun hid => hpre id hid (id, i) hmem rfl)

/-- **Released inputs stay behind the computed tokens** in steps that spare their requests. -/
theorem Behind.step (hq : Queues p c.scheduler t) (hb : Behind t.released [] c.scheduler)
    (hu : UniqueIds t.seen e) (hspare : SparesReleased p x c t e)
    (hs : Stepped p x c t e c' t') : Behind t'.released [] c'.scheduler := by
  cases hs with
  | add r => exact hb.addRequest fun pair hp he => hu.2 (he ▸ hq.released pair hp)
  | abort hf =>
    obtain ⟨-, ho⟩ := Scheduler.finishRequests_onward hq.wf hf
    exact (ho.behind hb hq.freed).mono fun pair hp => List.mem_append_left _ hp
  | reset => exact hb
  | result hh => exact hb
  | idle => exact hb
  | discard hsched hh hz =>
    have hb' := hb.schedule hq hspare hsched
    exact hb'
  | execute hsched hh hz he hup =>
    have hq' := hq.schedule hsched
    obtain ⟨-, ho⟩ := Scheduler.updateFromOutput_onward hq'.wf hup
    exact ho.behind (hb.schedule hq hspare hsched) hq'.freed

end

end SpaceServe
