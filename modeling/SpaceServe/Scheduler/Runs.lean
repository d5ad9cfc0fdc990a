import SpaceServe.Scheduler.Total

/-!
# Runs of a scheduler

A scheduler as an engine drives it, with the output that is being executed.

* `SchedulerRun`, `SchedulerEvent`, `step`: one call;
* `Fresh`, `FreshRun`: runs on any requests, in any order of calls;
* `step_cases`: the ways a call can go;
* `Later`, `step_later`: what calls make of a request;
* `Noticed`: whatever leaves the scheduler leaves a notice;
* `BlocksInv.updateFromOutput`, `BlocksInv.finishRequests`: whole calls keep the invariant;
* **`FreshRun.blocksInv`**: it holds in every state of a run.
-/

set_option autoImplicit false

namespace SpaceServe

open Py KVCacheManager

/-! ## Updates and aborts -/

section Calls

variable {p : SchedulerParams} {s s' : Scheduler} {got : ReqId → ℕ} {id : ReqId} {r : Request}

/-- A finished request can be freed. -/
theorem freeRequest_total (ha : Accounted p.kv s.kv)
    (hno : s.encoderCacheManager.getCachedInputIds r.requestId = [])
    (hfin : r.status.isFinished = true) (hr : r.requestId ∈ s.requests.keys) :
    ∃ s', s.freeRequest p r = .ok s' := by
  obtain ⟨⟨free, ha⟩, -⟩ := ha
  obtain ⟨kv, -, hfree, -⟩ := ha.free r
  have hecm : s.encoderCacheManager.free r = .ok s.encoderCacheManager := by
    unfold EncoderCacheManager.free
    rw [hno]
  unfold Scheduler.freeRequest
  rw [assert_of hfin, ok_bind, hfree, ok_bind, hecm, ok_bind,
    if_neg (by rw [(s.requests.contains_iff _).mpr hr]; exact Bool.noConfusion)]
  exact ⟨_, rfl⟩

/-- **An abort of one id returns** if the request has no recorded inputs. -/
theorem finishOne_returns {status : RequestStatus} (hw : s.WF p) (ha : Accounted p.kv s.kv)
    (hfin : status.isFinished = true)
    (hno : id ∈ s.requests.keys → s.encoderCacheManager.getCachedInputIds id = []) :
    ∃ s', Scheduler.finishOne p status s id = .ok s' := by
  unfold Scheduler.finishOne
  cases hr : s.requests.get? id with
  | none => exact ⟨s, rfl⟩
  | some r =>
    have hrid := hw.requestId id r hr
    have hkey := Dict.mem_keys_of_get? hr
    have hno' : s.encoderCacheManager.getCachedInputIds r.requestId = [] := hrid ▸ hno hkey
    have hmem : ∀ r' : Request, r'.requestId = id → r'.requestId ∈ (s.requests.set id r').keys :=
      fun r' he => (Dict.mem_keys_set _ _ _ _).mpr (Or.inl he)
    simp only
    obtain hrun | hwait := (hw.known id).mp hkey
    · rw [if_pos (hw.running id r hrun hr), if_pos hrun, ok_bind]
      exact freeRequest_total ha hno' hfin (hmem _ hrid)
    · have hne : r.status ≠ .running := by
        obtain ⟨hs | hs, -⟩ := hw.waiting id r hwait hr <;> rw [hs] <;> exact fun e => by cases e
      rw [if_neg hne, if_pos hwait, ok_bind]
      exact freeRequest_total ha hno' hfin (hmem _ hrid)

/-- The tokens of the requests that are still to be updated. -/
def pendingOf (out : SchedulerOutput) (rest : List ReqId) (id : ReqId) : ℕ :=
  if id ∈ rest then (out.numScheduledTokens.get? id).getD 0 else 0

/-- One more request is updated. -/
theorem pendingOf_tail {out : SchedulerOutput} {rest : List ReqId} (hrest : id ∉ rest) :
    pendingOf out rest = Function.update (pendingOf out (id :: rest)) id 0 := by
  funext x
  by_cases hx : x = id
  · subst hx
    rw [Function.update_self, pendingOf, if_neg hrest]
  · rw [Function.update_of_ne hx]
    simp [pendingOf, hx]

theorem pendingOf_head (out : SchedulerOutput) (rest : List ReqId) :
    pendingOf out (id :: rest) id = (out.numScheduledTokens.get? id).getD 0 :=
  if_pos List.mem_cons_self

theorem Scheduler.WF.view_not_mem {u : Scheduler.Updating} {rest : List ReqId}
    (hw : (u.view (id :: rest)).WF p) : id ∉ rest := by
  have hnd := (List.nodup_append.mp hw.running_nodup).2.1
  exact (List.nodup_cons.mp hnd).1

/-- One round of the loop of `update_from_output`. -/
theorem BlocksInv.updateOne {out : SchedulerOutput} {mo : ModelRunnerOutput}
    {u u' : Scheduler.Updating} {rest : List ReqId} (hw : (u.view (id :: rest)).WF p)
    (h : BlocksInv p (u.view (id :: rest)) (pendingOf out (id :: rest)))
    (hu : Scheduler.updateOne p out mo u id = .ok u') :
    BlocksInv p (u'.view rest) (pendingOf out rest) := by
  have hid : id ∈ (u.view (id :: rest)).running := by simp [Scheduler.Updating.view]
  have hrest := hw.view_not_mem
  obtain ⟨-, hview⟩ | ⟨-, r, r₁, s₁, ts, hr, -, hadv, hcase⟩ := Scheduler.updateOne_view hw hu
  · rw [hview]
    refine h.mono fun id' _ => ?_
    unfold pendingOf
    split_ifs with h1 h2
    · exact Nat.le_refl _
    · exact absurd (List.mem_cons_of_mem _ h1) h2
    · exact Nat.zero_le _
    · exact Nat.le_refl _
  · rw [← pendingOf_head out rest] at hadv
    obtain ⟨hs, -⟩ | hdrop := hcase
    · rw [hs, pendingOf_tail hrest]
      exact h.advance hid hr hadv
    · have hd := Scheduler.Drop.of_advance (s := u.view (id :: rest)) hr hadv hdrop
      have h' : BlocksInv p { u.view (id :: rest) with
          encoderCacheManager := s₁.encoderCacheManager } (pendingOf out (id :: rest)) :=
        ⟨h.accounted, h.chain, h.idle, h.running⟩
      refine (h'.drop (hw.setEcm _) hd).mono fun id' _ => ?_
      rw [pendingOf_tail hrest, Function.update_apply]
      split_ifs
      · exact Nat.zero_le _
      · exact Nat.le_refl _

/-- **After an update** no granted tokens are left to count. -/
theorem BlocksInv.updateFromOutput {out : SchedulerOutput} {mo : ModelRunnerOutput}
    {outputs : List EngineCoreOutput} (hw : s.WF p)
    (h : BlocksInv p s fun id => (out.numScheduledTokens.get? id).getD 0)
    (hs : s.updateFromOutput p out mo = .ok (outputs, s')) : BlocksInv p s' fun _ => 0 := by
  obtain ⟨u, hu, rfl⟩ := Scheduler.updateFromOutput_eq_ok hs
  have hstart : Scheduler.WF p (Scheduler.Updating.view ⟨s, [], []⟩ s.running) ∧
      BlocksInv p (Scheduler.Updating.view ⟨s, [], []⟩ s.running) (pendingOf out s.running) := by
    refine ⟨hw, BlocksInv.mono (s := s) h fun id hid => ?_⟩
    rw [pendingOf, if_pos hid]
  refine BlocksInv.mono (Scheduler.update_invariant
    (P := fun v rest => v.WF p ∧ BlocksInv p v (pendingOf out rest)) ?_ hstart hu).2
    fun _ _ => Nat.zero_le _
  rintro u₁ u₂ id rest ⟨hw₁, h₁⟩ h₂
  exact ⟨(Scheduler.updateOne_onward hw₁ h₂).1, h₁.updateOne hw₁ h₂⟩

theorem BlocksInv.finishRequests {ids : List ReqId} {status : RequestStatus} (hw : s.WF p)
    (h : BlocksInv p s got) (hs : s.finishRequests p ids status = .ok s') : BlocksInv p s' got := by
  unfold Scheduler.finishRequests at hs
  rw [bind_eq_ok] at hs
  obtain ⟨_, -, hs⟩ := hs
  refine (foldlM_invariant (P := fun s : Scheduler => s.WF p ∧ BlocksInv p s got) ?_ ⟨hw, h⟩ hs).2
  rintro s₁ id s₂ - ⟨hw₁, h₁⟩ h₂
  obtain ⟨-, rfl⟩ | ⟨r, hd⟩ := Scheduler.finishOne_eq_ok hw₁ h₂
  · exact ⟨hw₁, h₁⟩
  · exact ⟨hw₁.drop hd, h₁.drop hw₁ hd⟩

end Calls

/-! ## Requests over time -/

/-- A request after some calls: it has other tokens and block hashes only behind those it had, and only
grows below the limit. -/
structure Later (p : SchedulerParams) (r r' : Request) : Prop where
  eq : r' = { r with
    status := r'.status
    stopReason := r'.stopReason
    numComputedTokens := r'.numComputedTokens
    outputTokenIds := r'.outputTokenIds
    kvBlockHashes := r'.kvBlockHashes }
  output : r.outputTokenIds <+: r'.outputTokenIds
  hashes : r.kvBlockHashes <+: r'.kvBlockHashes
  len : r'.numTokens = r.numTokens ∨ r'.numTokens < p.kv.maxModelLen

section Later

variable {p : SchedulerParams} {s s' : Scheduler} {id : ReqId} {r r' : Request}

theorem Later.refl (r : Request) : Later p r r :=
  ⟨rfl, List.prefix_refl _, List.prefix_refl _, Or.inl rfl⟩

theorem Later.trans {r₁ r₂ r₃ : Request} (h : Later p r₁ r₂) (h' : Later p r₂ r₃) :
    Later p r₁ r₃ := by
  refine ⟨?_, h.output.trans h'.output, h.hashes.trans h'.hashes, ?_⟩
  · have := h'.eq
    rw [h.eq] at this
    exact this
  · obtain hlen | hlen := h'.len
    · rw [hlen]
      exact h.len
    · exact Or.inr hlen

theorem Rescheduled.later (h : Rescheduled r r') : Later p r r' := by
  have houtput : r'.outputTokenIds = r.outputTokenIds := by rw [h.eq]
  refine ⟨?_, by rw [houtput], h.hashes, Or.inl h.numTokens⟩
  rw [houtput]
  have hreason : r'.stopReason = r.stopReason := by rw [h.eq]
  rw [hreason]
  exact h.eq

theorem Scheduler.Advance.later {g : ℕ} {ts : List TokenId} (h : Scheduler.Advance s s' id r r' g ts)
    (hlen : ts ≠ [] → r'.numTokens < p.kv.maxModelLen) : Later p r r' := by
  have houtput : r'.outputTokenIds = r.outputTokenIds ++ ts := by rw [h.request]
  have hhashes : r'.kvBlockHashes = r.kvBlockHashes := by rw [h.request]
  have hnum : r'.numComputedTokens = r.numComputedTokens + g := by rw [h.request]
  refine ⟨?_, by rw [houtput]; exact List.prefix_append _ _, by rw [hhashes], ?_⟩
  · rw [houtput, hhashes, hnum]
    exact h.request
  · by_cases hts : ts = []
    · refine Or.inl ?_
      have hall := h.allTokenIds
      rw [hts, List.append_nil] at hall
      exact congrArg List.length hall
    · exact Or.inr (hlen hts)

/-- One round of the loop of `update_from_output`. -/
theorem updateOne_later {out : SchedulerOutput} {mo : ModelRunnerOutput} {u u' : Scheduler.Updating}
    {rest : List ReqId} (hw : (u.view (id :: rest)).WF p)
    (h : Scheduler.updateOne p out mo u id = .ok u') {id' : ReqId}
    (hr' : (u'.view rest).requests.get? id' = some r') :
    ∃ r, (u.view (id :: rest)).requests.get? id' = some r ∧ Later p r r' := by
  obtain ⟨-, hview⟩ | ⟨-, r, r₁, s₁, ts, hr, -, hadv, hcase⟩ := Scheduler.updateOne_view hw h
  · rw [hview] at hr'
    exact ⟨r', hr', Later.refl r'⟩
  · obtain ⟨hs, -, hlen⟩ | hdrop := hcase
    · rw [hs] at hr'
      obtain ⟨rfl, rfl⟩ | ⟨-, hr'⟩ := hadv.get? hr'
      · exact ⟨r, hr, hadv.later hlen⟩
      · exact ⟨r', hr', Later.refl r'⟩
    · have hd := Scheduler.Drop.of_advance (s := u.view (id :: rest)) hr hadv hdrop
      rw [hd.sched, Dict.get?_pop] at hr'
      split_ifs at hr'
      exact ⟨r', hr', Later.refl r'⟩

theorem updateFromOutput_later {out : SchedulerOutput} {mo : ModelRunnerOutput}
    {outputs : List EngineCoreOutput} (hw : s.WF p)
    (h : s.updateFromOutput p out mo = .ok (outputs, s')) (hr' : s'.requests.get? id = some r') :
    ∃ r, s.requests.get? id = some r ∧ Later p r r' := by
  obtain ⟨u, hu, rfl⟩ := Scheduler.updateFromOutput_eq_ok h
  have hstart : Scheduler.WF p (Scheduler.Updating.view ⟨s, [], []⟩ s.running) ∧ ∀ id r',
      (Scheduler.Updating.view ⟨s, [], []⟩ s.running).requests.get? id = some r' →
        ∃ r, s.requests.get? id = some r ∧ Later p r r' :=
    ⟨hw, fun id r' hr => ⟨r', hr, Later.refl r'⟩⟩
  refine (Scheduler.update_invariant (P := fun v _ => v.WF p ∧ ∀ id r', v.requests.get? id = some r' →
    ∃ r, s.requests.get? id = some r ∧ Later p r r') ?_ hstart hu).2 id r' hr'
  rintro u₁ u₂ id rest ⟨hw₁, h₁⟩ h₂
  refine ⟨(Scheduler.updateOne_onward hw₁ h₂).1, fun id' r₂ hr₂ => ?_⟩
  obtain ⟨r₁, hr₁, hlater₁⟩ := updateOne_later hw₁ h₂ hr₂
  obtain ⟨r, hr, hlater⟩ := h₁ id' r₁ hr₁
  exact ⟨r, hr, hlater.trans hlater₁⟩

theorem finishRequests_later {ids : List ReqId} {status : RequestStatus} (hw : s.WF p)
    (h : s.finishRequests p ids status = .ok s') (hr' : s'.requests.get? id = some r') :
    s.requests.get? id = some r' := by
  unfold Scheduler.finishRequests at h
  rw [bind_eq_ok] at h
  obtain ⟨_, -, h⟩ := h
  refine (foldlM_invariant (P := fun v : Scheduler => v.WF p ∧ ∀ id r',
    v.requests.get? id = some r' → s.requests.get? id = some r') ?_ ⟨hw, fun _ _ hr => hr⟩ h).2
      id r' hr'
  rintro s₁ id s₂ - ⟨hw₁, h₁⟩ h₂
  obtain ⟨-, rfl⟩ | ⟨r, hd⟩ := Scheduler.finishOne_eq_ok hw₁ h₂
  · exact ⟨hw₁, h₁⟩
  · refine ⟨hw₁.drop hd, fun id' r₁ hr₁ => h₁ id' r₁ ?_⟩
    rw [hd.sched, Dict.get?_pop] at hr₁
    split_ifs at hr₁
    exact hr₁

end Later

/-! ## Requests that leave -/

namespace Scheduler

variable {p : SchedulerParams} {s s₁ s' : Scheduler}

/-- Whatever has left the scheduler has left a notice, and no notice is lost. -/
structure Noticed (s s' : Scheduler) : Prop where
  kept : ∀ id ∈ s.finishedReqIds, id ∈ s'.finishedReqIds
  left : ∀ id ∈ s.requests.keys, id ∈ s'.requests.keys ∨ id ∈ s'.finishedReqIds

theorem Noticed.refl (s : Scheduler) : Noticed s s := ⟨fun _ => id, fun _ => Or.inl⟩

theorem Noticed.trans (h : Noticed s s₁) (h' : Noticed s₁ s') : Noticed s s' :=
  ⟨fun id hid => h'.kept id (h.kept id hid),
    fun id hid => (h.left id hid).elim (h'.left id) fun hf => Or.inr (h'.kept id hf)⟩

theorem Noticed.drop {id : ReqId} {r : Request} (h : Drop p s s' id r) : Noticed s s' := by
  have hfin : s'.finishedReqIds = if id ∈ s.finishedReqIds then s.finishedReqIds
      else s.finishedReqIds ++ [id] := by rw [h.sched]
  have hreq : s'.requests = s.requests.pop id := by rw [h.sched]
  have hmem : ∀ x, x ∈ s'.finishedReqIds ↔ x ∈ s.finishedReqIds ∨ x = id := by
    intro x
    rw [hfin]
    split_ifs with hin
    · exact ⟨Or.inl, fun hx => hx.elim (fun hx => hx) fun hx => hx ▸ hin⟩
    · simp
  refine ⟨fun x hx => (hmem x).mpr (Or.inl hx), fun x hx => ?_⟩
  by_cases he : x = id
  · exact Or.inr ((hmem x).mpr (Or.inr he))
  · rw [hreq, Dict.mem_keys_pop]
    exact Or.inl ⟨he, hx⟩

theorem Noticed.advance {id : ReqId} {r r' : Request} {g : ℕ} {ts : List TokenId}
    (h : Advance s s' id r r' g ts) : Noticed s s' := by
  have hfin : s'.finishedReqIds = s.finishedReqIds := by rw [h.sched]
  have hreq : s'.requests = s.requests.set id r' := by rw [h.sched]
  refine ⟨fun x hx => hfin ▸ hx, fun x hx => Or.inl ?_⟩
  rw [hreq, Dict.mem_keys_set]
  exact Or.inr hx

/-- **Aborts leave notices.** -/
theorem finishRequests_noticed (hw : s.WF p) {ids : List ReqId} {status : RequestStatus}
    (h : s.finishRequests p ids status = .ok s') : Noticed s s' := by
  unfold finishRequests at h
  rw [bind_eq_ok] at h
  obtain ⟨_, -, h⟩ := h
  refine (foldlM_invariant (P := fun v : Scheduler => v.WF p ∧ Noticed s v) ?_
    ⟨hw, Noticed.refl s⟩ h).2
  rintro s₁ id s₂ - ⟨hw₁, h₁⟩ h₂
  obtain ⟨-, rfl⟩ | ⟨r, hd⟩ := finishOne_eq_ok hw₁ h₂
  · exact ⟨hw₁, h₁⟩
  · exact ⟨hw₁.drop hd, h₁.trans (Noticed.drop hd)⟩

/-- **So do requests that have stopped.** -/
theorem updateFromOutput_noticed (hw : s.WF p) {out : SchedulerOutput} {mo : ModelRunnerOutput}
    {outputs : List EngineCoreOutput} (h : s.updateFromOutput p out mo = .ok (outputs, s')) :
    Noticed s s' := by
  obtain ⟨u, hu, rfl⟩ := updateFromOutput_eq_ok h
  have h₀ : WF p (Updating.view ⟨s, [], []⟩ s.running) ∧
      Noticed s (Updating.view ⟨s, [], []⟩ s.running) := ⟨hw, Noticed.refl s⟩
  refine (update_invariant (P := fun v _ => v.WF p ∧ Noticed s v) ?_ h₀ hu).2
  rintro u₁ u₂ id rest ⟨hw₁, h₁⟩ h₂
  refine ⟨(updateOne_onward hw₁ h₂).1, h₁.trans ?_⟩
  obtain ⟨-, hview⟩ | ⟨-, r, r₁, s₁, ts, -, -, hadv, hcase⟩ := updateOne_view hw₁ h₂
  · rw [hview]
    exact Noticed.refl _
  · obtain ⟨hs, -⟩ | hdrop := hcase
    · rw [hs]
      exact Noticed.advance hadv
    · exact (Noticed.advance hadv).trans (Noticed.drop hdrop)

end Scheduler

/-! ## Runs -/

/-- A scheduler driven by an engine: `pending` is the output that is being executed. -/
structure SchedulerRun where
  sched : Scheduler
  pending : Option SchedulerOutput

/-- The calls an engine makes. -/
inductive SchedulerEvent
  | addRequest (request : Request)
  | finishRequests (requestIds : List ReqId) (finishedStatus : RequestStatus)
  | schedule (available : ReqId → ℕ → Bool)
  | updateFromOutput (out : ModelRunnerOutput)
  | resetPrefixCache

namespace SchedulerRun

variable (p : SchedulerParams)

/-- A new scheduler. -/
def init : SchedulerRun := ⟨.init p, none⟩

/-- One call. An output without tokens is not executed: `EngineCore.step` schedules again. -/
def step (σ : SchedulerRun) : SchedulerEvent → Except Exn SchedulerRun
  | .addRequest request => .ok { σ with sched := σ.sched.addRequest request }
  | .finishRequests ids status => do
    let s ← σ.sched.finishRequests p ids status
    .ok { σ with sched := s }
  | .schedule available => do
    let (out, s) ← σ.sched.schedule p available
    .ok { sched := s, pending := if out.totalNumScheduledTokens = 0 then none else some out }
  | .updateFromOutput mo =>
    match σ.pending with
    | none => .ok σ
    | some out => do
      let (_, s) ← σ.sched.updateFromOutput p out mo
      .ok { sched := s, pending := none }
  | .resetPrefixCache => .ok { σ with sched := σ.sched.resetPrefixCache p }

/-- The tokens granted and not yet counted. -/
def got (σ : SchedulerRun) (id : ReqId) : ℕ :=
  match σ.pending with
  | none => 0
  | some out => (out.numScheduledTokens.get? id).getD 0

variable {p}

theorem got_of_none {σ : SchedulerRun} (h : σ.pending = none) : σ.got = fun _ => 0 := by
  funext id
  rw [got, h]

theorem got_of_some {σ : SchedulerRun} {out : SchedulerOutput} (h : σ.pending = some out) :
    σ.got = fun id => (out.numScheduledTokens.get? id).getD 0 := by
  funext id
  rw [got, h]

/-- Requests are new, and their ids are not those of unfinished requests. -/
def Fresh (σ : SchedulerRun) : SchedulerEvent → Prop
  | .addRequest r => r.IsNew ∧ r.requestId ∉ σ.sched.requests.keys
  | _ => True

instance (σ : SchedulerRun) : (e : SchedulerEvent) → Decidable (σ.Fresh e)
  | .addRequest r => inferInstanceAs (Decidable (r.IsNew ∧ r.requestId ∉ σ.sched.requests.keys))
  | .finishRequests _ _ => inferInstanceAs (Decidable True)
  | .schedule _ => inferInstanceAs (Decidable True)
  | .updateFromOutput _ => inferInstanceAs (Decidable True)
  | .resetPrefixCache => inferInstanceAs (Decidable True)

variable (p) in
/-- The runs of a scheduler: any calls, in any order. -/
def FreshRun : SchedulerRun → Prop :=
  Reachable (fun σ e => step p σ e) Fresh (init p)

/-- The ways a call can go. -/
theorem step_cases {σ σ' : SchedulerRun} {e : SchedulerEvent} (h : step p σ e = .ok σ') :
    (∃ r, e = .addRequest r ∧ σ'.pending = σ.pending ∧ σ'.sched = σ.sched.addRequest r) ∨
    (∃ ids status, e = .finishRequests ids status ∧ σ'.pending = σ.pending ∧
      σ.sched.finishRequests p ids status = .ok σ'.sched) ∨
    (∃ available out, e = .schedule available ∧
      σ'.pending = (if out.totalNumScheduledTokens = 0 then none else some out) ∧
      σ.sched.schedule p available = .ok (out, σ'.sched)) ∨
    (∃ mo, e = .updateFromOutput mo ∧ (σ' = σ ∨ ∃ out outputs, σ.pending = some out ∧
      σ'.pending = none ∧ σ.sched.updateFromOutput p out mo = .ok (outputs, σ'.sched))) ∨
    (e = .resetPrefixCache ∧ σ'.pending = σ.pending ∧ σ'.sched = σ.sched.resetPrefixCache p) := by
  cases e with
  | addRequest r =>
    cases h
    exact Or.inl ⟨r, rfl, rfl, rfl⟩
  | finishRequests ids status =>
    simp only [step, bind_eq_ok] at h
    obtain ⟨s, hs, h⟩ := h
    cases h
    exact Or.inr (Or.inl ⟨ids, status, rfl, rfl, hs⟩)
  | schedule available =>
    simp only [step, bind_eq_ok] at h
    obtain ⟨⟨out, s⟩, hs, h⟩ := h
    cases h
    exact Or.inr (Or.inr (Or.inl ⟨available, out, rfl, rfl, hs⟩))
  | updateFromOutput mo =>
    refine Or.inr (Or.inr (Or.inr (Or.inl ⟨mo, rfl, ?_⟩)))
    unfold step at h
    cases hp : σ.pending with
    | none =>
      simp only [hp] at h
      cases h
      exact Or.inl rfl
    | some out =>
      simp only [hp, bind_eq_ok] at h
      obtain ⟨⟨outputs, s⟩, hs, h⟩ := h
      cases h
      exact Or.inr ⟨out, outputs, rfl, rfl, hs⟩
  | resetPrefixCache =>
    cases h
    exact Or.inr (Or.inr (Or.inr (Or.inr ⟨rfl, rfl, rfl⟩)))

/-- Calls keep the queues and the requests in agreement. -/
theorem wf_step {σ σ' : SchedulerRun} {e : SchedulerEvent} (hw : σ.sched.WF p) (hf : σ.Fresh e)
    (h : step p σ e = .ok σ') : σ'.sched.WF p := by
  obtain ⟨r, rfl, -, hs⟩ | ⟨ids, status, rfl, -, hs⟩ | ⟨available, out, rfl, -, hs⟩ |
    ⟨mo, rfl, hs⟩ | ⟨rfl, -, hs⟩ := step_cases h
  · rw [hs]
    exact hw.addRequest hf.2 hf.1
  · exact (Scheduler.finishRequests_onward hw hs).1
  · exact Scheduler.schedule_wf hw hs
  · obtain rfl | ⟨out, outputs, -, -, hs⟩ := hs
    · exact hw
    · exact (Scheduler.updateFromOutput_onward hw hs).1
  · rw [hs]
    exact ⟨hw.requestId, hw.known, hw.nodup, hw.running, hw.waiting, hw.running_le⟩

theorem wf_init (p : SchedulerParams) : (init p).sched.WF p := by
  refine ⟨?_, ?_, List.nodup_nil, ?_, ?_, Nat.zero_le _⟩
  · intro id r hg; cases hg
  · intro id; simp [init, Scheduler.init]
  · intro id r hid; cases hid
  · intro id r hid; cases hid

/-- **Every call keeps the invariant of the blocks.** -/
theorem blocksInv_step {σ σ' : SchedulerRun} {e : SchedulerEvent} (hw : σ.sched.WF p)
    (hb : BlocksInv p σ.sched σ.got) (hf : σ.Fresh e) (h : step p σ e = .ok σ') :
    BlocksInv p σ'.sched σ'.got := by
  have hsame : σ'.pending = σ.pending → σ'.got = σ.got := by
    intro hp
    funext id
    rw [got, got, hp]
  obtain ⟨r, rfl, hp, hs⟩ | ⟨ids, status, rfl, hp, hs⟩ | ⟨available, out, rfl, hp, hs⟩ |
    ⟨mo, rfl, hs⟩ | ⟨rfl, hp, hs⟩ := step_cases h
  · rw [hs, hsame hp]
    exact hb.addRequest hw hf.2 hf.1
  · rw [hsame hp]
    exact hb.finishRequests hw hs
  · refine ((hb.mono fun _ _ => Nat.zero_le _).schedule hw hs).1.mono fun id _ => ?_
    rw [got, hp]
    split_ifs
    · exact Nat.zero_le _
    · exact Nat.le_refl _
  · obtain rfl | ⟨out, outputs, hp, hp', hs⟩ := hs
    · exact hb
    · rw [got_of_none hp']
      rw [got_of_some hp] at hb
      exact hb.updateFromOutput hw hs
  · rw [hs, hsame hp]
    exact hb.resetPrefixCache

/-- **What a call makes of the requests**: they are there, or they are added. -/
theorem step_later {σ σ' : SchedulerRun} {e : SchedulerEvent} (hw : σ.sched.WF p)
    (hb : BlocksInv p σ.sched σ.got) (h : step p σ e = .ok σ') {id : ReqId} {r' : Request}
    (hr' : σ'.sched.requests.get? id = some r') :
    (∃ r, σ.sched.requests.get? id = some r ∧ Later p r r') ∨ e = .addRequest r' := by
  obtain ⟨r, rfl, -, hs⟩ | ⟨ids, status, rfl, -, hs⟩ | ⟨available, out, rfl, -, hs⟩ |
    ⟨mo, rfl, hs⟩ | ⟨rfl, -, hs⟩ := step_cases h
  · rw [hs] at hr'
    obtain ⟨-, rfl⟩ | ⟨-, hr'⟩ := Scheduler.addRequest_get? hr'
    · exact Or.inr rfl
    · exact Or.inl ⟨r', hr', Later.refl r'⟩
  · exact Or.inl ⟨r', finishRequests_later hw hs hr', Later.refl r'⟩
  · obtain ⟨r, hr, hres⟩ := ((hb.mono fun _ _ => Nat.zero_le _).schedule hw hs).2 id r' hr'
    exact Or.inl ⟨r, hr, hres.later⟩
  · obtain rfl | ⟨out, outputs, -, -, hs⟩ := hs
    · exact Or.inl ⟨r', hr', Later.refl r'⟩
    · exact Or.inl (updateFromOutput_later hw hs hr')
  · rw [hs] at hr'
    exact Or.inl ⟨r', hr', Later.refl r'⟩

/-- **The invariant of the blocks holds in every state of a run.** -/
theorem FreshRun.blocksInv {σ : SchedulerRun} (h : FreshRun p σ) :
    σ.sched.WF p ∧ BlocksInv p σ.sched σ.got := by
  refine h.invariant (P := fun σ => σ.sched.WF p ∧ BlocksInv p σ.sched σ.got) ?_ ?_
  · exact ⟨wf_init p, BlocksInv.init p⟩
  · rintro σ e σ' ⟨hw, hb⟩ hf hs
    exact ⟨wf_step hw hf hs, blocksInv_step hw hb hf hs⟩

end SchedulerRun

end SpaceServe
