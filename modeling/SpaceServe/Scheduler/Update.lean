import SpaceServe.Scheduler.Moves

/-!
# Updates of the scheduler

Requests that got tokens advance, sample a token or finish; requests are added and aborted.

`update_from_output` writes `running` only when its loop is over. While the loop runs, the
scheduler is looked at with the part `newRunning ++ rest` of `running` that is left: seen so, one
round of the loop either leaves the scheduler alone, advances one request, or drops one.

* `checkStop_eq_ok`, `freeRequest_eq_ok`, `updateOne_eq_ok`, `finishOne_eq_ok`: how the parts have run;
* `Updating.view`: the scheduler as seen in the middle of the loop;
* `Advance`, `Drop`: the two things that can happen to a request;
* **`updateOne_view`**: one round, seen so;
* `WF.advance`, `WF.drop`, `WF.addRequest`: the queues and the requests keep agreeing.
-/

set_option autoImplicit false

namespace SpaceServe

open Py

namespace Scheduler

variable {p : SchedulerParams}

/-! ## Advancing and dropping a request -/

/-- A request has computed `g` more tokens and may have sampled one. -/
structure Advance (s s' : Scheduler) (id : ReqId) (r r' : Request) (g : ℕ)
    (ts : List TokenId) : Prop where
  sched : s' = { s with
    requests := s.requests.set id r'
    encoderCacheManager := s'.encoderCacheManager }
  request : r' = { r with
    numComputedTokens := r.numComputedTokens + g
    outputTokenIds := r.outputTokenIds ++ ts
    status := r'.status
    stopReason := r'.stopReason }
  sampled : (ts = [] ∧ r.numComputedTokens + g < r.numTokens) ∨
    (r.numComputedTokens + g = r.numTokens ∧ ∃ t, ts = [t])

/-- A request has left the scheduler. -/
structure Drop (p : SchedulerParams) (s s' : Scheduler) (id : ReqId) (r : Request) : Prop where
  get? : s.requests.get? id = some r
  free : s.kv.free p.kv r = .ok s'.kv
  cached : s.encoderCacheManager.getCachedInputIds id = []
  sched : s' = { s with
    kv := s'.kv
    requests := s.requests.pop id
    cachedReqsData := s.cachedReqsData.pop id
    running := s.running.erase id
    waiting := s.waiting.erase id
    finishedReqIds := if id ∈ s.finishedReqIds then s.finishedReqIds
      else s.finishedReqIds ++ [id] }

/-! ## How the parts have run -/

/-- A request that has not stopped is unchanged and below the limits. -/
theorem checkStop_eq_ok {r r' : Request} {stopped : Bool}
    (h : checkStop p r = .ok (stopped, r')) :
    (∃ status reason, r' = { r with status := status, stopReason := reason } ∧
      (stopped = true → status.isFinished = true)) ∧
      (stopped = false → r' = r ∧ r.numTokens < p.kv.maxModelLen) := by
  unfold checkStop at h
  split_ifs at h with h1
  · cases h
    exact ⟨⟨_, r.stopReason, rfl, fun _ => rfl⟩, fun hc => Bool.noConfusion hc⟩
  · rw [bind_eq_ok] at h
    obtain ⟨t, -, h⟩ := h
    split_ifs at h with h2 h3
    · cases h
      exact ⟨⟨_, r.stopReason, rfl, fun _ => rfl⟩, fun hc => Bool.noConfusion hc⟩
    · cases h
      exact ⟨⟨_, _, rfl, fun _ => rfl⟩, fun hc => Bool.noConfusion hc⟩
    · cases h
      exact ⟨⟨_, _, rfl, fun hc => Bool.noConfusion hc⟩, fun _ => ⟨rfl, by omega⟩⟩

theorem freeRequest_eq_ok {s s' : Scheduler} {r : Request}
    (h : s.freeRequest p r = .ok s') :
    r.status.isFinished = true ∧ s.kv.free p.kv r = .ok s'.kv ∧
      s.encoderCacheManager.getCachedInputIds r.requestId = [] ∧
      s' = { s with
        kv := s'.kv
        requests := s.requests.pop r.requestId
        cachedReqsData := s.cachedReqsData.pop r.requestId
        finishedReqIds := if r.requestId ∈ s.finishedReqIds then s.finishedReqIds
          else s.finishedReqIds ++ [r.requestId] } := by
  unfold freeRequest at h
  rw [bind_eq_ok] at h
  obtain ⟨_, h1, h⟩ := h
  rw [assert_eq_ok] at h1
  rw [bind_eq_ok] at h
  obtain ⟨kv, h2, h⟩ := h
  rw [bind_eq_ok] at h
  obtain ⟨ecm, h3, h⟩ := h
  obtain ⟨rfl, hcached⟩ := EncoderCacheManager.free_eq_ok _ h3
  split_ifs at h <;> cases h <;> exact ⟨h1, h2, hcached, by simp_all⟩

/-- How one round of the loop of `update_from_output` has run. -/
theorem updateOne_eq_ok {out : SchedulerOutput} {mo : ModelRunnerOutput} {u u' : Updating}
    {id : ReqId} (h : updateOne p out mo u id = .ok u') :
    ((out.numScheduledTokens.get? id).getD 0 = 0 ∧
      u' = { u with newRunning := u.newRunning ++ [id] }) ∨
    (0 < (out.numScheduledTokens.get? id).getD 0 ∧ ∃ r r₁ s₁ ts,
      u.sched.requests.get? id = some r ∧
      releaseInputs { r with numComputedTokens :=
        r.numComputedTokens + (out.numScheduledTokens.get? id).getD 0 }
        u.sched.encoderCacheManager = .ok s₁.encoderCacheManager ∧
      Advance u.sched s₁ id r r₁ ((out.numScheduledTokens.get? id).getD 0) ts ∧
      ((u'.sched = s₁ ∧ u'.newRunning = u.newRunning ++ [id] ∧ r₁.status = r.status ∧
          (ts ≠ [] → r₁.numTokens < p.kv.maxModelLen)) ∨
        (s₁.freeRequest p r₁ = .ok u'.sched ∧ u'.newRunning = u.newRunning))) := by
  unfold updateOne at h
  generalize (out.numScheduledTokens.get? id).getD 0 = g at *
  simp only at h
  by_cases hg : g = 0
  · rw [if_pos hg] at h
    cases h
    exact Or.inl ⟨hg, rfl⟩
  rw [if_neg hg, bind_eq_ok] at h
  refine Or.inr ⟨by omega, ?_⟩
  obtain ⟨r, hr, h⟩ := h
  rw [request_eq_ok] at hr
  rw [bind_eq_ok] at h
  obtain ⟨_, hle, h⟩ := h
  rw [assert_eq_ok] at hle
  rw [bind_eq_ok] at h
  obtain ⟨ecm, hecm, h⟩ := h
  have hnum : ({ r with numComputedTokens := r.numComputedTokens + g } : Request).numTokens =
      r.numTokens := rfl
  rw [hnum] at hle h
  by_cases hfull : r.numComputedTokens + g = r.numTokens
  · rw [if_pos hfull] at h
    unfold generate at h
    simp only [bind_eq_ok] at h
    obtain ⟨i, -, t, -, ⟨stopped, r₁⟩, hstop, s₂, hs₂, h⟩ := h
    obtain ⟨⟨status, reason, hr₁, hfin⟩, hns⟩ := checkStop_eq_ok hstop
    cases h
    refine ⟨r, r₁, { u.sched with
      requests := u.sched.requests.set id r₁
      encoderCacheManager := ecm }, [t], hr, hecm, ⟨rfl, by rw [hr₁]; rfl, Or.inr ⟨hfull, t, rfl⟩⟩, ?_⟩
    simp only [Dict.set_set] at hs₂
    cases stopped with
    | false =>
      obtain ⟨hsame, hlt⟩ := hns rfl
      cases hs₂
      refine Or.inl ⟨rfl, rfl, ?_, fun _ => ?_⟩
      · rw [hsame]; rfl
      · rw [hsame]; exact hlt
    | true => exact Or.inr ⟨hs₂, rfl⟩
  · rw [if_neg hfull] at h
    cases h
    exact ⟨r, { r with numComputedTokens := r.numComputedTokens + g }, _, [], hr, hecm,
      ⟨rfl, by simp, Or.inl ⟨rfl, by omega⟩⟩, Or.inl ⟨rfl, rfl, rfl, fun hc => absurd rfl hc⟩⟩

/-! ## The view in the middle of the loop -/

/-- The scheduler as seen when the requests `rest` are still to be updated. -/
def Updating.view (u : Updating) (rest : List ReqId) : Scheduler :=
  { u.sched with running := u.newRunning ++ rest }

theorem erase_middle {α : Type} [DecidableEq α] {l m : List α} {a : α} (h : a ∉ l) :
    (l ++ a :: m).erase a = l ++ m := by
  rw [List.erase_append_right _ h, List.erase_cons_head]

theorem Advance.requestId {s s' : Scheduler} {id : ReqId} {r r' : Request} {g : ℕ}
    {ts : List TokenId} (h : Advance s s' id r r' g ts) : r'.requestId = r.requestId := by
  rw [h.request]

theorem Advance.allTokenIds {s s' : Scheduler} {id : ReqId} {r r' : Request} {g : ℕ}
    {ts : List TokenId} (h : Advance s s' id r r' g ts) :
    r'.allTokenIds = r.allTokenIds ++ ts := by
  rw [h.request]
  simp [Request.allTokenIds]

/-- The requests after one of them advanced. -/
theorem Advance.get? {s s' : Scheduler} {id : ReqId} {r r' : Request} {g : ℕ} {ts : List TokenId}
    (h : Advance s s' id r r' g ts) {id' : ReqId} {r₁ : Request}
    (hg : s'.requests.get? id' = some r₁) :
    (id' = id ∧ r₁ = r') ∨ (id' ≠ id ∧ s.requests.get? id' = some r₁) := by
  rw [h.sched, Dict.get?_set] at hg
  split_ifs at hg with he
  · exact Or.inl ⟨he, (Option.some.inj hg).symm⟩
  · exact Or.inr ⟨he, hg⟩

/-- The requests after one was added. -/
theorem addRequest_get? {s : Scheduler} {r r₁ : Request} {id : ReqId}
    (hg : (s.addRequest r).requests.get? id = some r₁) :
    (id = r.requestId ∧ r₁ = r) ∨ (id ≠ r.requestId ∧ s.requests.get? id = some r₁) := by
  change (s.requests.set r.requestId r).get? id = some r₁ at hg
  rw [Dict.get?_set] at hg
  split_ifs at hg with he
  · exact Or.inl ⟨he, (Option.some.inj hg).symm⟩
  · exact Or.inr ⟨he, hg⟩

/-- A request that advanced and left has just left. -/
theorem Drop.of_advance {s s₁ s' : Scheduler} {id : ReqId} {r r₁ : Request} {g : ℕ}
    {ts : List TokenId} (hr : s.requests.get? id = some r) (ha : Advance s s₁ id r r₁ g ts)
    (hd : Drop p s₁ s' id r₁) :
    Drop p { s with encoderCacheManager := s₁.encoderCacheManager } s' id r := by
  have hfree : s₁.kv.free p.kv r₁ = s.kv.free p.kv r := by
    unfold KVCacheManager.free
    rw [ha.requestId, ha.sched]
  refine ⟨hr, hfree ▸ hd.free, hd.cached, ?_⟩
  have hs := hd.sched
  rw [ha.sched] at hs
  simpa using hs

/-- **One round of the loop, seen so.** -/
theorem updateOne_view {out : SchedulerOutput} {mo : ModelRunnerOutput} {u u' : Updating}
    {id : ReqId} {rest : List ReqId} (hw : (u.view (id :: rest)).WF p)
    (h : updateOne p out mo u id = .ok u') :
    ((out.numScheduledTokens.get? id).getD 0 = 0 ∧ u'.view rest = u.view (id :: rest)) ∨
    (0 < (out.numScheduledTokens.get? id).getD 0 ∧ ∃ r r₁ s₁ ts,
      u.sched.requests.get? id = some r ∧
      releaseInputs { r with numComputedTokens :=
        r.numComputedTokens + (out.numScheduledTokens.get? id).getD 0 }
        u.sched.encoderCacheManager = .ok s₁.encoderCacheManager ∧
      Advance (u.view (id :: rest)) s₁ id r r₁ ((out.numScheduledTokens.get? id).getD 0) ts ∧
      ((u'.view rest = s₁ ∧ r₁.status = r.status ∧ (ts ≠ [] → r₁.numTokens < p.kv.maxModelLen)) ∨
        Drop p s₁ (u'.view rest) id r₁)) := by
  obtain ⟨hg, rfl⟩ | ⟨hg, r, r₁, s₁, ts, hr, hecm, hadv, hcase⟩ := updateOne_eq_ok h
  · refine Or.inl ⟨hg, ?_⟩
    simp [Updating.view]
  · have hadv' : Advance (u.view (id :: rest)) { s₁ with running := u.newRunning ++ id :: rest } id
        r r₁ ((out.numScheduledTokens.get? id).getD 0) ts :=
      ⟨by rw [hadv.sched]; rfl, hadv.request, hadv.sampled⟩
    refine Or.inr ⟨hg, r, r₁, { s₁ with running := u.newRunning ++ id :: rest }, ts, hr, hecm, hadv',
      ?_⟩
    obtain ⟨h1, h2, h3⟩ | ⟨h1, h2⟩ := hcase
    · refine Or.inl ⟨?_, h3⟩
      simp [Updating.view, h1, h2]
    · obtain ⟨-, hfree, hcached, hs⟩ := freeRequest_eq_ok h1
      have hid : r₁.requestId = id := hadv.requestId.trans (hw.requestId id r hr)
      rw [hid] at hcached hs
      have hnd := hw.nodup
      have hn : id ∉ u.newRunning := by
        intro hm
        have h1 := (List.nodup_append.mp hnd).1
        exact (List.nodup_append.mp h1).2.2 id hm id List.mem_cons_self rfl
      have hwait : id ∉ u.sched.waiting := by
        intro hm
        exact (List.nodup_append.mp hnd).2.2 id (by simp [Updating.view]) id hm rfl
      refine Or.inr ⟨?_, hfree, hcached, ?_⟩
      · change s₁.requests.get? id = some r₁
        rw [hadv.sched]
        exact Dict.get?_set_self _ _ _
      · have hw₁ : s₁.waiting = u.sched.waiting := by rw [hadv.sched]
        simp only [Updating.view, h2]
        rw [hs, erase_middle hn, hw₁, List.erase_of_not_mem hwait]

/-- How `update_from_output` has run. -/
theorem updateFromOutput_eq_ok {s s' : Scheduler} {out : SchedulerOutput} {mo : ModelRunnerOutput}
    {outputs : List EngineCoreOutput} (h : s.updateFromOutput p out mo = .ok (outputs, s')) :
    ∃ u, s.running.foldlM (updateOne p out mo) ⟨s, [], []⟩ = .ok u ∧ s' = u.view [] := by
  unfold updateFromOutput at h
  rw [bind_eq_ok] at h
  obtain ⟨u, hu, h⟩ := h
  cases h
  exact ⟨u, hu, by simp [Updating.view]⟩

/-- **Update rule.** What every round keeps, for the view of what is left, is kept by the update. -/
theorem update_invariant {P : Scheduler → List ReqId → Prop} {out : SchedulerOutput}
    {mo : ModelRunnerOutput} (hstep : ∀ u u' id rest, P (u.view (id :: rest)) (id :: rest) →
      updateOne p out mo u id = .ok u' → P (u'.view rest) rest) :
    ∀ {rest : List ReqId} {u u' : Updating}, P (u.view rest) rest →
      rest.foldlM (updateOne p out mo) u = .ok u' → P (u'.view []) []
  | [], u, u', hp, h => by cases h; exact hp
  | id :: rest, u, u', hp, h => by
    rw [List.foldlM_cons, bind_eq_ok] at h
    obtain ⟨u₁, h₁, h⟩ := h
    exact update_invariant hstep (hstep u u₁ id rest hp h₁) h

/-- How `finish_requests` of one id has run. -/
theorem finishOne_eq_ok {s s' : Scheduler} (hw : s.WF p) {status : RequestStatus} {id : ReqId}
    (h : finishOne p status s id = .ok s') :
    (s.requests.get? id = none ∧ s' = s) ∨ ∃ r, Drop p s s' id r := by
  unfold finishOne at h
  cases hr : s.requests.get? id with
  | none =>
    rw [hr] at h
    cases h
    exact Or.inl ⟨rfl, rfl⟩
  | some r =>
    simp only [hr, bind_eq_ok] at h
    obtain ⟨s₁, h1, h⟩ := h
    have hid := hw.requestId id r hr
    obtain ⟨-, hfree, hcached, hs⟩ := freeRequest_eq_ok h
    simp only [hid] at hcached hs
    have hs₁ : s₁ = { s with running := s.running.erase id, waiting := s.waiting.erase id } := by
      by_cases hst : r.status = .running
      · rw [if_pos hst] at h1
        split_ifs at h1 with hm
        cases h1
        rw [List.erase_of_not_mem (hw.not_mem_waiting hm)]
      · rw [if_neg hst] at h1
        split_ifs at h1 with hm
        cases h1
        rw [List.erase_of_not_mem (fun hr => hw.not_mem_waiting hr hm)]
    subst hs₁
    refine Or.inr ⟨r, hr, hfree, hcached, ?_⟩
    rw [Dict.pop_set_self] at hs
    exact hs

/-! ## Agreement -/

section Agreement

variable {s s' : Scheduler} {id : ReqId} {r r' : Request}

theorem WF.advance (h : s.WF p) {g : ℕ} {ts : List TokenId} (hid : id ∈ s.running)
    (hr : s.requests.get? id = some r) (ha : Advance s s' id r r' g ts)
    (hst : r'.status = r.status) : s'.WF p := by
  have hrid := ha.requestId.trans (h.requestId id r hr)
  have hnw := h.not_mem_waiting hid
  rw [ha.sched]
  refine ⟨?_, ?_, h.nodup, ?_, ?_, h.running_le⟩
  · intro id' r₁ hg
    rw [Dict.get?_set] at hg
    split_ifs at hg with he
    · cases hg; rw [he]; exact hrid
    · exact h.requestId id' r₁ hg
  · intro id'
    rw [Dict.mem_keys_set, ← h.known id']
    exact ⟨fun hk => hk.elim (fun e => e ▸ Dict.mem_keys_of_get? hr) fun h' => h', Or.inr⟩
  · intro id' r₁ hid' hg
    rw [Dict.get?_set] at hg
    split_ifs at hg with he
    · cases hg; rw [hst]; exact h.running id r hid hr
    · exact h.running id' r₁ hid' hg
  · intro id' r₁ hid' hg
    rw [Dict.get?_set_ne _ (by rintro rfl; exact hnw hid')] at hg
    exact h.waiting id' r₁ hid' hg

theorem WF.mem_erase (h : s.WF p) (id id' : ReqId) :
    (id' ∈ s.running.erase id ↔ id' ≠ id ∧ id' ∈ s.running) ∧
      (id' ∈ s.waiting.erase id ↔ id' ≠ id ∧ id' ∈ s.waiting) :=
  ⟨h.running_nodup.mem_erase_iff, h.waiting_nodup.mem_erase_iff⟩

theorem WF.drop (h : s.WF p) (hd : Drop p s s' id r) : s'.WF p := by
  have hm := h.mem_erase id
  rw [hd.sched]
  refine ⟨?_, ?_, ?_, ?_, ?_, ?_⟩
  · intro id' r₁ hg
    rw [Dict.get?_pop] at hg
    split_ifs at hg
    exact h.requestId id' r₁ hg
  · intro id'
    rw [Dict.mem_keys_pop, (hm id').1, (hm id').2, h.known id']
    tauto
  · exact h.nodup.sublist ((List.erase_sublist).append List.erase_sublist)
  · intro id' r₁ hid' hg
    rw [Dict.get?_pop_ne _ ((hm id').1.mp hid').1] at hg
    exact h.running id' r₁ ((hm id').1.mp hid').2 hg
  · intro id' r₁ hid' hg
    rw [Dict.get?_pop_ne _ ((hm id').2.mp hid').1] at hg
    exact h.waiting id' r₁ ((hm id').2.mp hid').2 hg
  · have := h.running_le
    exact Nat.le_trans (List.erase_sublist).length_le this

theorem WF.addRequest (h : s.WF p) (hid : r.requestId ∉ s.requests.keys) (hnew : r.IsNew) :
    (s.addRequest r).WF p := by
  have hout : r.requestId ∉ s.running ∧ r.requestId ∉ s.waiting := by
    rw [h.known, not_or] at hid
    exact hid
  refine ⟨?_, ?_, ?_, ?_, ?_, h.running_le⟩
  · intro id' r₁ hg
    change (s.requests.set r.requestId r).get? id' = some r₁ at hg
    rw [Dict.get?_set] at hg
    split_ifs at hg with he
    · cases hg; exact he.symm
    · exact h.requestId id' r₁ hg
  · intro id'
    change id' ∈ (s.requests.set r.requestId r).keys ↔
      id' ∈ s.running ∨ id' ∈ s.waiting ++ [r.requestId]
    rw [Dict.mem_keys_set, h.known, List.mem_append, List.mem_singleton]
    tauto
  · change (s.running ++ (s.waiting ++ [r.requestId])).Nodup
    rw [← List.append_assoc, ← List.concat_eq_append]
    exact h.nodup.concat (by rw [List.mem_append, not_or]; exact hout)
  · intro id' r₁ hid' hg
    change (s.requests.set r.requestId r).get? id' = some r₁ at hg
    rw [Dict.get?_set_ne _ (by rintro rfl; exact hout.1 hid')] at hg
    exact h.running id' r₁ hid' hg
  · intro id' r₁ hid' hg
    change (s.requests.set r.requestId r).get? id' = some r₁ at hg
    change id' ∈ s.waiting ++ [r.requestId] at hid'
    rw [Dict.get?_set] at hg
    split_ifs at hg with he
    · cases hg
      exact ⟨Or.inl hnew.1, hnew.2.2.2.1⟩
    · rw [List.mem_append, List.mem_singleton] at hid'
      exact h.waiting id' r₁ (hid'.resolve_right he) hg

end Agreement

end Scheduler

end SpaceServe
