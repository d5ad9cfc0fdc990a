import SpaceServe.Scheduler.Loops
import SpaceServe.Scheduler.Update

/-!
# Notices for the worker

The scheduler collects the ids of finished requests and the encoder inputs it has released, and
hands both over with the next output of `schedule`. Here no agreement of the queues is assumed.

* `Scheduling.notices`: what is collected; nothing inside `schedule` changes it;
* **`schedule_notices`**: `schedule` hands it over;
* `finishRequests_notices`: aborts only add ids.
-/

set_option autoImplicit false

namespace SpaceServe

open Py

variable {p : SchedulerParams} {available : ReqId → ℕ → Bool}

/-- The finished ids and the released inputs that are waiting to be handed over. -/
def Scheduler.notices (s : Scheduler) : List ReqId × List (ReqId × ℕ) :=
  (s.finishedReqIds, s.encoderCacheManager.freed)

theorem record_notices {st st' : Scheduling} {request : Request} {ids : List ℕ} {n : ℕ}
    {inputs : List ℕ} {eb : ℤ} (h : st.record request ids n inputs eb = .ok st') :
    st'.sched.notices = st.sched.notices := by
  obtain ⟨ecm, hf, rfl⟩ := record_eq_ok h
  exact Prod.ext rfl (EncoderCacheManager.foldlM_allocate_freed hf).1

theorem allocLoop_notices {id : ReqId} {n : ℕ} : ∀ {fuel : ℕ} {st st' : Scheduling}
    {res : Option (List ℕ)}, Scheduling.allocLoop p id n fuel st = .ok (res, st') →
    st'.sched.notices = st.sched.notices
  | 0, _, _, _, h => by cases h
  | fuel + 1, st, st', res, h => by
    rw [Scheduling.allocLoop, bind_eq_ok] at h
    obtain ⟨request, -, h⟩ := h
    rw [bind_eq_ok] at h
    obtain ⟨⟨res₁, kv, request'⟩, -, h⟩ := h
    cases res₁ with
    | some new => cases h; rfl
    | none =>
      simp only [bind_eq_ok] at h
      obtain ⟨⟨id', st₂⟩, hp, h⟩ := h
      obtain ⟨_, _, -, -, -, rfl⟩ := preemptLast_eq_ok hp
      split_ifs at h
      · cases h; rfl
      · have ih := allocLoop_notices h
        exact ih

theorem tryRunning_notices {st st' : Scheduling} {id : ReqId} {inputs : List ℕ} {n eb : ℤ}
    {can : Bool} (h : st.tryRunning p id inputs n eb = .ok (can, st')) :
    st'.sched.notices = st.sched.notices := by
  unfold Scheduling.tryRunning at h
  rw [bind_eq_ok] at h
  obtain ⟨⟨res, st₁⟩, h₁, h⟩ := h
  cases res with
  | none => cases h; exact allocLoop_notices h₁
  | some new =>
    simp only [bind_eq_ok] at h
    obtain ⟨st₂, h₂, h⟩ := h
    cases h
    unfold Scheduling.scheduleRunning at h₂
    rw [bind_eq_ok] at h₂
    obtain ⟨_, -, h₂⟩ := h₂
    rw [record_notices h₂, ← allocLoop_notices h₁]
    rfl

theorem runningLoop_notices : ∀ {fuel i : ℕ} {st st' : Scheduling},
    Scheduling.runningLoop p available fuel i st = .ok st' →
    st'.sched.notices = st.sched.notices := by
  intro fuel
  induction fuel with
  | zero =>
    intro i st st' h
    unfold Scheduling.runningLoop at h
    split at h
    · cases h; rfl
    · split_ifs at h
      cases h; rfl
  | succ fuel ih =>
    intro i st st' h
    unfold Scheduling.runningLoop at h
    split at h
    · cases h; rfl
    · split_ifs at h
      · cases h; rfl
      simp only [bind_eq_ok] at h
      obtain ⟨request, -, _, -, ⟨inputs, n, eb⟩, -, h⟩ := h
      by_cases hn : n = 0
      · rw [if_pos hn] at h
        exact ih h
      · rw [if_neg hn, bind_eq_ok] at h
        obtain ⟨⟨can, st₁⟩, hr, h⟩ := h
        cases can with
        | false => cases h; exact tryRunning_notices hr
        | true => exact (ih h).trans (tryRunning_notices hr)

theorem waitingLoop_notices : ∀ {w : List ReqId} {st st' : Scheduling},
    Scheduling.waitingLoop p available w st = .ok st' → st'.sched.notices = st.sched.notices
  | [], st, st', h => by cases h; rfl
  | id :: rest, st, st', h => by
    rw [Scheduling.waitingLoop] at h
    by_cases hb : st.tokenBudget ≤ 0 ∨ st.sched.running.length = p.maxNumRunningReqs
    · rw [if_pos hb] at h
      cases h; rfl
    rw [if_neg hb] at h
    simp only [bind_eq_ok] at h
    obtain ⟨⟨computed, nc, request, st₁⟩, hc, _, -, ⟨inputs, n, eb⟩, -, h⟩ := h
    obtain ⟨_, _, -, -, rfl, -⟩ := cachedPrefix_eq_ok hc
    by_cases hn : n = 0
    · rw [if_pos hn] at h
      cases h; rfl
    rw [if_neg hn, bind_eq_ok] at h
    obtain ⟨⟨res, kv, request'⟩, -, h⟩ := h
    cases res with
    | none => cases h; rfl
    | some new =>
      simp only [bind_eq_ok] at h
      obtain ⟨st₂, hst, h⟩ := h
      obtain ⟨-, ecm, hf, rfl⟩ := scheduleWaiting_eq_ok hst
      exact (waitingLoop_notices h).trans (Prod.ext rfl (EncoderCacheManager.foldlM_allocate_freed hf).1)

theorem loops_notices {s : Scheduler} {st : Scheduling}
    (h : Scheduling.loops p available s = .ok st) : st.sched.notices = s.notices := by
  unfold Scheduling.loops at h
  rw [bind_eq_ok] at h
  obtain ⟨st₁, h₁, h⟩ := h
  have hrun : st₁.sched.notices = s.notices := runningLoop_notices h₁
  split_ifs at h
  · exact (waitingLoop_notices h).trans hrun
  · cases h; exact hrun

/-- **`schedule` hands over what was collected.** -/
theorem schedule_notices {s s' : Scheduler} {out : SchedulerOutput}
    (h : s.schedule p available = .ok (out, s')) :
    (out.finishedReqIds, out.freeEncoderInputIds) = s.notices ∧ s'.notices = ([], []) := by
  unfold Scheduler.schedule at h
  simp only [bind_eq_ok] at h
  obtain ⟨st₀, hl, _, -, ⟨k, st⟩, hc, ho⟩ := h
  have hst : st.sched.notices = s.notices := by
    rw [← loops_notices hl]
    unfold Scheduling.commonPrefix at hc
    split at hc
    · cases hc; rfl
    · simp only [bind_eq_ok] at hc
      obtain ⟨_, -, ⟨_, _⟩, -, hc⟩ := hc
      cases hc; rfl
  unfold Scheduling.output at ho
  simp only [bind_eq_ok] at ho
  obtain ⟨_, -, _, -, _, -, ho⟩ := ho
  cases ho
  exact ⟨hst, rfl⟩

/-- Aborts only add ids. -/
theorem finishOne_notices {status : RequestStatus} {s s' : Scheduler} {id : ReqId}
    (h : Scheduler.finishOne p status s id = .ok s') :
    (∃ l, s'.finishedReqIds = s.finishedReqIds ++ l) ∧
      s'.encoderCacheManager.freed = s.encoderCacheManager.freed := by
  unfold Scheduler.finishOne at h
  split at h
  · cases h
    exact ⟨⟨[], (List.append_nil _).symm⟩, rfl⟩
  · rename_i r hr
    rw [bind_eq_ok] at h
    obtain ⟨s₁, h₁, h⟩ := h
    obtain ⟨-, -, -, hs⟩ := Scheduler.freeRequest_eq_ok h
    have hs₁ : s₁.notices = s.notices := by
      split_ifs at h₁ <;> cases h₁ <;> rfl
    obtain ⟨hfin, hfreed⟩ := Prod.mk.injEq .. ▸ hs₁
    rw [hs]
    refine ⟨?_, hfreed⟩
    simp only
    split_ifs
    · exact ⟨[], by rw [List.append_nil]; exact hfin⟩
    · exact ⟨_, congrArg (· ++ _) hfin⟩

theorem finishRequests_notices {status : RequestStatus} {s s' : Scheduler} {ids : List ReqId}
    (h : s.finishRequests p ids status = .ok s') :
    (∃ l, s'.finishedReqIds = s.finishedReqIds ++ l) ∧
      s'.encoderCacheManager.freed = s.encoderCacheManager.freed := by
  unfold Scheduler.finishRequests at h
  rw [bind_eq_ok] at h
  obtain ⟨_, -, h⟩ := h
  refine foldlM_invariant (P := fun s' => (∃ l, s'.finishedReqIds = s.finishedReqIds ++ l) ∧
    s'.encoderCacheManager.freed = s.encoderCacheManager.freed) ?_
    ⟨⟨[], (List.append_nil _).symm⟩, rfl⟩ h
  rintro s₁ id s₂ - ⟨⟨l, hl⟩, hf⟩ h₂
  obtain ⟨⟨l', hl'⟩, hf'⟩ := finishOne_notices h₂
  exact ⟨⟨l ++ l', by rw [hl', hl, List.append_assoc]⟩, hf'.trans hf⟩

end SpaceServe
