import Mathlib.Data.List.Dedup
import SpaceServe.Scheduler.Safety

/-!
# The order of the requests

The requests in `running`, followed by those in `waiting`, stand in the order in which they were
added: a preempted request goes from the end of `running` to the front of `waiting`, and an admitted
one the other way.

* `OrderedRun`: a run with the ids that were added;
* `Ordered`: the order; `Move.order`, `Ordered.drop`, `Ordered.step`;
* **`first_come_first_served`**.
-/

set_option autoImplicit false

namespace SpaceServe

open Py

/-! ## The order -/

/-- The ids that were added, after a call. -/
def SchedulerEvent.addTo (added : List ReqId) : SchedulerEvent → List ReqId
  | .addRequest r => added ++ [r.requestId]
  | _ => added

/-- The unfinished requests stand in the order in which they were last added. -/
def Ordered (added : List ReqId) (s : Scheduler) : Prop :=
  s.running ++ s.waiting = added.dedup.filter fun id => decide (id ∈ s.requests.keys)

section

variable {p : SchedulerParams} {available : ReqId → ℕ → Bool}

/-- A new id goes to the end. -/
theorem filter_dedup_append {α : Type} [DecidableEq α] {a : α} {P : α → Bool} (hP : P a = false) :
    ∀ l : List α, (l ++ [a]).dedup.filter (fun b => decide (b = a) || P b) =
      l.dedup.filter P ++ [a]
  | [] => by simp
  | b :: l => by
    have ih := filter_dedup_append hP l
    by_cases hmem : b ∈ l
    · rw [List.cons_append, List.dedup_cons_of_mem (List.mem_append_left _ hmem), ih,
        List.dedup_cons_of_mem hmem]
    · by_cases hba : b = a
      · subst hba
        rw [List.cons_append, List.dedup_cons_of_mem (by simp), ih, List.dedup_cons_of_notMem hmem,
          List.filter_cons_of_neg (by simp [hP])]
      · have hnot : b ∉ l ++ [a] := by simp [hmem, hba]
        rw [List.cons_append, List.dedup_cons_of_notMem hnot, List.dedup_cons_of_notMem hmem]
        by_cases hb : P b = true
        · rw [List.filter_cons_of_pos (by simp [hb]), List.filter_cons_of_pos hb, ih,
            List.cons_append]
        · rw [List.filter_cons_of_neg (by simp [hb, hba]), List.filter_cons_of_neg hb, ih]

/-- **A move leaves the order alone.** -/
theorem Move.order {st st' : Scheduling} (hm : Move p available st st') :
    st'.sched.running ++ st'.sched.waiting = st.sched.running ++ st.sched.waiting := by
  cases hm with
  | reserve => rfl
  | preempt hrun hid hreq hfree =>
    simp only [Scheduling.preempt, hrun, List.dropLast_concat, List.append_assoc,
      List.singleton_append]
  | grant hid hns hreq hpos htry hn halloc hst =>
    obtain ⟨ecm, -, rfl⟩ := scheduleRunning_eq_ok hst
    rfl
  | lookup hq hc =>
    obtain ⟨request₀, bs, -, -, rfl, -⟩ := cachedPrefix_eq_ok hc
    rfl
  | enter hq hpre hroom hc hpos htry hn halloc hst =>
    obtain ⟨request₀, bs, -, -, rfl, -⟩ := cachedPrefix_eq_ok hc
    obtain ⟨-, ecm, -, rfl⟩ := scheduleWaiting_eq_ok hst
    change (st.sched.running ++ [_]) ++ st.sched.waiting.tail = st.sched.running ++ st.sched.waiting
    rw [hq, List.tail_cons, List.append_assoc, List.singleton_append]

namespace Scheduler

variable {s s' : Scheduler} {added : List ReqId}

theorem schedule_order (hw : s.WF p) {out : SchedulerOutput}
    (h : s.schedule p available = .ok (out, s')) :
    s'.running ++ s'.waiting = s.running ++ s.waiting := by
  obtain ⟨_, st, _, _, _, -, -, hm, -, rfl, -⟩ := schedule_eq_ok hw h
  refine hm.invariant (P := fun st => st.sched.running ++ st.sched.waiting =
    s.running ++ s.waiting) ?_ rfl
  exact fun st₁ st₂ h₁ hm₁ => hm₁.order.trans h₁

end Scheduler

/-- The order only depends on the queues and the ids. -/
theorem Ordered.congr {s s' : Scheduler} {added : List ReqId} (h : Ordered added s)
    (hq : s'.running ++ s'.waiting = s.running ++ s.waiting)
    (hk : ∀ id, id ∈ s'.requests.keys ↔ id ∈ s.requests.keys) : Ordered added s' := by
  rw [Ordered, hq, h]
  exact List.filter_congr fun id _ => decide_eq_decide.mpr (hk id).symm

theorem Ordered.drop {s s' : Scheduler} {added : List ReqId} {id : ReqId} {r : Request}
    (hw : s.WF p) (h : Ordered added s) (hd : Scheduler.Drop p s s' id r) : Ordered added s' := by
  have hq : s'.running ++ s'.waiting =
      (s.running ++ s.waiting).filter fun id' => decide (id' ≠ id) := by
    rw [hd.sched, List.filter_append, hw.running_nodup.erase_eq_filter,
      hw.waiting_nodup.erase_eq_filter]
    simp [bne, BEq.beq]
  have hk : ∀ id', id' ∈ s'.requests.keys ↔ id' ≠ id ∧ id' ∈ s.requests.keys := by
    rw [hd.sched]
    exact fun id' => Dict.mem_keys_pop _ _ _
  rw [Ordered, hq, h, List.filter_filter]
  refine List.filter_congr fun id' _ => ?_
  rw [← Bool.decide_and]
  exact decide_eq_decide.mpr (hk id').symm

theorem Ordered.addRequest {s : Scheduler} {added : List ReqId} {r : Request}
    (h : Ordered added s) (hid : r.requestId ∉ s.requests.keys) :
    Ordered (added ++ [r.requestId]) (s.addRequest r) := by
  have hadd := filter_dedup_append (P := fun id => decide (id ∈ s.requests.keys))
    (decide_eq_false hid) added
  rw [Ordered]
  change s.running ++ (s.waiting ++ [r.requestId]) = _
  rw [← List.append_assoc, h, ← hadd]
  refine List.filter_congr fun id _ => ?_
  rw [← Bool.decide_or]
  exact decide_eq_decide.mpr (Dict.mem_keys_set _ _ _ _).symm

/-- One round of the loop of `update_from_output`. -/
theorem Ordered.updateOne {added : List ReqId} {out : SchedulerOutput} {mo : ModelRunnerOutput}
    {u u' : Scheduler.Updating} {id : ReqId} {rest : List ReqId}
    (hw : (u.view (id :: rest)).WF p) (ho : Ordered added (u.view (id :: rest)))
    (h : Scheduler.updateOne p out mo u id = .ok u') : Ordered added (u'.view rest) := by
  obtain ⟨-, hview⟩ | ⟨-, r, r₁, s₁, ts, hr, hrel, hadv, hcase⟩ := Scheduler.updateOne_view hw h
  · rw [hview]
    exact ho
  · obtain ⟨hs, -⟩ | hdrop := hcase
    · rw [hs, hadv.sched]
      refine ho.congr rfl fun id' => ?_
      rw [Dict.mem_keys_set]
      have hkey : id ∈ (u.view (id :: rest)).requests.keys := Dict.mem_keys_of_get? hr
      exact ⟨fun hk => hk.elim (fun e => e ▸ hkey) fun hk => hk, Or.inr⟩
    · have hd := Scheduler.Drop.of_advance (s := u.view (id :: rest)) hr hadv hdrop
      refine Ordered.drop (hw.setEcm _) ?_ hd
      exact ho.congr rfl fun _ => Iff.rfl

/-- **Every call keeps the order.** -/
theorem Ordered.step {σ σ' : SchedulerRun} {added : List ReqId} {e : SchedulerEvent}
    (hw : σ.sched.WF p) (ho : Ordered added σ.sched) (hf : σ.Fresh e)
    (h : SchedulerRun.step p σ e = .ok σ') :
    Ordered (e.addTo added) σ'.sched := by
  obtain ⟨r, rfl, -, hs⟩ | ⟨ids, status, rfl, -, hs⟩ | ⟨available, out, rfl, -, hs⟩ |
    ⟨mo, rfl, hs⟩ | ⟨rfl, -, hs⟩ := SchedulerRun.step_cases h
  · rw [hs]
    exact ho.addRequest hf.2
  · unfold Scheduler.finishRequests at hs
    rw [bind_eq_ok] at hs
    obtain ⟨_, -, hs⟩ := hs
    refine (foldlM_invariant (P := fun s : Scheduler => s.WF p ∧ Ordered added s) ?_ ⟨hw, ho⟩
      hs).2
    rintro s₁ id s₂ - ⟨hw₁, ho₁⟩ h₂
    obtain ⟨-, rfl⟩ | ⟨r, hd⟩ := Scheduler.finishOne_eq_ok hw₁ h₂
    · exact ⟨hw₁, ho₁⟩
    · exact ⟨hw₁.drop hd, ho₁.drop hw₁ hd⟩
  · exact ho.congr (Scheduler.schedule_order hw hs) (Scheduler.schedule_requests hw hs).1
  · obtain rfl | ⟨out, outputs, -, -, hs⟩ := hs
    · exact ho
    · obtain ⟨u, hu, hs⟩ := Scheduler.updateFromOutput_eq_ok hs
      rw [hs]
      have h₀ : Scheduler.WF p (Scheduler.Updating.view ⟨σ.sched, [], []⟩ σ.sched.running) ∧
        Ordered added (Scheduler.Updating.view ⟨σ.sched, [], []⟩ σ.sched.running) := ⟨hw, ho⟩
      refine (Scheduler.update_invariant (P := fun v _ => v.WF p ∧ Ordered added v) ?_ h₀ hu).2
      rintro u₁ u₂ id rest ⟨hw₁, ho₁⟩ h₂
      exact ⟨(Scheduler.updateOne_onward hw₁ h₂).1, ho₁.updateOne hw₁ h₂⟩
  · rw [hs]
    exact ho

/-- A run of a scheduler with the ids that were added, in order. -/
structure OrderedRun where
  run : SchedulerRun
  added : List ReqId

namespace OrderedRun

variable (p)

/-- One call. -/
def step (σ : OrderedRun) (e : SchedulerEvent) : Except Exn OrderedRun := do
  let run ← σ.run.step p e
  .ok { run := run
        added := e.addTo σ.added }

/-- The states of the runs. -/
def Run : OrderedRun → Prop :=
  Reachable (fun σ e => step p σ e) (fun σ e => σ.run.Fresh e) ⟨.init p, []⟩

variable {p}

/-- **First come, first served.** In every state of a run `running ++ waiting` are the unfinished
requests in the order in which they were added, with their statuses, and `schedule` keeps it. -/
theorem first_come_first_served {σ : OrderedRun} (h : Run p σ) :
    σ.run.sched.running ++ σ.run.sched.waiting =
      σ.added.dedup.filter (fun id => decide (id ∈ σ.run.sched.requests.keys)) ∧
    (σ.run.sched.running ++ σ.run.sched.waiting).Nodup ∧
    (∀ id, id ∈ σ.run.sched.running ++ σ.run.sched.waiting ↔ id ∈ σ.run.sched.requests.keys) ∧
    (∀ id r, σ.run.sched.requests.get? id = some r →
      (r.status = .running ↔ id ∈ σ.run.sched.running) ∧
      (r.status = .waiting ∨ r.status = .preempted ↔ id ∈ σ.run.sched.waiting)) ∧
    ∀ available out s', σ.run.sched.schedule p available = .ok (out, s') →
      s'.running ++ s'.waiting = σ.run.sched.running ++ σ.run.sched.waiting := by
  have hinv : σ.run.sched.WF p ∧ Ordered σ.added σ.run.sched := by
    refine h.invariant (P := fun σ => σ.run.sched.WF p ∧ Ordered σ.added σ.run.sched) ?_ ?_
    · exact ⟨SchedulerRun.wf_init p, rfl⟩
    · rintro σ e σ' ⟨hw, ho⟩ hf hs
      simp only [step, bind_eq_ok] at hs
      obtain ⟨run, hrun, hs⟩ := hs
      cases hs
      exact ⟨SchedulerRun.wf_step hw hf hrun, ho.step hw hf hrun⟩
  obtain ⟨hw, ho⟩ := hinv
  refine ⟨ho, hw.nodup, fun id => ?_, fun id r hr => ?_, fun available out s' hs => ?_⟩
  · rw [hw.known, List.mem_append]
  · obtain hid | hid := (hw.known id).mp (Dict.mem_keys_of_get? hr)
    · have hst := hw.running id r hid hr
      simp [hst, hid, hw.not_mem_waiting hid]
    · obtain ⟨hst, -⟩ := hw.waiting id r hid hr
      have hnot : id ∉ σ.run.sched.running := fun hrun => hw.not_mem_waiting hrun hid
      obtain hst | hst := hst <;> simp [hst, hid, hnot]
  · exact Scheduler.schedule_order hw hs

open SchedulerRun (smallParams) in
/-- The last request is preempted: it needs a block. -/
theorem first_come_first_served_preempted : ∃ σ, Run smallParams σ ∧ σ.added = ["b", "a", "c"] ∧
    σ.run.sched.running = ["b"] ∧ σ.run.sched.waiting = ["a", "c"] ∧
    σ.run.sched.running ++ σ.run.sched.waiting =
      σ.added.dedup.filter fun id => decide (id ∈ σ.run.sched.requests.keys) := by
  obtain ⟨σ, hreach, h1, h2, h3⟩ := exists_reachable (fun σ e => step smallParams σ e)
    (fun σ e => σ.run.Fresh e) ⟨.init smallParams, []⟩
    [.addRequest (.ofPrompt "b" [1, 2, 3] []), .addRequest (.ofPrompt "a" [5, 6, 7, 8] []),
      .addRequest (.ofPrompt "c" [8] []), .schedule fun _ _ => false,
      .updateFromOutput ⟨Dict.empty.set "b" 0, [9]⟩, .schedule fun _ _ => false,
      .updateFromOutput ⟨(Dict.empty.set "b" 0).set "a" 1, [9, 9]⟩, .schedule fun _ _ => false,
      .updateFromOutput ⟨(Dict.empty.set "b" 0).set "a" 1, [9, 9]⟩, .schedule fun _ _ => false]
    (fun σ => σ.added = ["b", "a", "c"] ∧ σ.run.sched.running = ["b"] ∧
      σ.run.sched.waiting = ["a", "c"]) (by decide +kernel)
  exact ⟨σ, hreach, h1, h2, h3, (first_come_first_served hreach).1⟩

end OrderedRun

end

end SpaceServe
