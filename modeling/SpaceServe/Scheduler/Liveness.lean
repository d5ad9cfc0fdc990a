import SpaceServe.Engine.Model
import SpaceServe.Scheduler.Progress

/-!
# Runs that keep going

What `schedule_progress` asks of a state holds in every run that preempts no request with inputs in
the encoder cache: then a running request holds inputs ahead of its tokens, and a waiting one holds
none. A preempted request keeps its inputs: it may then wait for slots that it holds itself, forever.

* `mem_needed`, `HoldsAhead.allocate`, `releaseInputs_cached`: which inputs a request holds;
* `HoldersInv`, `Moves.holdersInv`, `HoldersInv.updateFromOutput`: the invariant;
* `Admitted`, `AdmittingRun`: runs on requests that passed the checks of the front end;
* **`text_progress`**: runs on text-only requests;
* `SparingRun`, **`no_deadlock`**: runs that preempt no holder;
* `Stuck`, `Stuck.schedule`, **`deadlock`**: a run that does not keep going.
-/

set_option autoImplicit false

namespace SpaceServe

open Py KVCacheManager

/-! ## Which inputs a request holds -/

section Holds

variable {m m' : EncoderCacheManager} {r r' : Request} {nc : ℕ} {n : ℤ}

/-- The needed inputs of a request. -/
theorem mem_needed {i : ℕ} : i ∈ m.needed r nc n ↔ ∃ pos, r.mmPositions[i]? = some pos ∧
    (pos.offset : ℤ) < nc + n ∧ nc < pos.offset + pos.length ∧
    i ∉ m.getCachedInputIds r.requestId := by
  unfold EncoderCacheManager.needed EncoderCacheManager.neededFrom
  simp only [List.mem_map, List.mem_filter, decide_eq_true_eq, Prod.exists, exists_eq_right,
    List.mk_mem_zipIdx_iff_getElem?]

/-- They are in order. -/
theorem needed_pairwise : (m.needed r nc n).Pairwise (· < ·) := by
  have hsub : (m.needed r nc n).Sublist ((r.mmPositions.zipIdx 0).map Prod.snd) :=
    (List.filter_sublist).map Prod.snd
  refine List.Pairwise.sublist hsub ?_
  rw [List.zipIdx_map_snd]
  exact List.pairwise_lt_range'

/-- A needed input before a scheduled one is scheduled. -/
theorem mem_of_prefix_needed {inputs : List ℕ} (hpre : inputs <+: m.needed r nc n) {i j : ℕ}
    (hi : i ∈ inputs) (hj : j ∈ m.needed r nc n) (hlt : j < i) : j ∈ inputs := by
  obtain ⟨rest, hrest⟩ := hpre
  rw [← hrest] at hj
  obtain hj | hj := List.mem_append.mp hj
  · exact hj
  · have hpair : (m.needed r nc n).Pairwise (· < ·) := needed_pairwise
    rw [← hrest] at hpair
    have := (List.pairwise_append.mp hpair).2.2 i hi j hj
    omega

/-- **The inputs scheduled for a request are ahead**, like those it held. -/
theorem HoldsAhead.allocate (h : HoldsAhead m r nc) (hwell : WellPlaced r.mmPositions)
    {inputs : List ℕ} (hpre : inputs <+: m.needed r nc n)
    (hr' : r'.requestId = r.requestId ∧ r'.mmPositions = r.mmPositions)
    (hf : inputs.foldlM (fun m i => m.allocate r' i) m = .ok m') : HoldsAhead m' r' nc := by
  have hcached : ∀ j, j ∈ m'.getCachedInputIds r'.requestId ↔
      j ∈ inputs ∨ j ∈ m.getCachedInputIds r.requestId := by
    intro j
    rw [(EncoderCacheManager.foldlM_allocate_freed hf).2, hr'.1]
    simp
  intro i hi
  rw [hr'.2]
  obtain hi | hi := (hcached i).mp hi
  · obtain ⟨pos, hpos, hwin, hlt, -⟩ := mem_needed.mp (hpre.subset hi)
    refine ⟨pos, hpos, hlt, fun j pos' hji hpos' hlt' => (hcached j).mpr ?_⟩
    by_cases hj : j ∈ m.getCachedInputIds r.requestId
    · exact Or.inr hj
    · have hle := hwell.le_of_lt hji hpos' hpos
      have hneed : j ∈ m.needed r nc n := mem_needed.mpr ⟨pos', hpos', by omega, hlt', hj⟩
      exact Or.inl (mem_of_prefix_needed hpre hi hneed hji)
  · obtain ⟨pos, hpos, hlt, hbetween⟩ := h i hi
    exact ⟨pos, hpos, hlt, fun j pos' hji hpos' hlt' =>
      (hcached j).mpr (Or.inr (hbetween j pos' hji hpos' hlt'))⟩

/-- The inputs of a request do not depend on those of others, and on its other fields. -/
theorem HoldsAhead.congr (h : HoldsAhead m r nc)
    (hr' : r'.requestId = r.requestId ∧ r'.mmPositions = r.mmPositions)
    (hm : ∀ i, i ∈ m'.getCachedInputIds r.requestId ↔ i ∈ m.getCachedInputIds r.requestId) :
    HoldsAhead m' r' nc := by
  intro i hi
  rw [hr'.1, hm] at hi
  obtain ⟨pos, hpos, hlt, hbetween⟩ := h i hi
  rw [hr'.1, hr'.2]
  exact ⟨pos, hpos, hlt, fun j pos' hji hpos' hlt' =>
    (hm j).mpr (hbetween j pos' hji hpos' hlt')⟩

theorem HoldsAhead.of_nil (h : m.getCachedInputIds r.requestId = []) : HoldsAhead m r nc := by
  intro i hi
  rw [h] at hi
  cases hi

/-- Which inputs are left after those behind were released. -/
theorem releaseLoop_cached : ∀ {l : List ℕ} {m m' : EncoderCacheManager},
    l.foldlM (fun m i => do
      let pos ← ofOption (.indexError "list index out of range") r.mmPositions[i]?
      if pos.offset + pos.length ≤ r.numComputedTokens then m.freeEncoderInput r i
      else .ok m) m = .ok m' →
    ∀ id j, j ∈ m'.getCachedInputIds id ↔ j ∈ m.getCachedInputIds id ∧
      ¬ (id = r.requestId ∧ j ∈ l ∧ ∀ pos, r.mmPositions[j]? = some pos →
        pos.offset + pos.length ≤ r.numComputedTokens)
  | [], _, _, h => by
    cases h
    simp
  | i :: l, m, m', h => by
    rw [List.foldlM_cons, bind_eq_ok] at h
    obtain ⟨m₁, h₁, h⟩ := h
    rw [bind_eq_ok] at h₁
    obtain ⟨pos, hpos, h₁⟩ := h₁
    rw [ofOption_eq_ok] at hpos
    intro id j
    rw [releaseLoop_cached h id j]
    split_ifs at h₁ with hend
    · rw [(EncoderCacheManager.freeEncoderInput_eq_ok m h₁).2, List.mem_cons]
      by_cases hj : j = i
      · subst hj
        have hall : ∀ pos', r.mmPositions[j]? = some pos' →
            pos'.offset + pos'.length ≤ r.numComputedTokens := by
          intro pos' hpos'
          rw [hpos] at hpos'
          cases hpos'
          exact hend
        tauto
      · tauto
    · cases h₁
      rw [List.mem_cons]
      by_cases hj : j = i
      · subst hj
        have hnot : ¬ ∀ pos', r.mmPositions[j]? = some pos' →
            pos'.offset + pos'.length ≤ r.numComputedTokens := fun hc => hend (hc pos hpos)
        tauto
      · tauto

/-- **After an update the inputs that a request holds are ahead of it.** -/
theorem HoldsAhead.release {nc' : ℕ} (h : HoldsAhead m r nc) (hle : nc ≤ nc')
    (hrel : Scheduler.releaseInputs { r with numComputedTokens := nc' } m = .ok m') :
    HoldsAhead m' r nc' ∧ ∀ id, id ≠ r.requestId → ∀ i,
      (i ∈ m'.getCachedInputIds id ↔ i ∈ m.getCachedInputIds id) := by
  have hcached := releaseLoop_cached (r := { r with numComputedTokens := nc' }) hrel
  refine ⟨fun i hi => ?_, fun id hne i => ?_⟩
  · obtain ⟨hi, hnot⟩ := (hcached r.requestId i).mp hi
    obtain ⟨pos, hpos, -, hbetween⟩ := h i hi
    have hlt : nc' < pos.offset + pos.length := by
      by_contra hge
      refine hnot ⟨rfl, hi, fun pos' hpos' => ?_⟩
      have : pos' = pos := Option.some.inj (hpos'.symm.trans hpos)
      subst this
      change pos'.offset + pos'.length ≤ nc'
      omega
    refine ⟨pos, hpos, hlt, fun j pos' hji hpos' hlt' => ?_⟩
    refine (hcached r.requestId j).mpr ⟨hbetween j pos' hji hpos' (by omega), ?_⟩
    rintro ⟨-, -, hc⟩
    have := hc pos' hpos'
    change pos'.offset + pos'.length ≤ nc' at this
    omega
  · rw [hcached id i]
    exact ⟨fun hi => hi.1, fun hi => ⟨hi, fun hc => hne hc.1⟩⟩

end Holds

/-! ## The invariant of the holders -/

/-- Requests hold inputs ahead of their tokens, and only running requests hold inputs. -/
structure HoldersInv (s : Scheduler) : Prop where
  ahead : ∀ id r, s.requests.get? id = some r →
    HoldsAhead s.encoderCacheManager r r.numComputedTokens
  waiting : ∀ id ∈ s.waiting, s.encoderCacheManager.getCachedInputIds id = []

section Holders

variable {p : SchedulerParams} {available : ReqId → ℕ → Bool} {s s' : Scheduler}
  {st st' : Scheduling} {id : ReqId} {r r' : Request} {m' : EncoderCacheManager}

/-- One request changes, with the inputs it holds. -/
theorem HoldersInv.ahead_set (h : HoldersInv s) (hw : s.WF p)
    (hm : ∀ x, x ≠ id → ∀ i, i ∈ m'.getCachedInputIds x ↔
      i ∈ s.encoderCacheManager.getCachedInputIds x)
    (hr' : HoldsAhead m' r' r'.numComputedTokens) {x : ReqId} {rx : Request}
    (hx : (s.requests.set id r').get? x = some rx) : HoldsAhead m' rx rx.numComputedTokens := by
  rw [Dict.get?_set] at hx
  split_ifs at hx with he
  · cases hx
    exact hr'
  · have hid := hw.requestId x rx hx
    exact (h.ahead x rx hx).congr ⟨rfl, rfl⟩ fun i => hm _ (hid ▸ he) i

theorem foldlM_allocate_other {inputs : List ℕ} {m : EncoderCacheManager} (hid : r.requestId = id)
    (hf : inputs.foldlM (fun m i => m.allocate r i) m = .ok m') {x : ReqId} (hx : x ≠ id) (i : ℕ) :
    i ∈ m'.getCachedInputIds x ↔ i ∈ m.getCachedInputIds x := by
  rw [(EncoderCacheManager.foldlM_allocate_freed hf).2, hid]
  simp [hx]

theorem eq_nil_of_mem_iff {l l' : List ℕ} (h : ∀ i, i ∈ l' ↔ i ∈ l) (hl : l = []) : l' = [] := by
  rw [List.eq_nil_iff_forall_not_mem]
  intro i hi
  rw [h, hl] at hi
  cases hi

/-- **Moves that preempt no holder keep the invariant**, and inputs are only allocated for requests
that get tokens. -/
theorem Move.holdersInv (hw : st.WF p)
    (hwell : ∀ id r, st.sched.requests.get? id = some r → WellPlaced r.mmPositions)
    (h : HoldersInv st.sched) (hm : Move p available st st')
    (hpre : ∀ id ∈ st'.preemptedReqs, st.sched.encoderCacheManager.getCachedInputIds id = []) :
    HoldersInv st'.sched ∧ ∀ x ∉ st'.numScheduledTokens.keys, ∀ i,
      (i ∈ st'.sched.encoderCacheManager.getCachedInputIds x ↔
        i ∈ st.sched.encoderCacheManager.getCachedInputIds x) := by
  cases hm with
  | reserve => exact ⟨⟨h.ahead, h.waiting⟩, fun _ _ _ => Iff.rfl⟩
  | @preempt rest id request kv hrun hns hr hfree =>
    have hnil : st.sched.encoderCacheManager.getCachedInputIds id = [] :=
      hpre id (by simp [Scheduling.preempt])
    have hid := hw.sched.requestId id request hr
    refine ⟨⟨fun x rx hx => ?_, fun x hx => ?_⟩, fun _ _ _ => Iff.rfl⟩
    · exact h.ahead_set hw.sched (fun _ _ _ => Iff.rfl) (HoldsAhead.of_nil (hid ▸ hnil)) hx
    · obtain rfl | hx := List.mem_cons.mp hx
      · exact hnil
      · exact h.waiting x hx
  | @grant _ id request request' inputs n eb new kv hid hns hr hpos htry hn halloc hst =>
    obtain ⟨ecm, hf, rfl⟩ := scheduleRunning_eq_ok hst
    obtain ⟨hs, rfl⟩ := KVCacheManager.allocateSlots_request halloc
    have hrid := hw.sched.requestId id request hr
    have hother : ∀ x, x ≠ id → ∀ i, _ := fun x hx i => foldlM_allocate_other hrid hf hx i
    refine ⟨⟨fun x rx hx => ?_, fun x hx => ?_⟩, fun x hx => ?_⟩
    · refine h.ahead_set hw.sched hother ?_ hx
      exact (h.ahead id request hr).allocate (hwell id request hr)
        (tryScheduleEncoderInputs_needed htry).1 ⟨rfl, rfl⟩ hf
    · have hne : x ≠ id := by
        rintro rfl
        exact hw.sched.not_mem_waiting hid hx
      exact eq_nil_of_mem_iff (hother x hne) (h.waiting x hx)
    · refine hother x ?_
      rintro rfl
      exact hx ((Dict.mem_keys_set _ _ _ _).mpr (Or.inl hrid.symm))
  | @lookup _ id rest computed nc request hwait hc =>
    obtain ⟨r₀, _, hr₀, -, rfl, -, -, hs, rfl⟩ := cachedPrefix_eq_ok hc
    refine ⟨⟨fun x rx hx => ?_, h.waiting⟩, fun _ _ _ => Iff.rfl⟩
    refine h.ahead_set hw.sched (fun _ _ _ => Iff.rfl) ?_ hx
    exact (h.ahead id r₀ hr₀).congr ⟨rfl, rfl⟩ fun _ => Iff.rfl
  | @enter st₁ _ id rest computed nc request request' inputs n eb new kv hwait hpre' hroom hc
      hpos htry hn halloc hst =>
    obtain ⟨r₀, _, hr₀, -, rfl, -, -, hs₀, rfl⟩ := cachedPrefix_eq_ok hc
    obtain ⟨-, ecm, hf, rfl⟩ := scheduleWaiting_eq_ok hst
    obtain ⟨hs, rfl⟩ := KVCacheManager.allocateSlots_request halloc
    have hrid : r₀.requestId = id := hw.sched.requestId id r₀ hr₀
    have hnil := h.waiting id (by rw [hwait]; exact List.mem_cons_self)
    have hother : ∀ x, x ≠ id → ∀ i, _ := fun x hx i =>
      foldlM_allocate_other hrid hf hx i
    refine ⟨⟨fun x rx hx => ?_, fun x hx => ?_⟩, fun x hx => ?_⟩
    · change ((st.sched.requests.set id _).set id _).get? x = some rx at hx
      rw [Dict.set_set] at hx
      refine h.ahead_set hw.sched hother ?_ hx
      have hpre : inputs <+: st.sched.encoderCacheManager.needed r₀ nc _ :=
        (tryScheduleEncoderInputs_needed htry).1
      exact HoldsAhead.allocate (HoldsAhead.of_nil (hrid.symm ▸ hnil)) (hwell id r₀ hr₀) hpre
        ⟨rfl, rfl⟩ hf
    · change x ∈ st.sched.waiting.tail at hx
      rw [hwait, List.tail_cons] at hx
      have hne : x ≠ id := by
        rintro rfl
        have hnd := hw.sched.waiting_nodup
        rw [hwait] at hnd
        exact (List.nodup_cons.mp hnd).1 hx
      exact eq_nil_of_mem_iff (hother x hne)
        (h.waiting x (by rw [hwait]; exact List.mem_cons_of_mem _ hx))
    · refine hother x ?_
      rintro rfl
      exact hx ((Dict.mem_keys_set _ _ _ _).mpr (Or.inl hrid.symm))

theorem Move.preempted_subset (hm : Move p available st st') :
    ∀ x ∈ st.preemptedReqs, x ∈ st'.preemptedReqs := by
  intro x hx
  cases hm with
  | reserve => exact hx
  | preempt => exact List.mem_append_left _ hx
  | grant _ _ _ _ _ _ _ hst =>
    obtain ⟨ecm, -, rfl⟩ := scheduleRunning_eq_ok hst
    exact hx
  | lookup _ hc =>
    obtain ⟨_, _, -, -, rfl, -⟩ := cachedPrefix_eq_ok hc
    exact hx
  | enter _ _ _ hc _ _ _ _ hst =>
    obtain ⟨_, _, -, -, rfl, -⟩ := cachedPrefix_eq_ok hc
    obtain ⟨-, ecm, -, rfl⟩ := scheduleWaiting_eq_ok hst
    exact hx

/-- **A call of `schedule` that preempts no holder keeps the invariant.** -/
theorem HoldersInv.schedule (hw : s.WF p) (h : HoldersInv s)
    (hwell : ∀ id r, s.requests.get? id = some r → WellPlaced r.mmPositions)
    (hpre : SparesHolders p available s) {out : SchedulerOutput}
    (hs : s.schedule p available = .ok (out, s')) : HoldersInv s' := by
  obtain ⟨st₀, st, _, _, _, hl, heq, -, -, rfl, -⟩ := schedule_eq_ok hw hs
  have hstart := Scheduling.WF.start hw
  have hmoves := loops_moves hw hl
  have hinv := hmoves.invariant (P := fun st₁ => st₁.WF p ∧
    (∀ id r, st₁.sched.requests.get? id = some r → WellPlaced r.mmPositions) ∧
    ((∀ id ∈ st₁.preemptedReqs, s.encoderCacheManager.getCachedInputIds id = []) →
      HoldersInv st₁.sched ∧ ∀ x ∉ st₁.numScheduledTokens.keys, ∀ i,
        (i ∈ st₁.sched.encoderCacheManager.getCachedInputIds x ↔
          i ∈ s.encoderCacheManager.getCachedInputIds x)))
    ?_ ⟨hstart, hwell, fun _ => ⟨h, fun _ _ _ => Iff.rfl⟩⟩
  · obtain ⟨h₀, -⟩ := hinv.2.2 (hpre.preempted hl)
    have hecm : st.sched.encoderCacheManager = st₀.sched.encoderCacheManager := by rw [heq]
    refine ⟨fun id r hr => ?_, fun id hid => ?_⟩
    · rw [show st.sched.requests = st₀.sched.requests by rw [heq]] at hr
      exact (h₀.ahead id r hr).congr ⟨rfl, rfl⟩ fun i => by rw [← hecm]; rfl
    · have hid' : id ∈ st₀.sched.waiting := by
        rw [heq] at hid
        exact hid
      have := h₀.waiting id hid'
      rw [← hecm] at this
      exact this
  · rintro st₁ st₂ ⟨hw₁, hwell₁, h₁⟩ hm
    refine ⟨hm.wf hw₁, fun id r hr => ?_, fun hpre₂ => ?_⟩
    · have hmm := hm.mmPositions id
      rw [hr, Option.map_some] at hmm
      obtain ⟨r₁, hr₁, he⟩ := Option.map_eq_some_iff.mp hmm.symm
      rw [← he]
      exact hwell₁ id r₁ hr₁
    · obtain ⟨hinv₁, hsame₁⟩ := h₁ fun id hid => hpre₂ id (hm.preempted_subset id hid)
      have hkeys := hm.running_or_preempted.2
      have hw₂ := hm.wf hw₁
      obtain ⟨hinv₂, hsame₂⟩ := hm.holdersInv hw₁ hwell₁ hinv₁ fun id hid => by
        refine eq_nil_of_mem_iff (hsame₁ id fun hkey => ?_) (hpre₂ id hid)
        exact hw₂.sched.not_mem_waiting (hw₂.scheduled id (hkeys id hkey)) (hw₂.preempted id hid)
      refine ⟨hinv₂, fun x hx i => ?_⟩
      rw [hsame₂ x hx i]
      exact hsame₁ x (fun hc => hx (hkeys x hc)) i

theorem HoldersInv.drop (h : HoldersInv s) (hd : Scheduler.Drop p s s' id r) : HoldersInv s' := by
  rw [hd.sched]
  refine ⟨fun x rx hx => ?_, fun x hx => ?_⟩
  · change (s.requests.pop id).get? x = some rx at hx
    rw [Dict.get?_pop] at hx
    split_ifs at hx
    exact h.ahead x rx hx
  · exact h.waiting x (List.mem_of_mem_erase hx)

/-- One round of the loop of `update_from_output`. -/
theorem HoldersInv.updateOne {out : SchedulerOutput} {mo : ModelRunnerOutput}
    {u u' : Scheduler.Updating} {rest : List ReqId} (hw : (u.view (id :: rest)).WF p)
    (h : HoldersInv (u.view (id :: rest))) (hu : Scheduler.updateOne p out mo u id = .ok u') :
    HoldersInv (u'.view rest) := by
  have hid : id ∈ (u.view (id :: rest)).running := by simp [Scheduler.Updating.view]
  obtain ⟨-, hview⟩ | ⟨-, r, r₁, s₁, ts, hr, hrel, hadv, hcase⟩ := Scheduler.updateOne_view hw hu
  · rw [hview]
    exact h
  · have hrid : r.requestId = id := hw.requestId id r hr
    obtain ⟨hahead, hother⟩ := (h.ahead id r hr).release (Nat.le_add_right _ _) hrel
    rw [hrid] at hother
    have hwait : ∀ x ∈ (u.view (id :: rest)).waiting,
        s₁.encoderCacheManager.getCachedInputIds x = [] := by
      intro x hx
      have hne : x ≠ id := by
        rintro rfl
        exact hw.not_mem_waiting hid hx
      exact eq_nil_of_mem_iff (hother x hne) (h.waiting x hx)
    have hadv' : ∀ x rx, s₁.requests.get? x = some rx →
        HoldsAhead s₁.encoderCacheManager rx rx.numComputedTokens := by
      intro x rx hx
      rw [hadv.sched] at hx
      refine h.ahead_set hw hother ?_ hx
      rw [hadv.request]
      exact hahead.congr ⟨rfl, rfl⟩ fun _ => Iff.rfl
    have h₁ : HoldersInv s₁ := by
      refine ⟨hadv', fun x hx => hwait x ?_⟩
      rw [hadv.sched] at hx
      exact hx
    obtain ⟨hs, -⟩ | hdrop := hcase
    · rw [hs]
      exact h₁
    · exact h₁.drop hdrop

theorem HoldersInv.updateFromOutput {out : SchedulerOutput} {mo : ModelRunnerOutput}
    {outputs : List EngineCoreOutput} (hw : s.WF p) (h : HoldersInv s)
    (hs : s.updateFromOutput p out mo = .ok (outputs, s')) : HoldersInv s' := by
  obtain ⟨u, hu, rfl⟩ := Scheduler.updateFromOutput_eq_ok hs
  have hstart : Scheduler.WF p (Scheduler.Updating.view ⟨s, [], []⟩ s.running) ∧
      HoldersInv (Scheduler.Updating.view ⟨s, [], []⟩ s.running) := ⟨hw, ⟨h.ahead, h.waiting⟩⟩
  refine (Scheduler.update_invariant (P := fun v _ => v.WF p ∧ HoldersInv v) ?_ hstart hu).2
  rintro u₁ u₂ id rest ⟨hw₁, h₁⟩ h₂
  exact ⟨(Scheduler.updateOne_onward hw₁ h₂).1, h₁.updateOne hw₁ h₂⟩

theorem HoldersInv.finishRequests {ids : List ReqId} {status : RequestStatus} (hw : s.WF p)
    (h : HoldersInv s) (hs : s.finishRequests p ids status = .ok s') : HoldersInv s' := by
  unfold Scheduler.finishRequests at hs
  rw [bind_eq_ok] at hs
  obtain ⟨_, -, hs⟩ := hs
  refine (foldlM_invariant (P := fun v : Scheduler => v.WF p ∧ HoldersInv v) ?_ ⟨hw, h⟩ hs).2
  rintro s₁ id s₂ - ⟨hw₁, h₁⟩ h₂
  obtain ⟨-, rfl⟩ | ⟨r, hd⟩ := Scheduler.finishOne_eq_ok hw₁ h₂
  · exact ⟨hw₁, h₁⟩
  · exact ⟨hw₁.drop hd, h₁.drop hd⟩

theorem HoldersInv.addRequest (h : HoldersInv s) (hs : SlotsInv p s)
    (hid : r.requestId ∉ s.requests.keys) : HoldersInv (s.addRequest r) := by
  have hnil : s.encoderCacheManager.getCachedInputIds r.requestId = [] := by
    rw [List.eq_nil_iff_forall_not_mem]
    exact fun i hi => hid (hs.known _ i hi)
  refine ⟨fun x rx hx => ?_, fun x hx => ?_⟩
  · obtain ⟨-, rfl⟩ | ⟨-, hx⟩ := Scheduler.addRequest_get? hx
    · exact HoldsAhead.of_nil hnil
    · exact h.ahead x rx hx
  · obtain hx | hx := List.mem_append.mp hx
    · exact h.waiting x hx
    · rw [List.mem_singleton.mp hx]
      exact hnil

end Holders

/-! ## Runs -/

/-- What the scheduler relies on: the request has tokens and is not too long, and its inputs are placed
one after the other, fit the budget and the cache one by one, and have hashes if blocks are cached. -/
structure Admitted (p : SchedulerParams) (r : Request) : Prop where
  pos : 0 < r.numTokens
  lt : r.numTokens < p.kv.maxModelLen
  placed : WellPlaced r.mmPositions
  fits : ∀ pos ∈ r.mmPositions,
    pos.length ≤ p.maxNumEncoderInputTokens ∧ pos.length ≤ p.encoderCacheSize
  hashes : p.kv.enableCaching = true → r.mmPositions.length = r.mmHashes.length

instance (p : SchedulerParams) (r : Request) : Decidable (Admitted p r) :=
  decidable_of_iff (0 < r.numTokens ∧ r.numTokens < p.kv.maxModelLen ∧ WellPlaced r.mmPositions ∧
    (∀ pos ∈ r.mmPositions,
      pos.length ≤ p.maxNumEncoderInputTokens ∧ pos.length ≤ p.encoderCacheSize) ∧
    (p.kv.enableCaching = true → r.mmPositions.length = r.mmHashes.length))
    ⟨fun h => ⟨h.1, h.2.1, h.2.2.1, h.2.2.2.1, h.2.2.2.2⟩,
      fun h => ⟨h.pos, h.lt, h.placed, h.fits, h.hashes⟩⟩

theorem Admitted.later {p : SchedulerParams} {r r' : Request} (h : Admitted p r)
    (hl : Later p r r') : Admitted p r' := by
  have hmm : r'.mmPositions = r.mmPositions := by rw [hl.eq]
  have hhash : r'.mmHashes = r.mmHashes := by rw [hl.eq]
  have hprompt : r'.promptTokenIds = r.promptTokenIds := by rw [hl.eq]
  have hlen : r.numTokens ≤ r'.numTokens := by
    have := hl.output.length_le
    simp only [Request.numTokens, Request.allTokenIds, List.length_append, hprompt]
    omega
  refine ⟨Nat.lt_of_lt_of_le h.pos hlen, ?_, hmm ▸ h.placed, hmm ▸ h.fits, ?_⟩
  · obtain hlen | hlen := hl.len
    · rw [hlen]
      exact h.lt
    · exact hlen
  · rw [hmm, hhash]
    exact h.hashes

/-- A request that was admitted gives no reason to raise. -/
theorem Admitted.not_excuses {p : SchedulerParams} {s : Scheduler}
    (h : ∀ id r, s.requests.get? id = some r → Admitted p r) (e : Exn) : ¬ Excuses p s e := by
  rintro ⟨id, r, hr, hex⟩
  have ha := h id r hr
  cases hex with
  | missing hon hm => exact hm (ha.hashes hon)
  | tooLong hl => exact absurd ha.lt (by omega)
  | noTokens h0 => exact absurd ha.pos (by omega)

namespace SchedulerRun

variable (p : SchedulerParams) (Q : Request → Prop)

/-- New requests satisfy `Q`. -/
def Admits (σ : SchedulerRun) : SchedulerEvent → Prop
  | .addRequest r => σ.Fresh (.addRequest r) ∧ Q r
  | _ => True

/-- The runs on requests that satisfy `Q`: any calls, in any order. -/
def AdmittingRun : SchedulerRun → Prop :=
  Reachable (fun σ e => step p σ e) (Admits Q) (init p)

instance [DecidablePred Q] (σ : SchedulerRun) : (e : SchedulerEvent) → Decidable (Admits Q σ e)
  | .addRequest r => inferInstanceAs (Decidable (σ.Fresh (.addRequest r) ∧ Q r))
  | .finishRequests _ _ => inferInstanceAs (Decidable True)
  | .schedule _ => inferInstanceAs (Decidable True)
  | .updateFromOutput _ => inferInstanceAs (Decidable True)
  | .resetPrefixCache => inferInstanceAs (Decidable True)

/-- Where a call of `schedule` has to preempt a request, this has no inputs in the encoder cache. -/
def Spares (σ : SchedulerRun) : SchedulerEvent → Prop
  | .schedule available => SparesHolders p available σ.sched
  | _ => True

/-- The blocks suffice for all running requests. -/
def Suffices (σ : SchedulerRun) : SchedulerEvent → Prop
  | .schedule available => (Scheduling.loops p available σ.sched).toOption.any
      (fun st => st.preemptedReqs.isEmpty) = true
  | _ => True

instance (σ : SchedulerRun) : (e : SchedulerEvent) → Decidable (Suffices p σ e)
  | .addRequest _ => inferInstanceAs (Decidable True)
  | .finishRequests _ _ => inferInstanceAs (Decidable True)
  | .schedule _ => inferInstanceAs (Decidable (_ = true))
  | .updateFromOutput _ => inferInstanceAs (Decidable True)
  | .resetPrefixCache => inferInstanceAs (Decidable True)

variable {p} in
theorem Suffices.spares {σ : SchedulerRun} {e : SchedulerEvent} (h : Suffices p σ e) :
    Spares p σ e := by
  cases e with
  | schedule available => exact SparesHolders.of_suffices h
  | _ => trivial

/-- The runs on requests that satisfy `Q` that preempt no request with inputs in the encoder cache. -/
def UnhinderedRun : SchedulerRun → Prop :=
  Reachable (fun σ e => step p σ e) (fun σ e => Admits Q σ e ∧ Spares p σ e) (init p)

variable {p Q}

theorem Admits.fresh {σ : SchedulerRun} {e : SchedulerEvent} (h : Admits Q σ e) : σ.Fresh e := by
  cases e with
  | addRequest r => exact h.1
  | _ => trivial

theorem AdmittingRun.freshRun {σ : SchedulerRun} (h : AdmittingRun p Q σ) : FreshRun p σ :=
  Reachable.mono h fun _ _ ha => ha.fresh

theorem UnhinderedRun.admittingRun {σ : SchedulerRun} (h : UnhinderedRun p Q σ) :
    AdmittingRun p Q σ :=
  Reachable.mono h fun _ _ ha => ha.1

/-- **In these runs every request is admitted at all times.** -/
theorem AdmittingRun.admitted {σ : SchedulerRun} (h : AdmittingRun p Q σ)
    (hQ : ∀ r, r.IsNew → Q r → Admitted p r) :
    ∀ id r, σ.sched.requests.get? id = some r → Admitted p r := by
  refine (h.invariant (P := fun σ => (σ.sched.WF p ∧ BlocksInv p σ.sched σ.got) ∧
    ∀ id r, σ.sched.requests.get? id = some r → Admitted p r) ?_ ?_).2
  · exact ⟨⟨wf_init p, BlocksInv.init p⟩, fun _ _ hr => by cases hr⟩
  · rintro σ e σ' ⟨⟨hw, hb⟩, hadm⟩ ha hs
    refine ⟨⟨wf_step hw ha.fresh hs, blocksInv_step hw hb ha.fresh hs⟩, fun id r hr => ?_⟩
    obtain ⟨r₀, hr₀, hlater⟩ | rfl := step_later hw hb hs hr
    · exact (hadm id r₀ hr₀).later hlater
    · exact hQ r ha.1.1 ha.2

/-- A call that preempts no holder keeps the invariant of the holders. -/
theorem holdersInv_step {σ σ' : SchedulerRun} {e : SchedulerEvent} (hrun : AdmittingRun p Q σ)
    (hQ : ∀ r, r.IsNew → Q r → Admitted p r) (hinv : HoldersInv σ.sched) (ha : Admits Q σ e)
    (hspare : Spares p σ e) (hstep : step p σ e = .ok σ') : HoldersInv σ'.sched := by
  obtain ⟨hw, -⟩ := hrun.freshRun.blocksInv
  obtain ⟨r, rfl, -, hs⟩ | ⟨ids, status, rfl, -, hs⟩ | ⟨available, out, rfl, -, hs⟩ |
    ⟨mo, rfl, hs⟩ | ⟨rfl, -, hs⟩ := step_cases hstep
  · rw [hs]
    exact hinv.addRequest hrun.freshRun.slotsInv ha.1.2
  · exact hinv.finishRequests hw hs
  · exact hinv.schedule hw (fun id r hr => (hrun.admitted hQ id r hr).placed) hspare hs
  · obtain rfl | ⟨out, outputs, -, -, hs⟩ := hs
    · exact hinv
    · exact hinv.updateFromOutput hw hs
  · rw [hs]
    exact ⟨hinv.ahead, hinv.waiting⟩

theorem holdersInv_init (p : SchedulerParams) : HoldersInv (init p).sched := by
  refine ⟨fun _ _ hr => ?_, fun _ hid => ?_⟩
  · cases hr
  · cases hid

/-- **In runs that preempt no holder** running requests hold inputs ahead of them, and waiting ones
hold none. -/
theorem UnhinderedRun.holdersInv {σ : SchedulerRun} (h : UnhinderedRun p Q σ)
    (hQ : ∀ r, r.IsNew → Q r → Admitted p r) : HoldersInv σ.sched := by
  refine (h.invariant (P := fun σ => AdmittingRun p Q σ ∧ HoldersInv σ.sched)
    ⟨.start, holdersInv_init p⟩ ?_).2
  rintro σ e σ' ⟨hrun, hinv⟩ ⟨ha, hspare⟩ hstep
  exact ⟨hrun.next ha hstep, holdersInv_step hrun hQ hinv ha hspare hstep⟩

/-- **Progress in a run.** -/
theorem progress {σ : SchedulerRun} {available : ReqId → ℕ → Bool} (hp : Ample p)
    (h : AdmittingRun p Q σ) (hQ : ∀ r, r.IsNew → Q r → Admitted p r) (hh : HoldersInv σ.sched)
    (hav : AllAvailable available σ.sched) (hspare : SparesHolders p available σ.sched)
    (hne : σ.sched.hasUnfinishedRequests = true) :
    ∃ out s', σ.sched.schedule p available = .ok (out, s') ∧ 0 < out.totalNumScheduledTokens := by
  obtain ⟨hw, hb⟩ := h.freshRun.blocksInv
  have hadm := h.admitted hQ
  have hb₀ : BlocksInv p σ.sched fun _ => 0 := hb.mono fun _ _ => Nat.zero_le _
  obtain ⟨⟨out, s'⟩, hs⟩ := (schedule_raises available hw hb₀).returns (Admitted.not_excuses hadm)
  refine ⟨out, s', hs, schedule_progress hp hw hb₀ h.freshRun.slotsInv ?_ hav hspare ?_ hs⟩
  · exact ⟨fun id r hr => Nat.le_of_lt (hadm id r hr).lt, fun id r hr => (hadm id r hr).placed,
      fun id r hr => (hadm id r hr).fits, hh.ahead, hh.waiting⟩
  · intro hnil
    unfold Scheduler.hasUnfinishedRequests at hne
    rw [List.append_eq_nil_iff] at hnil
    simp [hnil.1, hnil.2] at hne

/-! ## Text-only requests -/

variable (p) in
/-- A text-only request with a prompt that is not empty and not too long. -/
def TextPrompt (r : Request) : Prop :=
  r.TextOnly ∧ 1 ≤ r.promptTokenIds.length ∧ r.promptTokenIds.length < p.kv.maxModelLen

instance : DecidablePred (TextPrompt p) := fun r =>
  inferInstanceAs (Decidable (r.TextOnly ∧ 1 ≤ r.promptTokenIds.length ∧
    r.promptTokenIds.length < p.kv.maxModelLen))

theorem TextPrompt.admitted {r : Request} (hnew : r.IsNew) (h : TextPrompt p r) : Admitted p r := by
  obtain ⟨htext, hpos, hlt⟩ := h
  have hlen : r.numTokens = r.promptTokenIds.length := by
    rw [Request.numTokens, Request.allTokenIds, hnew.2.2.1, List.append_nil]
  refine ⟨by omega, by omega, ?_, ?_, fun _ => r.mmHashes_length_eq htext⟩
  · rw [htext]
    exact ⟨List.Pairwise.nil, fun _ hpos => (List.not_mem_nil hpos).elim⟩
  · rw [htext]
    exact fun _ hpos => (List.not_mem_nil hpos).elim

/-- **Text-only requests hold no inputs.** -/
theorem AdmittingRun.text {σ : SchedulerRun} (h : AdmittingRun p (TextPrompt p) σ) :
    (∀ id r, σ.sched.requests.get? id = some r → r.TextOnly) ∧
      ∀ id, σ.sched.encoderCacheManager.getCachedInputIds id = [] := by
  have htext : ∀ {σ}, AdmittingRun p (TextPrompt p) σ →
      ∀ id r, σ.sched.requests.get? id = some r → r.TextOnly := by
    intro σ h
    refine (h.invariant (P := fun σ => AdmittingRun p (TextPrompt p) σ ∧
      ∀ id r, σ.sched.requests.get? id = some r → r.TextOnly)
      ⟨.start, fun _ _ hr => by cases hr⟩ ?_).2
    rintro σ e σ' ⟨hrun, htext⟩ ha hs
    obtain ⟨hw, hb⟩ := hrun.freshRun.blocksInv
    refine ⟨hrun.next ha hs, fun id r hr => ?_⟩
    obtain ⟨r₀, hr₀, hlater⟩ | rfl := step_later hw hb hs hr
    · have := htext id r₀ hr₀
      unfold Request.TextOnly at this ⊢
      rw [hlater.eq]
      exact this
    · exact ha.2.1
  have hnone : ∀ {σ}, AdmittingRun p (TextPrompt p) σ → HoldersInv σ.sched →
      ∀ id, σ.sched.encoderCacheManager.getCachedInputIds id = [] := by
    intro σ h hinv id
    rw [List.eq_nil_iff_forall_not_mem]
    intro i hi
    obtain ⟨r, hr⟩ := Dict.exists_get?_of_mem (h.freshRun.slotsInv.known id i hi)
    have hid := h.freshRun.blocksInv.1.requestId id r hr
    obtain ⟨pos, hpos, -⟩ := hinv.ahead id r hr i (hid.symm ▸ hi)
    rw [htext h id r hr] at hpos
    cases hpos
  have hinv : HoldersInv σ.sched := by
    refine (h.invariant (P := fun σ => AdmittingRun p (TextPrompt p) σ ∧ HoldersInv σ.sched)
      ⟨.start, holdersInv_init p⟩ ?_).2
    rintro σ e σ' ⟨hrun, hinv⟩ ha hs
    refine ⟨hrun.next ha hs, holdersInv_step hrun (fun _ => TextPrompt.admitted) hinv ha ?_ hs⟩
    cases e with
    | schedule available => exact fun _ _ id _ => hnone hrun hinv id
    | _ => trivial
  exact ⟨htext h, hnone h hinv⟩

/-- **Text-only work never spins.** In every state of every run with an unfinished request a call of
`schedule` returns and schedules a token, so that `step` does not enter its loop. -/
theorem text_progress {σ : SchedulerRun} (hp : Ample p) (h : AdmittingRun p (TextPrompt p) σ)
    (hne : σ.sched.hasUnfinishedRequests = true) :
    (∀ available, ∃ out s', σ.sched.schedule p available = .ok (out, s') ∧
      0 < out.totalNumScheduledTokens) ∧
    ∀ {E V O : Type} (x : Executor E V O) (c : EngineCore E), c.scheduler = σ.sched →
      ∀ polled outcome progress c', c.advance p x polled outcome = .ok (progress, c') →
        ∀ out, progress ≠ .discarded out := by
  obtain ⟨htext, hnone⟩ := h.text
  have hsched : ∀ available, ∃ out s', σ.sched.schedule p available = .ok (out, s') ∧
      0 < out.totalNumScheduledTokens := by
    intro available
    refine progress hp h (fun _ => TextPrompt.admitted) ?_ ?_ (fun _ _ id _ => hnone id) hne
    · exact ⟨fun id r hr => HoldsAhead.of_nil (hnone _), fun id _ => hnone id⟩
    · intro id r i pos hr hpos
      rw [htext id r hr] at hpos
      cases hpos
  refine ⟨hsched, fun x c hc polled outcome progress c' hadv out hout => ?_⟩
  obtain ⟨rfl, -⟩ | ⟨out', s, executor, hs, -, hcase⟩ := EngineCore.advance_eq_ok hadv
  · cases hout
  · rw [hc] at hs
    obtain ⟨out₁, s₁, hs₁, hpos⟩ := hsched (c.available x)
    rw [hs] at hs₁
    cases hs₁
    obtain ⟨hzero, -⟩ | ⟨-, rfl, -⟩ := hcase
    · omega
    · cases hout

/-- A request is running and another one waits. -/
theorem text_progress_two : ∃ σ, σ.sched.running = ["a"] ∧ σ.sched.waiting = ["b"] ∧
    AdmittingRun eightSlots (TextPrompt eightSlots) σ ∧
    ∃ out s', σ.sched.schedule eightSlots (fun _ _ => false) = .ok (out, s') ∧
      0 < out.totalNumScheduledTokens := by
  obtain ⟨σ, hσ, h1, h2, hne⟩ := exists_reachable (fun σ e => step eightSlots σ e)
    (Admits (TextPrompt eightSlots)) (init eightSlots)
    [.addRequest (.ofPrompt "a" [1, 2, 3] []), .schedule fun _ _ => false,
      .updateFromOutput ⟨Dict.empty.set "a" 0, [7]⟩, .addRequest (.ofPrompt "b" [1, 2, 5] [])]
    (fun σ => σ.sched.running = ["a"] ∧ σ.sched.waiting = ["b"] ∧
      σ.sched.hasUnfinishedRequests = true) (by decide +kernel)
  have hample : Ample eightSlots := ⟨by decide, by decide, by decide⟩
  exact ⟨σ, h1, h2, hσ, (text_progress hample hσ hne).1 _⟩

/-! ## Requests with inputs -/

/-- **No deadlock without preempted holders.** In every state of every run that preempts no request
with inputs in the encoder cache, a call of `schedule` that preempts none either schedules a token. -/
theorem no_deadlock {σ : SchedulerRun} {available : ReqId → ℕ → Bool} (hp : Ample p)
    (h : UnhinderedRun p (Admitted p) σ) (hav : AllAvailable available σ.sched)
    (hspare : SparesHolders p available σ.sched)
    (hne : σ.sched.hasUnfinishedRequests = true) :
    ∃ out s', σ.sched.schedule p available = .ok (out, s') ∧ 0 < out.totalNumScheduledTokens :=
  progress hp h.admittingRun (fun _ _ h => h) (h.holdersInv fun _ _ h => h) hav hspare hne

/-- A request with two images waits for slots behind one that is half computed. -/
theorem no_deadlock_two : ∃ σ, UnhinderedRun eightSlots (Admitted eightSlots) σ ∧
    σ.sched.running = ["a"] ∧ σ.sched.waiting = ["b"] ∧
    ∃ out s', σ.sched.schedule eightSlots (fun _ _ => true) = .ok (out, s') ∧
      0 < out.totalNumScheduledTokens := by
  obtain ⟨σ, hσ, h1, h2, hsuff, hne⟩ := exists_reachable (fun σ e => step eightSlots σ e)
    (fun σ e => Admits (Admitted eightSlots) σ e ∧ Suffices eightSlots σ e) (init eightSlots)
    [.addRequest (.ofPrompt "a" [1, 2, 3, 4, 5, 6, 7, 8] [⟨2, 6⟩]),
      .schedule fun _ _ => true, .updateFromOutput ⟨Dict.empty.set "a" 0, [9]⟩,
      .addRequest (.ofPrompt "b" [1, 2, 3, 4, 5] [⟨0, 3⟩, ⟨3, 2⟩])]
    (fun σ => σ.sched.running = ["a"] ∧ σ.sched.waiting = ["b"] ∧
      Suffices eightSlots σ (.schedule fun _ _ => true) ∧
      σ.sched.hasUnfinishedRequests = true) (by decide +kernel)
  have hample : Ample eightSlots := ⟨by decide, by decide, by decide⟩
  have hrun : UnhinderedRun eightSlots (Admitted eightSlots) σ :=
    hσ.mono fun _ _ ha => ⟨ha.1, ha.2.spares⟩
  have hspare : SparesHolders eightSlots (fun _ _ => true) σ.sched := SparesHolders.of_suffices hsuff
  exact ⟨σ, hrun, h1, h2, no_deadlock hample hrun (fun _ _ _ _ _ _ => rfl) hspare hne⟩

end SchedulerRun

/-! ## A deadlock -/

/-- The first waiting request begins with an input for which there are too few slots, and nothing is
running that could free some. -/
structure Stuck (p : SchedulerParams) (s : Scheduler) : Prop where
  wf : s.WF p
  blocks : BlocksInv p s fun _ => 0
  admitted : ∀ id r, s.requests.get? id = some r → Admitted p r
  caching : p.kv.enableCaching = false
  running : s.running = []
  head : ∃ id rest r pos poss, s.waiting = id :: rest ∧ s.requests.get? id = some r ∧
    r.mmPositions = pos :: poss ∧ pos.offset = 0 ∧
    0 ∉ s.encoderCacheManager.getCachedInputIds id ∧
    s.encoderCacheManager.numFreeSlots < pos.length

section Stuck

variable {p : SchedulerParams} {available : ReqId → ℕ → Bool} {s s' : Scheduler}

/-- What a stuck scheduler finds for the first waiting request. -/
theorem Stuck.look (h : Stuck p s) {id : ReqId} {rest : List ReqId} {computed : List ℕ} {nc : ℕ}
    {request : Request} {st₁ : Scheduling} {inputs : List ℕ} {n eb : ℤ}
    (hlook : WaitingLook p available (Scheduling.start p s) id rest computed nc request st₁ inputs
      n eb) : n = 0 := by
  obtain ⟨id', rest', r, pos, poss, hwait, hr, hpos, hoff, hcached, hfree⟩ := h.head
  have hhere : s.waiting = id :: rest := hlook.here
  rw [hwait] at hhere
  cases hhere
  have hbehind := hlook.behind
  have htry := hlook.tries_before
  obtain ⟨-, hbud, -⟩ := cachedPrefix_local hlook.lookup
  rw [hbud] at hbehind
  obtain ⟨r₀, bs, hr₀, hg, -, hcomp, hnc, hash, rfl⟩ := cachedPrefix_eq_ok hlook.lookup
  obtain rfl : r = r₀ := Option.some.inj (hr.symm.trans hr₀)
  have hrid := h.wf.requestId id r hr
  have hlen := (h.admitted id r hr).placed.2 pos (by rw [hpos]; exact List.mem_cons_self)
  have hbs : bs = [] := by
    unfold getComputedBlocks at hg
    rw [if_pos h.caching, Except.ok.injEq, Prod.mk.injEq] at hg
    exact hg.1.symm
  have hzero : nc = 0 := by
    obtain ⟨-, rfl⟩ | ⟨-, hne, -⟩ := hcomp
    · rw [hnc, hbs, List.length_nil, Nat.zero_mul]
    · exact absurd hbs hne
  subst hzero
  unfold Scheduler.tryScheduleEncoderInputs at htry
  have hhas : (r.setKvBlockHashes hash).hasEncoderInputs = true := by
    rw [Request.hasEncoderInputs_iff]
    intro htext
    change r.mmPositions = [] at htext
    rw [hpos] at htext
    cases htext
  rw [if_neg (by rw [hhas]; exact Bool.noConfusion), bind_eq_ok] at htry
  obtain ⟨_, -, htry⟩ := htry
  rw [show (r.setKvBlockHashes hash).mmPositions = pos :: poss from hpos] at htry
  obtain ⟨h1, -⟩ | ⟨hskip, -⟩ | ⟨-, -, h3, -⟩ | ⟨-, -, -, hcan, -⟩ := encoderLoop_cons htry
  · omega
  · obtain hskip | hskip := hskip
    · omega
    · rw [EncoderCacheManager.hasCache_iff] at hskip
      change 0 ∈ s.encoderCacheManager.getCachedInputIds r.requestId at hskip
      rw [hrid] at hskip
      exact absurd hskip hcached
  · rw [h3, Scheduler.tokensBefore, hoff, if_neg (Nat.lt_irrefl 0)]
  · have hfirst : (r.setKvBlockHashes hash).mmPositions[0]? = some pos := by
      change r.mmPositions[0]? = some pos
      rw [hpos]
      rfl
    rw [EncoderCacheManager.canAllocate_eq _ hfirst, Except.ok.injEq, decide_eq_true_eq] at hcan
    change (pos.length : ℤ) ≤ s.encoderCacheManager.numFreeSlots at hcan
    omega

/-- **A stuck scheduler stays stuck**: a call of `schedule` returns, and schedules nothing. -/
theorem Stuck.schedule (h : Stuck p s) (available : ReqId → ℕ → Bool) :
    ∃ out s', s.schedule p available = .ok (out, s') ∧ out.totalNumScheduledTokens = 0 ∧
      Stuck p s' := by
  obtain ⟨⟨out, s'⟩, hs⟩ := (schedule_raises available h.wf h.blocks).returns
    (Admitted.not_excuses h.admitted)
  have hw' := Scheduler.schedule_wf h.wf hs
  obtain ⟨hb', hres⟩ := h.blocks.schedule h.wf hs
  obtain ⟨st₀, st, _, _, _, hl, heq, hm, -, rfl, -, htotal, -⟩ := schedule_eq_ok h.wf hs
  obtain ⟨i, st₁, st₂, hat, hend, hcase⟩ := loops_rounds hl
  have hnone : ∀ j : ℕ, (Scheduling.start p s).sched.running[j]? = none := by
    intro j
    change s.running[j]? = none
    rw [h.running]
    rfl
  -- no request is running, so that the loop over `running` is over at once
  obtain ⟨rfl, rfl⟩ : i = 0 ∧ st₁ = Scheduling.start p s := by
    obtain heq' | ⟨y, hr, -⟩ := Relation.ReflTransGen.cases_head hat
    · cases heq'
      exact ⟨rfl, rfl⟩
    · have hc : ∃ id, (Scheduling.start p s).sched.running[0]? = some id := by
        cases hr with
        | pass hlook => exact ⟨_, hlook.here⟩
        | take hlook => exact ⟨_, hlook.here⟩
      obtain ⟨id, hc⟩ := hc
      rw [hnone] at hc
      cases hc
  obtain rfl : st₂ = Scheduling.start p s := by
    cases hend with
    | ended => rfl
    | preempted hlook =>
      have hc := hlook.here
      rw [hnone] at hc
      cases hc
  obtain ⟨hc, -⟩ | ⟨-, st₃, hrounds, hend'⟩ := hcase
  · exact absurd rfl hc
  obtain rfl : st₃ = Scheduling.start p s := by
    obtain heq' | ⟨y, hr, -⟩ := Relation.ReflTransGen.cases_head hrounds
    · exact heq'.symm
    · cases hr with
      | take hlook hn => exact absurd (h.look hlook) hn
  have hlast : st₀.numScheduledTokens = .empty ∧ st₀.sched.running = [] ∧
      st₀.sched.waiting = s.waiting ∧
      st₀.sched.encoderCacheManager = s.encoderCacheManager := by
    cases hend' with
    | ended => exact ⟨rfl, h.running, rfl, rfl⟩
    | pass hlook =>
      obtain ⟨_, _, -, -, rfl, -⟩ := cachedPrefix_eq_ok hlook.lookup
      exact ⟨rfl, h.running, rfl, rfl⟩
    | refused hlook hn => exact absurd (h.look hlook) hn
  obtain ⟨htok, hrun, hwait, hecm⟩ := hlast
  obtain ⟨id, rest, r, pos, poss, hw, hr, hpos, hoff, hcached, hfree⟩ := h.head
  have hst : st.numScheduledTokens = st₀.numScheduledTokens ∧
      st.sched.running = st₀.sched.running ∧ st.sched.waiting = st₀.sched.waiting ∧
      st.sched.encoderCacheManager = st₀.sched.encoderCacheManager := by
    rw [heq]
    exact ⟨rfl, rfl, rfl, rfl⟩
  obtain ⟨hst₁, hst₂, hst₃, hst₄⟩ := hst
  refine ⟨out, _, hs, ?_, hw', hb'.mono fun _ _ => Nat.zero_le _, fun id' r' hr' => ?_, h.caching,
    hst₂.trans hrun, ?_⟩
  · rw [htotal, Scheduling.totalTokens, hst₁, htok]
    rfl
  · obtain ⟨r₀, hr₀, hres₀⟩ := hres id' r' hr'
    exact (h.admitted id' r₀ hr₀).later hres₀.later
  · have hkey : id ∈ st.sched.requests.keys := by
      refine (hw'.known id).mpr (Or.inr ?_)
      change id ∈ st.sched.waiting
      rw [hst₃, hwait, hw]
      exact List.mem_cons_self
    obtain ⟨r', hr'⟩ := Dict.exists_get?_of_mem hkey
    obtain ⟨r₀, hr₀, hres₀⟩ := hres id r' hr'
    obtain rfl : r = r₀ := Option.some.inj (hr.symm.trans hr₀)
    refine ⟨id, rest, r', pos, poss, ?_, hr', ?_, hoff, ?_, ?_⟩
    · change st.sched.waiting = id :: rest
      rw [hst₃, hwait, hw]
    · rw [hres₀.eq]
      exact hpos
    · change 0 ∉ st.sched.encoderCacheManager.getCachedInputIds id
      rw [hst₄, hecm]
      exact hcached
    · change st.sched.encoderCacheManager.numFreeSlots < pos.length
      rw [hst₄, hecm]
      exact hfree

/-- The tokens that `n` calls of `schedule` schedule, one after the other. -/
def Scheduler.scheduleTimes (p : SchedulerParams) (available : ReqId → ℕ → Bool) :
    ℕ → Scheduler → Except Exn (ℕ × Scheduler)
  | 0, s => .ok (0, s)
  | n + 1, s => do
    let (out, s) ← s.schedule p available
    let (total, s) ← Scheduler.scheduleTimes p available n s
    .ok (out.totalNumScheduledTokens + total, s)

theorem Stuck.scheduleTimes (h : Stuck p s) (available : ReqId → ℕ → Bool) (n : ℕ) :
    ∃ s', Scheduler.scheduleTimes p available n s = .ok (0, s') := by
  induction n generalizing s with
  | zero => exact ⟨s, rfl⟩
  | succ n ih =>
    obtain ⟨out, s₁, hs, htotal, h₁⟩ := h.schedule available
    obtain ⟨s', hs'⟩ := ih h₁
    refine ⟨s', ?_⟩
    rw [Scheduler.scheduleTimes, hs, ok_bind]
    simp only
    rw [hs', ok_bind, htotal]
    rfl

end Stuck

namespace SchedulerRun

/-- A pool of seven blocks; an image of the greatest length fills the encoder cache. -/
def sevenBlocks : SchedulerParams where
  kv := { sixBlocks with
    numGpuBlocks := 7
    enableCaching := false
    numGpuBlocks_pos := by decide }
  maxNumRunningReqs := 2
  maxNumScheduledTokens := 3
  maxNumEncoderInputTokens := 4
  encoderCacheSize := 4

/-- A request is preempted when its first image is computed and its second one is not. -/
def preemptedHolderRun : List SchedulerEvent :=
  [.addRequest (.ofPrompt "a" [1] []),
    .addRequest (.ofPrompt "b" [1, 2, 3, 4, 5, 6, 7] [⟨0, 3⟩, ⟨4, 3⟩]),
    .schedule fun _ _ => true, .updateFromOutput ⟨(Dict.empty.set "a" 0).set "b" 1, [9, 9]⟩,
    .schedule fun _ _ => true, .updateFromOutput ⟨(Dict.empty.set "a" 0).set "b" 1, [9, 9]⟩,
    .schedule fun _ _ => true, .updateFromOutput ⟨(Dict.empty.set "a" 0).set "b" 1, [9, 9]⟩,
    .schedule fun _ _ => true, .updateFromOutput ⟨Dict.empty.set "a" 0, [9]⟩]

/-- **A deadlock.** The request waits for its first image with all results there, while its second image
keeps the slots: no number of calls of `schedule` schedules a token. -/
theorem deadlock : Ample sevenBlocks ∧ ∃ σ, AdmittingRun sevenBlocks (Admitted sevenBlocks) σ ∧
    σ.sched.hasUnfinishedRequests = true ∧ AllAvailable (fun _ _ => true) σ.sched ∧
    ∀ n, ∃ s', Scheduler.scheduleTimes sevenBlocks (fun _ _ => true) n σ.sched = .ok (0, s') := by
  obtain ⟨σ, hσ, hne, hp, hrun, hwait, hr, hcached, hfree⟩ := exists_reachable
    (fun σ e => step sevenBlocks σ e) (Admits (Admitted sevenBlocks)) (init sevenBlocks)
    preemptedHolderRun (fun σ => σ.sched.hasUnfinishedRequests = true ∧ σ.pending.isNone = true ∧
      σ.sched.running = [] ∧ σ.sched.waiting = ["b"] ∧
      (σ.sched.requests.get? "b").map (·.mmPositions) = some [⟨0, 3⟩, ⟨4, 3⟩] ∧
      0 ∉ σ.sched.encoderCacheManager.getCachedInputIds "b" ∧
      σ.sched.encoderCacheManager.numFreeSlots < 3) (by decide +kernel)
  refine ⟨⟨by decide, by decide, by decide⟩, σ, hσ, hne, fun _ _ _ _ _ _ => rfl, fun n => ?_⟩
  have hrun' : AdmittingRun sevenBlocks (Admitted sevenBlocks) σ := hσ
  obtain ⟨hw, hb⟩ := hrun'.freshRun.blocksInv
  obtain ⟨r, hr, hpos⟩ := Option.map_eq_some_iff.mp hr
  refine Stuck.scheduleTimes ⟨hw, hb.mono fun _ _ => Nat.zero_le _,
    hrun'.admitted fun _ _ h => h, rfl, hrun, ?_⟩ _ n
  exact ⟨"b", [], r, ⟨0, 3⟩, [⟨4, 3⟩], hwait, hr, hpos, rfl, hcached, hfree⟩

end SchedulerRun

end SpaceServe
