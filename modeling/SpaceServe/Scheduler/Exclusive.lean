import SpaceServe.Scheduler.Deltas
import SpaceServe.Scheduler.Shared

/-!
# One writer for each block

A block is hashed, and may be found by other requests, before its owner has filled it. Requests that
find it count its tokens as computed, so of two requests that hold a block at most one has yet to fill
it. What a request gets beyond its hits comes from the free queue and is nobody else's.

* `Exclusive`, **`Exclusive.step`**: the rule by which it is kept;
* `Move.exclusive`, `Exclusive.schedule`, `Exclusive.update`, `Exclusive.finishRequests`.
-/

set_option autoImplicit false

namespace SpaceServe

open Py KVCacheManager

/-- The blocks that an allocation takes from the free queue are nobody's. -/
theorem KVCacheManager.Accounted.new_unowned {p : KVCacheParams} {kv kv' : KVCacheManager}
    (ha : Accounted p kv) {r r' : Request} {n : ℕ} {computed new : List ℕ}
    (hv : ∀ b ∈ computed, b < p.numGpuBlocks)
    (h : kv.allocateSlots p r n computed = .ok (some new, kv', r')) {b : ℕ} (hb : b ∈ new)
    (id : ReqId) : b ∉ kv.blocksOf id := by
  obtain ⟨⟨free, hacc⟩, hok⟩ := ha
  obtain ⟨-, -, -, -, hfree⟩ := allocateSlots_spec hacc hok hv h
  have hcnt := ((hacc.mem_free b).mp (hfree b hb).1).2
  rw [hacc.refCnt, List.count_nil] at hcnt
  exact (kv.owned_eq_zero b).mp (by omega) id

section

variable {p : SchedulerParams} {available : ReqId → ℕ → Bool} {s s' : Scheduler}

/-- Of two running requests that hold a block one has filled it. -/
def Exclusive (p : SchedulerParams) (s : Scheduler) : Prop :=
  ∀ id id' r r' (j j' b : ℕ), id ∈ s.running → id' ∈ s.running → id ≠ id' →
    s.requests.get? id = some r → s.requests.get? id' = some r' →
    (s.kv.blocksOf id)[j]? = some b → (s.kv.blocksOf id')[j']? = some b →
      (j + 1) * p.kv.blockSize ≤ r.numComputedTokens ∨
      (j' + 1) * p.kv.blockSize ≤ r'.numComputedTokens

theorem Exclusive.init (p : SchedulerParams) : Exclusive p (.init p) := by
  intro id id' r r' j j' b hid
  cases hid

/-- **The rule for steps**: a running request holds only blocks that it has filled, that nobody else
holds, or that it held before with no more computed tokens. -/
theorem Exclusive.step (h : Exclusive p s) (hold : ∀ id ∈ s'.running, ∀ r' (j b : ℕ),
    s'.requests.get? id = some r' → (s'.kv.blocksOf id)[j]? = some b →
      (j + 1) * p.kv.blockSize ≤ r'.numComputedTokens ∨
      (∀ id', id' ≠ id → b ∉ s'.kv.blocksOf id') ∨
      (id ∈ s.running ∧ (s.kv.blocksOf id)[j]? = some b ∧ ∃ r, s.requests.get? id = some r ∧
        r.numComputedTokens ≤ r'.numComputedTokens)) : Exclusive p s' := by
  intro id id' r r' j j' b hid hid' hne hr hr' hj hj'
  obtain hfull | hnone | ⟨hrun, hj₀, r₀, hr₀, hle⟩ := hold id hid r j b hr hj
  · exact Or.inl hfull
  · exact absurd (List.mem_of_getElem? hj') (hnone id' hne.symm)
  obtain hfull | hnone | ⟨hrun', hj₀', r₀', hr₀', hle'⟩ := hold id' hid' r' j' b hr' hj'
  · exact Or.inr hfull
  · exact absurd (List.mem_of_getElem? hj) (hnone id hne)
  obtain hfull | hfull := h id id' r₀ r₀' j j' b hrun hrun' hne hr₀ hr₀' hj₀ hj₀'
  · exact Or.inl (Nat.le_trans hfull hle)
  · exact Or.inr (Nat.le_trans hfull hle')

/-- Requests leave, and the others go on. -/
theorem Exclusive.onward (h : Exclusive p s) (hrun : ∀ id ∈ s'.running, id ∈ s.running)
    (hkeep : Scheduler.KeepsBlocks s s') (hreq : ∀ id r', s'.requests.get? id = some r' →
      ∃ r, s.requests.get? id = some r ∧ r.numComputedTokens ≤ r'.numComputedTokens) :
    Exclusive p s' := by
  refine h.step fun id hid r' j b hr' hj => Or.inr (Or.inr ⟨hrun id hid, ?_, hreq id r' hr'⟩)
  rw [← hkeep id hid]
  exact hj

/-! ## Scheduling -/

variable {st st' : Scheduling}

/-- A running request was granted tokens. -/
theorem Exclusive.granted (h : Exclusive p st.sched) {id : ReqId} {r r' : Request}
    (hid : id ∈ st.sched.running) (hr : st.sched.requests.get? id = some r)
    (hnc : r'.numComputedTokens = r.numComputedTokens) {kv : KVCacheManager} {new : List ℕ}
    (hown : kv.blocksOf id = st.sched.kv.blocksOf id ++ new)
    (hother : ∀ id', id' ≠ id → kv.blocksOf id' = st.sched.kv.blocksOf id')
    (hnew : ∀ b ∈ new, ∀ id', b ∉ st.sched.kv.blocksOf id') {n : ℕ} (ecm : EncoderCacheManager)
    (inputs : List ℕ) (eb : ℤ) : Exclusive p (st.granted id r' kv ecm new n inputs eb).sched := by
  refine h.step fun x hx rx j b hrx hj => ?_
  change (st.sched.requests.set id r').get? x = some rx at hrx
  change (kv.blocksOf x)[j]? = some b at hj
  by_cases hxid : x = id
  · subst hxid
    rw [Dict.get?_set_self] at hrx
    obtain rfl := Option.some.inj hrx
    rw [hown] at hj
    by_cases hlt : j < (st.sched.kv.blocksOf x).length
    · rw [List.getElem?_append_left hlt] at hj
      exact Or.inr (Or.inr ⟨hid, hj, r, hr, Nat.le_of_eq hnc.symm⟩)
    · rw [List.getElem?_append_right (Nat.le_of_not_lt hlt)] at hj
      refine Or.inr (Or.inl fun y hy => ?_)
      change b ∉ kv.blocksOf y
      rw [hother y hy]
      exact hnew b (List.mem_of_getElem? hj) y
  · rw [Dict.get?_set_ne _ hxid] at hrx
    rw [hother x hxid] at hj
    exact Or.inr (Or.inr ⟨hx, hj, rx, hrx, Nat.le_refl _⟩)

/-- A waiting request was admitted: its hits are full. -/
theorem Exclusive.admitted (h : Exclusive p st.sched) {id : ReqId} {r : Request}
    {kv : KVCacheManager} {computed new : List ℕ} (hown : kv.blocksOf id = computed ++ new)
    (hother : ∀ id', id' ≠ id → kv.blocksOf id' = st.sched.kv.blocksOf id')
    (hnew : ∀ b ∈ new, ∀ id', b ∉ st.sched.kv.blocksOf id') {n : ℕ} (ecm : EncoderCacheManager)
    (inputs : List ℕ) (eb : ℤ) :
    Exclusive p (st.admitted id r kv ecm computed new (computed.length * p.kv.blockSize) n inputs
      eb).sched := by
  refine h.step fun x hx rx j b hrx hj => ?_
  change (st.sched.requests.set id _).get? x = some rx at hrx
  change (kv.blocksOf x)[j]? = some b at hj
  by_cases hxid : x = id
  · subst hxid
    rw [Dict.get?_set_self] at hrx
    obtain rfl := Option.some.inj hrx
    rw [hown] at hj
    by_cases hlt : j < computed.length
    · exact Or.inl (Nat.mul_le_mul_right _ hlt)
    · rw [List.getElem?_append_right (Nat.le_of_not_lt hlt)] at hj
      refine Or.inr (Or.inl fun y hy => ?_)
      change b ∉ kv.blocksOf y
      rw [hother y hy]
      exact hnew b (List.mem_of_getElem? hj) y
  · have hx : x ∈ st.sched.running ++ [id] := hx
    rw [List.mem_append, List.mem_singleton, or_iff_left hxid] at hx
    rw [Dict.get?_set_ne _ hxid] at hrx
    rw [hother x hxid] at hj
    exact Or.inr (Or.inr ⟨hx, hj, rx, hrx, Nat.le_refl _⟩)

/-- A waiting request is looked up: only its block hashes change. -/
theorem Exclusive.lookup (h : Exclusive p st.sched) {st₁ : Scheduling} {id : ReqId}
    {computed : List ℕ} {nc : ℕ} {r : Request}
    (hc : st.cachedPrefix p id = .ok (computed, nc, r, st₁)) : Exclusive p st₁.sched := by
  obtain ⟨r₀, bs, hr₀, -, rfl, -, -, hs, rfl⟩ := cachedPrefix_eq_ok hc
  refine h.onward (fun _ hid => hid) (fun _ _ => rfl) fun x rx hrx => ?_
  change (st.sched.requests.set id (r₀.setKvBlockHashes hs)).get? x = some rx at hrx
  rw [Dict.get?_set] at hrx
  split_ifs at hrx with hx
  · subst hx
    obtain rfl := Option.some.inj hrx
    exact ⟨r₀, hr₀, Nat.le_refl _⟩
  · exact ⟨rx, hrx, Nat.le_refl _⟩

/-- **Moves keep one writer for each block.** -/
theorem Move.exclusive (hw : st.WF p) (hb : BlocksInv p st.sched st.got) (h : Exclusive p st.sched)
    (hm : Move p available st st') : Exclusive p st'.sched := by
  cases hm with
  | @reserve id hid =>
    exact h.onward (fun _ hid => hid) (fun id' _ => st.sched.kv.setBlocks_self_blocksOf id id')
      fun _ r hr => ⟨r, hr, Nat.le_refl _⟩
  | @preempt rest id r kv hrun hid hr hfree =>
    obtain ⟨-, -, -, hother, -⟩ := free_facts hb.accounted hfree
    obtain rfl := hw.sched.requestId id r hr
    refine h.step fun x hx rx j b hrx hj => ?_
    obtain ⟨hne, hx⟩ := (hw.sched.mem_dropLast hrun x).mp hx
    change (st.sched.requests.set r.requestId _).get? x = some rx at hrx
    change (kv.blocksOf x)[j]? = some b at hj
    rw [Dict.get?_set_ne _ hne] at hrx
    rw [hother x hne] at hj
    exact Or.inr (Or.inr ⟨hx, hj, rx, hrx, Nat.le_refl _⟩)
  | @grant _ id r r' inputs n eb new kv hid hns hr hpos htry hn halloc hst =>
    obtain ⟨ecm, -, rfl⟩ := scheduleRunning_eq_ok hst
    have hnil : ∀ b ∈ ([] : List ℕ), b < p.kv.numGpuBlocks := fun b hb => (List.not_mem_nil hb).elim
    obtain ⟨hown, hother⟩ := hb.accounted.allocated hnil halloc
    have hnew := fun b hb' => hb.accounted.new_unowned hnil halloc (b := b) hb'
    obtain ⟨hs, rfl⟩ := allocateSlots_request halloc
    obtain rfl := hw.sched.requestId id r hr
    rw [List.nil_append] at hown
    have hnc : (r.setKvBlockHashes hs).numComputedTokens = r.numComputedTokens := rfl
    exact h.granted hid hr hnc hown hother hnew ecm inputs eb
  | lookup hwait hc => exact h.lookup hc
  | @enter st₁ _ id rest computed nc r r' inputs n eb new kv hwait hpre hroom hc hpos htry hn halloc
      hst =>
    have hid := mem_of_eq_cons hwait
    have hnr : id ∉ st.sched.running := fun hm => hw.sched.not_mem_waiting hm hid
    obtain ⟨r₀, hr₀, rfl, -, hinv, hits⟩ := hb.cachedPrefix_ok hw hid hc
    obtain ⟨hw₁, hr₁⟩ := hw.lookup hc
    have h₁ := h.lookup hc
    rw [← cachedPrefix_running hc] at hnr
    obtain ⟨-, ecm, -, rfl⟩ := scheduleWaiting_eq_ok hst
    obtain ⟨hown, hother⟩ := hinv.accounted.allocated hits.lt halloc
    have hnew := fun b hb' => hinv.accounted.new_unowned hits.lt halloc (b := b) hb'
    obtain rfl := hw₁.sched.requestId id r hr₁
    rw [hinv.idle _ hnr, List.nil_append] at hown
    exact h₁.admitted hown hother hnew ecm inputs eb

theorem Exclusive.schedule {out : SchedulerOutput} (h : Exclusive p s) (hsound : s.Sound p)
    (hs : s.schedule p available = .ok (out, s')) : Exclusive p s' := by
  obtain ⟨_, st, _, _, _, -, -, hm, -, rfl, -⟩ := schedule_eq_ok hsound.wf hs
  refine (hm.invariant (P := fun st => st.WF p ∧ BlocksInv p st.sched st.got ∧
    Exclusive p st.sched) ?_ ⟨Scheduling.WF.start hsound.wf, hsound.blocks, h⟩).2.2
  rintro st₁ st₂ ⟨hw₁, hb₁, h₁⟩ hm₁
  exact ⟨hm₁.wf hw₁, (hm₁.blocksInv hw₁ hb₁).1, hm₁.exclusive hw₁ hb₁ h₁⟩

/-! ## Updates and aborts -/

/-- A round of an update takes no computed tokens away. -/
theorem updatedRequest_computed {out : SchedulerOutput} {mo : ModelRunnerOutput} {id : ReqId}
    {r r' : Request} (h : Scheduler.updatedRequest p out mo id r = .ok r') :
    r.numComputedTokens ≤ r'.numComputedTokens := by
  unfold Scheduler.updatedRequest at h
  simp only at h
  split_ifs at h with h0 hfull
  · cases h
    exact Nat.le_refl _
  · simp only [bind_eq_ok] at h
    obtain ⟨i, -, t, -, ⟨stopped, r₁⟩, hstop, h⟩ := h
    cases h
    obtain ⟨⟨status, reason, hr', -⟩, -⟩ := Scheduler.checkStop_eq_ok hstop
    rw [hr']
    exact Nat.le_add_right _ _
  · cases h
    exact Nat.le_add_right _ _

theorem Exclusive.update {out : SchedulerOutput} {mo : ModelRunnerOutput}
    {outputs : List EngineCoreOutput} (h : Exclusive p s) (hw : s.WF p)
    (hb : BlocksInv p s fun id => (out.numScheduledTokens.get? id).getD 0)
    (hs : s.updateFromOutput p out mo = .ok (outputs, s')) : Exclusive p s' := by
  obtain ⟨-, ho⟩ := Scheduler.updateFromOutput_onward hw hs
  refine h.onward (fun id hid => ((ho.running id).mp hid).1)
    (Scheduler.updateFromOutput_keepsBlocks hw hb hs) fun id r' hr' => ?_
  obtain ⟨-, hsame, -⟩ | ⟨-, r, r₁, hr, hupd, -, hem⟩ := Scheduler.updateFromOutput_emits hw hs id
  · exact ⟨r', hsame ▸ hr', Nat.le_refl _⟩
  · obtain rfl := hem.eq_of_some hr'
    exact ⟨r, hr, updatedRequest_computed hupd⟩

theorem Exclusive.finishRequests {ids : List ReqId} {status : RequestStatus} (h : Exclusive p s)
    (hsound : s.Sound p) (hs : s.finishRequests p ids status = .ok s') : Exclusive p s' := by
  obtain ⟨-, ho⟩ := Scheduler.finishRequests_onward hsound.wf hs
  exact h.onward (fun id hid => ((ho.running id).mp hid).1)
    (Scheduler.finishRequests_keepsBlocks hsound hs)
    fun id r hr => ⟨r, finishRequests_later hsound.wf hs hr, Nat.le_refl _⟩

theorem Exclusive.addRequest (h : Exclusive p s) (hw : s.WF p) {r : Request}
    (hid : r.requestId ∉ s.requests.keys) : Exclusive p (s.addRequest r) := by
  refine h.step fun x hx rx j b hrx hj => ?_
  obtain ⟨rfl, -⟩ | ⟨-, hrx⟩ := Scheduler.addRequest_get? hrx
  · exact absurd ((hw.known _).mpr (Or.inl hx)) hid
  · exact Or.inr (Or.inr ⟨hx, hj, rx, hrx, Nat.le_refl _⟩)

theorem Exclusive.resetPrefixCache (h : Exclusive p s) : Exclusive p (s.resetPrefixCache p) :=
  h.onward (fun _ hid => hid) (Scheduler.resetPrefixCache_keepsBlocks p s)
    fun _ r hr => ⟨r, hr, Nat.le_refl _⟩

end

end SpaceServe
