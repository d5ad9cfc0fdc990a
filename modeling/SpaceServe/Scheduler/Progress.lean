import SpaceServe.Scheduler.Preemptions
import SpaceServe.Scheduler.Slots

/-!
# Progress

When does a call of `schedule` schedule a token? The first request that is looked at gets its blocks
if the pool can hold one request at all, as every request behind it may be preempted. It may have to
wait for slots of the encoder cache: then some request holds inputs that are still ahead of it, and
that one can go on, unless it is preempted.

* `tryScheduleEncoderInputs_zero`: the input that a request waits for;
* `Accounted.not_refused`: a request alone in the pool gets its blocks;
* `allocLoop_refused`: who is preempted when a request gets no blocks;
* `Idle`, `AtRunning.idle`: the rounds of a call that schedules nothing;
* **`schedule_progress`**: a call that preempts no request with inputs in the encoder cache schedules
  a token.
-/

set_option autoImplicit false

namespace SpaceServe

open Py KVCacheManager

/-! ## Encoder inputs -/

section Inputs

variable {available : ReqId → ℕ → Bool} {s : Scheduler} {r : Request} {nc : ℕ}

/-- Inputs that begin after the computed tokens leave tokens to compute. -/
theorem encoderLoop_pos : ∀ {poss : List PlaceholderRange} {i : ℕ} {inputs inputs' : List ℕ}
    {n eb n' eb' : ℤ}, (∀ pos ∈ poss, nc < pos.offset) → 0 < n →
    s.encoderLoop available r nc poss i inputs n eb = .ok (inputs', n', eb') → 0 < n'
  | [], _, _, _, _, _, _, _, _, hn, h => by
    cases h
    exact hn
  | pos :: rest, i, inputs, inputs', n, eb, n', eb', hpos, hn, h => by
    have hrest : ∀ pos ∈ rest, nc < pos.offset := fun pos hp => hpos pos (List.mem_cons_of_mem _ hp)
    obtain ⟨-, rfl, -⟩ | ⟨-, h⟩ | ⟨-, -, rfl, -⟩ | ⟨-, -, -, -, -, -, h⟩ := encoderLoop_cons h
    · exact hn
    · exact encoderLoop_pos hrest hn h
    · have := hpos pos List.mem_cons_self
      unfold Scheduler.tokensBefore
      split_ifs
      omega
    · exact encoderLoop_pos hrest hn h

/-- What a request waits for that gets no tokens: an input that covers its next token, is not in the
encoder cache, and does not fit, is over the budget or has no result. -/
theorem encoderLoop_zero : ∀ {poss : List PlaceholderRange} {i : ℕ} {inputs inputs' : List ℕ}
    {n eb eb' : ℤ}, WellPlaced poss → 0 < n →
    s.encoderLoop available r nc poss i inputs n eb = .ok (inputs', 0, eb') →
    ∃ k pos, poss[k]? = some pos ∧ pos.offset ≤ nc ∧ nc < pos.offset + pos.length ∧
      i + k ∉ s.encoderCacheManager.getCachedInputIds r.requestId ∧
      (s.encoderCacheManager.canAllocate r (i + k) = .ok false ∨ eb < pos.length ∨
        available r.requestId (i + k) = false)
  | [], _, _, _, _, _, _, _, hn, h => by
    cases h
    omega
  | pos :: rest, i, inputs, inputs', n, eb, eb', hwell, hn, h => by
    obtain ⟨hwell', hafter⟩ := hwell.tail
    -- once an input is passed that covers the next token, the others begin later
    have hlater : ¬ pos.offset + pos.length ≤ nc → ∀ pos' ∈ rest, nc < pos'.offset := by
      intro hnot pos' hpos'
      have := hafter pos' hpos'
      omega
    obtain ⟨-, h0, -⟩ | ⟨hskip, h⟩ | ⟨-, -, h0, hwhy, hnot, hno⟩ | ⟨-, hnot, -, -, -, -, h⟩ :=
      encoderLoop_cons h
    · omega
    · by_cases hbehind : pos.offset + pos.length ≤ nc
      · obtain ⟨k, pos', hk, h1, h2, h3, h4⟩ := encoderLoop_zero hwell' hn h
        have hki : i + (k + 1) = i + 1 + k := by omega
        exact ⟨k + 1, pos', hk, h1, h2, hki ▸ h3, hki ▸ h4⟩
      · exact absurd (encoderLoop_pos (hlater hbehind) hn h) (by omega)
    · refine ⟨0, pos, rfl, ?_, by omega, ?_, hwhy⟩
      · unfold Scheduler.tokensBefore at h0
        split_ifs at h0 <;> omega
      · rw [Nat.add_zero, ← EncoderCacheManager.hasCache_iff, hno]
        exact Bool.noConfusion
    · exact absurd (encoderLoop_pos (hlater hnot) hn h) (by omega)

/-- **What a request waits for that gets no tokens.** -/
theorem tryScheduleEncoderInputs_zero {inputs : List ℕ} {n eb eb' : ℤ}
    (hwell : WellPlaced r.mmPositions) (hn : 0 < n)
    (h : s.tryScheduleEncoderInputs available r nc n eb = .ok (inputs, 0, eb')) :
    ∃ i pos, r.mmPositions[i]? = some pos ∧ pos.offset ≤ nc ∧ nc < pos.offset + pos.length ∧
      i ∉ s.encoderCacheManager.getCachedInputIds r.requestId ∧
      (s.encoderCacheManager.numFreeSlots < pos.length ∨ eb < pos.length ∨
        available r.requestId i = false) := by
  unfold Scheduler.tryScheduleEncoderInputs at h
  split_ifs at h
  · cases h
    omega
  · rw [bind_eq_ok] at h
    obtain ⟨_, -, h⟩ := h
    obtain ⟨i, pos, hi, h1, h2, h3, h4⟩ := encoderLoop_zero hwell hn h
    rw [Nat.zero_add] at h3 h4
    refine ⟨i, pos, hi, h1, h2, h3, h4.imp_left fun hcan => ?_⟩
    rw [EncoderCacheManager.canAllocate_eq _ hi, Except.ok.injEq, decide_eq_false_iff_not] at hcan
    omega

/-- The inputs that a request holds are ahead of its computed tokens, and it holds all inputs between
these and the last one it holds. -/
def HoldsAhead (m : EncoderCacheManager) (r : Request) (nc : ℕ) : Prop :=
  ∀ i ∈ m.getCachedInputIds r.requestId, ∃ pos, r.mmPositions[i]? = some pos ∧
    nc < pos.offset + pos.length ∧
    ∀ j pos', j < i → r.mmPositions[j]? = some pos' → nc < pos'.offset + pos'.length →
      j ∈ m.getCachedInputIds r.requestId

/-- The ranges of two inputs are in order. -/
theorem WellPlaced.le_of_lt {poss : List PlaceholderRange} (h : WellPlaced poss) {i j : ℕ}
    {pos pos' : PlaceholderRange} (hij : i < j) (hi : poss[i]? = some pos)
    (hj : poss[j]? = some pos') : pos.offset + pos.length ≤ pos'.offset := by
  obtain ⟨hi', rfl⟩ := List.getElem?_eq_some_iff.mp hi
  obtain ⟨hj', rfl⟩ := List.getElem?_eq_some_iff.mp hj
  exact List.pairwise_iff_getElem.mp h.1 i j hi' hj' hij

/-- **A request that holds inputs does not wait for others.** -/
theorem HoldsAhead.tryScheduleEncoderInputs_pos {inputs : List ℕ} {n eb n' eb' : ℤ}
    (hahead : HoldsAhead s.encoderCacheManager r nc) (hwell : WellPlaced r.mmPositions) (hn : 0 < n)
    (hne : s.encoderCacheManager.getCachedInputIds r.requestId ≠ [])
    (h : s.tryScheduleEncoderInputs available r nc n eb = .ok (inputs, n', eb')) : n' ≠ 0 := by
  rintro rfl
  obtain ⟨k, pos, hk, h1, h2, h3, -⟩ := tryScheduleEncoderInputs_zero hwell hn h
  obtain ⟨i, hi⟩ := List.exists_mem_of_ne_nil _ hne
  obtain ⟨pos', hi', h4, hbetween⟩ := hahead i hi
  obtain hlt | rfl | hlt := Nat.lt_trichotomy k i
  · exact h3 (hbetween k pos hlt hk h2)
  · exact h3 hi
  · have := hwell.le_of_lt hlt hi' hk
    omega

end Inputs

/-! ## Blocks -/

section Blocks

variable {p : KVCacheParams} {kv : KVCacheManager} {r : Request} {computed : List ℕ}

/-- What a request leaves of the pool when no other request holds blocks. -/
theorem KVCacheManager.Acc.le_free {free : List ℕ} (ha : Acc p kv [] free) {id : ReqId}
    (hother : ∀ id', id' ≠ id → kv.blocksOf id' = []) :
    p.numGpuBlocks ≤ free.length + (kv.blocksOf id).length := by
  have hsub : List.range p.numGpuBlocks ⊆ free ++ kv.blocksOf id := by
    intro b hb
    rw [List.mem_append]
    by_cases hmem : b ∈ kv.blocksOf id
    · exact Or.inr hmem
    · refine Or.inl ((ha.mem_free b).mpr ⟨List.mem_range.mp hb, ?_⟩)
      have hzero : kv.owned b = 0 := by
        rw [kv.owned_eq_zero]
        intro id'
        by_cases hid : id' = id
        · rw [hid]
          exact hmem
        · rw [hother id' hid]
          exact List.not_mem_nil
      rw [ha.refCnt b, hzero]
      rfl
  have := (List.subperm_of_subset List.nodup_range hsub).length_le
  rwa [List.length_range, List.length_append] at this

/-- **A request alone in the pool gets its blocks** if the pool can hold a request at all. -/
theorem KVCacheManager.Accounted.not_refused (ha : Accounted p kv) (hpool : p.maxNumBlocksPerReq ≤ p.numGpuBlocks)
    (hother : ∀ id, id ≠ r.requestId → kv.blocksOf id = []) {n : ℕ}
    (hlen : r.numComputedTokens + computed.length * p.blockSize + n ≤ p.maxModelLen)
    {kv' : KVCacheManager} {r' : Request} :
    kv.allocateSlots p r n computed ≠ .ok (none, kv', r') := by
  intro h
  obtain ⟨⟨free, ha⟩, -⟩ := ha
  obtain ⟨-, ⟨hlt, -⟩ | ⟨-, -, _, _, hc, -⟩⟩ := allocateSlots_eq_ok h
  · have hfree := ha.le_free hother
    have hnum := ha.num
    have hevict : kv.numEvictable computed ≤ computed.length := List.countP_le_length
    have hcdiv : cdiv (r.numComputedTokens + computed.length * p.blockSize + n) p.blockSize ≤
        p.maxNumBlocksPerReq :=
      (cdiv_le_iff p.blockSize_pos _ _).mpr
        (hlen.trans ((cdiv_le_iff p.blockSize_pos _ _).mp (Nat.le_refl _)))
    simp only [numMissingBlocks] at hlt
    omega
  · cases hc

end Blocks

/-! ## A call that schedules nothing -/

section Rounds

variable {p : SchedulerParams} {available : ReqId → ℕ → Bool} {s s' : Scheduler} {st st' : Scheduling}
  {id : ReqId}

/-- A request that gets no slots is preempted, after everyone behind it. -/
theorem allocLoop_refused (available : ReqId → ℕ → Bool) {n : ℕ} {done : List ReqId} :
    ∀ {fuel : ℕ} {st st' : Scheduling} {rest : List ReqId}, st.WF p →
      st.sched.running = done ++ id :: rest → (∀ x ∈ st.numScheduledTokens.keys, x ∈ done) →
      Scheduling.allocLoop p id n fuel st = .ok (none, st') →
      st'.sched.running = done ∧ ∃ st₁ request kv request', Moves p available st st₁ ∧
        SameLocal id st st₁ ∧ st₁.sched.running = done ++ [id] ∧
        st₁.sched.requests.get? id = some request ∧
        st₁.sched.kv.allocateSlots p.kv request n [] = .ok (none, kv, request')
  | 0, _, _, _, _, _, _, h => by cases h
  | fuel + 1, st, st', rest, hw, hrun, hdone, h => by
    rw [Scheduling.allocLoop, bind_eq_ok] at h
    obtain ⟨request, hreq, h⟩ := h
    rw [request_eq_ok] at hreq
    rw [bind_eq_ok] at h
    obtain ⟨⟨res, kv, request'⟩, halloc, h⟩ := h
    cases res with
    | some new => cases h
    | none =>
      obtain ⟨hm₁, hs₁, hr₁, -⟩ := refused available hw hreq halloc
      simp only [bind_eq_ok] at h
      obtain ⟨⟨id', st₂⟩, hp, h⟩ := h
      have hw₁ := hm₁.wf hw
      obtain ⟨hm₂, -, hrest⟩ := preempted_move available hw₁ (hr₁.trans hrun)
        (by rw [hs₁.tokens]; exact hdone) hp
      by_cases hid : id' = id
      · rw [if_pos hid] at h
        cases h
        obtain ⟨_, _, hlast, -, -, rfl⟩ := preemptLast_eq_ok hp
        -- the request is the last one: it is in `running` once
        have hnil : rest = [] := by
          by_contra hne
          have hnd := hw.sched.running_nodup
          rw [hrun] at hnd
          rw [hr₁, hrun, List.getLast?_append_of_ne_nil _ (List.cons_ne_nil _ _),
            List.getLast?_cons_of_ne_nil hne, hid] at hlast
          exact (List.nodup_cons.mp (List.nodup_append.mp hnd).2.1).1 (List.mem_of_getLast? hlast)
        subst hnil
        refine ⟨?_, st, request, kv, request', Relation.ReflTransGen.refl,
          ⟨rfl, rfl, rfl, rfl, rfl⟩, hrun, hreq, halloc⟩
        change (st.put kv id request').sched.running.dropLast = done
        rw [hr₁, hrun, List.dropLast_concat]
      · rw [if_neg hid] at h
        obtain ⟨hs₂, rest', hrun₂, -⟩ := hrest hid
        have hs := hs₁.trans hs₂
        obtain ⟨hdone', st₃, r₃, kv₃, r₃', hm₃, hs₃, h₃⟩ := allocLoop_refused available
          (hm₂.wf hw₁) hrun₂ (by rw [hs.tokens]; exact hdone) h
        refine ⟨hdone', st₃, r₃, kv₃, r₃', ?_, hs.trans hs₃, h₃⟩
        exact ((Relation.ReflTransGen.single hm₁).tail hm₂).trans hm₃

/-- A request that a move takes out of `running` is preempted, and tokens that were granted stay. -/
theorem Move.running_or_preempted (hm : Move p available st st') :
    (∀ x, x ∈ st.sched.running ∨ x ∈ st.preemptedReqs →
      x ∈ st'.sched.running ∨ x ∈ st'.preemptedReqs) ∧
      ∀ x ∈ st.numScheduledTokens.keys, x ∈ st'.numScheduledTokens.keys := by
  cases hm with
  | reserve => exact ⟨fun _ hx => hx, fun _ hx => hx⟩
  | preempt hrun =>
    refine ⟨fun x hx => ?_, fun _ hx => hx⟩
    simp only [Scheduling.preempt, hrun, List.dropLast_concat, List.mem_append,
      List.mem_singleton] at hx ⊢
    tauto
  | grant _ _ _ _ _ _ _ hst =>
    obtain ⟨ecm, -, rfl⟩ := scheduleRunning_eq_ok hst
    exact ⟨fun _ hx => hx, fun x hx => (Dict.mem_keys_set _ _ _ _).mpr (Or.inr hx)⟩
  | lookup _ hc =>
    obtain ⟨_, _, -, -, rfl, -⟩ := cachedPrefix_eq_ok hc
    exact ⟨fun _ hx => hx, fun _ hx => hx⟩
  | enter _ _ _ hc _ _ _ _ hst =>
    obtain ⟨_, _, -, -, rfl, -⟩ := cachedPrefix_eq_ok hc
    obtain ⟨-, ecm, -, rfl⟩ := scheduleWaiting_eq_ok hst
    exact ⟨fun _ hx => hx.imp_left (List.mem_append_left _),
      fun x hx => (Dict.mem_keys_set _ _ _ _).mpr (Or.inr hx)⟩

theorem Moves.running_or_preempted (hm : Moves p available st st') :
    (∀ x ∈ st.sched.running, x ∈ st'.sched.running ∨ x ∈ st'.preemptedReqs) ∧
      ∀ x ∈ st.numScheduledTokens.keys, x ∈ st'.numScheduledTokens.keys := by
  refine hm.invariant (P := fun st₁ =>
    (∀ x ∈ st.sched.running, x ∈ st₁.sched.running ∨ x ∈ st₁.preemptedReqs) ∧
      ∀ x ∈ st.numScheduledTokens.keys, x ∈ st₁.numScheduledTokens.keys) ?_
    ⟨fun _ hx => Or.inl hx, fun _ hx => hx⟩
  rintro st₁ st₂ ⟨h1, h2⟩ hm₁
  obtain ⟨h3, h4⟩ := hm₁.running_or_preempted
  exact ⟨fun x hx => h3 x (h1 x hx), fun x hx => h4 x (h2 x hx)⟩

/-- A round that takes a request grants it tokens. -/
theorem tryRunning_keys {inputs : List ℕ} {n eb : ℤ}
    (h : st.tryRunning p id inputs n eb = .ok (true, st')) : st'.numScheduledTokens.keys ≠ [] := by
  unfold Scheduling.tryRunning at h
  rw [bind_eq_ok] at h
  obtain ⟨⟨res, st₁⟩, -, h⟩ := h
  cases res with
  | none => cases h
  | some new =>
    simp only [bind_eq_ok] at h
    obtain ⟨st₂, hst, h⟩ := h
    cases h
    unfold Scheduling.scheduleRunning at hst
    rw [bind_eq_ok] at hst
    obtain ⟨r, -, hst⟩ := hst
    obtain ⟨ecm, -, rfl⟩ := record_eq_ok hst
    exact List.ne_nil_of_mem ((Dict.mem_keys_set _ _ _ _).mpr (Or.inl rfl))

/-- A call that has granted no tokens has passed all requests it looked at. -/
theorem AtRunning.idle {i : ℕ} (hat : AtRunning p available s i st)
    (hidle : st.numScheduledTokens.keys = []) : st = Scheduling.start p s ∧
      ∀ j < i, ∃ id r inputs eb, RunningLook available j (Scheduling.start p s) id r inputs 0 eb := by
  have hind : ∀ x : ℕ × Scheduling,
      Relation.ReflTransGen (RunningRound p available) (0, Scheduling.start p s) x →
      x.2.numScheduledTokens.keys = [] → x.2 = Scheduling.start p s ∧ ∀ j < x.1,
        ∃ id r inputs eb, RunningLook available j (Scheduling.start p s) id r inputs 0 eb := by
    intro x hx
    induction hx with
    | refl => exact fun _ => ⟨rfl, fun j hj => absurd hj (Nat.not_lt_zero j)⟩
    | tail _ hr ih =>
      intro hidle
      cases hr with
      | pass hlook =>
        obtain ⟨hst, hall⟩ := ih hidle
        cases hst
        refine ⟨rfl, fun j hj => ?_⟩
        obtain hj | rfl := Nat.lt_succ_iff_lt_or_eq.mp hj
        · exact hall j hj
        · exact ⟨_, _, _, _, hlook⟩
      | take _ _ htry => exact absurd hidle (tryRunning_keys htry)
  exact hind (i, st) hat hidle

end Rounds

/-! ## Progress -/

section Progress

variable {p : SchedulerParams} {available : ReqId → ℕ → Bool} {s s' : Scheduler}

/-- A scheduler can serve a request at all: it may run one, schedules tokens, and the pool can hold a
request of the greatest length. -/
structure Ample (p : SchedulerParams) : Prop where
  seqs : 0 < p.maxNumRunningReqs
  budget : 0 < p.maxNumScheduledTokens
  pool : p.kv.maxNumBlocksPerReq ≤ p.kv.numGpuBlocks

/-- The requests are of admissible length, each of their inputs fits the budget and the cache, the
running ones hold inputs ahead of them, and the waiting ones hold none. -/
structure Servable (p : SchedulerParams) (s : Scheduler) : Prop where
  len : ∀ id r, s.requests.get? id = some r → r.numTokens ≤ p.kv.maxModelLen
  placed : ∀ id r, s.requests.get? id = some r → WellPlaced r.mmPositions
  fits : ∀ id r, s.requests.get? id = some r → ∀ pos ∈ r.mmPositions,
    pos.length ≤ p.maxNumEncoderInputTokens ∧ pos.length ≤ p.encoderCacheSize
  ahead : ∀ id r, s.requests.get? id = some r →
    HoldsAhead s.encoderCacheManager r r.numComputedTokens
  waiting : ∀ id ∈ s.waiting, s.encoderCacheManager.getCachedInputIds id = []

/-- All inputs of all requests have results. -/
def AllAvailable (available : ReqId → ℕ → Bool) (s : Scheduler) : Prop :=
  ∀ id r i pos, s.requests.get? id = some r → r.mmPositions[i]? = some pos → available id i = true

/-- Where a call of `schedule` has to preempt the last running request, this has no inputs in the
encoder cache. -/
def SparesHolders (p : SchedulerParams) (available : ReqId → ℕ → Bool) (s : Scheduler) : Prop :=
  ∀ st, AtPreemption p available s st → ∀ victim, st.sched.running.getLast? = some victim →
    s.encoderCacheManager.getCachedInputIds victim = []

/-- Whoever is preempted has no inputs in the encoder cache. -/
theorem SparesHolders.preempted (h : SparesHolders p available s) {st : Scheduling}
    (hl : Scheduling.loops p available s = .ok st) :
    ∀ id ∈ st.preemptedReqs, s.encoderCacheManager.getCachedInputIds id = [] :=
  loops_preempts (P := fun x => s.encoderCacheManager.getCachedInputIds x = []) hl h

/-- So it is if the blocks suffice for all running requests. -/
theorem SparesHolders.of_suffices (h : (Scheduling.loops p available s).toOption.any
    (fun st => st.preemptedReqs.isEmpty) = true) : SparesHolders p available s := by
  obtain ⟨st', hl, hnone⟩ := exists_ok_of_any h
  exact fun st hat => absurd (List.isEmpty_iff.mp hnone) (hat.preempts hl)

/-- If a request waits for slots, some request has inputs in the encoder cache. -/
theorem Servable.exists_holder (h : Servable p s) (hw : s.WF p) (hs : SlotsInv p s)
    (hav : AllAvailable available s) {id : ReqId} {r r' : Request}
    (hr : s.requests.get? id = some r) (hr' : r'.requestId = r.requestId ∧
      r'.mmPositions = r.mmPositions) {nc : ℕ} {n eb' : ℤ} {inputs : List ℕ} (hn : 0 < n)
    (htry : s.tryScheduleEncoderInputs available r' nc n p.maxNumEncoderInputTokens =
      .ok (inputs, 0, eb')) : ∃ x, s.encoderCacheManager.getCachedInputIds x ≠ [] := by
  have hid := hw.requestId id r hr
  obtain ⟨i, pos, hi, -, -, -, hwhy⟩ := tryScheduleEncoderInputs_zero
    (hr'.2 ▸ h.placed id r hr) hn htry
  rw [hr'.2] at hi
  obtain ⟨hfit₁, hfit₂⟩ := h.fits id r hr pos (List.mem_of_getElem? hi)
  by_contra hnone
  have hzero : s.encoderCacheManager.slotsHeld s.inputLength = 0 :=
    EncoderCacheManager.slotsHeld_eq_zero fun x => by_contra fun hx => hnone ⟨x, hx⟩
  have hslots := hs.balanced.slots
  obtain hwhy | hwhy | hwhy := hwhy
  · omega
  · omega
  · rw [hr'.1, hid, hav id r i pos hr hi] at hwhy
    cases hwhy

/-- The loop over `running` of a call that schedules nothing passes every running request. -/
theorem running_progress (hp : Ample p) (hw : s.WF p) (hb : BlocksInv p s fun _ => 0)
    (hs : SlotsInv p s) (h : Servable p s) (hav : AllAvailable available s)
    (hne : s.running ≠ []) {i : ℕ} {st : Scheduling}
    (hat : AtRunning p available s i (Scheduling.start p s))
    (hall : ∀ j < i, ∃ id r inputs eb,
      RunningLook available j (Scheduling.start p s) id r inputs 0 eb)
    (hend : RunningEnd p available (i, Scheduling.start p s) st)
    (hpre : ∀ id ∈ st.preemptedReqs, s.encoderCacheManager.getCachedInputIds id = []) : False := by
  have hstart := Scheduling.WF.start hw
  obtain ⟨first, tail, hrun⟩ := List.exists_cons_of_ne_nil hne
  obtain ⟨hm₀, -, before, after, hpassed⟩ := hat.moves hw
  -- a running request that holds inputs is not passed
  have hholder : ∀ (j : ℕ) (id : ReqId), s.running[j]? = some id →
      s.encoderCacheManager.getCachedInputIds id ≠ [] → i ≤ j := by
    intro j id hj hne
    by_contra hlt
    obtain ⟨id', r, inputs, eb, hlook⟩ := hall j (by omega)
    have he := hlook.here
    change s.running[j]? = some id' at he
    rw [hj] at he
    cases he
    have hid := hw.requestId id r hlook.known
    exact (h.ahead id r hlook.known).tryScheduleEncoderInputs_pos (h.placed id r hlook.known)
      hlook.behind (hid.symm ▸ hne) hlook.tries rfl
  -- if the first request is passed, some running request holds inputs
  have hwaits : 0 < i → ∃ (j : ℕ) (id : ReqId), s.running[j]? = some id ∧
      s.encoderCacheManager.getCachedInputIds id ≠ [] := by
    intro hi
    obtain ⟨id, r, inputs, eb, hlook⟩ := hall 0 hi
    obtain ⟨x, hx⟩ := h.exists_holder hw hs hav hlook.known ⟨rfl, rfl⟩ hlook.behind hlook.tries
    obtain ⟨k, hk⟩ := List.exists_mem_of_ne_nil _ hx
    obtain hmem | hmem := (hw.known x).mp (hs.known x k hk)
    · obtain ⟨j, hj⟩ := List.getElem?_of_mem hmem
      exact ⟨j, x, hj, hx⟩
    · exact absurd (h.waiting x hmem) hx
  obtain ⟨hout, -⟩ := (hend.moves hstart hpassed).running_or_preempted
  cases hend with
  | ended hover =>
    obtain hover | hover := hover
    · change s.running[i]? = none at hover
      have hlen := List.getElem?_eq_none_iff.mp hover
      have hi : 0 < i := by
        rw [hrun, List.length_cons] at hlen
        omega
      obtain ⟨j, id, hj, hx⟩ := hwaits hi
      have hij := hholder j id hj hx
      have := (List.getElem?_eq_some_iff.mp hj).1
      omega
    · have hbudget := hp.budget
      change (p.maxNumScheduledTokens : ℤ) ≤ 0 at hover
      omega
  | @preempted _ _ _ id r inputs n eb hlook hn htry =>
    obtain ⟨rest, hrest⟩ := hpassed.look hlook.here
    unfold Scheduling.tryRunning at htry
    rw [bind_eq_ok] at htry
    obtain ⟨⟨res, st₂⟩, hal, htry⟩ := htry
    cases res with
    | some new =>
      simp only [bind_eq_ok] at htry
      obtain ⟨_, -, htry⟩ := htry
      cases htry
    | none =>
      cases htry
      obtain ⟨hrun₂, st₁, r₁, kv, r', hm₁, hsame, hrun₁, hr₁, halloc⟩ :=
        allocLoop_refused available hstart hrest hpassed.scheduled hal
      obtain rfl | hi := Nat.eq_zero_or_pos i
      · -- the first request has the pool to itself
        obtain rfl : before = [] := List.eq_nil_of_length_eq_zero hpassed.length
        have hb₁ := (hm₁.blocksInv hstart hb).1
        obtain rfl : r = r₁ := Option.some.inj
          ((hlook.known.symm.trans hsame.request.symm).trans hr₁)
        have hid := hw.requestId id r hlook.known
        have hother : ∀ x, x ≠ r.requestId → st₁.sched.kv.blocksOf x = [] := by
          intro x hx
          refine hb₁.idle x ?_
          rw [hrun₁, hid.symm]
          simpa using hx
        have hlen := h.len id r hlook.known
        have hle := tryScheduleEncoderInputs_le (Int.le_of_lt hlook.behind) hlook.tries
        refine hb₁.accounted.not_refused hp.pool hother ?_ halloc
        rw [List.length_nil, Nat.zero_mul]
        omega
      · -- the request that holds inputs is behind, and preempted
        obtain ⟨j, x, hj, hx⟩ := hwaits hi
        have hij := hholder j x hj hx
        change s.running = before ++ id :: rest at hrest
        rw [hrest, List.getElem?_append_right (by rw [hpassed.length]; exact hij)] at hj
        have hmem : x ∈ id :: rest := List.mem_of_getElem? hj
        have hnot : x ∉ before := by
          intro hbefore
          have hnd := hw.running_nodup
          rw [hrest] at hnd
          exact (List.nodup_append.mp hnd).2.2 x hbefore x hmem rfl
        obtain hc | hc := hout x (by
          change x ∈ s.running
          rw [hrest]
          exact List.mem_append_right _ hmem)
        · rw [hrun₂] at hc
          exact hnot hc
        · exact hx (hpre x hc)

/-- When nothing is running, the first waiting request is taken. -/
theorem waiting_progress (hp : Ample p) (hw : s.WF p) (hb : BlocksInv p s fun _ => 0)
    (hs : SlotsInv p s) (h : Servable p s) (hav : AllAvailable available s)
    (hrun : s.running = []) (hne : s.waiting ≠ []) {st : Scheduling} :
    ¬ WaitingEnd p available (Scheduling.start p s) st := by
  intro hend
  cases hend with
  | ended hover =>
    have hbudget := hp.budget
    have hseqs := hp.seqs
    obtain hover | hover | hover := hover
    · exact hne hover
    · change (p.maxNumScheduledTokens : ℤ) ≤ 0 at hover
      omega
    · change s.running.length = p.maxNumRunningReqs at hover
      rw [hrun, List.length_nil] at hover
      omega
  | pass hlook =>
    have htry := hlook.tries_before
    have hbehind := hlook.behind
    obtain ⟨-, hbud, -⟩ := cachedPrefix_local hlook.lookup
    rw [hbud] at hbehind
    obtain ⟨r₀, _, hr₀, -, -, -, -, hash, rfl⟩ := cachedPrefix_eq_ok hlook.lookup
    obtain ⟨x, hx⟩ := h.exists_holder hw hs hav hr₀
      (show (r₀.setKvBlockHashes hash).requestId = _ ∧ _ from ⟨rfl, rfl⟩) hbehind htry
    obtain ⟨k, hk⟩ := List.exists_mem_of_ne_nil _ hx
    obtain hmem | hmem := (hw.known x).mp (hs.known x k hk)
    · rw [hrun] at hmem
      cases hmem
    · exact hx (h.waiting x hmem)
  | @refused _ id rest computed nc request request' inputs n eb kv hlook hn halloc =>
    have hbehind := hlook.behind
    have hle := tryScheduleEncoderInputs_le (Int.le_of_lt hbehind) hlook.tries
    obtain ⟨r₀, bs, hr₀, -, rfl, -, hnc, hash, rfl⟩ := cachedPrefix_eq_ok hlook.lookup
    change s.requests.get? id = some r₀ at hr₀
    have hlen : r₀.numTokens ≤ p.kv.maxModelLen := h.len id r₀ hr₀
    have hwait : id ∈ s.waiting := by
      have hhere : s.waiting = id :: rest := hlook.here
      rw [hhere]
      exact List.mem_cons_self
    have hzero : r₀.numComputedTokens = 0 := (hw.waiting id r₀ hwait hr₀).2
    have htokens : (r₀.setKvBlockHashes hash).numTokens = r₀.numTokens := rfl
    have hother : ∀ x, x ≠ (r₀.setKvBlockHashes hash).requestId → s.kv.blocksOf x = [] :=
      fun x _ => hb.idle x (by rw [hrun]; exact List.not_mem_nil)
    refine hb.accounted.not_refused hp.pool hother ?_ halloc
    change r₀.numComputedTokens + computed.length * p.kv.blockSize + n.toNat ≤ p.kv.maxModelLen
    omega

/-- **Progress.** A call of `schedule` that preempts no request with inputs in the encoder cache
schedules a token. -/
theorem schedule_progress (hp : Ample p) (hw : s.WF p) (hb : BlocksInv p s fun _ => 0)
    (hs : SlotsInv p s) (h : Servable p s) (hav : AllAvailable available s)
    (hpre : SparesHolders p available s) (hne : s.running ++ s.waiting ≠ []) {out : SchedulerOutput}
    (hsched : s.schedule p available = .ok (out, s')) : 0 < out.totalNumScheduledTokens := by
  obtain ⟨st₀, st, _, _, _, hl, heq, hm, -, -, -, htotal, -⟩ := schedule_eq_ok hw hsched
  rw [htotal]
  by_contra hzero
  have hidle : st₀.numScheduledTokens.keys = [] := by
    have htokens : st.numScheduledTokens = st₀.numScheduledTokens := by rw [heq]
    rw [← htokens, List.eq_nil_iff_forall_not_mem]
    intro id hid
    obtain ⟨n, hn⟩ := Dict.exists_get?_of_mem hid
    have hpos := hm.tokens_pos id n hn
    have hle := Dict.le_total (fun n => n) hn
    unfold Scheduling.totalTokens at hzero
    omega
  obtain ⟨i, st₁, st₂, hat, hend, hcase⟩ := loops_rounds hl
  have hidle₂ : st₂.numScheduledTokens.keys = [] ∧ (∀ id ∈ st₂.preemptedReqs,
      s.encoderCacheManager.getCachedInputIds id = []) ∧
      (st₂.preemptedReqs = [] → WaitingEnd p available st₂ st₀) := by
    obtain ⟨hpre₂, rfl⟩ | ⟨hpre₂, st₃, hrounds, hend'⟩ := hcase
    · exact ⟨hidle, hpre.preempted hl, fun hc => absurd hc hpre₂⟩
    · have hidle₃ : st₃.numScheduledTokens.keys = [] := by
        cases hend' with
        | ended => exact hidle
        | pass hlook =>
          obtain ⟨_, _, -, -, rfl, -⟩ := cachedPrefix_eq_ok hlook.lookup
          exact hidle
        | refused hlook =>
          obtain ⟨_, _, -, -, rfl, -⟩ := cachedPrefix_eq_ok hlook.lookup
          exact hidle
      obtain rfl | ⟨st₄, -, hr⟩ := Relation.ReflTransGen.cases_tail hrounds
      · refine ⟨hidle₃, fun x hx => ?_, fun _ => hend'⟩
        rw [hpre₂] at hx
        cases hx
      · cases hr with
        | take _ _ _ hst =>
          obtain ⟨-, ecm, -, rfl⟩ := scheduleWaiting_eq_ok hst
          refine absurd hidle₃ (List.ne_nil_of_mem ((Dict.mem_keys_set _ _ _ _).mpr (Or.inl rfl)))
  obtain ⟨hidle₂, hpre₂, hwait⟩ := hidle₂
  obtain ⟨-, hw₁, before, after, hpassed⟩ := hat.moves hw
  have hidle₁ : st₁.numScheduledTokens.keys = [] := by
    rw [List.eq_nil_iff_forall_not_mem]
    intro x hx
    have := (hend.moves hw₁ hpassed).running_or_preempted.2 x hx
    rw [hidle₂] at this
    cases this
  obtain ⟨rfl, hall⟩ := hat.idle hidle₁
  by_cases hrun : s.running = []
  · have hnone : ∀ j : ℕ, (Scheduling.start p s).sched.running[j]? = none := by
      intro j
      change s.running[j]? = none
      rw [hrun]
      rfl
    cases hend with
    | ended =>
      refine waiting_progress hp hw hb hs h hav hrun ?_ (hwait rfl)
      rwa [hrun, List.nil_append] at hne
    | preempted hlook =>
      have := hlook.here
      rw [hnone] at this
      cases this
  · exact running_progress hp hw hb hs h hav hrun hat hall hend hpre₂

end Progress

end SpaceServe
