import SpaceServe.Scheduler.Blocks
import SpaceServe.Scheduler.Inputs

/-!
# What a scheduling step can raise

The loops of `schedule` end, and nothing in it raises but `allocate_slots` and the lookup of a cached
prefix, each for a reason that lies in one request.

* `tryScheduleEncoderInputs_returns`: the encoder inputs;
* `Excuses`: some request is a reason to raise;
* `allocLoop_raises`, `runningLoop_raises`, `waitingLoop_raises`, `loops_raises`;
* `Scheduling.WF.checks`, `Scheduling.WF.output`: the end of a step never raises;
* **`schedule_raises`**, **`BlocksInv.schedule`**: a call of `schedule`.
-/

set_option autoImplicit false

namespace SpaceServe

open Py KVCacheManager

/-! ## Encoder inputs -/

section Encoder

variable {available : ReqId → ℕ → Bool} {s : Scheduler} {r : Request} {nc : ℕ}

theorem encoderLoop_returns : ∀ (poss : List PlaceholderRange) (i : ℕ) (inputs : List ℕ) (n eb : ℤ),
    (∀ k pos, poss[k]? = some pos → r.mmPositions[i + k]? = some pos) →
    ∃ res, s.encoderLoop available r nc poss i inputs n eb = .ok res
  | [], _, _, _, _, _ => ⟨_, rfl⟩
  | pos :: rest, i, inputs, n, eb, h => by
    have hrest : ∀ k pos', rest[k]? = some pos' → r.mmPositions[i + 1 + k]? = some pos' := by
      intro k pos' hk
      have := h (k + 1) pos' hk
      rwa [Nat.add_right_comm, Nat.add_assoc]
    have hpos : r.mmPositions[i]? = some pos := h 0 pos rfl
    rw [Scheduler.encoderLoop, EncoderCacheManager.canAllocate_eq _ hpos, ok_bind]
    split_ifs
    · exact ⟨_, rfl⟩
    · exact encoderLoop_returns rest (i + 1) inputs n eb hrest
    · exact encoderLoop_returns rest (i + 1) inputs n eb hrest
    · exact ⟨_, rfl⟩
    · exact ⟨_, rfl⟩
    · exact encoderLoop_returns rest (i + 1) _ n _ hrest

variable (available s r nc) in
/-- `_try_schedule_encoder_inputs` returns. -/
theorem tryScheduleEncoderInputs_returns (n eb : ℤ) : ∃ inputs n' eb',
    s.tryScheduleEncoderInputs available r nc n eb = .ok (inputs, n', eb') := by
  unfold Scheduler.tryScheduleEncoderInputs
  split_ifs with htext
  · exact ⟨_, _, _, rfl⟩
  · have hpos : 0 < r.mmPositions.length := by
      rw [← r.mmInputs_length, List.length_pos_iff]
      simpa [Request.hasEncoderInputs] using htext
    obtain ⟨⟨inputs, n', eb'⟩, hres⟩ := encoderLoop_returns (s := s) (r := r)
      r.mmPositions 0 [] n eb fun k pos hk => by rw [Nat.zero_add]; exact hk
    rw [assert_of hpos, ok_bind, hres]
    exact ⟨_, _, _, rfl⟩

end Encoder

/-! ## The loops -/

section Loops

variable {p : SchedulerParams} {available : ReqId → ℕ → Bool} {id : ReqId} {r : Request}

/-- Some request is a reason to raise. -/
def Excuses (p : SchedulerParams) (s : Scheduler) (e : Exn) : Prop :=
  ∃ id r, s.requests.get? id = some r ∧ Excused p.kv r e

/-- Moves give no new reasons to raise. -/
theorem Moves.excuses {st st' : Scheduling} (hm : Moves p available st st') (hw : st.WF p)
    (h : BlocksInv p st.sched st.got) {e : Exn} (he : Excuses p st'.sched e) :
    Excuses p st.sched e := by
  obtain ⟨id, r', hr', hex⟩ := he
  obtain ⟨r, hr, hres⟩ := (hm.blocksInv hw h).2 id r' hr'
  exact ⟨id, r, hr, hres.excused hex⟩

theorem Move.excuses {st st' : Scheduling} (hm : Move p available st st') (hw : st.WF p)
    (h : BlocksInv p st.sched st.got) {e : Exn} (he : Excuses p st'.sched e) :
    Excuses p st.sched e :=
  Moves.excuses (Relation.ReflTransGen.single hm) hw h he

/-- The last running request can be preempted. -/
theorem preemptLast_returns {st : Scheduling} (hw : st.WF p) (h : BlocksInv p st.sched st.got)
    (hne : st.sched.running ≠ []) : ∃ id' st', st.preemptLast p = .ok (id', st') := by
  obtain ⟨id', hlast⟩ := Option.ne_none_iff_exists'.mp
    (fun e => hne (List.getLast?_eq_none_iff.mp e) : st.sched.running.getLast? ≠ none)
  obtain ⟨r', hr'⟩ := hw.sched.get?_of_running (List.mem_of_getLast? hlast)
  obtain ⟨⟨free, ha⟩, -⟩ := h.accounted
  obtain ⟨kv, -, hfree, -⟩ := ha.free r'
  refine ⟨id', st.preempt id' r' kv, ?_⟩
  unfold Scheduling.preemptLast
  rw [hlast, ofOption_some, ok_bind, request_eq_ok.mpr hr', ok_bind, hfree, ok_bind]

/-- **The preemption loop ends**: every round takes one request from behind the current one. -/
theorem allocLoop_raises {done : List ReqId} {n : ℕ} (hn : 0 < n) :
    ∀ {fuel : ℕ} {st : Scheduling} {rest : List ReqId}, st.WF p → BlocksInv p st.sched st.got →
      st.sched.running = done ++ id :: rest → (∀ x ∈ st.numScheduledTokens.keys, x ∈ done) →
      st.sched.requests.get? id = some r → r.numComputedTokens + n ≤ r.numTokens →
      rest.length < fuel →
      RaisesOnly (Excuses p st.sched) (Scheduling.allocLoop p id n fuel st)
  | 0, _, _, _, _, _, _, _, _, hf => by omega
  | fuel + 1, st, rest, hw, h, hrun, hdone, hr, hle, hf => by
    have hid : id ∈ st.sched.running := by rw [hrun]; simp
    obtain ⟨k, hoff⟩ := h.offered_running hw.sched hid hr hn hle
    rw [Scheduling.allocLoop, request_eq_ok.mpr hr, ok_bind]
    refine RaisesOnly.bind ?_ ?_
    · intro e he
      obtain ⟨h1, -⟩ | ⟨new, kv', r', h1, -⟩ | ⟨e', h1, hex⟩ := allocateSlots_filed h.accounted hoff
      · rw [he] at h1
        cases h1
      · rw [he] at h1
        cases h1
      · rw [he] at h1
        cases h1
        exact ⟨id, r, hr, hex⟩
    rintro ⟨res, kv, r'⟩ halloc
    cases res with
    | some new => exact RaisesOnly.ok _
    | none =>
      obtain ⟨hm₁, hs₁, hr₁, -⟩ := refused (fun _ _ => false) hw hr halloc
      have hw₁ := hm₁.wf hw
      have h₁ := (hm₁.blocksInv hw h).1
      simp only
      obtain ⟨id', st₂, hp⟩ := preemptLast_returns hw₁ h₁ (by rw [hr₁, hrun]; simp)
      rw [hp, ok_bind]
      simp only
      by_cases he : id' = id
      · rw [if_pos he]
        exact RaisesOnly.ok _
      · rw [if_neg he]
        obtain ⟨hm₂, -, hrest⟩ := preempted_move (fun _ _ => false) hw₁
          (hr₁.trans hrun) (by rw [hs₁.tokens]; exact hdone) hp
        obtain ⟨hs₂, rest', hrun₂, hlt⟩ := hrest he
        have ih : RaisesOnly _ (Scheduling.allocLoop p id n fuel st₂) :=
          allocLoop_raises hn (hm₂.wf hw₁) (hm₂.blocksInv hw₁ h₁).1 hrun₂
          (by rw [hs₂.tokens, hs₁.tokens]; exact hdone)
          (by rw [hs₂.request, hs₁.request]; exact hr) hle (by omega)
        exact ih.mono fun e he => hm₁.excuses hw h (hm₂.excuses hw₁ h₁ he)

theorem tryRunning_raises {st : Scheduling} {done rest : List ReqId} (hw : st.WF p)
    (h : BlocksInv p st.sched st.got) (hrun : st.sched.running = done ++ id :: rest)
    (hdone : ∀ x ∈ st.numScheduledTokens.keys, x ∈ done)
    (hr : st.sched.requests.get? id = some r) {inputs : List ℕ} {n : ℤ} (eb : ℤ) (hn : 0 < n)
    (hle : n ≤ (r.numTokens : ℤ) - r.numComputedTokens)
    (hin : ∀ i ∈ inputs, ∃ pos, r.mmPositions[i]? = some pos) :
    RaisesOnly (Excuses p st.sched) (Scheduling.tryRunning p st id inputs n eb) := by
  have hlen : st.sched.running.length = done.length + rest.length + 1 := by
    rw [hrun, List.length_append, List.length_cons]
    omega
  unfold Scheduling.tryRunning
  refine RaisesOnly.bind (allocLoop_raises (n := n.toNat) (by omega) hw h hrun hdone hr (by omega)
    (show rest.length < st.sched.running.length + 1 by omega)) ?_
  rintro ⟨res, st₁⟩ hal
  cases res with
  | none => exact RaisesOnly.ok _
  | some new =>
    obtain ⟨h1, -⟩ | ⟨new', st₂, rest', r₂, kv, r', h1, -, hsame, -, -, hr₂, hal₂, rfl⟩ :=
      allocLoop_moves (fun _ _ => false) hw hrun hdone hal
    · cases h1
    · obtain rfl : r = r₂ := Option.some.inj ((hr.symm.trans hsame.request.symm).trans hr₂)
      obtain ⟨hs, rfl⟩ := allocateSlots_request hal₂
      have hget : (st₂.put kv id (r.setKvBlockHashes hs)).sched.request id =
          .ok (r.setKvBlockHashes hs) := request_eq_ok.mpr (Dict.get?_set_self _ _ _)
      obtain ⟨ecm, hecm⟩ := EncoderCacheManager.foldlM_allocate_returns (r := r.setKvBlockHashes hs) hin
        st₂.sched.encoderCacheManager
      have hecm' : inputs.foldlM (fun m i => m.allocate (r.setKvBlockHashes hs) i)
          (({ st₂.put kv id (r.setKvBlockHashes hs) with
            scheduledRunningReqs := st₂.scheduledRunningReqs ++ [id] } : Scheduling).log
            [.taken new, .scheduled id (r.setKvBlockHashes hs).allTokenIds (kv.blocksOf id)
              r.numComputedTokens n.toNat]).sched.encoderCacheManager = .ok ecm := hecm
      simp only [Scheduling.scheduleRunning, hget, ok_bind, Scheduling.record]
      refine RaisesOnly.bind ?_ fun _ _ => RaisesOnly.ok _
      refine RaisesOnly.bind ?_ fun _ _ => RaisesOnly.ok _
      exact RaisesOnly.of_eq_ok hecm'

variable (available) in
/-- **The loop over the running requests ends.** -/
theorem runningLoop_raises : ∀ {fuel : ℕ} {st : Scheduling} {done rest : List ReqId}, st.WF p →
    BlocksInv p st.sched st.got → st.sched.running = done ++ rest →
    (∀ x ∈ st.numScheduledTokens.keys, x ∈ done) → rest.length ≤ fuel →
    RaisesOnly (Excuses p st.sched) (Scheduling.runningLoop p available fuel done.length st)
  | fuel, st, done, [], hw, h, hrun, hdone, hf => by
    unfold Scheduling.runningLoop
    have hnone : st.sched.running[done.length]? = none := by
      rw [hrun, List.append_nil]
      exact List.getElem?_eq_none (Nat.le_refl _)
    rw [hnone]
    exact RaisesOnly.ok _
  | 0, st, done, id :: rest, hw, h, hrun, hdone, hf => by simp at hf
  | fuel + 1, st, done, id :: rest, hw, h, hrun, hdone, hf => by
    unfold Scheduling.runningLoop
    have hsome : st.sched.running[done.length]? = some id := by rw [hrun]; simp
    rw [hsome]
    simp only
    by_cases hb : st.tokenBudget ≤ 0
    · rw [if_pos hb]
      exact RaisesOnly.ok _
    rw [if_neg hb]
    have hid : id ∈ st.sched.running := by rw [hrun]; simp
    obtain ⟨r, hr⟩ := hw.sched.get?_of_running hid
    have hbehind := (h.running id r hid hr).behind
    have hpos : 0 < min ((r.numTokens : ℤ) - r.numComputedTokens) st.tokenBudget := by omega
    obtain ⟨inputs, n, eb, htry⟩ := tryScheduleEncoderInputs_returns available st.sched r
      r.numComputedTokens (min ((r.numTokens : ℤ) - r.numComputedTokens) st.tokenBudget)
      st.encoderBudget
    have hle := tryScheduleEncoderInputs_le (by omega) htry
    rw [List.length_cons] at hf
    rw [request_eq_ok.mpr hr, ok_bind, assert_of hpos, ok_bind, htry, ok_bind]
    simp only
    by_cases hn : n = 0
    · rw [if_pos hn, show done.length + 1 = (done ++ [id]).length by simp]
      exact runningLoop_raises hw h
        (show st.sched.running = (done ++ [id]) ++ rest by rw [hrun]; simp)
        (fun x hx => List.mem_append_left _ (hdone x hx)) (by omega)
    rw [if_neg hn]
    refine RaisesOnly.bind (tryRunning_raises hw h hrun hdone hr eb (by omega) (by omega)
      fun i hi => ?_) ?_
    · obtain ⟨-, pos, hp, -⟩ := tryScheduleEncoderInputs_inputs htry i hi
      exact ⟨pos, hp⟩
    rintro ⟨can, st₁⟩ hrunn
    obtain ⟨hm, -, hcan⟩ := tryRunning_moves hw hrun hdone hr hpos htry hn hrunn
    cases can with
    | false => exact RaisesOnly.ok _
    | true =>
      obtain ⟨rest', hrun', hlen, hdone'⟩ := hcan rfl
      simp only [if_true]
      rw [show done.length + 1 = (done ++ [id]).length by simp]
      have ih : RaisesOnly _ (Scheduling.runningLoop p available fuel (done ++ [id]).length st₁) :=
        runningLoop_raises (hm.wf hw) (hm.blocksInv hw h).1
        (show st₁.sched.running = (done ++ [id]) ++ rest' by rw [hrun']; simp) hdone' (by omega)
      exact ih.mono fun e he => hm.excuses hw h he

/-- **The loop over the waiting requests.** -/
theorem waitingLoop_raises : ∀ {w : List ReqId} {st : Scheduling}, st.WF p →
    BlocksInv p st.sched st.got → st.sched.waiting = w → st.preemptedReqs = [] →
    RaisesOnly (Excuses p st.sched) (Scheduling.waitingLoop p available w st)
  | [], st, _, _, _, _ => RaisesOnly.ok _
  | id :: rest, st, hw, h, hwait, hpre => by
    rw [Scheduling.waitingLoop]
    by_cases hb : st.tokenBudget ≤ 0 ∨ st.sched.running.length = p.maxNumRunningReqs
    · rw [if_pos hb]
      exact RaisesOnly.ok _
    rw [if_neg hb]
    have hidw := mem_of_eq_cons hwait
    obtain ⟨r₀, hr₀⟩ := hw.sched.get?_of_waiting hidw
    obtain ⟨computed, r, st₁, hc, hres, hinv, hits⟩ | ⟨e, hc, hex⟩ := h.cachedPrefix hw hidw hr₀
    swap
    · rw [hc, error_bind]
      intro e' he'
      cases he'
      exact ⟨id, r₀, hr₀, hex⟩
    have hlook : Move p available st st₁ := Move.lookup hwait hc
    obtain ⟨hw₁, hr₁⟩ := hw.lookup hc
    have hid₁ := mem_of_eq_cons ((cachedPrefix_waiting hc).trans hwait)
    have hbud : st₁.tokenBudget = st.tokenBudget := by
      obtain ⟨_, _, -, -, rfl, -⟩ := cachedPrefix_eq_ok hc
      rfl
    have hshort := hits.short
    have hpos : 0 < min ((r.numTokens : ℤ) - (computed.length * p.kv.blockSize : ℕ))
        st₁.tokenBudget := by omega
    obtain ⟨inputs, n, eb, htry⟩ := tryScheduleEncoderInputs_returns available st₁.sched r
      (computed.length * p.kv.blockSize) (min ((r.numTokens : ℤ) -
        (computed.length * p.kv.blockSize : ℕ)) st₁.tokenBudget) st₁.encoderBudget
    have hle := tryScheduleEncoderInputs_le (by omega) htry
    rw [hc, ok_bind]
    simp only
    rw [assert_of hpos, ok_bind, htry, ok_bind]
    simp only
    by_cases hn : n = 0
    · rw [if_pos hn]
      exact RaisesOnly.ok _
    rw [if_neg hn]
    have hnr : id ∉ st₁.sched.running := fun hm => hw₁.sched.not_mem_waiting hm hid₁
    have hrid := hw₁.sched.requestId id r hr₁
    obtain ⟨hstat, h0⟩ := hw₁.sched.waiting id r hid₁ hr₁
    have hoff := hits.offered (hinv.chain id r hr₁) (by rw [hrid]; exact hinv.idle id hnr) h0
      (n := n.toNat) (by omega) (by omega)
    refine RaisesOnly.bind ?_ ?_
    · intro e he
      obtain ⟨h1, -⟩ | ⟨new, kv', r', h1, -⟩ | ⟨e', h1, hex⟩ :=
        allocateSlots_filed hinv.accounted hoff
      · rw [he] at h1
        cases h1
      · rw [he] at h1
        cases h1
      · rw [he] at h1
        cases h1
        exact hlook.excuses hw h ⟨id, r, hr₁, hex⟩
    rintro ⟨res, kv, r'⟩ halloc
    cases res with
    | none => exact RaisesOnly.ok _
    | some new =>
      obtain ⟨hs, rfl⟩ := allocateSlots_request halloc
      have hst : ∃ st₂, (st₁.put kv id (r.setKvBlockHashes hs)).scheduleWaiting id
          (r.setKvBlockHashes hs) computed new (computed.length * p.kv.blockSize) n.toNat inputs eb =
            .ok st₂ := by
        obtain ⟨ecm, hecm⟩ := EncoderCacheManager.foldlM_allocate_returns (r := { r.setKvBlockHashes hs with
          status := .running, numComputedTokens := computed.length * p.kv.blockSize })
          (fun i hi => by
            obtain ⟨-, pos, hp, -⟩ := tryScheduleEncoderInputs_inputs htry i hi
            exact ⟨pos, hp⟩) st₁.sched.encoderCacheManager
        unfold Scheduling.scheduleWaiting
        obtain hstat | hstat := hstat
        · rw [show (r.setKvBlockHashes hs).status = .waiting from hstat]
          simp only [ok_bind, Scheduling.record]
          exact ⟨_, by erw [hecm]; rfl⟩
        · rw [show (r.setKvBlockHashes hs).status = .preempted from hstat]
          simp only [ok_bind, Scheduling.record]
          exact ⟨_, by erw [hecm]; rfl⟩
      obtain ⟨st₂, hst⟩ := hst
      have henter : Move p available st st₂ :=
        Move.enter hwait hpre (fun e => hb (Or.inr e)) hc hpos htry hn halloc hst
      simp only [hst, ok_bind]
      have hw₂ := henter.wf hw
      have h₂ := (henter.blocksInv hw h).1
      have hback : ∀ e, Excuses p st₂.sched e → Excuses p st.sched e :=
        fun e he => henter.excuses hw h he
      obtain ⟨-, ecm, -, rfl⟩ := scheduleWaiting_eq_ok hst
      refine RaisesOnly.mono (waitingLoop_raises hw₂ h₂ ?_ ?_) hback
      · change st₁.sched.waiting.tail = rest
        rw [cachedPrefix_waiting hc, hwait, List.tail_cons]
      · obtain ⟨_, _, -, -, rfl, -⟩ := cachedPrefix_eq_ok hc
        exact hpre

variable (available) in
theorem loops_raises {s : Scheduler} (hw : s.WF p) (h : BlocksInv p s fun _ => 0) :
    RaisesOnly (Excuses p s) (Scheduling.loops p available s) := by
  have hst := Scheduling.WF.start hw
  have hinv : BlocksInv p (Scheduling.start p s).sched (Scheduling.start p s).got := h
  unfold Scheduling.loops
  refine RaisesOnly.bind (runningLoop_raises available hst hinv (show _ = [] ++ s.running from rfl)
    (fun x hx => by cases hx) (Nat.le_refl _)) fun st₁ h₁ => ?_
  have hm := runningLoop_moves hst (show _ = [] ++ s.running from rfl) (fun x hx => by cases hx) h₁
  by_cases hpre : st₁.preemptedReqs = []
  · rw [if_pos hpre]
    exact (waitingLoop_raises (hm.wf hst) (hm.blocksInv hst hinv).1 rfl hpre).mono
      fun e he => hm.excuses hst hinv he
  · rw [if_neg hpre]
    exact RaisesOnly.ok _

/-! ## The end of a scheduling step -/

/-- The checks at the end of `schedule` are the agreement of its local lists with the queues. -/
theorem Scheduling.WF.checks {st : Scheduling} (hw : st.WF p) : st.checks p = .ok () := by
  have hbudget := hw.budget
  have hnonneg := hw.budget_nonneg
  have hlen := hw.lists.length_eq
  simp only [List.length_append] at hlen
  have hsub : st.numScheduledTokens.keys.length ≤ st.sched.running.length :=
    (st.numScheduledTokens.keys_nodup.subperm hw.scheduled).length_le
  unfold Scheduling.checks
  rw [assert_of (by omega), ok_bind, assert_of hnonneg, ok_bind, assert_of hw.sched.running_le,
    ok_bind, assert_of (by omega)]

theorem Scheduling.WF.commonPrefix {st : Scheduling} (hw : st.WF p) :
    ∃ n kv, st.commonPrefix = .ok (n, { st with sched := { st.sched with kv := kv } }) := by
  unfold Scheduling.commonPrefix
  cases hrun : st.sched.running.head? with
  | none => exact ⟨0, st.sched.kv, rfl⟩
  | some id =>
    have hid := List.mem_of_mem_head? hrun
    obtain ⟨r, hr⟩ := hw.sched.get?_of_running hid
    simp only
    rw [request_eq_ok.mpr hr, ok_bind]
    unfold KVCacheManager.getNumCommonPrefixBlocks
    rw [assert_of (hw.sched.running id r hid hr)]
    exact ⟨_, _, rfl⟩

theorem Scheduling.WF.withBlocks {st : Scheduling} (hw : st.WF p) (ids : List ReqId)
    (hids : ∀ id ∈ ids, id ∈ st.numScheduledTokens.keys) : ∃ l, ids.mapM st.withBlocks = .ok l := by
  refine mapM_total fun id hid => ?_
  have hk := hids id hid
  obtain ⟨r, hr⟩ := hw.sched.get?_of_running (hw.scheduled id hk)
  rw [← hw.newBlockIds] at hk
  obtain ⟨blocks, hb⟩ := Dict.exists_get?_of_mem hk
  refine ⟨(r, blocks), ?_⟩
  unfold Scheduling.withBlocks
  rw [request_eq_ok.mpr hr, ok_bind, hb, ofOption_some, ok_bind]

theorem Scheduling.WF.output {st : Scheduling} (hw : st.WF p) (n : ℕ) :
    ∃ out s', st.output n = .ok (out, s') := by
  have hmem : ∀ id ∈ st.scheduledNewReqs ++ st.scheduledResumedReqs ++ st.scheduledRunningReqs,
      id ∈ st.numScheduledTokens.keys := fun id hid => hw.lists.mem_iff.mp hid
  obtain ⟨l₁, h₁⟩ := hw.withBlocks st.scheduledNewReqs fun id hid => hmem id (by simp [hid])
  obtain ⟨l₂, h₂⟩ := hw.withBlocks st.scheduledResumedReqs fun id hid => hmem id (by simp [hid])
  obtain ⟨l₃, h₃⟩ := hw.withBlocks st.scheduledRunningReqs fun id hid => hmem id (by simp [hid])
  unfold Scheduling.output
  rw [h₁, ok_bind, h₂, ok_bind, h₃, ok_bind]
  exact ⟨_, _, rfl⟩

variable (available) in
/-- **What `schedule` can raise.** -/
theorem schedule_raises {s : Scheduler} (hw : s.WF p) (h : BlocksInv p s fun _ => 0) :
    RaisesOnly (Excuses p s) (s.schedule p available) := by
  unfold Scheduler.schedule
  refine RaisesOnly.bind (loops_raises available hw h) fun st hl => ?_
  have hst := (loops_moves hw hl).wf (Scheduling.WF.start hw)
  obtain ⟨n, kv, hc⟩ := hst.commonPrefix
  have hst' : Scheduling.WF p { st with sched := { st.sched with kv := kv } } :=
    ⟨⟨hst.sched.requestId, hst.sched.known, hst.sched.nodup, hst.sched.running, hst.sched.waiting,
      hst.sched.running_le⟩, hst.scheduled, hst.preempted, hst.lists, hst.newBlockIds, hst.budget,
      hst.budget_nonneg⟩
  obtain ⟨out, s', ho⟩ := hst'.output n
  rw [hst.checks, ok_bind, hc, ok_bind]
  exact RaisesOnly.of_eq_ok ho

/-- **After a call of `schedule`** the invariant counts the tokens that were granted. -/
theorem BlocksInv.schedule {s s' : Scheduler} {out : SchedulerOutput} (hw : s.WF p)
    (h : BlocksInv p s fun _ => 0) (hs : s.schedule p available = .ok (out, s')) :
    (BlocksInv p s' fun id => (out.numScheduledTokens.get? id).getD 0) ∧
      ∀ id r', s'.requests.get? id = some r' → ∃ r, s.requests.get? id = some r ∧ Rescheduled r r' := by
  obtain ⟨_, st, _, _, _, -, -, hm, -, rfl, htok, -⟩ := schedule_eq_ok hw hs
  obtain ⟨hinv, hres⟩ := hm.blocksInv (Scheduling.WF.start hw)
    (show BlocksInv p (Scheduling.start p s).sched (Scheduling.start p s).got from h)
  rw [htok]
  exact ⟨⟨hinv.accounted, hinv.chain, hinv.idle, hinv.running⟩, hres⟩

end Loops

end SpaceServe
