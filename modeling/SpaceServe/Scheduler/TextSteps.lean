import SpaceServe.Scheduler.Blocks
import SpaceServe.Scheduler.TextInv

/-!
# Every step keeps the invariant for text-only requests

* `TextInv.slotsPre_running`, `slotsPre_waiting`: requests may ask for slots;
* `TextInv.slots`, `TextInv.leave`: a request got slots, or its blocks were freed;
* `TextInv.cachedPrefix`: a lookup succeeds, and what it finds;
* **`Move.textInv`**: moves keep the invariant;
* **`TextInv.advance`**, **`TextInv.drop`**, `TextInv.addRequest`, `TextInv.resetPrefixCache`,
  `TextInv.init`.
-/

set_option autoImplicit false

namespace SpaceServe

open Py KVCacheManager

/-! ## Moves -/

theorem tryScheduleEncoderInputs_text (available : ReqId → ℕ → Bool) (s : Scheduler)
    {r : Request} (ht : r.TextOnly) (nc : ℕ) (n eb : ℤ) :
    s.tryScheduleEncoderInputs available r nc n eb = .ok ([], n, eb) := by
  have h : r.hasEncoderInputs = false := by
    rw [← Bool.not_eq_true, r.hasEncoderInputs_iff, not_not]
    exact ht
  unfold Scheduler.tryScheduleEncoderInputs
  rw [if_pos h]

section Moves

variable {p : SchedulerParams} {s : Scheduler} {got : ReqId → ℕ} {id : ReqId} {r : Request}

/-- A running request may ask for slots. -/
theorem TextInv.slotsPre_running (h : TextInv p s got) (hw : s.WF p) (hid : id ∈ s.running)
    (hr : s.requests.get? id = some r) (hg : got id = 0) {n : ℕ} (hn : 0 < n)
    (hle : r.numComputedTokens + n ≤ r.numTokens) :
    SlotsPre p.kv s.kv r [] r.numComputedTokens n ∧
      OwnSlots p.kv s.kv s.history r [] r.numComputedTokens := by
  have hrun := h.running id r hid hr
  rw [hg] at hrun
  obtain rfl := hw.requestId id r hr
  refine ⟨⟨h.text _ r hr, by simp, hn, hle, Nat.le_of_lt (h.len _ r hr).2, fun _ => rfl, ?_, ?_, ?_,
    h.chain _ r hr, hrun.hashes, ?_, ?_⟩, ?_⟩
  · intro b hb; cases hb
  · rw [List.append_nil]; exact hrun.le_max
  · rw [List.append_nil]; exact hrun.covered
  · rw [List.append_nil]; exact hrun.full
  · intro hon j b hj hlt
    rw [List.append_nil] at hj ⊢
    obtain ⟨h1, h2, -⟩ := hrun.fresh hon j b hj hlt
    have h3 := s.kv.count_blocksOf_le b r.requestId
    exact ⟨h1, by omega⟩
  · intro hon j b hj hlt
    rw [List.append_nil] at hj
    obtain ⟨-, h2, h3⟩ := hrun.fresh hon j b hj hlt
    exact ⟨h2, List.not_mem_nil, h3⟩

/-- The hits of a lookup for a request within the length limit. -/
structure HitsPre (p : KVCacheParams) (kv : KVCacheManager) (r : Request) (bs : List ℕ) : Prop where
  lt : ∀ b ∈ bs, b < p.numGpuBlocks
  off : p.enableCaching = false → bs = []
  le : bs.length ≤ r.kvBlockHashes.length
  hash : ∀ j b, bs[j]? = some b → kv.hashOf b = some (blockHashOf p r j)

/-- A waiting request may ask for slots behind its hits. -/
theorem slotsPre_waiting {p : KVCacheParams} {kv : KVCacheManager} {bs : List ℕ}
    (ht : r.TextOnly) (hnc : r.numComputedTokens = 0) (hidle : kv.blocksOf r.requestId = [])
    (hlen : r.numTokens ≤ p.maxModelLen) (hchain : ChainHashes p r)
    (hits : HitsPre p kv r bs) {n : ℕ} (hn : 0 < n)
    (hle : bs.length * p.blockSize + n ≤ r.numTokens) :
    SlotsPre p kv r bs (bs.length * p.blockSize) n ∧
      ∀ history, OwnSlots p kv history r bs (bs.length * p.blockSize) := by
  have hbs := p.blockSize_pos
  -- all blocks of the request are hits, and full
  have hvac : ∀ j b, (kv.blocksOf r.requestId ++ bs)[j]? = some b →
      (j + 1) * p.blockSize ≤ bs.length * p.blockSize := by
    intro j b hj
    rw [hidle, List.nil_append] at hj
    exact Nat.mul_le_mul_right _ (List.getElem?_eq_some_iff.mp hj).1
  refine ⟨⟨ht, by rw [hnc, Nat.zero_add], hn, hle, hlen, hits.off, hits.lt, ?_, ?_, hchain, ?_, ?_,
    ?_⟩, ?_⟩
  · rw [hidle, List.nil_append, KVCacheParams.maxNumBlocksPerReq]
    have h1 := le_cdiv_mul hbs p.maxModelLen
    exact Nat.le_of_mul_le_mul_right (by omega) hbs
  · rw [hidle, List.nil_append]
  · intro _
    rw [Nat.mul_div_cancel _ hbs]
    exact hits.le
  · intro _ j b hj _
    rw [hidle, List.nil_append] at hj
    exact hits.hash j b hj
  · intro _ j b hj hlt
    have := hvac j b hj
    omega
  · intro _ _ j b hj hlt
    have := hvac j b hj
    omega

/-- The invariant after a request got `n` tokens with the blocks `new`. -/
theorem TextInv.slots (h : TextInv p s got) {kv' : KVCacheManager} {r' : Request}
    {computed new : List ℕ} {nc n : ℕ} (hpre : SlotsPre p.kv s.kv r computed nc n)
    (hown : OwnSlots p.kv s.kv s.history r computed nc)
    (hhit : p.kv.enableCaching = true → ∀ b ∈ computed, s.kv.hashOf b ≠ none)
    (hpost : SlotsPost p.kv s.kv r computed nc n new kv' r')
    (hr : s.requests.get? r.requestId = some r) {r₂ : Request} {s' : Scheduler}
    {got' : ReqId → ℕ} (hr₂ : r₂.allTokenIds = r.allTokenIds) (ht₂ : r₂.TextOnly)
    (hh₂ : r₂.kvBlockHashes = r'.kvBlockHashes) (hnc₂ : r₂.numComputedTokens = nc)
    (hkv : s'.kv = kv') (hreq : s'.requests = s.requests.set r.requestId r₂)
    (hhist : s'.history = s.history ++ allocEvents s.kv r computed new nc n)
    (hrun : ∀ id, id ∈ s'.running ↔ id = r.requestId ∨ id ∈ s.running)
    (hgot : got' r.requestId = n) (hgot' : ∀ id, id ≠ r.requestId → got' id = got id) :
    TextInv p s' got' := by
  have hnum : r₂.numTokens = r.numTokens := congrArg List.length hr₂
  obtain ⟨hs, hr'⟩ := hpost.request
  have hget : ∀ id r₁, s'.requests.get? id = some r₁ →
      (id = r.requestId ∧ r₁ = r₂) ∨ (id ≠ r.requestId ∧ s.requests.get? id = some r₁) := by
    intro id r₁ hg
    rw [hreq, Dict.get?_set] at hg
    split_ifs at hg with he
    · exact Or.inl ⟨he, (Option.some.inj hg).symm⟩
    · exact Or.inr ⟨he, hg⟩
  refine ⟨by rw [hkv]; exact hpost.accounted, ?_, ?_, ?_, ?_, ?_, ?_, ?_⟩
  · intro id r₁ hg
    obtain ⟨-, rfl⟩ | ⟨-, hg⟩ := hget id r₁ hg
    · exact ht₂
    · exact h.text id r₁ hg
  · intro id r₁ hg
    obtain ⟨-, rfl⟩ | ⟨-, hg⟩ := hget id r₁ hg
    · rw [hnum]; exact h.len _ r hr
    · exact h.len id r₁ hg
  · intro id r₁ hg
    obtain ⟨-, rfl⟩ | ⟨-, hg⟩ := hget id r₁ hg
    · intro j x hj
      rw [hh₂] at hj
      have := hpost.chain j x hj
      rw [hr'] at this
      rw [blockHashOf, hr₂, hnum]
      exact this
    · exact h.chain id r₁ hg
  · intro id hid
    rw [hrun, not_or] at hid
    rw [hkv, hpost.blocksOf.2 id hid.1]
    exact h.idle id hid.2
  · intro id r₁ hid hg
    rw [hkv, hhist]
    obtain ⟨rfl, rfl⟩ | ⟨hne, hg⟩ := hget id r₁ hg
    · rw [hgot]
      exact RunningText.slots hpre hown hpost hr₂ hh₂ hnc₂
    · rw [hgot' id hne]
      exact RunningText.slots_other hpre hown hhit hpost hne
        (h.running id r₁ (((hrun id).mp hid).resolve_left hne) hg)
  · intro hon b x hb
    rw [hhist]
    rw [hkv] at hb
    exact hashFilled_slots hon hpre hown hpost (h.filled hon) hb
  · rw [hhist]
    exact h.hits.append (by simp [allocEvents])

/-- A running request when another one is freed. -/
theorem RunningText.free {p : KVCacheParams} {kv kv' : KVCacheManager}
    {history : List BlockEvent} (ha : Accounted p kv) {r₀ r : Request}
    (hfree : kv.free p r₀ = .ok kv') {id : ReqId} {g : ℕ} (hne : id ≠ r₀.requestId)
    (h : RunningText p kv history id r g) : RunningText p kv' history id r g := by
  obtain ⟨-, hh, -, hbo, hown⟩ := free_facts ha hfree
  refine h.frame (hbo id hne) (fun _ b _ => hh b) fun _ b hb _ hone => ⟨?_, rfl⟩
  have h1 := hown b
  have h2 := kv'.count_blocksOf_le b id
  rw [hbo id hne] at h2
  have h3 := List.count_pos_iff.mpr hb
  omega

theorem TextInv.reserve (h : TextInv p s got) (id : ReqId) :
    TextInv p { s with kv := s.kv.setBlocks id (s.kv.blocksOf id) } got := by
  refine ⟨h.accounted.reserve id, h.text, h.len, h.chain, ?_, ?_, h.filled, h.hits⟩
  · intro id' hid'
    rw [setBlocks_self_blocksOf]
    exact h.idle id' hid'
  · intro id' r' hid' hr'
    exact (h.running id' r' hid' hr').frame (s.kv.setBlocks_self_blocksOf id id') (fun _ _ _ => rfl)
      fun _ b _ _ hone => ⟨by rw [setBlocks_self_owned]; exact hone, rfl⟩

/-- Freeing a request that leaves `running`: preemption and the end of a request. -/
theorem TextInv.leave (h : TextInv p s got) (hw : s.WF p) (hr : s.requests.get? id = some r)
    {s' : Scheduler} (hfree : s.kv.free p.kv r = .ok s'.kv)
    (hreq : ∀ id', id' ≠ id → s'.requests.get? id' = s.requests.get? id')
    (hreq' : ∀ r', s'.requests.get? id = some r' → r'.TextOnly ∧ r'.numTokens = r.numTokens ∧
      r'.allTokenIds = r.allTokenIds ∧ r'.kvBlockHashes = r.kvBlockHashes)
    (hrun : ∀ id', id' ∈ s'.running ↔ id' ≠ id ∧ id' ∈ s.running)
    (hhist : s'.history = s.history) : TextInv p s' got := by
  obtain rfl := hw.requestId id r hr
  obtain ⟨ha', hh, hnil, hbo, -⟩ := free_facts h.accounted hfree
  refine ⟨ha', ?_, ?_, ?_, ?_, ?_, ?_, by rw [hhist]; exact h.hits⟩
  · intro id' r' hg
    by_cases he : id' = r.requestId
    · subst he; exact (hreq' r' hg).1
    · exact h.text id' r' (by rw [← hreq id' he]; exact hg)
  · intro id' r' hg
    by_cases he : id' = r.requestId
    · subst he; rw [(hreq' r' hg).2.1]; exact h.len _ r hr
    · exact h.len id' r' (by rw [← hreq id' he]; exact hg)
  · intro id' r' hg
    by_cases he : id' = r.requestId
    · subst he
      obtain ⟨-, h2, h3, h4⟩ := hreq' r' hg
      intro j x hj
      rw [h4] at hj
      rw [blockHashOf, h3, h2]
      exact h.chain _ r hr j x hj
    · exact h.chain id' r' (by rw [← hreq id' he]; exact hg)
  · intro id' hid'
    by_cases he : id' = r.requestId
    · rw [he]; exact hnil
    · rw [hbo id' he]
      exact h.idle id' fun hm => hid' ((hrun id').mpr ⟨he, hm⟩)
  · intro id' r' hid' hg
    obtain ⟨he, hm⟩ := (hrun id').mp hid'
    rw [hreq id' he] at hg
    rw [hhist]
    exact RunningText.free h.accounted hfree he (h.running id' r' hm hg)
  · intro hon b x hb
    rw [hh] at hb
    rw [hhist]
    exact h.filled hon b x hb

theorem TextInv.preempt {st : Scheduling} (hw : st.WF p) (h : TextInv p st.sched st.got)
    {rest : List ReqId} {kv : KVCacheManager} (hrun : st.sched.running = rest ++ [id])
    (hr : st.sched.requests.get? id = some r) (hfree : st.sched.kv.free p.kv r = .ok kv) :
    TextInv p (st.preempt id r kv).sched (st.preempt id r kv).got := by
  refine TextInv.leave (s := st.sched) h hw.sched hr hfree ?_ ?_ ?_ rfl
  · intro id' hne
    exact Dict.get?_set_ne _ hne _
  · intro r' hg
    change (st.sched.requests.set id _).get? id = some r' at hg
    rw [Dict.get?_set_self] at hg
    cases hg
    exact ⟨h.text id r hr, rfl, rfl, rfl⟩
  · intro id'
    exact hw.sched.mem_dropLast hrun id'

/-- **The cached prefix of a waiting request** is found, and what is found. -/
theorem TextInv.cachedPrefix {st : Scheduling} (hw : st.WF p) (h : TextInv p st.sched st.got)
    (hid : id ∈ st.sched.waiting) :
    ∃ computed r st₁, st.cachedPrefix p id =
        .ok (computed, computed.length * p.kv.blockSize, r, st₁) ∧
      TextInv p st₁.sched st₁.got ∧ HitsPre p.kv st₁.sched.kv r computed ∧
      computed.length * p.kv.blockSize < r.numTokens := by
  obtain ⟨r₀, hr₀⟩ := hw.sched.get?_of_waiting hid
  have hnr : id ∉ st.sched.running := fun hm => hw.sched.not_mem_waiting hm hid
  obtain ⟨bs, hs, hg, hchain, hoff, hle, hhash⟩ :=
    getComputedBlocks_text h.accounted.2 (h.text id r₀ hr₀) (h.chain id r₀ hr₀)
  have hlt : ∀ b ∈ bs, b < p.kv.numGpuBlocks := fun b hb => h.accounted.hit_lt hg hb
  have hbs : bs.length * p.kv.blockSize ≤ r₀.numTokens := by
    obtain rfl | hne := List.eq_nil_or_concat bs
    · simp
    · obtain ⟨bs', b, hbs'⟩ := hne
      have hpos : 0 < bs.length := by rw [hbs']; simp
      have hget : hs[bs.length - 1]? = some hs[bs.length - 1] :=
        List.getElem?_eq_getElem (by omega)
      have := (hchain (bs.length - 1) _ hget).2
      rwa [Nat.sub_add_cancel hpos] at this
  have hpos : 0 < r₀.numTokens := (h.len id r₀ hr₀).1
  have hbpos := p.kv.blockSize_pos
  -- the state after the lookup
  have hinv : TextInv p ((st.put st.sched.kv id (r₀.setKvBlockHashes hs)).log
      [.computed (r₀.setKvBlockHashes hs).allTokenIds bs]).sched st.got := by
    have hget : ∀ id' r', (st.sched.requests.set id (r₀.setKvBlockHashes hs)).get? id' = some r' →
        (id' = id ∧ r' = r₀.setKvBlockHashes hs) ∨
          (id' ≠ id ∧ st.sched.requests.get? id' = some r') := by
      intro id' r' hg
      rw [Dict.get?_set] at hg
      split_ifs at hg with he
      · exact Or.inl ⟨he, (Option.some.inj hg).symm⟩
      · exact Or.inr ⟨he, hg⟩
    refine ⟨h.accounted, ?_, ?_, ?_, h.idle, ?_, ?_, ?_⟩
    · intro id' r' hg
      obtain ⟨-, rfl⟩ | ⟨-, hg⟩ := hget id' r' hg
      · exact h.text id r₀ hr₀
      · exact h.text id' r' hg
    · intro id' r' hg
      obtain ⟨-, rfl⟩ | ⟨-, hg⟩ := hget id' r' hg
      · exact h.len id r₀ hr₀
      · exact h.len id' r' hg
    · intro id' r' hg
      obtain ⟨-, rfl⟩ | ⟨-, hg⟩ := hget id' r' hg
      · exact hchain
      · exact h.chain id' r' hg
    · intro id' r' hid' hg
      obtain ⟨rfl, -⟩ | ⟨-, hg⟩ := hget id' r' hg
      · exact absurd hid' hnr
      · exact (h.running id' r' hid' hg).frame rfl (fun _ _ _ => rfl)
          fun _ b _ _ hone => ⟨hone, writes_computed _ _ b⟩
    · intro hon b x hb
      exact (h.filled hon b x hb).congr (writes_computed _ _ b)
    · refine h.hits.computed fun i b hb => ?_
      by_cases hon : p.kv.enableCaching = true
      · exact h.filled hon b _ (hhash i b hb)
      · rw [hoff (by simpa using hon)] at hb
        cases hb
  rw [Scheduling.cachedPrefix_eq hr₀ hg]
  by_cases hfull : (r₀.setKvBlockHashes hs).numTokens = bs.length * p.kv.blockSize
  · have hne : bs ≠ [] := by
      rintro rfl
      rw [List.length_nil, Nat.zero_mul] at hfull
      exact absurd hfull (Nat.ne_of_gt hpos)
    rw [if_pos hfull, if_neg hne]
    refine ⟨bs.dropLast, _, _, rfl, hinv, ⟨?_, ?_, ?_, ?_⟩, ?_⟩
    · exact fun b hb => hlt b ((List.dropLast_sublist bs).subset hb)
    · intro ho; rw [hoff ho]; rfl
    · rw [List.length_dropLast, Request.setKvBlockHashes_kvBlockHashes]; omega
    · intro j b hj
      refine hhash j b ?_
      rw [List.dropLast_eq_take, List.getElem?_take] at hj
      split_ifs at hj
      exact hj
    · rw [hfull, List.length_dropLast]
      exact Nat.mul_lt_mul_of_pos_right (Nat.sub_one_lt_of_lt (List.length_pos_iff.mpr hne)) hbpos
  · rw [if_neg hfull]
    refine ⟨bs, _, _, rfl, hinv, ⟨hlt, hoff, hle, hhash⟩, ?_⟩
    exact Nat.lt_of_le_of_ne hbs (Ne.symm hfull)

/-- A running request was granted tokens. -/
theorem TextInv.granted {st : Scheduling} (hw : st.WF p) (h : TextInv p st.sched st.got)
    (hid : id ∈ st.sched.running) (hns : id ∉ st.numScheduledTokens.keys)
    (hr : st.sched.requests.get? id = some r) {n : ℕ} (hn : 0 < n)
    (hle : r.numComputedTokens + n ≤ r.numTokens) {new : List ℕ} {kv : KVCacheManager}
    {r' : Request} (halloc : st.sched.kv.allocateSlots p.kv r n [] = .ok (some new, kv, r'))
    (ecm : EncoderCacheManager) (inputs : List ℕ) (eb : ℤ) :
    TextInv p (st.granted id r' kv ecm new n inputs eb).sched
      (st.granted id r' kv ecm new n inputs eb).got := by
  have hg : st.got id = 0 := by
    rw [Scheduling.got, (st.numScheduledTokens.get?_eq_none id).mpr hns]; rfl
  obtain ⟨hpre, hown⟩ := h.slotsPre_running hw.sched hid hr hg hn hle
  obtain rfl := hw.sched.requestId id r hr
  obtain ⟨res, kv₁, r₁, h1, -, hpost⟩ := allocateSlots_text h.accounted hpre
  rw [halloc] at h1
  cases h1
  replace hpost := hpost new rfl
  obtain ⟨hs, rfl⟩ := hpost.request
  refine TextInv.slots (s := st.sched) h hpre hown (fun _ b hb => by cases hb) hpost hr
    (show (r.setKvBlockHashes hs).allTokenIds = _ from rfl) hpre.text rfl rfl rfl rfl ?_ ?_ ?_ ?_
  · have hbo := hpost.blocksOf.1
    simp only [Scheduling.granted, allocEvents, hbo]
    rfl
  · intro id
    exact ⟨Or.inr, fun hm => hm.elim (fun e => e ▸ hid) fun h' => h'⟩
  · change ((st.numScheduledTokens.set r.requestId n).get? r.requestId).getD 0 = n
    rw [Dict.get?_set_self]; rfl
  · intro id hne
    change ((st.numScheduledTokens.set r.requestId n).get? id).getD 0 = _
    rw [Dict.get?_set_ne _ hne]; rfl

/-- A waiting request was admitted. -/
theorem TextInv.admitted {st : Scheduling} (hw : st.WF p) (h : TextInv p st.sched st.got)
    (hid : id ∈ st.sched.waiting) (hr : st.sched.requests.get? id = some r) {computed : List ℕ}
    (hits : HitsPre p.kv st.sched.kv r computed) {n : ℕ} (hn : 0 < n)
    (hle : computed.length * p.kv.blockSize + n ≤ r.numTokens) {new : List ℕ}
    {kv : KVCacheManager} {r' : Request}
    (halloc : st.sched.kv.allocateSlots p.kv r n computed = .ok (some new, kv, r'))
    (ecm : EncoderCacheManager) (inputs : List ℕ) (eb : ℤ) :
    TextInv p (st.admitted id r' kv ecm computed new (computed.length * p.kv.blockSize) n inputs
        eb).sched
      (st.admitted id r' kv ecm computed new (computed.length * p.kv.blockSize) n inputs eb).got := by
  have hnr : id ∉ st.sched.running := fun hm => hw.sched.not_mem_waiting hm hid
  obtain rfl := hw.sched.requestId id r hr
  obtain ⟨hpre, hown⟩ := slotsPre_waiting (h.text _ r hr) (hw.sched.waiting _ r hid hr).2
    (h.idle _ hnr) (Nat.le_of_lt (h.len _ r hr).2) (h.chain _ r hr) hits hn hle
  obtain ⟨res, kv₁, r₁, h1, -, hpost⟩ := allocateSlots_text h.accounted hpre
  rw [halloc] at h1
  cases h1
  replace hpost := hpost new rfl
  obtain ⟨hs, rfl⟩ := hpost.request
  have hhit : p.kv.enableCaching = true → ∀ b ∈ computed, st.sched.kv.hashOf b ≠ none := by
    intro _ b hb
    obtain ⟨j, hj⟩ := List.mem_iff_getElem?.mp hb
    rw [hits.hash j b hj]
    simp
  refine TextInv.slots (s := st.sched) h hpre (hown _) hhit hpost hr
    (show ({ r.setKvBlockHashes hs with
      status := .running
      numComputedTokens := computed.length * p.kv.blockSize } : Request).allTokenIds = _ from rfl)
    hpre.text rfl rfl rfl rfl ?_ ?_ ?_ ?_
  · have hbo := hpost.blocksOf.1
    simp only [Scheduling.admitted, allocEvents, hbo]
    rfl
  · intro id
    change id ∈ st.sched.running ++ [r.requestId] ↔ _
    rw [List.mem_append, List.mem_singleton, or_comm]
  · change ((st.numScheduledTokens.set r.requestId n).get? r.requestId).getD 0 = n
    rw [Dict.get?_set_self]; rfl
  · intro id hne
    change ((st.numScheduledTokens.set r.requestId n).get? id).getD 0 = _
    rw [Dict.get?_set_ne _ hne]; rfl

/-- **Moves keep the invariant.** -/
theorem Move.textInv {available : ReqId → ℕ → Bool} {st st' : Scheduling} (hw : st.WF p)
    (h : TextInv p st.sched st.got) (hm : Move p available st st') :
    TextInv p st'.sched st'.got := by
  cases hm with
  | reserve hid => exact h.reserve _
  | preempt hrun hid hr hfree => exact TextInv.preempt hw h hrun hr hfree
  | grant hid hns hr hpos htry hn halloc hst =>
    obtain ⟨ecm, -, rfl⟩ := scheduleRunning_eq_ok hst
    rw [tryScheduleEncoderInputs_text _ _ (h.text _ _ hr)] at htry
    cases htry
    exact h.granted hw hid hns hr (by omega) (by omega) halloc ecm _ _
  | lookup hwait hc =>
    obtain ⟨computed, r, st₁, hc', hinv, -⟩ := h.cachedPrefix hw (mem_of_eq_cons hwait)
    rw [hc] at hc'
    cases hc'
    exact hinv
  | enter hwait hpre hroom hc hpos htry hn halloc hst =>
    obtain ⟨computed, r, st₂, hc', hinv, hits, hlt⟩ := h.cachedPrefix hw (mem_of_eq_cons hwait)
    rw [hc] at hc'
    cases hc'
    obtain ⟨hw₁, hr₁⟩ := hw.lookup hc
    have hid₁ := mem_of_eq_cons ((cachedPrefix_waiting hc).trans hwait)
    rw [tryScheduleEncoderInputs_text _ _ (hinv.text _ _ hr₁)] at htry
    cases htry
    obtain ⟨-, ecm, -, rfl⟩ := scheduleWaiting_eq_ok hst
    exact hinv.admitted hw₁ hid₁ hr₁ hits (by omega) (by omega) halloc ecm _ _

end Moves

/-! ## Updates -/

section Updates

variable {p : SchedulerParams} {s s' : Scheduler} {got : ReqId → ℕ} {id : ReqId} {r r' : Request}

theorem blockHashOf_append {p : KVCacheParams} {ts : List TokenId}
    (h : r'.allTokenIds = r.allTokenIds ++ ts) {j : ℕ} (hj : (j + 1) * p.blockSize ≤ r.numTokens) :
    blockHashOf p r' j = blockHashOf p r j := by
  rw [blockHashOf, h]
  exact chainHash_append _ _ _ _ hj

theorem ChainHashes.append {p : KVCacheParams} {ts : List TokenId}
    (h : r'.allTokenIds = r.allTokenIds ++ ts) (hh : r'.kvBlockHashes = r.kvBlockHashes)
    (hc : ChainHashes p r) : ChainHashes p r' := by
  intro j x hj
  rw [hh] at hj
  obtain ⟨h1, h2⟩ := hc j x hj
  refine ⟨by rw [blockHashOf_append h h2]; exact h1, ?_⟩
  have : r'.numTokens = r.numTokens + ts.length := by
    rw [Request.numTokens, h, List.length_append]; rfl
  omega

/-- The tokens granted in this step are counted. -/
theorem RunningText.advance {p : KVCacheParams} {kv : KVCacheManager} {history : List BlockEvent}
    {g : ℕ} {ts : List TokenId} (h : RunningText p kv history id r g)
    (ha : Scheduler.Advance s s' id r r' g ts) : RunningText p kv history id r' 0 := by
  have htok := ha.allTokenIds
  have hnum : r'.numTokens = r.numTokens + ts.length := by
    rw [Request.numTokens, htok, List.length_append]; rfl
  have hnc : r'.numComputedTokens = r.numComputedTokens + g := by rw [ha.request]
  have hh : r'.kvBlockHashes = r.kvBlockHashes := by rw [ha.request]
  have hgr := h.granted
  have hlt : r.numComputedTokens + g < r'.numTokens := by
    obtain ⟨-, h1⟩ | ⟨h1, t, rfl⟩ := ha.sampled
    · omega
    · rw [List.length_singleton] at hnum; omega
  refine ⟨by omega, by omega, by rw [hnc]; exact h.covered, h.le_max, ?_, ?_, ?_⟩
  · intro hon
    rw [hnc, hh]
    exact h.hashes hon
  · intro hon j b hj hle
    rw [hnc, Nat.add_zero] at hle
    rw [blockHashOf_append htok (by omega)]
    exact h.full hon j b hj hle
  · intro hon j b hj hlt'
    rw [hnc, Nat.add_zero] at hlt' ⊢
    obtain ⟨h1, h2, h3⟩ := h.fresh hon j b hj hlt'
    refine ⟨h1, h2, h3.trans ?_⟩
    rw [htok]
    by_cases hj0 : r.numComputedTokens + g ≤ j * p.blockSize
    · rw [Nat.sub_eq_zero_of_le hj0]; rfl
    · refine (slots_append ?_).symm
      change _ ≤ r.numTokens
      omega

theorem TextInv.advance (h : TextInv p s got) (hid : id ∈ s.running)
    (hr : s.requests.get? id = some r) {ts : List TokenId}
    (ha : Scheduler.Advance s s' id r r' (got id) ts)
    (hmax : ts ≠ [] → r'.numTokens < p.kv.maxModelLen) :
    TextInv p s' (Function.update got id 0) := by
  have htok := ha.allTokenIds
  have hnum : r'.numTokens = r.numTokens + ts.length := by
    rw [Request.numTokens, htok, List.length_append]; rfl
  have hlen := h.len id r hr
  have hkv : s'.kv = s.kv := by rw [ha.sched]
  have hhist : s'.history = s.history := by rw [ha.sched]
  have hrun : s'.running = s.running := by rw [ha.sched]
  refine ⟨by rw [hkv]; exact h.accounted, ?_, ?_, ?_, ?_, ?_, ?_, by rw [hhist]; exact h.hits⟩
  · intro id' r₁ hg
    obtain ⟨-, rfl⟩ | ⟨-, hg⟩ := ha.get? hg
    · have := h.text id r hr
      rw [ha.request]
      exact this
    · exact h.text id' r₁ hg
  · intro id' r₁ hg
    obtain ⟨-, rfl⟩ | ⟨-, hg⟩ := ha.get? hg
    · refine ⟨by omega, ?_⟩
      by_cases hts : ts = []
      · rw [hts, List.length_nil] at hnum
        omega
      · exact hmax hts
    · exact h.len id' r₁ hg
  · intro id' r₁ hg
    obtain ⟨-, rfl⟩ | ⟨-, hg⟩ := ha.get? hg
    · exact ChainHashes.append htok (by rw [ha.request]) (h.chain id r hr)
    · exact h.chain id' r₁ hg
  · intro id' hid'
    rw [hkv]
    exact h.idle id' (by rwa [hrun] at hid')
  · intro id' r₁ hid' hg
    rw [hrun] at hid'
    rw [hkv, hhist]
    obtain ⟨rfl, rfl⟩ | ⟨hne, hg⟩ := ha.get? hg
    · rw [Function.update_self]
      exact (h.running id' r hid' hr).advance ha
    · rw [Function.update_of_ne hne]
      exact h.running id' r₁ hid' hg
  · rw [hkv, hhist]
    exact h.filled

theorem TextInv.drop (h : TextInv p s got) (hw : s.WF p) (hd : Scheduler.Drop p s s' id r) :
    TextInv p s' got := by
  have hm := hw.mem_erase id
  refine h.leave hw hd.get? hd.free ?_ ?_ ?_ (by rw [hd.sched])
  · intro id' hne
    rw [hd.sched, Dict.get?_pop_ne _ hne]
  · intro r' hg
    rw [hd.sched, Dict.get?_pop_self] at hg
    cases hg
  · intro id'
    rw [hd.sched]
    exact (hm id').1

/-- Only the tokens granted to running requests matter. -/
theorem TextInv.congr_got (h : TextInv p s got) {got' : ReqId → ℕ}
    (hg : ∀ id ∈ s.running, got' id = got id) : TextInv p s got' :=
  ⟨h.accounted, h.text, h.len, h.chain, h.idle,
    fun id r hid hr => by rw [hg id hid]; exact h.running id r hid hr, h.filled, h.hits⟩

theorem TextInv.addRequest (h : TextInv p s got) (hw : s.WF p)
    (hid : r.requestId ∉ s.requests.keys) (hnew : r.IsNew) (ht : r.TextOnly)
    (hlen : 0 < r.numTokens ∧ r.numTokens < p.kv.maxModelLen) : TextInv p (s.addRequest r) got := by
  have hnr : r.requestId ∉ s.running := fun hm => hid ((hw.known _).mpr (Or.inl hm))
  refine ⟨h.accounted, ?_, ?_, ?_, h.idle, ?_, h.filled, h.hits⟩
  · intro id' r₁ hg
    obtain ⟨-, rfl⟩ | ⟨-, hg⟩ := Scheduler.addRequest_get? hg
    · exact ht
    · exact h.text id' r₁ hg
  · intro id' r₁ hg
    obtain ⟨-, rfl⟩ | ⟨-, hg⟩ := Scheduler.addRequest_get? hg
    · exact hlen
    · exact h.len id' r₁ hg
  · intro id' r₁ hg
    obtain ⟨-, rfl⟩ | ⟨-, hg⟩ := Scheduler.addRequest_get? hg
    · intro j x hj
      rw [hnew.2.2.2.2] at hj
      cases hj
    · exact h.chain id' r₁ hg
  · intro id' r₁ hid' hg
    obtain ⟨rfl, -⟩ | ⟨-, hg⟩ := Scheduler.addRequest_get? hg
    · exact absurd hid' hnr
    · exact h.running id' r₁ hid' hg

/-- When the prefix cache could be reset, no request holds a block. -/
theorem TextInv.resetPrefixCache (h : TextInv p s got) : TextInv p (s.resetPrefixCache p) got := by
  have hacc := h.accounted.resetPrefixCache
  unfold Scheduler.resetPrefixCache
  unfold KVCacheManager.resetPrefixCache at hacc ⊢
  by_cases hused : 0 < (p.kv.numGpuBlocks : ℤ) - s.kv.freeBlockQueue.numFreeBlocks
  · rw [if_pos hused]
    exact h
  rw [if_neg hused] at hacc ⊢
  have hnil := h.accounted.blocksOf_eq_nil hused
  refine ⟨hacc, h.text, h.len, h.chain, h.idle, ?_, ?_, h.hits⟩
  · intro id' r₁ hid' hg
    refine (h.running id' r₁ hid' hg).frame rfl ?_ ?_
    · intro _ b hb
      rw [hnil] at hb
      cases hb
    · intro _ b hb
      rw [hnil] at hb
      cases hb
  · intro _ b x hb
    cases hb

theorem TextInv.init (p : SchedulerParams) : TextInv p (Scheduler.init p) fun _ => 0 where
  accounted := ⟨⟨_, acc_init p.kv⟩, cacheOk_init p.kv⟩
  text _ _ h := by cases h
  len _ _ h := by cases h
  chain _ _ h := by cases h
  idle _ _ := rfl
  running _ _ h := by cases h
  filled _ _ _ h := by cases h
  hits _ _ _ h := by cases h

end Updates

end SpaceServe
