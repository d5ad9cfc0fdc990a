import SpaceServe.KVCache.Allocate

/-!
# Allocation for text-only requests

For a request without multi-modal inputs the hash of block `j` is `chainHash` of its tokens, and
`allocate_slots` can be followed exactly: it returns, and afterwards precisely the new full blocks
have got the hashes of their indices.

* `ChainHashes`: the hashes kept on a request are those of its blocks;
* `getComputedBlocks_text`: a lookup returns blocks that carry the hashes of the first blocks;
* `cacheNewFullBlocks_text`: the new full blocks get their hashes;
* **`allocateSlots_text`**: a call of `allocate_slots` returns, and what it does.
-/

set_option autoImplicit false

namespace SpaceServe

open Py

namespace KVCacheManager

variable {p : KVCacheParams}

/-- The hash of block `j` of a text-only request. -/
def blockHashOf (p : KVCacheParams) (r : Request) (j : ℕ) : BlockHashType :=
  chainHash p.hash p.blockSize r.allTokenIds j

/-- The hashes kept on a request are those of its first blocks, which are full. -/
def ChainHashes (p : KVCacheParams) (r : Request) : Prop :=
  ∀ j h, r.kvBlockHashes[j]? = some h →
    h = blockHashOf p r j ∧ (j + 1) * p.blockSize ≤ r.numTokens

/-! ## Lookups -/

/-- Looking the hashes up succeeds and gives the chain. -/
theorem ensureKvBlockHashes_text {r : Request} (ht : r.TextOnly) (hc : ChainHashes p r) :
    ∃ hs, ensureKvBlockHashes p r = .ok (r.setKvBlockHashes hs) ∧
      ChainHashes p (r.setKvBlockHashes hs) := by
  unfold ensureKvBlockHashes
  split_ifs with he
  · rw [hashRequestTokens_text p.hash p.blockSize ht p.blockSize_pos, ok_bind]
    refine ⟨_, rfl, fun j h hj => ?_⟩
    rw [Request.setKvBlockHashes_kvBlockHashes, List.getElem?_map, Option.map_eq_some_iff] at hj
    obtain ⟨i, hi, rfl⟩ := hj
    obtain ⟨hlt, rfl⟩ := List.getElem?_eq_some_iff.mp hi
    rw [List.length_range] at hlt
    rw [List.getElem_range]
    exact ⟨rfl, (Nat.le_div_iff_mul_le p.blockSize_pos).mp hlt⟩
  · exact ⟨r.kvBlockHashes, rfl, hc⟩

/-- **A lookup for a text-only request** returns blocks that carry the hashes of its first
blocks. -/
theorem getComputedBlocks_text {kv : KVCacheManager} (hok : CacheOk p kv) {r : Request}
    (ht : r.TextOnly) (hc : ChainHashes p r) :
    ∃ bs hs, kv.getComputedBlocks p r =
        .ok (bs, bs.length * p.blockSize, (r.setKvBlockHashes hs)) ∧
      ChainHashes p (r.setKvBlockHashes hs) ∧ (p.enableCaching = false → bs = []) ∧
      bs.length ≤ hs.length ∧
      ∀ j b, bs[j]? = some b → kv.hashOf b = some (blockHashOf p r j) := by
  by_cases hon : p.enableCaching = false
  · refine ⟨[], r.kvBlockHashes, ?_, hc, fun _ => rfl, Nat.zero_le _, fun j b hb => by cases hb⟩
    unfold KVCacheManager.getComputedBlocks
    rw [if_pos hon]
    simp
  · obtain ⟨hs, hset, hc'⟩ := ensureKvBlockHashes_text ht hc
    obtain ⟨bs, hbs, hmap⟩ := hok.computedLoop hs []
    have hlen : bs.length ≤ hs.length := by
      have := congrArg List.length hmap
      simp only [List.length_map, List.length_take] at this
      omega
    refine ⟨bs, hs, ?_, hc', fun h => absurd h hon, hlen, ?_⟩
    · unfold KVCacheManager.getComputedBlocks
      rw [if_neg hon, hset, ok_bind, Request.setKvBlockHashes_kvBlockHashes, hbs, ok_bind,
        List.nil_append]
    · intro j b hb
      have hj := congrArg (fun l => l[j]?) hmap
      simp only [List.getElem?_map, hb, Option.map_some, List.getElem?_take] at hj
      have hjlt := (List.getElem?_eq_some_iff.mp hb).1
      have hget : hs[j]? = some hs[j] := List.getElem?_eq_getElem (by omega)
      rw [if_pos hjlt, hget, Option.map_some] at hj
      rw [Option.some.inj hj, (hc' j _ hget).1]
      rfl

/-! ## Caching full blocks -/

theorem newBlockHash_text {r : Request} (ht : r.TextOnly) {i : ℕ}
    (hi : (i + 1) * p.blockSize ≤ r.numTokens) :
    newBlockHash p r i (chainParent p.hash p.blockSize r.allTokenIds i) =
      .ok (blockHashOf p r i) := by
  have hpos : r.mmPositions = [] := ht
  have hlen : (slice r.allTokenIds (i * p.blockSize) ((i + 1) * p.blockSize)).length =
      p.blockSize := by
    rw [length_slice, Nat.succ_mul]
    rw [Nat.succ_mul] at hi
    change min _ (r.numTokens - _) = _
    omega
  unfold newBlockHash generateBlockHashExtraKeys
  simp only [hpos, List.getLast?_nil, assert_of hlen, ok_bind]
  rw [blockHashOf, chainHash_eq]

/-- The loop hashes the blocks from index `i` on, reusing the first `m` hashes of the request. -/
theorem cacheLoop_text {m : ℕ} {r : Request} (ht : r.TextOnly) :
    ∀ {bs : List ℕ} {i : ℕ} {kv : KVCacheManager} {hs : List BlockHashType},
      ChainHashes p (r.setKvBlockHashes hs) → hs.length = max m i →
      (i + bs.length) * p.blockSize ≤ r.numTokens → bs.Nodup → (∀ b ∈ bs, kv.hashOf b = none) →
      ∃ kv' hs', KVCacheManager.cacheLoop p m bs i
          (chainParent p.hash p.blockSize r.allTokenIds i) kv (r.setKvBlockHashes hs) =
            .ok (kv', (r.setKvBlockHashes hs')) ∧
        ChainHashes p (r.setKvBlockHashes hs') ∧ hs'.length = max m (i + bs.length) ∧
        (∀ j b, bs[j]? = some b → kv'.hashOf b = some (blockHashOf p r (i + j))) ∧
        ∀ b ∉ bs, kv'.hashOf b = kv.hashOf b
  | [], i, kv, hs, hc, hl, _, _, _ => by
    refine ⟨kv, hs, rfl, hc, by simpa using hl, ?_, fun b _ => rfl⟩
    intro j b hb
    cases hb
  | b :: bs, i, kv, hs, hc, hl, hlen, hnd, hnone => by
    have hnum : (i + 1) * p.blockSize ≤ r.numTokens :=
      Nat.le_trans (Nat.mul_le_mul_right _ (by simp only [List.length_cons]; omega)) hlen
    obtain ⟨hb, hnd'⟩ := List.nodup_cons.mp hnd
    -- the hash of this block, and the request with it
    have hstep : ∃ hs₁, blockHashAt p m (r.setKvBlockHashes hs) i
          (chainParent p.hash p.blockSize r.allTokenIds i) =
            .ok (blockHashOf p r i, (r.setKvBlockHashes hs₁)) ∧
        ChainHashes p (r.setKvBlockHashes hs₁) ∧ hs₁.length = max m (i + 1) := by
      unfold blockHashAt
      by_cases him : i < m
      · have hx : hs[i]? = some (blockHashOf p r i) := by
          have hget := List.getElem?_eq_getElem (show i < hs.length by omega)
          rw [hget, (hc i _ hget).1]
          rfl
        refine ⟨hs, ?_, hc, by omega⟩
        simp only [if_pos him, Request.setKvBlockHashes_kvBlockHashes, hx, ofOption_some, ok_bind]
      · have hnew := newBlockHash_text (p := p) (r := r.setKvBlockHashes hs) ht hnum
        refine ⟨hs ++ [blockHashOf p r i], ?_, fun j h hj => ?_, ?_⟩
        · rw [if_neg him]
          exact (congrArg (· >>= _) hnew).trans rfl
        · rw [Request.setKvBlockHashes_kvBlockHashes, List.getElem?_append] at hj
          split_ifs at hj with hjl
          · exact hc j h hj
          · have hj0 : j - hs.length = 0 := by
              have := (List.getElem?_eq_some_iff.mp hj).1
              simp only [List.length_singleton] at this
              omega
            rw [hj0] at hj
            cases hj
            obtain rfl : j = i := by omega
            exact ⟨rfl, hnum⟩
        · rw [List.length_append, List.length_singleton]
          omega
    obtain ⟨hs₁, hat, hc₁, hl₁⟩ := hstep
    have hnone₁ : ∀ c ∈ bs, (kv.cacheBlock b (blockHashOf p r i)).hashOf c = none := by
      intro c hcb
      rw [cacheBlock_hashOf, if_neg (by rintro rfl; exact hb hcb)]
      exact hnone c (List.mem_cons_of_mem _ hcb)
    obtain ⟨kv', hs', hrun, hc', hl', hin, hout⟩ := cacheLoop_text ht hc₁ hl₁
      (by rw [List.length_cons] at hlen; rwa [Nat.add_assoc, Nat.add_comm 1]) hnd' hnone₁
    refine ⟨kv', hs', ?_, hc', ?_, ?_, ?_⟩
    · have hfree : (kv.blocks b).blockHash = none := hnone b List.mem_cons_self
      rw [KVCacheManager.cacheLoop]
      simp only [assert_of hfree, ok_bind, hat]
      exact hrun
    · rw [hl', List.length_cons]
      omega
    · rintro (_ | j) c hj
      · cases hj
        rw [hout b hb, cacheBlock_hashOf, if_pos rfl]
        rfl
      · rw [hin j c hj, Nat.add_assoc, Nat.add_comm 1]
    · intro c hcm
      rw [List.mem_cons, not_or] at hcm
      rw [hout c hcm.2, cacheBlock_hashOf, if_neg hcm.1]

/-- **The new full blocks get the hashes of their indices.** -/
theorem cacheNewFullBlocks_text {kv : KVCacheManager} {r : Request} (ht : r.TextOnly)
    (hc : ChainHashes p r) {nc n : ℕ} (hlen : nc / p.blockSize ≤ r.kvBlockHashes.length)
    (hnum : nc + n ≤ r.numTokens) (hL : nc + n ≤ (kv.blocksOf r.requestId).length * p.blockSize)
    (hfull : ∀ j b, (kv.blocksOf r.requestId)[j]? = some b → (j + 1) * p.blockSize ≤ nc →
      kv.hashOf b = some (blockHashOf p r j))
    (hfresh : ∀ j b, (kv.blocksOf r.requestId)[j]? = some b → nc / p.blockSize ≤ j →
      kv.hashOf b = none)
    (hnd : ((kv.blocksOf r.requestId).drop (nc / p.blockSize)).Nodup) :
    ∃ kv' hs, kv.cacheNewFullBlocks p r nc n = .ok (kv', r.setKvBlockHashes hs) ∧
      ChainHashes p (r.setKvBlockHashes hs) ∧ (nc + n) / p.blockSize ≤ hs.length ∧
      (∀ j b, (kv.blocksOf r.requestId)[j]? = some b → nc / p.blockSize ≤ j →
        j < (nc + n) / p.blockSize → kv'.hashOf b = some (blockHashOf p r j)) ∧
      ∀ b, (∀ j, (kv.blocksOf r.requestId)[j]? = some b → nc / p.blockSize ≤ j →
        (nc + n) / p.blockSize ≤ j) → kv'.hashOf b = kv.hashOf b := by
  have hbs := p.blockSize_pos
  generalize hLeq : kv.blocksOf r.requestId = L at *
  generalize hk0 : nc / p.blockSize = k0 at *
  generalize hk1 : (nc + n) / p.blockSize = k1 at *
  have hk1L : k1 ≤ L.length := by
    rw [← hk1]
    exact Nat.div_le_of_le_mul (by rw [Nat.mul_comm]; exact hL)
  have hk1n : k1 * p.blockSize ≤ r.numTokens := by
    rw [← hk1]
    exact Nat.le_trans (Nat.div_mul_le_self _ _) hnum
  unfold KVCacheManager.cacheNewFullBlocks
  simp only [hLeq, hk0, hk1]
  have hseg : ∀ j, (slice L k0 k1)[j]? = if j < k1 - k0 then L[k0 + j]? else none :=
    fun j => getElem?_slice L k0 k1 j
  by_cases hemp : slice L k0 k1 = []
  · have hle : k1 ≤ k0 := by
      have := congrArg List.length hemp
      rw [length_slice, List.length_nil] at this
      omega
    rw [if_pos hemp]
    refine ⟨kv, r.kvBlockHashes, rfl, hc, by omega, ?_, fun b _ => rfl⟩
    intro j b _ h1 h2
    omega
  · rw [if_neg hemp]
    have hlt : k0 < k1 := by
      by_contra hge
      exact hemp (by rw [slice, show k1 - k0 = 0 by omega, List.take_zero])
    have hslen : (slice L k0 k1).length = k1 - k0 := by rw [length_slice]; omega
    -- the parent of the first new full block
    have hparent : ∃ o, (if 0 < k0 then
          (ofOption (.indexError "list index out of range") L[k0 - 1]?).map some
        else .ok none) = .ok o ∧
        kv.prevHashValue o = .ok (chainParent p.hash p.blockSize r.allTokenIds k0) := by
      by_cases h0 : 0 < k0
      · have hget : L[k0 - 1]? = some L[k0 - 1] := List.getElem?_eq_getElem (by omega)
        have hle : (k0 - 1 + 1) * p.blockSize ≤ nc := by
          rw [Nat.sub_add_cancel h0, ← hk0]
          exact Nat.div_mul_le_self _ _
        have hh : (kv.blocks L[k0 - 1]).blockHash = some (blockHashOf p r (k0 - 1)) :=
          hfull (k0 - 1) _ hget hle
        refine ⟨some L[k0 - 1], by rw [if_pos h0, hget]; rfl, ?_⟩
        unfold prevHashValue
        simp only [hh]
        obtain ⟨k, rfl⟩ := Nat.exists_eq_succ_of_ne_zero (show k0 ≠ 0 by omega)
        rfl
      · refine ⟨none, by rw [if_neg h0], ?_⟩
        rw [show k0 = 0 by omega]
        rfl
    obtain ⟨o, ho, hpv⟩ := hparent
    have hnone : ∀ b ∈ slice L k0 k1, kv.hashOf b = none := by
      intro b hb
      obtain ⟨j, hj⟩ := List.mem_iff_getElem?.mp hb
      rw [hseg] at hj
      split_ifs at hj
      exact hfresh (k0 + j) b hj (Nat.le_add_right _ _)
    have hskip : kv.skipCached (slice L k0 k1) (chainParent p.hash p.blockSize r.allTokenIds k0) 0 =
        (chainParent p.hash p.blockSize r.allTokenIds k0, 0) := by
      cases hs : slice L k0 k1 with
      | nil => exact absurd hs hemp
      | cons b bs =>
        have hb : (kv.blocks b).blockHash = none := hnone b (by rw [hs]; exact List.mem_cons_self)
        rw [skipCached, hb]
    have hndseg : (slice L k0 k1).Nodup := hnd.sublist (List.take_sublist _ _)
    obtain ⟨kv', hs, hrun, hc', hl', hin, hout⟩ :=
      cacheLoop_text (m := r.kvBlockHashes.length) (i := k0) ht
        (show ChainHashes p (r.setKvBlockHashes r.kvBlockHashes) from hc)
        (by omega) (by rw [hslen, Nat.add_sub_cancel' (by omega)]; exact hk1n) hndseg hnone
    refine ⟨kv', hs, ?_, hc', by omega, ?_, ?_⟩
    · rw [ho, ok_bind]
      unfold cacheFullBlocks
      simp only [hpv, ok_bind, hskip]
      rw [if_neg (by omega), List.drop_zero, Nat.add_zero]
      exact hrun
    · intro j b hj h1 h2
      have := hin (j - k0) b (by rw [hseg, if_pos (by omega), Nat.add_sub_cancel' h1]; exact hj)
      rwa [Nat.add_sub_cancel' h1] at this
    · intro b hb
      refine hout b fun hm => ?_
      obtain ⟨j, hj⟩ := List.mem_iff_getElem?.mp hm
      rw [hseg] at hj
      split_ifs at hj with hlt'
      have := hb (k0 + j) hj (Nat.le_add_right _ _)
      omega

/-! ## Allocating slots -/

/-- What `allocate_slots` may assume of a text-only request that holds its blocks and `computed`
new hits, with `nc` tokens computed: the blocks below `nc` carry their hashes, the others carry
none and nobody else holds them. -/
structure SlotsPre (p : KVCacheParams) (kv : KVCacheManager) (r : Request) (computed : List ℕ)
    (nc n : ℕ) : Prop where
  text : r.TextOnly
  computed_eq : nc = r.numComputedTokens + computed.length * p.blockSize
  pos : 0 < n
  num : nc + n ≤ r.numTokens
  len : r.numTokens ≤ p.maxModelLen
  off : p.enableCaching = false → computed = []
  lt : ∀ b ∈ computed, b < p.numGpuBlocks
  le_max : (kv.blocksOf r.requestId ++ computed).length ≤ p.maxNumBlocksPerReq
  covered : nc ≤ (kv.blocksOf r.requestId ++ computed).length * p.blockSize
  chain : ChainHashes p r
  hashes : p.enableCaching = true → nc / p.blockSize ≤ r.kvBlockHashes.length
  full : p.enableCaching = true → ∀ j b, (kv.blocksOf r.requestId ++ computed)[j]? = some b →
    (j + 1) * p.blockSize ≤ nc → kv.hashOf b = some (blockHashOf p r j)
  fresh : p.enableCaching = true → ∀ j b, (kv.blocksOf r.requestId ++ computed)[j]? = some b →
    nc < (j + 1) * p.blockSize → kv.hashOf b = none ∧
      (kv.blocksOf r.requestId ++ computed).count b ≤ 1

/-- What `allocate_slots` has done when it returned the blocks `new`. -/
structure SlotsPost (p : KVCacheParams) (kv : KVCacheManager) (r : Request) (computed : List ℕ)
    (nc n : ℕ) (new : List ℕ) (kv' : KVCacheManager) (r' : Request) : Prop where
  accounted : Accounted p kv'
  request : ∃ hs, r' = r.setKvBlockHashes hs
  blocks : kv'.reqToBlocks =
    kv.reqToBlocks.set r.requestId (kv.blocksOf r.requestId ++ computed ++ new)
  covered : nc + n ≤ (kv.blocksOf r.requestId ++ computed ++ new).length * p.blockSize
  le_max : (kv.blocksOf r.requestId ++ computed ++ new).length ≤ p.maxNumBlocksPerReq
  nodup : new.Nodup
  unowned : ∀ b ∈ new, kv.owned b = 0 ∧ b ∉ computed
  chain : ChainHashes p r'
  hashes : p.enableCaching = true → (nc + n) / p.blockSize ≤ r'.kvBlockHashes.length
  full : p.enableCaching = true → ∀ j b,
    (kv.blocksOf r.requestId ++ computed ++ new)[j]? = some b → (j + 1) * p.blockSize ≤ nc + n →
    kv'.hashOf b = some (blockHashOf p r j)
  fresh : p.enableCaching = true → ∀ j b,
    (kv.blocksOf r.requestId ++ computed ++ new)[j]? = some b → nc + n < (j + 1) * p.blockSize →
    kv'.hashOf b = none
  other : p.enableCaching = true → ∀ b,
    (∀ j, (kv.blocksOf r.requestId ++ computed ++ new)[j]? = some b →
      (j + 1) * p.blockSize ≤ nc) → kv'.hashOf b = kv.hashOf b

theorem div_le_iff_lt {bs nc j : ℕ} (hbs : 0 < bs) : nc / bs ≤ j ↔ nc < (j + 1) * bs := by
  rw [← Nat.lt_succ_iff, Nat.div_lt_iff_lt_mul hbs]

theorem lt_div_iff_le {bs nc j : ℕ} (hbs : 0 < bs) : j < nc / bs ↔ (j + 1) * bs ≤ nc :=
  Nat.le_div_iff_mul_le hbs

section Slots

variable {kv : KVCacheManager} {r : Request} {computed : List ℕ} {nc n : ℕ}

/-- The number of missing blocks of a request within the length limit. -/
theorem SlotsPre.missing (h : SlotsPre p kv r computed nc n) :
    kv.numMissingBlocks p r n computed = (cdiv (nc + n) p.blockSize : ℤ) -
        (kv.blocksOf r.requestId ++ computed).length ∧
      cdiv (nc + n) p.blockSize ≤ p.maxNumBlocksPerReq := by
  constructor
  · unfold numMissingBlocks
    simp only [← h.computed_eq, List.length_append]
    omega
  · rw [KVCacheParams.maxNumBlocksPerReq, cdiv_le_iff p.blockSize_pos]
    have h1 := h.num
    have h2 := h.len
    have h3 := le_cdiv_mul p.blockSize_pos p.maxModelLen
    omega

/-- A block the request holds is not a new one. -/
theorem SlotsPre.not_mem_new (_ : SlotsPre p kv r computed nc n) {new : List ℕ}
    (hun : ∀ b ∈ new, kv.owned b = 0 ∧ b ∉ computed) {b : ℕ}
    (hb : b ∈ kv.blocksOf r.requestId ++ computed) : b ∉ new := by
  intro hm
  obtain ⟨h0, hc⟩ := hun b hm
  obtain hb | hb := List.mem_append.mp hb
  · have h1 := List.count_pos_iff.mpr hb
    have h2 := kv.count_blocksOf_le b r.requestId
    omega
  · exact hc hb

/-- The blocks that are not full before the call are distinct. -/
theorem SlotsPre.nodup_drop (h : SlotsPre p kv r computed nc n) (hon : p.enableCaching = true)
    {new : List ℕ} (hun : ∀ b ∈ new, kv.owned b = 0 ∧ b ∉ computed) (hnd : new.Nodup) :
    ((kv.blocksOf r.requestId ++ computed ++ new).drop (nc / p.blockSize)).Nodup := by
  have hbs := p.blockSize_pos
  have hk0 : nc / p.blockSize ≤ (kv.blocksOf r.requestId ++ computed).length :=
    Nat.div_le_of_le_mul (by rw [Nat.mul_comm]; exact h.covered)
  rw [List.drop_append_of_le_length hk0, List.nodup_append]
  refine ⟨?_, hnd, ?_⟩
  · rw [List.nodup_iff_count_le_one]
    intro b
    by_cases hb : b ∈ (kv.blocksOf r.requestId ++ computed).drop (nc / p.blockSize)
    · obtain ⟨j, hj⟩ := List.mem_iff_getElem?.mp hb
      rw [List.getElem?_drop] at hj
      have := (h.fresh hon _ b hj ((div_le_iff_lt hbs).mp (Nat.le_add_right _ _))).2
      exact Nat.le_trans ((List.drop_sublist _ _).count_le b) this
    · rw [List.count_eq_zero_of_not_mem hb]
      omega
  · rintro b hb _ hm rfl
    exact h.not_mem_new hun (List.mem_of_mem_drop hb) hm

/-- The index of a block below `nc` is one of the old blocks. -/
theorem SlotsPre.lt_length (h : SlotsPre p kv r computed nc n) {j : ℕ}
    (hj : (j + 1) * p.blockSize ≤ nc) : j < (kv.blocksOf r.requestId ++ computed).length :=
  Nat.le_of_mul_le_mul_right (Nat.le_trans hj h.covered) p.blockSize_pos

/-- A new block stands behind the tokens computed so far. -/
theorem SlotsPre.index_new (h : SlotsPre p kv r computed nc n) {new : List ℕ} {b : ℕ}
    (hb : b ∈ new) : ∃ i, (kv.blocksOf r.requestId ++ computed ++ new)[i]? = some b ∧
      nc < (i + 1) * p.blockSize := by
  obtain ⟨i, hi⟩ := List.mem_iff_getElem?.mp hb
  refine ⟨(kv.blocksOf r.requestId ++ computed).length + i, ?_, ?_⟩
  · rw [List.getElem?_append_right (Nat.le_add_right _ _), Nat.add_sub_cancel_left]
    exact hi
  · by_contra hle
    have := h.lt_length (Nat.le_of_not_lt hle)
    omega

/-- The slots before caching: full blocks carry their hashes, the rest is unhashed. -/
theorem SlotsPre.slots (h : SlotsPre p kv r computed nc n) (hon : p.enableCaching = true)
    {new : List ℕ} (hun : ∀ b ∈ new, kv.owned b = 0 ∧ b ∉ computed)
    {kv₂ : KVCacheManager} (hhash : ∀ c, kv₂.hashOf c = if c ∈ new then none else kv.hashOf c) :
    (∀ j b, (kv.blocksOf r.requestId ++ computed ++ new)[j]? = some b →
        (j + 1) * p.blockSize ≤ nc → kv₂.hashOf b = some (blockHashOf p r j)) ∧
      ∀ j b, (kv.blocksOf r.requestId ++ computed ++ new)[j]? = some b → nc / p.blockSize ≤ j →
        kv₂.hashOf b = none := by
  have hbs := p.blockSize_pos
  refine ⟨?_, ?_⟩
  · intro j b hj hle
    rw [List.getElem?_append_left (h.lt_length hle)] at hj
    rw [hhash, if_neg (h.not_mem_new hun (List.mem_of_getElem? hj))]
    exact h.full hon j b hj hle
  · intro j b hj hkj
    rw [hhash]
    by_cases hjl : j < (kv.blocksOf r.requestId ++ computed).length
    · rw [List.getElem?_append_left hjl] at hj
      rw [if_neg (h.not_mem_new hun (List.mem_of_getElem? hj))]
      exact (h.fresh hon j b hj ((div_le_iff_lt hbs).mp hkj)).1
    · rw [List.getElem?_append_right (by omega)] at hj
      rw [if_pos (List.mem_of_getElem? hj)]

theorem getElem?_drop_inj {l : List ℕ} {k i j b : ℕ} (hnd : (l.drop k).Nodup)
    (hi : l[i]? = some b) (hki : k ≤ i) (hj : l[j]? = some b) (hkj : k ≤ j) : i = j := by
  have h1 : (l.drop k)[i - k]? = some b := by rw [List.getElem?_drop, Nat.add_sub_cancel' hki, hi]
  have h2 : (l.drop k)[j - k]? = some b := by rw [List.getElem?_drop, Nat.add_sub_cancel' hkj, hj]
  have := LinkedList.index_unique hnd h1 h2
  omega

/-- **Allocation for a text-only request returns**, and what it does. -/
theorem allocateSlots_text (ha : Accounted p kv) (h : SlotsPre p kv r computed nc n) :
    ∃ res kv' r', kv.allocateSlots p r n computed = .ok (res, kv', r') ∧
      (res = none → kv.freeBlockQueue.numFreeBlocks - kv.numEvictable computed <
        kv.numMissingBlocks p r n computed) ∧
      ∀ new, res = some new → SlotsPost p kv r computed nc n new kv' r' := by
  obtain ⟨⟨free, hacc⟩, hok⟩ := ha
  have hbs := p.blockSize_pos
  have hn0 := h.pos
  unfold KVCacheManager.allocateSlots
  rw [if_neg (by omega)]
  simp only
  by_cases hroom : kv.freeBlockQueue.numFreeBlocks - kv.numEvictable computed <
      kv.numMissingBlocks p r n computed
  · rw [if_pos hroom]
    exact ⟨_, _, _, rfl, fun _ => hroom, fun new hnew => by cases hnew⟩
  rw [if_neg hroom, assert_of h.off, ok_bind]
  obtain ⟨hmiss, hmax⟩ := h.missing
  obtain ⟨new, kv₁, free', hnew, hacc₁, hok₁, hblocks, hhash, hnd, hfree, hnone, hle, hge⟩ :=
    hacc.acquire hok r.requestId h.lt
      (show kv.numMissingBlocks p r n computed ≤ _ by omega) (fun hpos => by omega)
  rw [touch_eq h.off, hnew, ok_bind]
  simp only
  have hlen : (kv.blocksOf r.requestId ++ computed ++ new).length =
      (kv.blocksOf r.requestId ++ computed).length + new.length := List.length_append
  have hcov : nc + n ≤ (kv.blocksOf r.requestId ++ computed ++ new).length * p.blockSize := by
    rw [← cdiv_le_iff hbs]
    omega
  have hmaxL : (kv.blocksOf r.requestId ++ computed ++ new).length ≤ p.maxNumBlocksPerReq := by
    by_cases h0 : kv.numMissingBlocks p r n computed ≤ 0
    · rw [hnone h0, List.append_nil]
      exact h.le_max
    · have := hle (by omega)
      omega
  have hun : ∀ b ∈ new, kv.owned b = 0 ∧ b ∉ computed := fun b hb =>
    ⟨hacc.owned_eq_zero (hfree b hb).1, (hfree b hb).2⟩
  by_cases hoff : p.enableCaching = false
  · rw [if_pos hoff]
    have hon : ¬ p.enableCaching = true := by rw [hoff]; decide
    refine ⟨_, _, _, rfl, fun hc => (Option.some_ne_none _ hc).elim, fun new' hnew' => ?_⟩
    cases hnew'
    exact ⟨⟨⟨free', hacc₁⟩, hok₁⟩, ⟨r.kvBlockHashes, rfl⟩, hblocks, hcov, hmaxL, hnd, hun,
      h.chain, fun h' => absurd h' hon, fun h' => absurd h' hon, fun h' => absurd h' hon,
      fun h' => absurd h' hon⟩
  · rw [if_neg hoff]
    have hon : p.enableCaching = true := by simpa using hoff
    generalize hkv₂ : kv₁.setBlocks r.requestId (kv.blocksOf r.requestId ++ computed ++ new) = kv₂
      at *
    have hL₂ : kv₂.blocksOf r.requestId = kv.blocksOf r.requestId ++ computed ++ new :=
      (kv.blocksOf_of_set hblocks).1
    have hhash₂ : ∀ c, kv₂.hashOf c = if c ∈ new then none else kv.hashOf c := by
      intro c; rw [← hhash c, ← hkv₂]; rfl
    have hnd₂ := h.nodup_drop hon hun hnd
    obtain ⟨hfull₂, hfresh₂⟩ := h.slots hon hun hhash₂
    obtain ⟨kv', hs, hrun, hc', hl', hin, hout⟩ := cacheNewFullBlocks_text h.text h.chain
      (h.hashes hon) h.num (by rw [hL₂]; exact hcov) (by rw [hL₂]; exact hfull₂)
      (by rw [hL₂]; exact hfresh₂) (by rw [hL₂]; exact hnd₂)
    rw [hL₂] at hin hout
    rw [← h.computed_eq, hrun, ok_bind]
    refine ⟨_, _, _, rfl, fun hc => (Option.some_ne_none _ hc).elim, fun new' hnew' => ?_⟩
    cases hnew'
    obtain ⟨hs₂, -, hok₂⟩ := cacheNewFullBlocks_eq_ok hrun
    refine ⟨⟨⟨free', hacc₁.congr hs₂⟩, hok₂ hon hok₁ fun b hb => hacc₁.lt_of_owned hb⟩, ⟨hs, rfl⟩,
      hs₂.reqToBlocks.trans hblocks, hcov, hmaxL, hnd, hun, hc', fun _ => hl', ?_, ?_, ?_⟩
    · intro _ j b hj hle
      by_cases hjc : (j + 1) * p.blockSize ≤ nc
      · rw [hout b fun i hi hki => ?_]
        · exact hfull₂ j b hj hjc
        · have h1 := hfull₂ j b hj hjc
          rw [hfresh₂ i b hi hki] at h1
          cases h1
      · exact hin j b hj ((div_le_iff_lt hbs).mpr (by omega)) ((lt_div_iff_le hbs).mpr hle)
    · intro _ j b hj hlt
      have hkj : nc / p.blockSize ≤ j := (div_le_iff_lt hbs).mpr (by omega)
      rw [hout b fun i hi hki => ?_]
      · exact hfresh₂ j b hj hkj
      · obtain rfl := getElem?_drop_inj hnd₂ hi hki hj hkj
        exact (div_le_iff_lt hbs).mpr hlt
    · intro _ b hb
      rw [hout b fun i hi hki => absurd (hb i hi) (by rw [div_le_iff_lt hbs] at hki; omega), hhash₂,
        if_neg fun hm => ?_]
      obtain ⟨i, hi, hlt⟩ := h.index_new hm
      have := hb i hi
      omega

end Slots

end KVCacheManager

end SpaceServe
