import SpaceServe.KVCache.Allocate

/-!
# Filed blocks

What `allocate_slots` does to the hashes, for any request. The first blocks of a request are filed
under the hashes that the request keeps; the others carry no hash and nobody else holds them.

A call raises for two reasons only: the hashes of the multi-modal inputs are missing, or the request
is longer than the model allows.

* `Filed`: the first `k` blocks of a request are filed, and the others are its own;
* `cacheLoop_filed`, `cacheNewFullBlocks_filed`: caching new full blocks;
* **`allocateSlots_filed`**: a call of `allocate_slots` returns or raises for one of these reasons,
  and what it does.
-/

set_option autoImplicit false

namespace SpaceServe

open Py

namespace KVCacheManager

variable {p : KVCacheParams}

/-- The hashes kept on a request are a chain over its full blocks. -/
structure HashChain (p : KVCacheParams) (r : Request) : Prop where
  len : r.kvBlockHashes.length * p.blockSize ≤ r.numTokens
  chained : Chained p.hash r.kvBlockHashes

/-- The first `k` blocks of a request are filed under the hashes `hs`; the others carry no hash and
are its own. -/
structure Filed (kv : KVCacheManager) (id : ReqId) (hs : List BlockHashType) (k : ℕ) : Prop where
  le : k ≤ (kv.blocksOf id).length
  filed : ∀ j b, j < k → (kv.blocksOf id)[j]? = some b →
    ∃ h, hs[j]? = some h ∧ kv.hashOf b = some h
  own : ∀ j b, k ≤ j → (kv.blocksOf id)[j]? = some b → kv.hashOf b = none ∧ kv.owned b = 1

/-- Why a request makes the scheduler raise: the hashes of its inputs are missing, it is longer than
the model allows, or it has no tokens. -/
inductive Excused (p : KVCacheParams) (r : Request) : Exn → Prop
  | missing {msg : String} : p.enableCaching = true → MissingHashes r → Excused p r (.valueError msg)
  | tooLong : p.maxModelLen < r.numTokens → Excused p r (.assertionError "")
  | noTokens : r.numTokens = 0 → Excused p r (.indexError "pop from empty list")

/-- **A request gets its hashes**, unless those of its inputs are missing. -/
theorem HashChain.ensure {r : Request} (h : HashChain p r) :
    (∃ hs, ensureKvBlockHashes p r = .ok (r.setKvBlockHashes hs) ∧ r.kvBlockHashes <+: hs ∧
      HashChain p (r.setKvBlockHashes hs)) ∨
    (MissingHashes r ∧ ∃ msg, ensureKvBlockHashes p r = .error (.valueError msg)) := by
  unfold ensureKvBlockHashes
  by_cases hemp : r.kvBlockHashes = []
  · rw [if_pos hemp]
    obtain ⟨hs, hrun, hchained, hlen⟩ | ⟨hmiss, msg, hrun⟩ :=
      hashRequestTokens_cases p.hash p.blockSize r
    · refine Or.inl ⟨hs, by rw [hrun, ok_bind], ?_, hlen, hchained⟩
      rw [hemp]
      exact List.nil_prefix
    · exact Or.inr ⟨hmiss, msg, by rw [hrun, error_bind]⟩
  · rw [if_neg hemp]
    exact Or.inl ⟨r.kvBlockHashes, rfl, List.prefix_refl _, h⟩

/-- **A lookup** returns the blocks that are filed under the hashes of the request. -/
theorem HashChain.lookup {kv : KVCacheManager} (hok : CacheOk p kv) {r : Request}
    (h : HashChain p r) :
    (∃ bs hs, kv.getComputedBlocks p r =
        .ok (bs, bs.length * p.blockSize, r.setKvBlockHashes hs) ∧ r.kvBlockHashes <+: hs ∧
      HashChain p (r.setKvBlockHashes hs) ∧ (p.enableCaching = false → bs = [])) ∨
    ∃ msg, kv.getComputedBlocks p r = .error (.valueError msg) ∧ p.enableCaching = true ∧
      MissingHashes r := by
  unfold getComputedBlocks
  by_cases hoff : p.enableCaching = false
  · rw [if_pos hoff]
    exact Or.inl ⟨[], r.kvBlockHashes, by simp, List.prefix_refl _, h, fun _ => rfl⟩
  · rw [if_neg hoff]
    obtain ⟨hs, hrun, hpre, hchain⟩ | ⟨hmiss, msg, hrun⟩ := h.ensure
    · obtain ⟨bs, hbs, -⟩ := hok.computedLoop hs []
      refine Or.inl ⟨bs, hs, ?_, hpre, hchain, fun hon => absurd hon hoff⟩
      rw [hrun, ok_bind, Request.setKvBlockHashes_kvBlockHashes, hbs, ok_bind, List.nil_append]
    · rw [hrun]
      exact Or.inr ⟨msg, rfl, by simpa using hoff, hmiss⟩

section

variable {kv kv' : KVCacheManager} {id : ReqId} {hs : List BlockHashType} {k : ℕ}

/-- There is a hash for each filed block. -/
theorem Filed.le_hashes (h : Filed kv id hs k) : k ≤ hs.length := by
  by_contra hlt
  have hle := h.le
  have hb := List.getElem?_eq_getElem (show hs.length < (kv.blocksOf id).length by omega)
  obtain ⟨x, hx, -⟩ := h.filed hs.length _ (by omega) hb
  rw [List.getElem?_eq_none (Nat.le_refl _)] at hx
  cases hx

/-- The blocks that are not filed stand at one place only. -/
theorem Filed.own_index (h : Filed kv id hs k) {i j b : ℕ} (hi : k ≤ i)
    (hbi : (kv.blocksOf id)[i]? = some b) (hbj : (kv.blocksOf id)[j]? = some b) : j = i := by
  have hone := (h.own i b hi hbi).2
  have hcnt := kv.count_blocksOf_le b id
  by_contra hne
  obtain ⟨hj, hje⟩ := List.getElem?_eq_some_iff.mp hbj
  obtain ⟨hi', hie⟩ := List.getElem?_eq_some_iff.mp hbi
  have htwo : (kv.blocksOf id).Duplicate b := by
    rw [List.duplicate_iff_exists_distinct_get]
    obtain hlt | hlt := Nat.lt_or_gt_of_ne hne
    · exact ⟨⟨j, hj⟩, ⟨i, hi'⟩, hlt, hje.symm, hie.symm⟩
    · exact ⟨⟨i, hi'⟩, ⟨j, hj⟩, hlt, hie.symm, hje.symm⟩
  have := List.duplicate_iff_two_le_count.mp htwo
  omega

/-- What the others must leave alone. -/
theorem Filed.frame (h : Filed kv id hs k) (hb : kv'.blocksOf id = kv.blocksOf id)
    (hh : ∀ b ∈ kv.blocksOf id, kv'.hashOf b = kv.hashOf b)
    (ho : ∀ b ∈ kv.blocksOf id, kv.hashOf b = none → kv.owned b = 1 → kv'.owned b = 1) :
    Filed kv' id hs k := by
  refine ⟨by rw [hb]; exact h.le, fun j b hj hjb => ?_, fun j b hj hjb => ?_⟩
  · rw [hb] at hjb
    rw [hh b (List.mem_of_getElem? hjb)]
    exact h.filed j b hj hjb
  · rw [hb] at hjb
    have hm := List.mem_of_getElem? hjb
    obtain ⟨h1, h2⟩ := h.own j b hj hjb
    exact ⟨by rw [hh b hm]; exact h1, ho b hm h1 h2⟩

theorem Filed.mono_hashes (h : Filed kv id hs k) {hs' : List BlockHashType} (hp : hs <+: hs') :
    Filed kv id hs' k := by
  obtain ⟨ext, rfl⟩ := hp
  refine ⟨h.le, fun j b hj hjb => ?_, h.own⟩
  obtain ⟨x, hx, hb⟩ := h.filed j b hj hjb
  exact ⟨x, by rw [List.getElem?_append_left (List.getElem?_eq_some_iff.mp hx).1]; exact hx, hb⟩

/-! ## Caching full blocks -/

/-- A hash for the next block is at hand or computed. -/
theorem blockHashAt_cases {m i : ℕ} {r : Request} (hc : HashChain p r)
    (hlen : r.kvBlockHashes.length = max m i) (hnum : (i + 1) * p.blockSize ≤ r.numTokens) :
    (∃ h r', blockHashAt p m r i (prevValue r.kvBlockHashes i) = .ok (h, r') ∧
      (∃ hs, r' = r.setKvBlockHashes hs) ∧ r.kvBlockHashes <+: r'.kvBlockHashes ∧ HashChain p r' ∧
      r'.kvBlockHashes.length = max m (i + 1) ∧ r'.kvBlockHashes[i]? = some h) ∨
    (MissingHashes r ∧ ∃ msg, blockHashAt p m r i (prevValue r.kvBlockHashes i) =
      .error (.valueError msg)) := by
  unfold blockHashAt
  by_cases him : i < m
  · have hget := List.getElem?_eq_getElem (show i < r.kvBlockHashes.length by omega)
    rw [if_pos him, hget, ofOption_some, ok_bind]
    exact Or.inl ⟨_, r, rfl, ⟨r.kvBlockHashes, rfl⟩, List.prefix_refl _, hc, by omega, hget⟩
  · rw [if_neg him]
    have hi : i = r.kvBlockHashes.length := by omega
    have hsl : (slice r.allTokenIds (i * p.blockSize) ((i + 1) * p.blockSize)).length =
        p.blockSize := by
      rw [length_slice, Nat.succ_mul]
      rw [Nat.succ_mul] at hnum
      change min _ (r.numTokens - _) = _
      omega
    unfold newBlockHash
    simp only [assert_of hsl, ok_bind]
    obtain ⟨ek, m', hk, -⟩ | ⟨hmiss, msg, hk⟩ := generateBlockHashExtraKeys_cases r
      (i * p.blockSize) ((i + 1) * p.blockSize) (Int.le_refl (-1))
    · rw [hk, ok_bind, ok_bind]
      refine Or.inl ⟨_, _, rfl, ⟨_, rfl⟩, List.prefix_append _ _, ⟨?_, ?_⟩, ?_, ?_⟩
      · rw [Request.appendKvBlockHashes, Request.setKvBlockHashes_kvBlockHashes, List.length_append,
          List.length_singleton, ← hi]
        exact hnum
      · rw [hi]
        exact hc.chained.append _ ek
      · rw [Request.appendKvBlockHashes, Request.setKvBlockHashes_kvBlockHashes, List.length_append,
          List.length_singleton]
        omega
      · rw [Request.appendKvBlockHashes, Request.setKvBlockHashes_kvBlockHashes, hi,
          List.getElem?_concat_length]
    · rw [hk]
      exact Or.inr ⟨hmiss, msg, rfl⟩

/-- The next block is filed. -/
theorem Filed.cacheBlock (h : Filed kv id hs k) {b : ℕ} {x : BlockHashType}
    (hb : (kv.blocksOf id)[k]? = some b) (hx : hs[k]? = some x) :
    Filed (kv.cacheBlock b x) id hs (k + 1) := by
  have hlt := (List.getElem?_eq_some_iff.mp hb).1
  refine ⟨hlt, fun j c hj hjc => ?_, fun j c hj hjc => ?_⟩
  · rw [cacheBlock_hashOf]
    split_ifs with hcb
    · subst hcb
      obtain rfl := h.own_index (Nat.le_refl k) hb hjc
      exact ⟨x, hx, rfl⟩
    · refine h.filed j c (Nat.lt_of_le_of_ne (by omega) ?_) hjc
      rintro rfl
      exact hcb (Option.some.inj (hjc.symm.trans hb))
  · obtain ⟨h1, h2⟩ := h.own j c (by omega) hjc
    refine ⟨?_, h2⟩
    rw [cacheBlock_hashOf, if_neg ?_]
    · exact h1
    · rintro rfl
      have := h.own_index (Nat.le_refl k) hb hjc
      omega

/-- **The loop files the next blocks.** -/
theorem cacheLoop_filed {m : ℕ} : ∀ {bs : List ℕ} {i : ℕ} {kv : KVCacheManager} {r : Request},
    HashChain p r → r.kvBlockHashes.length = max m i → (i + bs.length) * p.blockSize ≤ r.numTokens →
    Filed kv id r.kvBlockHashes i → (∀ j b, bs[j]? = some b → (kv.blocksOf id)[i + j]? = some b) →
    (∃ kv' r', KVCacheManager.cacheLoop p m bs i (prevValue r.kvBlockHashes i) kv r = .ok (kv', r') ∧
      r.kvBlockHashes <+: r'.kvBlockHashes ∧ HashChain p r' ∧
      Filed kv' id r'.kvBlockHashes (i + bs.length) ∧ ∀ c ∉ bs, kv'.hashOf c = kv.hashOf c) ∨
    (MissingHashes r ∧ ∃ msg, KVCacheManager.cacheLoop p m bs i (prevValue r.kvBlockHashes i) kv r =
      .error (.valueError msg))
  | [], i, kv, r, hc, _, _, hf, _ =>
    Or.inl ⟨kv, r, rfl, List.prefix_refl _, hc, hf, fun _ _ => rfl⟩
  | b :: bs, i, kv, r, hc, hlen, hnum, hf, hL => by
    have hb : (kv.blocksOf id)[i]? = some b := hL 0 b rfl
    have hnone : (kv.blocks b).blockHash = none := (hf.own i b (Nat.le_refl i) hb).1
    rw [List.length_cons] at hnum
    rw [KVCacheManager.cacheLoop, assert_of hnone, ok_bind]
    obtain ⟨x, r₁, hat, ⟨hs₁, hr₁⟩, hpre, hc₁, hlen₁, hx⟩ | ⟨hmiss, msg, hat⟩ :=
      blockHashAt_cases hc hlen (Nat.le_trans (Nat.mul_le_mul_right _ (by omega)) hnum)
    · rw [hat, ok_bind]
      simp only [assert_of hnone, ok_bind]
      have hprev : some x.hashValue = prevValue r₁.kvBlockHashes (i + 1) := by
        simp only [prevValue, hx, Option.map_some]
      have hsame : r₁.numTokens = r.numTokens ∧ (MissingHashes r₁ ↔ MissingHashes r) := by
        rw [hr₁]
        exact ⟨rfl, Iff.rfl⟩
      have ih := cacheLoop_filed (m := m) hc₁ hlen₁ (by
        rw [hsame.1, Nat.add_assoc, Nat.add_comm 1]; exact hnum) ((hf.mono_hashes hpre).cacheBlock hb hx)
        (fun j c hj => by
          have := hL (j + 1) c hj
          rwa [show i + (j + 1) = i + 1 + j by omega] at this)
      simp only [hprev]
      obtain ⟨kv', r', hrun, hpre', hc', hf', hout⟩ | ⟨hmiss, msg, hrun⟩ := ih
      · refine Or.inl ⟨kv', r', hrun, hpre.trans hpre', hc', ?_, fun c hcm => ?_⟩
        · rw [List.length_cons, show i + (bs.length + 1) = i + 1 + bs.length by omega]
          exact hf'
        · rw [List.mem_cons, not_or] at hcm
          rw [hout c hcm.2, cacheBlock_hashOf, if_neg hcm.1]
      · exact Or.inr ⟨hsame.2.mp hmiss, msg, hrun⟩
    · rw [hat]
      exact Or.inr ⟨hmiss, msg, rfl⟩

/-- The filed blocks among the new full blocks are passed over. -/
theorem Filed.skipCached (h : Filed kv id hs k) : ∀ {bs : List ℕ} {i : ℕ} (o : ℕ), i ≤ k →
    (∀ j b, bs[j]? = some b → (kv.blocksOf id)[i + j]? = some b) →
    kv.skipCached bs (prevValue hs i) o =
      (prevValue hs (i + min bs.length (k - i)), o + min bs.length (k - i))
  | [], i, o, _, _ => by simp [KVCacheManager.skipCached]
  | b :: bs, i, o, hi, hL => by
    have hb : (kv.blocksOf id)[i]? = some b := hL 0 b rfl
    rw [KVCacheManager.skipCached]
    by_cases hik : i < k
    · obtain ⟨x, hx, hbx⟩ := h.filed i b hik hb
      have hbx' : (kv.blocks b).blockHash = some x := hbx
      have hprev : some x.hashValue = prevValue hs (i + 1) := by
        simp only [prevValue, hx, Option.map_some]
      simp only [hbx', hprev]
      rw [h.skipCached (o + 1) (show i + 1 ≤ k by omega) fun j c hj => by
          have := hL (j + 1) c hj
          rwa [show i + (j + 1) = i + 1 + j by omega] at this, List.length_cons,
        show i + 1 + min bs.length (k - (i + 1)) = i + min (bs.length + 1) (k - i) by omega,
        show o + 1 + min bs.length (k - (i + 1)) = o + min (bs.length + 1) (k - i) by omega]
    · have hnone : (kv.blocks b).blockHash = none := (h.own i b (by omega) hb).1
      simp only [hnone]
      rw [show k - i = 0 by omega, Nat.min_zero, Nat.add_zero, Nat.add_zero]

/-- **Caching the new full blocks** files them, after those that are filed already. -/
theorem cacheNewFullBlocks_filed {r : Request} {nc n : ℕ} (hc : HashChain p r)
    (hf : Filed kv r.requestId r.kvBlockHashes k)
    (hk : min (nc / p.blockSize) (kv.blocksOf r.requestId).length ≤ k) (hnum : nc + n ≤ r.numTokens) :
    (∃ kv' r' k', kv.cacheNewFullBlocks p r nc n = .ok (kv', r') ∧
      r.kvBlockHashes <+: r'.kvBlockHashes ∧ HashChain p r' ∧
      Filed kv' r.requestId r'.kvBlockHashes k' ∧
      min ((nc + n) / p.blockSize) (kv.blocksOf r.requestId).length ≤ k' ∧
      ∀ c, (c ∈ kv.blocksOf r.requestId → kv.hashOf c ≠ none) → kv'.hashOf c = kv.hashOf c) ∨
    (MissingHashes r ∧ ∃ msg, kv.cacheNewFullBlocks p r nc n = .error (.valueError msg)) := by
  have hbs := p.blockSize_pos
  have hkh := hf.le_hashes
  have hkl := hf.le
  have hmono : nc / p.blockSize ≤ (nc + n) / p.blockSize :=
    Nat.div_le_div_right (Nat.le_add_right nc n)
  have hk1 : (nc + n) / p.blockSize * p.blockSize ≤ r.numTokens :=
    Nat.le_trans (Nat.div_mul_le_self _ _) hnum
  unfold KVCacheManager.cacheNewFullBlocks
  simp only
  generalize nc / p.blockSize = k0 at *
  generalize (nc + n) / p.blockSize = k1 at *
  have hlen := length_slice (kv.blocksOf r.requestId) k0 k1
  by_cases hemp : slice (kv.blocksOf r.requestId) k0 k1 = []
  · rw [if_pos hemp]
    rw [hemp, List.length_nil] at hlen
    exact Or.inl ⟨kv, r, k, rfl, List.prefix_refl _, hc, hf, by omega, fun _ _ => rfl⟩
  rw [if_neg hemp]
  have hpos := List.length_pos_iff.mpr hemp
  -- the block before the new ones is filed
  have hparent : ∃ o, (if 0 < k0 then (ofOption (.indexError "list index out of range")
        (kv.blocksOf r.requestId)[k0 - 1]?).map some else .ok none) = .ok o ∧
      kv.prevHashValue o = .ok (prevValue r.kvBlockHashes k0) := by
    by_cases h0 : 0 < k0
    · obtain ⟨b, hget⟩ : ∃ b, (kv.blocksOf r.requestId)[k0 - 1]? = some b :=
        ⟨_, List.getElem?_eq_getElem (by omega)⟩
      obtain ⟨x, hx, hbx⟩ := hf.filed (k0 - 1) b (by omega) hget
      refine ⟨some b, by rw [if_pos h0, hget]; rfl, ?_⟩
      have hbx' : (kv.blocks b).blockHash = some x := hbx
      obtain ⟨k', rfl⟩ := Nat.exists_eq_succ_of_ne_zero (show k0 ≠ 0 by omega)
      rw [Nat.succ_sub_one] at hx
      simp only [prevHashValue, hbx', prevValue, hx, Option.map_some]
    · refine ⟨none, by rw [if_neg h0], ?_⟩
      rw [show k0 = 0 by omega]
      rfl
  obtain ⟨o, ho, hpv⟩ := hparent
  have hL : ∀ j b, (slice (kv.blocksOf r.requestId) k0 k1)[j]? = some b →
      (kv.blocksOf r.requestId)[k0 + j]? = some b := by
    intro j b hj
    rw [getElem?_slice] at hj
    split_ifs at hj
    exact hj
  rw [ho, ok_bind]
  unfold cacheFullBlocks
  simp only [hpv, ok_bind, hf.skipCached 0 (show k0 ≤ k by omega) hL, Nat.zero_add]
  by_cases hall : min (slice (kv.blocksOf r.requestId) k0 k1).length (k - k0) =
      (slice (kv.blocksOf r.requestId) k0 k1).length
  · rw [if_pos hall]
    exact Or.inl ⟨kv, r, k, rfl, List.prefix_refl _, hc, hf, by omega, fun _ _ => rfl⟩
  · rw [if_neg hall, show min (slice (kv.blocksOf r.requestId) k0 k1).length (k - k0) = k - k0 by omega,
      Nat.add_sub_cancel' (show k0 ≤ k by omega)]
    have hdrop : ∀ j b, ((slice (kv.blocksOf r.requestId) k0 k1).drop (k - k0))[j]? = some b →
        (kv.blocksOf r.requestId)[k + j]? = some b := by
      intro j b hj
      rw [List.getElem?_drop] at hj
      have := hL _ b hj
      rwa [show k0 + (k - k0 + j) = k + j by omega] at this
    have hend : k + ((slice (kv.blocksOf r.requestId) k0 k1).drop (k - k0)).length =
        min k1 (kv.blocksOf r.requestId).length := by
      rw [List.length_drop]
      omega
    have hloop := cacheLoop_filed (p := p) (m := r.kvBlockHashes.length) (i := k) hc (by omega) (by
      rw [hend]
      exact Nat.le_trans (Nat.mul_le_mul_right _ (Nat.min_le_left _ _)) hk1) hf hdrop
    obtain ⟨kv', r', hrun, hpre, hc', hf', hout⟩ | herr := hloop
    · refine Or.inl ⟨kv', r', _, hrun, hpre, hc', hf', by omega, fun c hcm => hout c fun hm => ?_⟩
      obtain ⟨j, hj⟩ := List.mem_iff_getElem?.mp hm
      have hjL := hdrop j c hj
      exact hcm (List.mem_of_getElem? hjL) (hf.own _ c (Nat.le_add_right k j) hjL).1
    · exact Or.inr herr

/-! ## Allocating slots -/

/-- What `allocate_slots` may assume of a request with its blocks and the hits `computed`: the first
`k` of them are filed, as far as they are computed, and the others are its own. -/
structure Offered (p : KVCacheParams) (kv : KVCacheManager) (r : Request) (computed : List ℕ)
    (n k : ℕ) : Prop where
  pos : 0 < n
  num : r.numComputedTokens + computed.length * p.blockSize + n ≤ r.numTokens
  chain : HashChain p r
  lt : ∀ b ∈ computed, b < p.numGpuBlocks
  off : p.enableCaching = false → computed = []
  hits : ∀ b ∈ computed, kv.hashOf b ≠ none
  le : k ≤ (kv.blocksOf r.requestId ++ computed).length
  filed : ∀ j b, j < k → (kv.blocksOf r.requestId ++ computed)[j]? = some b →
    ∃ h, r.kvBlockHashes[j]? = some h ∧ kv.hashOf b = some h
  own : ∀ j b, k ≤ j → (kv.blocksOf r.requestId ++ computed)[j]? = some b →
    kv.hashOf b = none ∧ kv.owned b = 1
  reach : p.enableCaching = true →
    min ((r.numComputedTokens + computed.length * p.blockSize) / p.blockSize)
      (kv.blocksOf r.requestId ++ computed).length ≤ k
  covered : r.numComputedTokens + computed.length * p.blockSize ≤
      (kv.blocksOf r.requestId ++ computed).length * p.blockSize ∨
    p.maxNumBlocksPerReq ≤ (kv.blocksOf r.requestId ++ computed).length

/-- What `allocate_slots` has done when it returned the blocks `new`. -/
structure Taken (p : KVCacheParams) (kv : KVCacheManager) (r : Request) (computed : List ℕ) (n : ℕ)
    (new : List ℕ) (kv' : KVCacheManager) (r' : Request) : Prop where
  accounted : Accounted p kv'
  request : ∃ hs, r' = r.setKvBlockHashes hs
  hashes : r.kvBlockHashes <+: r'.kvBlockHashes
  chain : HashChain p r'
  blocks : kv'.reqToBlocks =
    kv.reqToBlocks.set r.requestId (kv.blocksOf r.requestId ++ computed ++ new)
  nodup : new.Nodup
  unowned : ∀ b ∈ new, kv.owned b = 0 ∧ b ∉ computed
  filed : ∃ k, Filed kv' r.requestId r'.kvBlockHashes k ∧ (p.enableCaching = true →
    min ((r.numComputedTokens + computed.length * p.blockSize + n) / p.blockSize)
      (kv.blocksOf r.requestId ++ computed ++ new).length ≤ k)
  covered : r.numComputedTokens + computed.length * p.blockSize + n ≤
      (kv.blocksOf r.requestId ++ computed ++ new).length * p.blockSize ∨
    p.maxNumBlocksPerReq ≤ (kv.blocksOf r.requestId ++ computed ++ new).length
  other : ∀ c, c ∉ new → (c ∈ kv.blocksOf r.requestId ++ computed → kv.hashOf c ≠ none) →
    kv'.hashOf c = kv.hashOf c

variable {r : Request} {computed : List ℕ} {n : ℕ}

/-- The number of missing blocks. -/
theorem numMissingBlocks_eq (kv : KVCacheManager) (r : Request) (n : ℕ) (computed : List ℕ) :
    kv.numMissingBlocks p r n computed =
      (cdiv (r.numComputedTokens + computed.length * p.blockSize + n) p.blockSize : ℤ) -
        (kv.blocksOf r.requestId ++ computed).length := by
  simp only [numMissingBlocks, List.length_append]
  omega

/-- A block that the request holds or has hit is not a new one. -/
theorem Offered.not_mem_new (_ : Offered p kv r computed n k) {new : List ℕ}
    (hun : ∀ b ∈ new, kv.owned b = 0 ∧ b ∉ computed) {b : ℕ}
    (hb : b ∈ kv.blocksOf r.requestId ++ computed) : b ∉ new := by
  intro hm
  obtain ⟨h0, hc⟩ := hun b hm
  obtain hb | hb := List.mem_append.mp hb
  · have h1 := List.count_pos_iff.mpr hb
    have h2 := kv.count_blocksOf_le b r.requestId
    omega
  · exact hc hb

/-- The blocks of the request before the new full ones are filed. -/
theorem Offered.acquired (h : Offered p kv r computed n k) {new : List ℕ} (hnd : new.Nodup)
    (hun : ∀ b ∈ new, kv.owned b = 0 ∧ b ∉ computed) {kv₂ : KVCacheManager}
    (hblocks : kv₂.reqToBlocks =
      kv.reqToBlocks.set r.requestId (kv.blocksOf r.requestId ++ computed ++ new))
    (hhash : ∀ c, kv₂.hashOf c = if c ∈ new then none else kv.hashOf c) :
    Filed kv₂ r.requestId r.kvBlockHashes k := by
  have hL : kv₂.blocksOf r.requestId = kv.blocksOf r.requestId ++ computed ++ new :=
    (kv.blocksOf_of_set hblocks).1
  have howned : ∀ b, kv₂.owned b = kv.owned b + (computed ++ new).count b := by
    intro b
    have h1 := kv.owned_setBlocks b r.requestId (kv.blocksOf r.requestId ++ computed ++ new)
    have h2 : (kv.setBlocks r.requestId (kv.blocksOf r.requestId ++ computed ++ new)).owned b =
        kv₂.owned b := by
      rw [owned, owned, hblocks]
      rfl
    rw [h2, List.append_assoc, List.count_append] at h1
    omega
  refine ⟨?_, fun j b hj hjb => ?_, fun j b hj hjb => ?_⟩
  · have := h.le
    rw [hL, List.length_append]
    omega
  · rw [hL, List.getElem?_append_left (Nat.lt_of_lt_of_le hj h.le)] at hjb
    rw [hhash, if_neg (h.not_mem_new hun (List.mem_of_getElem? hjb))]
    exact h.filed j b hj hjb
  · rw [hL] at hjb
    rw [hhash, howned, List.count_append]
    by_cases hjl : j < (kv.blocksOf r.requestId ++ computed).length
    · rw [List.getElem?_append_left hjl] at hjb
      have hm := List.mem_of_getElem? hjb
      obtain ⟨h1, h2⟩ := h.own j b hj hjb
      rw [if_neg (h.not_mem_new hun hm), List.count_eq_zero_of_not_mem (h.not_mem_new hun hm),
        List.count_eq_zero_of_not_mem (fun hc => h.hits b hc h1)]
      exact ⟨h1, h2⟩
    · rw [List.getElem?_append_right (by omega)] at hjb
      have hm := List.mem_of_getElem? hjb
      obtain ⟨h1, h2⟩ := hun b hm
      rw [if_pos hm, h1, List.count_eq_zero_of_not_mem h2, List.count_eq_one_of_mem hnd hm]
      exact ⟨rfl, rfl⟩

theorem Taken.owned {new : List ℕ} {r' : Request} (h : Taken p kv r computed n new kv' r') (b : ℕ) :
    kv'.owned b = kv.owned b + (computed ++ new).count b := by
  have h1 := kv.owned_setBlocks b r.requestId (kv.blocksOf r.requestId ++ computed ++ new)
  have h2 : (kv.setBlocks r.requestId (kv.blocksOf r.requestId ++ computed ++ new)).owned b =
      kv'.owned b := by
    rw [KVCacheManager.owned, KVCacheManager.owned, h.blocks]
    rfl
  rw [h2, List.append_assoc, List.count_append] at h1
  omega

/-- Where the blocks are. -/
theorem Taken.blocksOf {new : List ℕ} {r' : Request} (h : Taken p kv r computed n new kv' r') :
    kv'.blocksOf r.requestId = kv.blocksOf r.requestId ++ computed ++ new ∧
      ∀ id, id ≠ r.requestId → kv'.blocksOf id = kv.blocksOf id :=
  kv.blocksOf_of_set h.blocks

/-- The blocks of another request are left alone. -/
theorem Filed.other (h : Filed kv id hs k) {m : ℕ} (hoff : Offered p kv r computed n m)
    {new : List ℕ} {r' : Request} (ht : Taken p kv r computed n new kv' r')
    (hne : id ≠ r.requestId) : Filed kv' id hs k := by
  have hnew : ∀ b ∈ kv.blocksOf id, b ∉ new := by
    intro b hb hm
    have h1 := List.count_pos_iff.mpr hb
    have h2 := kv.count_blocksOf_le b id
    have h3 := (ht.unowned b hm).1
    omega
  refine h.frame (ht.blocksOf.2 id hne) (fun b hb => ?_) fun b hb hnone hone => ?_
  · refine ht.other b (hnew b hb) fun hm hnone => ?_
    obtain hm | hm := List.mem_append.mp hm
    · obtain ⟨j, hj⟩ := List.mem_iff_getElem?.mp hm
      have hj' : (kv.blocksOf r.requestId ++ computed)[j]? = some b := by
        rw [List.getElem?_append_left (List.getElem?_eq_some_iff.mp hj).1]
        exact hj
      by_cases hjm : j < m
      · obtain ⟨x, -, hx⟩ := hoff.filed j b hjm hj'
        rw [hnone] at hx
        cases hx
      · have h1 := (hoff.own j b (by omega) hj').2
        have h2 := kv.count_two_le b hne
        have h3 := List.count_pos_iff.mpr hm
        have h4 := List.count_pos_iff.mpr hb
        omega
    · exact hoff.hits b hm hnone
  · rw [ht.owned, List.count_append, List.count_eq_zero_of_not_mem (hnew b hb),
      List.count_eq_zero_of_not_mem (fun hm => hoff.hits b hm hnone), hone]

/-- **What `allocate_slots` does**: it refuses for want of free blocks, it gives the blocks, or it
raises for one of two reasons. -/
theorem allocateSlots_filed (ha : Accounted p kv) (h : Offered p kv r computed n k) :
    (kv.allocateSlots p r n computed =
        .ok (none, kv.setBlocks r.requestId (kv.blocksOf r.requestId), r) ∧
      kv.freeBlockQueue.numFreeBlocks - kv.numEvictable computed <
        kv.numMissingBlocks p r n computed) ∨
    (∃ new kv' r', kv.allocateSlots p r n computed = .ok (some new, kv', r') ∧
      Taken p kv r computed n new kv' r') ∨
    ∃ e, kv.allocateSlots p r n computed = .error e ∧ Excused p r e := by
  obtain ⟨⟨free, hacc⟩, hok⟩ := ha
  have hbs := p.blockSize_pos
  have hpos := h.pos
  have hnum := h.num
  have hmiss := numMissingBlocks_eq (p := p) kv r n computed
  have hcdiv := le_cdiv_mul hbs (r.numComputedTokens + computed.length * p.blockSize + n)
  unfold KVCacheManager.allocateSlots
  rw [if_neg (by omega)]
  simp only
  by_cases hroom : kv.freeBlockQueue.numFreeBlocks - kv.numEvictable computed <
      kv.numMissingBlocks p r n computed
  · rw [if_pos hroom]
    exact Or.inl ⟨rfl, hroom⟩
  right
  rw [if_neg hroom, assert_of h.off, ok_bind]
  rw [touch_eq h.off]
  by_cases hmax : 0 < kv.numMissingBlocks p r n computed →
      (kv.blocksOf r.requestId ++ computed).length < p.maxNumBlocksPerReq
  · obtain ⟨new, kv₁, free', hnew, hacc₁, hok₁, hblocks, hhash, hnd, hfree, hnone, -, hge⟩ :=
      hacc.acquire hok r.requestId h.lt
        (show kv.numMissingBlocks p r n computed ≤ _ by omega) hmax
    have hun : ∀ b ∈ new, kv.owned b = 0 ∧ b ∉ computed := fun b hb =>
      ⟨hacc.owned_eq_zero (hfree b hb).1, (hfree b hb).2⟩
    have hlen : (kv.blocksOf r.requestId ++ computed ++ new).length =
        (kv.blocksOf r.requestId ++ computed).length + new.length := List.length_append
    have hcov : r.numComputedTokens + computed.length * p.blockSize + n ≤
          (kv.blocksOf r.requestId ++ computed ++ new).length * p.blockSize ∨
        p.maxNumBlocksPerReq ≤ (kv.blocksOf r.requestId ++ computed ++ new).length := by
      rw [← cdiv_le_iff hbs]
      omega
    rw [hnew, ok_bind]
    simp only
    generalize hkv₂ : kv₁.setBlocks r.requestId (kv.blocksOf r.requestId ++ computed ++ new) = kv₂
      at *
    have hhash₂ : ∀ c, kv₂.hashOf c = if c ∈ new then none else kv.hashOf c := by
      intro c
      rw [← hhash c, ← hkv₂]
      rfl
    have hL : kv₂.blocksOf r.requestId = kv.blocksOf r.requestId ++ computed ++ new :=
      (kv.blocksOf_of_set hblocks).1
    have hfiled := h.acquired hnd hun hblocks hhash₂
    by_cases hoff : p.enableCaching = false
    · rw [if_pos hoff]
      refine Or.inl ⟨new, kv₂, r, rfl, ⟨⟨free', hacc₁⟩, hok₁⟩, ⟨r.kvBlockHashes, rfl⟩,
        List.prefix_refl _, h.chain, hblocks, hnd, hun, ⟨k, hfiled, fun hon => ?_⟩, hcov,
        fun c hc _ => by rw [hhash₂, if_neg hc]⟩
      rw [hoff] at hon
      cases hon
    · rw [if_neg hoff]
      have hon : p.enableCaching = true := by simpa using hoff
      -- what is computed is covered by the blocks, and filed
      have hreach : min ((r.numComputedTokens + computed.length * p.blockSize) / p.blockSize)
          (kv₂.blocksOf r.requestId).length ≤ k := by
        have h1 := h.reach hon
        rw [hL, hlen]
        obtain hc | hc := h.covered
        · have h2 : (r.numComputedTokens + computed.length * p.blockSize) / p.blockSize ≤
              (kv.blocksOf r.requestId ++ computed).length := by
            rw [← Nat.mul_div_cancel (kv.blocksOf r.requestId ++ computed).length hbs]
            exact Nat.div_le_div_right hc
          omega
        · have h2 : new = [] := hnone (by omega)
          rw [h2, List.length_nil]
          omega
      obtain ⟨kv', r', k', hrun, hpre, hchain, hf', hk', hout⟩ | ⟨hmiss', msg, hrun⟩ :=
        cacheNewFullBlocks_filed h.chain hfiled hreach h.num
      · rw [hrun, ok_bind]
        obtain ⟨hsame, hreq, hok'⟩ := cacheNewFullBlocks_eq_ok hrun
        refine Or.inl ⟨new, kv', r', rfl, ⟨⟨free', hacc₁.congr hsame⟩,
          hok' hon hok₁ fun b hb => hacc₁.lt_of_owned hb⟩, hreq, hpre, hchain,
          hsame.reqToBlocks.trans hblocks, hnd, hun, ⟨k', hf', fun _ => hL ▸ hk'⟩, hcov,
          fun c hc hcm => ?_⟩
        rw [hout c fun hm => ?_, hhash₂, if_neg hc]
        rw [hhash₂, if_neg hc]
        rw [hL, List.mem_append] at hm
        exact hcm (hm.resolve_right hc)
      · rw [hrun]
        exact Or.inr ⟨_, rfl, .missing hon hmiss'⟩
  · -- the request has as many blocks as it may have
    rw [Classical.not_imp] at hmax
    have hlong : p.maxModelLen < r.numTokens := by
      by_contra hle
      have h1 : cdiv (r.numComputedTokens + computed.length * p.blockSize + n) p.blockSize ≤
          p.maxNumBlocksPerReq := by
        rw [KVCacheParams.maxNumBlocksPerReq, cdiv_le_iff hbs]
        have := le_cdiv_mul hbs p.maxModelLen
        omega
      omega
    refine Or.inr ⟨_, ?_, .tooLong hlong⟩
    unfold takeNewBlocks
    rw [if_neg (by omega)]
    simp only
    rw [assert_not (by omega), error_bind, error_bind]

/-- A call that returned blocks has taken them. -/
theorem Offered.taken (h : Offered p kv r computed n k) (ha : Accounted p kv) {new : List ℕ}
    {r' : Request} (halloc : kv.allocateSlots p r n computed = .ok (some new, kv', r')) :
    Taken p kv r computed n new kv' r' := by
  obtain ⟨hnone, -⟩ | ⟨new', kv₁, r₁, hsome, ht⟩ | ⟨e, he, -⟩ := allocateSlots_filed ha h
  · cases halloc.symm.trans hnone
  · cases halloc.symm.trans hsome
    exact ht
  · cases halloc.symm.trans he

/-- Only the hashes of the request have changed. -/
theorem Taken.requestId {new : List ℕ} {r' : Request} (h : Taken p kv r computed n new kv' r') :
    r'.requestId = r.requestId := by
  obtain ⟨hs, rfl⟩ := h.request
  rfl

theorem Taken.numTokens {new : List ℕ} {r' : Request} (h : Taken p kv r computed n new kv' r') :
    r'.numTokens = r.numTokens := by
  obtain ⟨hs, rfl⟩ := h.request
  rfl

theorem Taken.numComputedTokens {new : List ℕ} {r' : Request}
    (h : Taken p kv r computed n new kv' r') : r'.numComputedTokens = r.numComputedTokens := by
  obtain ⟨hs, rfl⟩ := h.request
  rfl

end

end KVCacheManager

end SpaceServe
