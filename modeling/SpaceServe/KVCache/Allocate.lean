import SpaceServe.KVCache.Accounting

/-!
# Allocation and runs of the KV-cache manager

Cached blocks are looked up and filed, `allocate_slots` puts the steps of the accounting together,
and the calls that the scheduler makes are run one after the other.

* `CacheOk.getComputedBlocks`: the blocks returned carry the first hashes of the request;
* `allocateSlots_eq_ok`, **`allocateSlots_spec`**: how a call of `allocate_slots` that returned has
  run, and what it has done to the accounts;
* `KVCall`, `call`: the calls of the scheduler;
* **`block_accounting`**: in every state reached by them no block is lost, freed twice or handed out
  twice.
-/

set_option autoImplicit false

namespace SpaceServe

open Py LinkedList

namespace KVCacheManager

variable {p : KVCacheParams}

/-! ## Looking blocks up and filing them -/

section Cached

variable {kv : KVCacheManager}

/-- A lookup returns a block that carries the hash, if there is one. -/
theorem CacheOk.getCachedBlock (hc : CacheOk p kv) (h : BlockHashType) :
    ∃ o, kv.getCachedBlock h = .ok o ∧ (∀ b, o = some b → kv.hashOf b = some h) ∧
      (o = none → ∀ b, kv.hashOf b ≠ some h) := by
  unfold KVCacheManager.getCachedBlock
  cases hm : kv.cachedBlockHashToBlock.get? h with
  | none =>
    refine ⟨none, rfl, fun b hb => (Option.some_ne_none b hb.symm).elim, fun _ b hb => ?_⟩
    obtain ⟨m, hm', _⟩ := hc.filed h b hb
    rw [hm] at hm'
    cases hm'
  | some m =>
    obtain ⟨e, l, he⟩ := List.exists_cons_of_ne_nil (hc.nonempty h m hm)
    have hg : m.get? e.1 = some e.2 :=
      (m.mem_entries e.1 e.2).mp (by rw [he]; exact List.mem_cons_self)
    have hk : m.keys.head? = some e.1 := by rw [Dict.keys, he]; rfl
    refine ⟨some e.2, ?_, fun b hb => ?_, fun hn => by cases hn⟩
    · simp only [hk, hg, ofOption_some, ok_bind]
    · cases hb
      obtain ⟨h1, h2⟩ := hc.hash_of h m e.1 e.2 hm hg
      rw [h1]
      exact h2

/-- The loop returns blocks that carry the hashes, in order. -/
theorem CacheOk.computedLoop (hc : CacheOk p kv) : ∀ (hs : List BlockHashType) (acc : List ℕ),
    ∃ bs, kv.computedLoop hs acc = .ok (acc ++ bs) ∧
      bs.map kv.hashOf = (hs.take bs.length).map some
  | [], acc => ⟨[], by simp [KVCacheManager.computedLoop], rfl⟩
  | h :: hs, acc => by
    obtain ⟨o, ho, hsome, _⟩ := hc.getCachedBlock h
    cases o with
    | none => exact ⟨[], by simp [KVCacheManager.computedLoop, ho], rfl⟩
    | some b =>
      obtain ⟨bs, hbs, hmap⟩ := hc.computedLoop hs (acc ++ [b])
      refine ⟨b :: bs, by simp [KVCacheManager.computedLoop, ho, hbs], ?_⟩
      simp [hsome b rfl, hmap]

/-- How a call of `get_computed_blocks` that returned has run. -/
theorem getComputedBlocks_eq_ok {request request' : Request} {bs : List ℕ} {n : ℕ}
    (h : kv.getComputedBlocks p request = .ok (bs, n, request')) :
    n = bs.length * p.blockSize ∧ (∃ hs, request' = request.setKvBlockHashes hs) ∧
      ((p.enableCaching = false ∧ bs = [] ∧ request' = request) ∨
        (p.enableCaching = true ∧ ensureKvBlockHashes p request = .ok request' ∧
          kv.computedLoop request'.kvBlockHashes [] = .ok bs)) := by
  unfold KVCacheManager.getComputedBlocks at h
  split_ifs at h with hoff
  · cases h
    exact ⟨by simp, ⟨request.kvBlockHashes, rfl⟩, Or.inl ⟨hoff, rfl, rfl⟩⟩
  · rw [bind_eq_ok] at h
    obtain ⟨r, hr, h⟩ := h
    rw [bind_eq_ok] at h
    obtain ⟨bs', hbs, h⟩ := h
    cases h
    refine ⟨rfl, ?_, Or.inr ⟨by simpa using hoff, hr, hbs⟩⟩
    unfold ensureKvBlockHashes at hr
    split_ifs at hr with he
    · rw [bind_eq_ok] at hr
      obtain ⟨hs, _, hr⟩ := hr
      cases hr
      exact ⟨hs, rfl⟩
    · cases hr
      exact ⟨request.kvBlockHashes, rfl⟩

/-- The blocks returned carry the first hashes of the request. -/
theorem CacheOk.getComputedBlocks (hc : CacheOk p kv) {request request' : Request} {bs : List ℕ}
    {n : ℕ} (h : kv.getComputedBlocks p request = .ok (bs, n, request')) :
    bs.map kv.hashOf = (request'.kvBlockHashes.take bs.length).map some := by
  obtain ⟨-, -, ⟨-, rfl, -⟩ | ⟨-, -, hloop⟩⟩ := getComputedBlocks_eq_ok h
  · rfl
  · obtain ⟨bs', hbs, hmap⟩ := hc.computedLoop request'.kvBlockHashes []
    rw [hloop, List.nil_append] at hbs
    cases hbs
    exact hmap

/-- Each of them is filed under the hash at its place. -/
theorem CacheOk.hit_hash (hc : CacheOk p kv) {request request' : Request} {bs : List ℕ} {n : ℕ}
    (h : kv.getComputedBlocks p request = .ok (bs, n, request')) {j b : ℕ} (hj : bs[j]? = some b) :
    ∃ x, request'.kvBlockHashes[j]? = some x ∧ kv.hashOf b = some x := by
  have hjl := (List.getElem?_eq_some_iff.mp hj).1
  have hget := congrArg (fun l => l[j]?) (hc.getComputedBlocks h)
  simp only [List.getElem?_map, hj, Option.map_some, List.getElem?_take, if_pos hjl] at hget
  obtain ⟨x, hx, hbx⟩ := Option.map_eq_some_iff.mp hget.symm
  exact ⟨x, hx, hbx.symm⟩

theorem CacheOk.length_hits_le (hc : CacheOk p kv) {request request' : Request} {bs : List ℕ} {n : ℕ}
    (h : kv.getComputedBlocks p request = .ok (bs, n, request')) :
    bs.length ≤ request'.kvBlockHashes.length := by
  have hlen := congrArg List.length (hc.getComputedBlocks h)
  simp only [List.length_map, List.length_take] at hlen
  omega

/-- A hit is a block of the pool. -/
theorem CacheOk.lt_of_hit (hc : CacheOk p kv) {bs : List ℕ} {hs : List BlockHashType}
    (h : bs.map kv.hashOf = (hs.take bs.length).map some) {b : ℕ} (hb : b ∈ bs) :
    b < p.numGpuBlocks := by
  have hm : kv.hashOf b ∈ bs.map kv.hashOf := List.mem_map_of_mem hb
  rw [h] at hm
  obtain ⟨x, _, hx⟩ := List.mem_map.mp hm
  exact hc.valid x b hx.symm

theorem cacheBlock_hashOf (kv : KVCacheManager) (b c : ℕ) (h : BlockHashType) :
    (kv.cacheBlock b h).hashOf c = if c = b then some h else kv.hashOf c :=
  putHash_hashOf kv b c (some h)

theorem cacheBlock_sameCounts (kv : KVCacheManager) (b : ℕ) (h : BlockHashType) :
    SameCounts kv (kv.cacheBlock b h) :=
  ⟨fun c => putHash_refCnt kv b c (some h), rfl, rfl⟩

/-- Filing an unhashed block. -/
theorem CacheOk.cacheBlock (hc : CacheOk p kv) (hon : p.enableCaching = true) {b : ℕ}
    (hb : kv.hashOf b = none) (hbn : b < p.numGpuBlocks) (h : BlockHashType) :
    CacheOk p (kv.cacheBlock b h) where
  hash_of h' m c d hm hd := by
    change (kv.cachedBlockHashToBlock.set h _).get? h' = some m at hm
    rw [cacheBlock_hashOf]
    rw [Dict.get?_set] at hm
    split_ifs at hm with he
    · subst he
      obtain rfl := Option.some.inj hm
      rw [Dict.get?_set] at hd
      split_ifs at hd with hcb
      · subst hcb
        exact ⟨(Option.some.inj hd).symm, by rw [if_pos rfl]⟩
      · rw [if_neg hcb]
        cases hg : kv.cachedBlockHashToBlock.get? h' with
        | none => rw [hg] at hd; cases hd
        | some m' => rw [hg] at hd; exact hc.hash_of h' m' c d hg hd
    · obtain ⟨rfl, h2⟩ := hc.hash_of h' m c d hm hd
      refine ⟨rfl, ?_⟩
      rw [if_neg (fun e => ?_), h2]
      subst e
      rw [hb] at h2
      cases h2
  filed h' c hh := by
    rw [cacheBlock_hashOf] at hh
    change ∃ m, (kv.cachedBlockHashToBlock.set h _).get? h' = some m ∧ _
    rw [Dict.get?_set]
    split_ifs at hh with hcb
    · subst hcb
      obtain rfl := Option.some.inj hh
      exact ⟨_, by rw [if_pos rfl], by rw [Dict.get?_set_self]⟩
    · obtain ⟨m, hm, hmc⟩ := hc.filed h' c hh
      by_cases he : h' = h
      · subst he
        exact ⟨_, by rw [if_pos rfl], by rw [Dict.get?_set_ne _ hcb, hm]; exact hmc⟩
      · exact ⟨m, by rw [if_neg he]; exact hm, hmc⟩
  nonempty h' m hm := by
    change (kv.cachedBlockHashToBlock.set h _).get? h' = some m at hm
    rw [Dict.get?_set] at hm
    split_ifs at hm
    · obtain rfl := Option.some.inj hm
      have : (b, b) ∈ (((kv.cachedBlockHashToBlock.get? h).getD .empty).set b b).entries :=
        (Dict.mem_entries _ b b).mpr (Dict.get?_set_self _ b b)
      exact List.ne_nil_of_mem this
    · exact hc.nonempty h' m hm
  valid h' c hh := by
    rw [cacheBlock_hashOf] at hh
    split_ifs at hh with hcb
    · exact hcb ▸ hbn
    · exact hc.valid h' c hh
  off hoff := by rw [hon] at hoff; cases hoff

theorem blockHashAt_request {m i : ℕ} {r r' : Request} {prev : Option ℤ} {x : BlockHashType}
    (h : blockHashAt p m r i prev = .ok (x, r')) : ∃ hs, r' = r.setKvBlockHashes hs := by
  unfold blockHashAt at h
  split_ifs at h <;> rw [bind_eq_ok] at h <;> obtain ⟨y, _, hy⟩ := h <;> cases hy
  · exact ⟨_, rfl⟩
  · exact ⟨_, rfl⟩

/-- The caching loop changes hashes only. -/
theorem cacheLoop_eq_ok {m : ℕ} :
    ∀ {bs : List ℕ} {i : ℕ} {prev : Option ℤ} {kv kv' : KVCacheManager} {r r' : Request},
      KVCacheManager.cacheLoop p m bs i prev kv r = .ok (kv', r') →
      SameCounts kv kv' ∧ (∃ hs, r' = r.setKvBlockHashes hs) ∧
        (p.enableCaching = true → CacheOk p kv → (∀ b ∈ bs, b < p.numGpuBlocks) → CacheOk p kv')
  | [], _, _, kv, _, r, _, h => by
    cases h
    exact ⟨SameCounts.refl kv, ⟨r.kvBlockHashes, rfl⟩, fun _ hc _ => hc⟩
  | b :: bs, i, prev, kv, kv', r, r', h => by
    rw [KVCacheManager.cacheLoop, bind_eq_ok] at h
    obtain ⟨_, h1, h⟩ := h
    rw [assert_eq_ok] at h1
    rw [bind_eq_ok] at h
    obtain ⟨⟨x, r₁⟩, hx, h⟩ := h
    obtain ⟨hs₁, rfl⟩ := blockHashAt_request hx
    simp only [assert_of h1, ok_bind] at h
    obtain ⟨hs', ⟨hs₂, hr'⟩, hc'⟩ := cacheLoop_eq_ok h
    refine ⟨(cacheBlock_sameCounts kv b x).trans hs', ⟨hs₂, hr'⟩, fun hon hc hv => ?_⟩
    exact hc' hon (hc.cacheBlock hon h1 (hv b List.mem_cons_self) x)
      fun c hcm => hv c (List.mem_cons_of_mem _ hcm)

theorem cacheNewFullBlocks_eq_ok {request request' : Request} {kv' : KVCacheManager} {nc nt : ℕ}
    (h : kv.cacheNewFullBlocks p request nc nt = .ok (kv', request')) :
    SameCounts kv kv' ∧ (∃ hs, request' = request.setKvBlockHashes hs) ∧
      (p.enableCaching = true → CacheOk p kv →
        (∀ b ∈ kv.blocksOf request.requestId, b < p.numGpuBlocks) → CacheOk p kv') := by
  have hsame : SameCounts kv kv ∧ (∃ hs, request = request.setKvBlockHashes hs) ∧
      (p.enableCaching = true → CacheOk p kv →
        (∀ b ∈ kv.blocksOf request.requestId, b < p.numGpuBlocks) → CacheOk p kv) :=
    ⟨SameCounts.refl kv, ⟨request.kvBlockHashes, rfl⟩, fun _ hc _ => hc⟩
  unfold KVCacheManager.cacheNewFullBlocks at h
  simp only at h
  by_cases hnew : slice (kv.blocksOf request.requestId) (nc / p.blockSize)
      ((nc + nt) / p.blockSize) = []
  · rw [if_pos hnew] at h
    cases h
    exact hsame
  · rw [if_neg hnew, bind_eq_ok] at h
    obtain ⟨prev, _, h⟩ := h
    unfold KVCacheManager.cacheFullBlocks at h
    simp only [bind_eq_ok] at h
    obtain ⟨o, _, h⟩ := h
    split_ifs at h
    · cases h
      exact hsame
    · obtain ⟨h1, h2, h3⟩ := cacheLoop_eq_ok h
      refine ⟨h1, h2, fun hon hc hv => h3 hon hc fun b hb => hv b ?_⟩
      exact List.mem_of_mem_drop (List.mem_of_mem_take (List.mem_of_mem_drop hb))

end Cached

/-! ## Allocating slots -/

section Allocate

variable {kv : KVCacheManager} {free : List ℕ}

/-- **Acquiring the blocks of a request**: touch the hits, take the missing blocks, extend the
list. It returns when there are enough free blocks and the request has room. -/
theorem Acc.acquire (ha : Acc p kv [] free) (hc : CacheOk p kv) {computed : List ℕ} {numNew : ℤ}
    (id : ReqId) (hv : ∀ b ∈ computed, b < p.numGpuBlocks)
    (hroom : numNew ≤ kv.freeBlockQueue.numFreeBlocks - kv.numEvictable computed)
    (hmax : 0 < numNew → (kv.blocksOf id ++ computed).length < p.maxNumBlocksPerReq) :
    ∃ new kv₁ free', (kv.touch computed).takeNewBlocks p numNew
        (kv.blocksOf id ++ computed).length = .ok (new, kv₁) ∧
      Acc p (kv₁.setBlocks id (kv.blocksOf id ++ computed ++ new)) [] free' ∧
      CacheOk p (kv₁.setBlocks id (kv.blocksOf id ++ computed ++ new)) ∧
      (kv₁.setBlocks id (kv.blocksOf id ++ computed ++ new)).reqToBlocks =
        kv.reqToBlocks.set id (kv.blocksOf id ++ computed ++ new) ∧
      (∀ c, kv₁.hashOf c = if c ∈ new then none else kv.hashOf c) ∧ new.Nodup ∧
      (∀ b ∈ new, b ∈ free ∧ b ∉ computed) ∧ (numNew ≤ 0 → new = []) ∧
      (0 < numNew → new.length + (kv.blocksOf id ++ computed).length ≤ p.maxNumBlocksPerReq) ∧
      (numNew ≤ new.length ∨
        p.maxNumBlocksPerReq ≤ new.length + (kv.blocksOf id ++ computed).length) := by
  obtain ⟨free₁, ha₁, hh₁, hr₁, hlen, hsub⟩ := ha.touch computed hv
  have hnum := ha.num
  have hnum₁ := ha₁.num
  obtain ⟨k, kv₁, h, hk, ha₂, hc₂, hr₂, hh₂, hk0, hkmax, hkge⟩ :=
    ha₁.takeNewBlocks (hc.congr hh₁) (by omega) hmax
  have hlk : (free₁.take k).length = k := by rw [List.length_take]; omega
  have hbo : kv₁.blocksOf id = kv.blocksOf id := by rw [blocksOf, hr₂, hr₁]; rfl
  have hset := ha₂.setBlocks id
  rw [hbo, List.nil_append, ← List.append_assoc] at hset
  refine ⟨free₁.take k, kv₁, free₁.drop k, h, hset, hc₂.congr ⟨fun _ => rfl, rfl⟩, ?_, ?_, ?_, ?_,
    ?_, ?_, ?_⟩
  · change kv₁.reqToBlocks.set id _ = _
    rw [hr₂, hr₁]
  · intro c
    rw [hh₂, hh₁.hashOf]
  · exact ha₁.rep.nodup.sublist (List.take_sublist _ _)
  · exact fun b hb => hsub b (List.mem_of_mem_take hb)
  · intro h0
    rw [hk0 h0, List.take_zero]
  · rw [hlk]
    exact hkmax
  · rw [hlk]
    exact hkge

/-- Without caching there is no hit to touch. -/
theorem touch_eq {computed : List ℕ} (hoff : p.enableCaching = false → computed = []) :
    (if p.enableCaching = true then kv.touch computed else kv) = kv.touch computed := by
  split_ifs with hon
  · rfl
  · rw [hoff (by simpa using hon)]
    rfl

/-- A free block is in no list. -/
theorem Acc.owned_eq_zero (ha : Acc p kv [] free) {b : ℕ} (hb : b ∈ free) : kv.owned b = 0 := by
  have h1 := ((ha.mem_free b).mp hb).2
  have h2 := ha.refCnt b
  rw [List.count_nil] at h2
  omega

/-- How a call of `allocate_slots` that returned has run. -/
theorem allocateSlots_eq_ok {request request' : Request} {n : ℕ} {computed : List ℕ}
    {res : Option (List ℕ)} {kv' : KVCacheManager}
    (h : kv.allocateSlots p request n computed = .ok (res, kv', request')) :
    0 < n ∧
    ((kv.freeBlockQueue.numFreeBlocks - kv.numEvictable computed <
          kv.numMissingBlocks p request n computed ∧
        res = none ∧ kv' = kv.setBlocks request.requestId (kv.blocksOf request.requestId) ∧
        request' = request) ∨
      (kv.numMissingBlocks p request n computed ≤
          kv.freeBlockQueue.numFreeBlocks - kv.numEvictable computed ∧
        (p.enableCaching = false → computed = []) ∧
        ∃ new kv₁, res = some new ∧
          (kv.touch computed).takeNewBlocks p (kv.numMissingBlocks p request n computed)
            (kv.blocksOf request.requestId ++ computed).length = .ok (new, kv₁) ∧
          ((p.enableCaching = false ∧ request' = request ∧ kv' = kv₁.setBlocks request.requestId
              (kv.blocksOf request.requestId ++ computed ++ new)) ∨
            (p.enableCaching = true ∧ (kv₁.setBlocks request.requestId
              (kv.blocksOf request.requestId ++ computed ++ new)).cacheNewFullBlocks p request
                (request.numComputedTokens + computed.length * p.blockSize) n =
                  .ok (kv', request'))))) := by
  unfold KVCacheManager.allocateSlots at h
  by_cases h0 : n = 0
  · rw [if_pos h0] at h
    cases h
  rw [if_neg h0] at h
  simp only at h
  refine ⟨by omega, ?_⟩
  by_cases hroom : kv.freeBlockQueue.numFreeBlocks - kv.numEvictable computed <
      kv.numMissingBlocks p request n computed
  · rw [if_pos hroom] at h
    cases h
    exact Or.inl ⟨hroom, rfl, rfl, rfl⟩
  · rw [if_neg hroom, bind_eq_ok] at h
    obtain ⟨_, hoff, h⟩ := h
    rw [assert_eq_ok] at hoff
    rw [touch_eq hoff, bind_eq_ok] at h
    obtain ⟨⟨new, kv₁⟩, hnew, h⟩ := h
    refine Or.inr ⟨by omega, hoff, new, kv₁, ?_⟩
    by_cases hcoff : p.enableCaching = false
    · simp only [if_pos hcoff] at h
      cases h
      exact ⟨rfl, hnew, Or.inl ⟨hcoff, rfl, rfl⟩⟩
    · simp only [if_neg hcoff] at h
      rw [bind_eq_ok] at h
      obtain ⟨⟨kv₂, r₂⟩, hcache, h⟩ := h
      cases h
      exact ⟨rfl, hnew, Or.inr ⟨by simpa using hcoff, hcache⟩⟩

/-- Only the block hashes of the request change. -/
theorem allocateSlots_request {request request' : Request} {n : ℕ} {computed : List ℕ}
    {res : Option (List ℕ)} {kv' : KVCacheManager}
    (h : kv.allocateSlots p request n computed = .ok (res, kv', request')) :
    ∃ hs, request' = request.setKvBlockHashes hs := by
  obtain ⟨-, ⟨-, -, -, rfl⟩ | ⟨-, -, new, kv₁, -, -, ⟨-, rfl, -⟩ | ⟨-, hc⟩⟩⟩ := allocateSlots_eq_ok h
  · exact ⟨request'.kvBlockHashes, rfl⟩
  · exact ⟨request'.kvBlockHashes, rfl⟩
  · exact (cacheNewFullBlocks_eq_ok hc).2.1

/-- **What a call of `allocate_slots` that returned has done** to the accounts: nothing, or
the hits and the new blocks have joined the list of the request; the new blocks come from the free
queue. -/
theorem allocateSlots_spec (ha : Acc p kv [] free) (hc : CacheOk p kv) {request request' : Request}
    {n : ℕ} {computed : List ℕ} {res : Option (List ℕ)} {kv' : KVCacheManager}
    (hv : ∀ b ∈ computed, b < p.numGpuBlocks)
    (h : kv.allocateSlots p request n computed = .ok (res, kv', request')) :
    (∃ free', Acc p kv' [] free') ∧ CacheOk p kv' ∧
      kv'.reqToBlocks = kv.reqToBlocks.set request.requestId
        (kv.blocksOf request.requestId ++ if res = none then [] else computed ++ res.getD []) ∧
      (res.getD []).Nodup ∧ ∀ b ∈ res.getD [], b ∈ free ∧ b ∉ computed := by
  obtain ⟨-, ⟨-, rfl, rfl, rfl⟩ | ⟨hroom, -, new, kv₁, rfl, hnew, hcache⟩⟩ := allocateSlots_eq_ok h
  · have hset := ha.setBlocks request'.requestId
    rw [List.append_nil] at hset
    refine ⟨⟨free, hset⟩, hc.congr ⟨fun _ => rfl, rfl⟩, ?_, ?_, ?_⟩
    · rw [if_pos rfl, List.append_nil]; rfl
    · exact List.nodup_nil
    · intro b hb; cases hb
  · obtain ⟨new', kv₁', free', hnew', ha', hc', hr', -, hnd, hfresh, -⟩ := ha.acquire hc
      request.requestId hv hroom (fun h0 => takeNewBlocks_room hnew h0)
    rw [hnew] at hnew'
    cases hnew'
    rw [if_neg (by simp), Option.getD_some, ← List.append_assoc]
    obtain ⟨-, rfl, rfl⟩ | ⟨hon, hcache⟩ := hcache
    · exact ⟨⟨free', ha'⟩, hc', hr', hnd, hfresh⟩
    · obtain ⟨hs₂, -, hc₂⟩ := cacheNewFullBlocks_eq_ok hcache
      exact ⟨⟨free', ha'.congr hs₂⟩, hc₂ hon hc' fun b hb => ha'.lt_of_owned hb,
        hs₂.reqToBlocks.trans hr', hnd, hfresh⟩

end Allocate

/-! ## Runs -/

/-- The calls that `Scheduler` makes. An admission passes on the blocks `get_computed_blocks` has
just returned, without the last one when it has to be recomputed. -/
inductive KVCall
  | getComputedBlocks (request : Request)
  | allocateSlots (request : Request) (numTokens : ℕ)
  | enter (request : Request) (numTokens : ℕ) (recomputeLast : Bool)
  | free (request : Request)
  | resetPrefixCache
  | getNumCommonPrefixBlocks (request : Request) (numRunningRequests : ℕ)

/-- One call. -/
def call (p : KVCacheParams) (kv : KVCacheManager) : KVCall → Except Exn KVCacheManager
  | .getComputedBlocks request => do
    let _ ← kv.getComputedBlocks p request
    .ok kv
  | .allocateSlots request numTokens => do
    let (_, kv', _) ← kv.allocateSlots p request numTokens []
    .ok kv'
  | .enter request numTokens recomputeLast => do
    let (computed, _, request) ← kv.getComputedBlocks p request
    let (_, kv', _) ← kv.allocateSlots p request numTokens
      (if recomputeLast = true then computed.dropLast else computed)
    .ok kv'
  | .free request => kv.free p request
  | .resetPrefixCache => .ok (kv.resetPrefixCache p).2
  | .getNumCommonPrefixBlocks request numRunningRequests => do
    let (_, kv') ← kv.getNumCommonPrefixBlocks request numRunningRequests
    .ok kv'

/-- The states of the manager between calls. -/
def KVReachable (p : KVCacheParams) (kv : KVCacheManager) : Prop :=
  Reachable (call p) (fun _ _ => True) (init p) kv

/-- The invariant between calls. -/
def Accounted (p : KVCacheParams) (kv : KVCacheManager) : Prop :=
  (∃ free, Acc p kv [] free) ∧ CacheOk p kv

section Run

variable {kv kv' : KVCacheManager}

theorem Accounted.resetPrefixCache (h : Accounted p kv) : Accounted p (kv.resetPrefixCache p).2 := by
  unfold KVCacheManager.resetPrefixCache
  split_ifs
  · exact h
  · obtain ⟨⟨free, ha⟩, -⟩ := h
    refine ⟨⟨free, ha.congr ⟨fun _ => rfl, rfl, rfl⟩⟩, ⟨?_, ?_, ?_, ?_, fun _ _ => rfl⟩⟩
    · intro _ _ _ _ hm; cases hm
    · intro _ _ hh; cases hh
    · intro _ _ hm; cases hm
    · intro _ _ hh; cases hh

/-- When the whole pool is free, no request holds a block. -/
theorem Accounted.blocksOf_eq_nil (h : Accounted p kv)
    (hfree : ¬ 0 < (p.numGpuBlocks : ℤ) - kv.freeBlockQueue.numFreeBlocks) (id : ReqId) :
    kv.blocksOf id = [] := by
  obtain ⟨⟨free, ha⟩, -⟩ := h
  by_contra hne
  obtain ⟨b, hb⟩ := List.exists_mem_of_ne_nil _ hne
  have hpos := ha.refCnt_pos_of_owned hb
  have hlt := ha.lt_of_owned hb
  have hnot : b ∉ free := fun hm => by have := ((ha.mem_free b).mp hm).2; omega
  have hsub : b :: free ⊆ List.range p.numGpuBlocks := by
    intro c hc
    obtain rfl | hc := List.mem_cons.mp hc
    · exact List.mem_range.mpr hlt
    · exact List.mem_range.mpr ((ha.mem_free c).mp hc).1
  have hle := (List.Nodup.subperm (List.nodup_cons.mpr ⟨hnot, ha.rep.nodup⟩) hsub).length_le
  have hnum := ha.num
  rw [List.length_cons, List.length_range] at hle
  omega

theorem Accounted.reserve (h : Accounted p kv) (id : ReqId) :
    Accounted p (kv.setBlocks id (kv.blocksOf id)) := by
  obtain ⟨⟨free, ha⟩, hok⟩ := h
  have hset := ha.setBlocks id
  rw [List.append_nil] at hset
  exact ⟨⟨free, hset⟩, hok.congr ⟨fun _ => rfl, rfl⟩⟩

/-- The state after `free` of a request. -/
theorem free_facts (ha : Accounted p kv)
    {r : Request} (hfree : kv.free p r = .ok kv') :
    Accounted p kv' ∧ (∀ b, kv'.hashOf b = kv.hashOf b) ∧ kv'.blocksOf r.requestId = [] ∧
      (∀ id, id ≠ r.requestId → kv'.blocksOf id = kv.blocksOf id) ∧
      ∀ b, kv'.owned b + (kv.blocksOf r.requestId).count b = kv.owned b := by
  obtain ⟨⟨free, hacc⟩, hok⟩ := ha
  obtain ⟨kv₁, free', h1, hacc', hh, hr⟩ := hacc.free r
  rw [hfree] at h1
  cases h1
  refine ⟨⟨⟨free', hacc'⟩, hok.congr hh⟩, hh.hashOf, ?_, ?_, ?_⟩
  · rw [blocksOf, hr, Dict.get?_pop_self]; rfl
  · intro id hne
    rw [blocksOf, hr, Dict.get?_pop_ne _ hne]; rfl
  · intro b
    rw [owned, hr]
    exact kv.owned_pop b r.requestId

/-- Blocks that were hit, or all of them but the last, are blocks of the pool. -/
theorem Accounted.hit_lt (h : Accounted p kv) {request request' : Request} {bs : List ℕ} {n : ℕ}
    (hg : kv.getComputedBlocks p request = .ok (bs, n, request')) {b : ℕ}
    (hb : b ∈ bs) : b < p.numGpuBlocks :=
  h.2.lt_of_hit (h.2.getComputedBlocks hg) hb

/-- **Every call keeps the invariant.** -/
theorem Accounted.call (h : Accounted p kv) {c : KVCall} (hc : kv.call p c = .ok kv') :
    Accounted p kv' := by
  obtain ⟨⟨free, ha⟩, hok⟩ := h
  cases c with
  | getComputedBlocks request =>
    obtain ⟨_, _, h2⟩ := bind_eq_ok.mp hc
    cases h2
    exact ⟨⟨free, ha⟩, hok⟩
  | allocateSlots request n =>
    obtain ⟨⟨res, kv₁, r⟩, h1, h2⟩ := bind_eq_ok.mp hc
    cases h2
    obtain ⟨ha', hok', -⟩ := allocateSlots_spec ha hok (fun b hb => by cases hb) h1
    exact ⟨ha', hok'⟩
  | enter request n last =>
    obtain ⟨⟨bs, m, r⟩, hg, h1⟩ := bind_eq_ok.mp hc
    obtain ⟨⟨res, kv₁, r₁⟩, h1, h2⟩ := bind_eq_ok.mp h1
    cases h2
    have hv : ∀ b ∈ (if last = true then bs.dropLast else bs), b < p.numGpuBlocks := by
      intro b hb
      refine Accounted.hit_lt ⟨⟨free, ha⟩, hok⟩ hg (b := b) ?_
      split_ifs at hb
      · exact (List.dropLast_sublist bs).subset hb
      · exact hb
    obtain ⟨ha', hok', -⟩ := allocateSlots_spec ha hok hv h1
    exact ⟨ha', hok'⟩
  | free request =>
    obtain ⟨kv₁, free', h1, ha', hh, -⟩ := ha.free request
    rw [KVCacheManager.call, h1] at hc
    cases hc
    exact ⟨⟨free', ha'⟩, hok.congr hh⟩
  | resetPrefixCache =>
    cases hc
    exact Accounted.resetPrefixCache ⟨⟨free, ha⟩, hok⟩
  | getNumCommonPrefixBlocks request n =>
    obtain ⟨⟨m, kv₁⟩, h1, h2⟩ := bind_eq_ok.mp hc
    cases h2
    obtain ⟨_, -, h2⟩ := bind_eq_ok.mp h1
    cases h2
    exact Accounted.reserve ⟨⟨free, ha⟩, hok⟩ request.requestId

theorem KVReachable.accounted (h : KVReachable p kv) : Accounted p kv :=
  Reachable.invariant ⟨⟨_, acc_init p⟩, cacheOk_init p⟩ (fun _ _ _ hs _ hc => hs.call hc) h

/-- The free queue can be read off, and what it holds. -/
theorem Acc.getAllFreeBlocks {free : List ℕ} (ha : Acc p kv [] free) :
    kv.freeBlockQueue.getAllFreeBlocks p.numGpuBlocks = some free :=
  ha.rep.walk_head ha.length_free_le

/-- The argument lists that the scheduler passes to `allocate_slots`: none, or the blocks just
returned for the request, perhaps without the last. -/
def PassedOn (p : KVCacheParams) (kv : KVCacheManager) (request : Request) (computed : List ℕ) :
    Prop :=
  computed = [] ∨ ∃ request₀ bs n, kv.getComputedBlocks p request₀ = .ok (bs, n, request) ∧
    (computed = bs ∨ computed = bs.dropLast)

theorem Accounted.passedOn_lt (h : Accounted p kv) {request : Request} {computed : List ℕ}
    (hp : PassedOn p kv request computed) {b : ℕ} (hb : b ∈ computed) : b < p.numGpuBlocks := by
  obtain rfl | ⟨r₀, bs, n, hg, rfl | rfl⟩ := hp
  · cases hb
  · exact h.hit_lt hg hb
  · exact h.hit_lt hg ((List.dropLast_sublist bs).subset hb)

/-- A pool of six blocks of two tokens. A request holds at most four. -/
def sixBlocks : KVCacheParams where
  blockSize := 2
  numGpuBlocks := 6
  maxModelLen := 8
  enableCaching := true
  hash := pairingHash
  blockSize_pos := by decide
  numGpuBlocks_pos := by decide

/-- Two requests with a common first block. -/
def sharedBlockCalls : List KVCall :=
  [.enter (.ofPrompt "a" [1, 2, 3] []) 3 false, .enter (.ofPrompt "b" [1, 2, 5] []) 1 false]

end Run

end KVCacheManager

end SpaceServe
