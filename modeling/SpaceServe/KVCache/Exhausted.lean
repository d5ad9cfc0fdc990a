import SpaceServe.KVCache.Filed

/-!
# Failed allocations

`allocate_slots` returns `None` before it touches or takes a block. Hits that nobody holds are still in
the free queue and are counted out of it, so it fails exactly when the missing blocks exceed the free
blocks that are not among the hits. Of a request that held no block an empty list is left behind.

* `Unchanged`: what a failed call leaves;
* `CacheOk.nodup_hits`: with injective hashing a block is hit once;
* `Acc.free_sub_evictable`: the free blocks that are not among the hits;
* **`failed_allocation`**.
-/

set_option autoImplicit false

namespace SpaceServe

open Py LinkedList

namespace KVCacheManager

variable {p : KVCacheParams} {kv kv' : KVCacheManager}

/-- Everything is as before, except that a request without blocks may have got an empty list. -/
structure Unchanged (kv kv' : KVCacheManager) : Prop where
  blocks : kv'.blocks = kv.blocks
  freeBlockQueue : kv'.freeBlockQueue = kv.freeBlockQueue
  cachedBlockHashToBlock : kv'.cachedBlockHashToBlock = kv.cachedBlockHashToBlock
  reqToBlocks : ∀ id bs, bs ≠ [] → (kv'.reqToBlocks.get? id = some bs ↔ kv.reqToBlocks.get? id = some bs)

theorem unchanged_setBlocks (kv : KVCacheManager) (id : ReqId) :
    Unchanged kv (kv.setBlocks id (kv.blocksOf id)) := by
  refine ⟨rfl, rfl, rfl, fun id' bs hne => ?_⟩
  change (kv.reqToBlocks.set id (kv.blocksOf id)).get? id' = some bs ↔ _
  by_cases hid : id' = id
  · subst hid
    rw [Dict.get?_set_self, blocksOf]
    cases hget : kv.reqToBlocks.get? id' with
    | none => simpa using hne.symm
    | some bs' => rfl
  · rw [Dict.get?_set_ne _ hid]

/-- Hashes of one chain differ. -/
theorem nodup_of_chained (hinj : Function.Injective p.hash) (hzero : ∀ x, p.hash x ≠ 0)
    {hs : List BlockHashType} (h : Chained p.hash hs) : hs.Nodup := by
  refine List.nodup_iff_getElem?_ne_getElem?.mpr fun i j hij hj heq => ?_
  have hget := List.getElem?_eq_getElem hj
  have := h.index hinj hzero h i j (heq.trans hget) hget rfl
  omega

/-- **A block is hit once.** -/
theorem CacheOk.nodup_hits (hc : CacheOk p kv) (hinj : Function.Injective p.hash)
    (hzero : ∀ x, p.hash x ≠ 0) {request : Request} {computed : List ℕ}
    (hchain : HashChain p request) (hpass : PassedOn p kv request computed) :
    computed.Nodup := by
  have hhits : ∀ {request₀ bs n}, kv.getComputedBlocks p request₀ = .ok (bs, n, request) → bs.Nodup := by
    intro request₀ bs n hg
    have hmap := hc.getComputedBlocks hg
    refine List.Nodup.of_map kv.hashOf ?_
    rw [hmap]
    exact (List.Nodup.sublist (List.take_sublist _ _) (nodup_of_chained hinj hzero hchain.chained)).map
      (Option.some_injective _)
  obtain rfl | ⟨request₀, bs, n, hg, rfl | rfl⟩ := hpass
  · exact List.nodup_nil
  · exact hhits hg
  · exact (hhits hg).sublist (List.dropLast_sublist bs)

/-- **The free blocks that are not among the hits.** -/
theorem Acc.free_sub_evictable {free computed : List ℕ} (ha : Acc p kv [] free) (hnd : computed.Nodup)
    (hv : ∀ b ∈ computed, b < p.numGpuBlocks) :
    kv.freeBlockQueue.numFreeBlocks - kv.numEvictable computed =
      ((free.filter fun b => decide (b ∉ computed)).length : ℤ) := by
  have hevict : kv.numEvictable computed = (computed.filter fun b => decide (b ∈ free)).length := by
    rw [numEvictable, List.countP_eq_length_filter]
    refine congrArg List.length (List.filter_congr fun b hb => ?_)
    rw [Bool.eq_iff_iff, decide_eq_true_eq, decide_eq_true_eq, ha.mem_free b]
    exact ⟨fun h0 => ⟨hv b hb, h0⟩, fun h => h.2⟩
  have hperm : (computed.filter fun b => decide (b ∈ free)).Perm
      (free.filter fun b => decide (b ∈ computed)) := by
    refine (List.perm_ext_iff_of_nodup (hnd.filter _) (ha.rep.nodup.filter _)).mpr fun b => ?_
    simp [and_comm]
  have hsplit := List.length_eq_length_filter_add (l := free) fun b => decide (b ∈ computed)
  rw [ha.num, hevict, hperm.length_eq, hsplit]
  simp

/-- A call fails when too many blocks are missing. -/
theorem allocateSlots_none_iff {request : Request} {n : ℕ} {computed : List ℕ} (hn : 0 < n) :
    (∃ kv' request', kv.allocateSlots p request n computed = .ok (none, kv', request')) ↔
      kv.freeBlockQueue.numFreeBlocks - kv.numEvictable computed <
        kv.numMissingBlocks p request n computed := by
  constructor
  · rintro ⟨kv', request', h⟩
    obtain ⟨-, ⟨hlt, -⟩ | ⟨-, -, new, kv₁, hnone, -⟩⟩ := allocateSlots_eq_ok h
    · exact hlt
    · cases hnone
  · intro hlt
    refine ⟨kv.setBlocks request.requestId (kv.blocksOf request.requestId), request, ?_⟩
    rw [allocateSlots, if_neg (by omega)]
    exact if_pos hlt

/-- **A failed allocation changes nothing**, for any list of hits that the scheduler passes on. With
injective hashing it fails if and only if the missing blocks exceed the free blocks that are not among
the hits. -/
theorem failed_allocation (h : KVReachable p kv) {request : Request} {n : ℕ} {computed : List ℕ}
    (hpass : PassedOn p kv request computed) (hn : 0 < n) :
    (∀ kv' request', kv.allocateSlots p request n computed = .ok (none, kv', request') →
      Unchanged kv kv' ∧ request' = request) ∧
    ∃ queue, kv.freeBlockQueue.getAllFreeBlocks p.numGpuBlocks = some queue ∧
      (Function.Injective p.hash → (∀ x, p.hash x ≠ 0) → HashChain p request →
        ((∃ kv' request', kv.allocateSlots p request n computed = .ok (none, kv', request')) ↔
          ((queue.filter fun b => decide (b ∉ computed)).length : ℤ) <
            kv.numMissingBlocks p request n computed)) := by
  have hacc := h.accounted
  obtain ⟨⟨free, ha⟩, hok⟩ := hacc
  refine ⟨fun kv' request' hnone => ?_, free, ha.getAllFreeBlocks, fun hinj hzero hchain => ?_⟩
  · obtain ⟨-, ⟨-, -, rfl, rfl⟩ | ⟨-, -, new, kv₁, hsome, -⟩⟩ := allocateSlots_eq_ok hnone
    · exact ⟨unchanged_setBlocks kv _, rfl⟩
    · cases hsome
  · rw [allocateSlots_none_iff hn, ha.free_sub_evictable (hok.nodup_hits hinj hzero hchain hpass)
      fun b hb => h.accounted.passedOn_lt hpass hb]

/-- A lookup leaves a chain of hashes on the request. -/
theorem HashChain.getComputedBlocks {request request' : Request} {bs : List ℕ} {n : ℕ}
    (h : HashChain p request) (hg : kv.getComputedBlocks p request = .ok (bs, n, request')) :
    HashChain p request' := by
  obtain ⟨-, -, ⟨-, -, rfl⟩ | ⟨-, hens, -⟩⟩ := getComputedBlocks_eq_ok hg
  · exact h
  · obtain ⟨hs, hrun, -, hchain⟩ | ⟨-, msg, hrun⟩ := h.ensure
    · obtain rfl := Except.ok.inj (hens.symm.trans hrun)
      exact hchain
    · cases hens.symm.trans hrun

/-- A prompt of which the first block is cached and free, and another one that holds four blocks. -/
def freedBlockCalls : List KVCall :=
  [.enter (.ofPrompt "a" [1, 2, 3] []) 3 false, .free (.ofPrompt "a" [1, 2, 3] []),
    .enter (.ofPrompt "c" [9, 9, 9] []) 3 false]

/-- Two blocks are free and two are missing, but one of the free ones is the hit. -/
theorem failed_allocation_free_hit : ∃ kv request kv' request', KVReachable sixBlocks kv ∧
    kv.getComputedBlocks sixBlocks (.ofPrompt "b" [1, 2, 5, 6, 7, 8] []) = .ok ([0], 2, request) ∧
    kv.freeBlockQueue.numFreeBlocks = 2 ∧ kv.numMissingBlocks sixBlocks request 4 [0] = 2 ∧
    kv.allocateSlots sixBlocks request 4 [0] = .ok (none, kv', request') ∧ Unchanged kv kv' := by
  obtain ⟨kv, hkv, hnext⟩ := exists_reachable (call sixBlocks) (fun _ _ => True) (init sixBlocks)
    freedBlockCalls (fun kv => (kv.getComputedBlocks sixBlocks
      (.ofPrompt "b" [1, 2, 5, 6, 7, 8] [])).toOption.any
      (fun x => decide (x.1 = [0] ∧ x.2.1 = 2 ∧ kv.freeBlockQueue.numFreeBlocks = 2 ∧
        kv.numMissingBlocks sixBlocks x.2.2 4 [0] = 2 ∧
        kv.freeBlockQueue.getAllFreeBlocks 6 = some [1, 0])) = true) (by decide +kernel)
  obtain ⟨⟨bs, m, request⟩, hg, hx⟩ := exists_ok_of_any hnext
  obtain ⟨rfl, rfl, hfree, hmiss, hqueue⟩ := of_decide_eq_true hx
  have hpass : PassedOn sixBlocks kv request [0] := Or.inr ⟨_, _, _, hg, Or.inl rfl⟩
  obtain ⟨hsame, queue, hq, hiff⟩ := failed_allocation hkv (n := 4) hpass (by decide)
  have hchain : HashChain sixBlocks (.ofPrompt "b" [1, 2, 5, 6, 7, 8] []) :=
    ⟨Nat.zero_le _, chained_nil _⟩
  obtain rfl : queue = [1, 0] := Option.some.inj (hq.symm.trans hqueue)
  obtain ⟨kv', request', hnone⟩ := (hiff pairingHash_injective pairingHash_ne_zero
    (hchain.getComputedBlocks hg)).mpr (by rw [hmiss]; decide)
  exact ⟨kv, request, kv', request', hkv, hg, hfree, hmiss, hnone, (hsame kv' request' hnone).1⟩

end KVCacheManager

end SpaceServe
