import Mathlib.Data.List.Perm.Subperm
import SpaceServe.KVCache.Model

/-!
# Block accounting

What each operation of the KV-cache manager does to the reference counts, the free queue and the
map of cached blocks.

While an operation runs, blocks it has taken are in no request's list yet. `Acc p kv extra free`
is the accounting invariant with such a list `extra` of blocks in flight: the reference count of
a block is its number of occurrences in the lists of the requests and in `extra`, and the queue
links up `free`, the blocks with count `0`. Between operations `extra` is empty.

* `Acc`, `CacheOk`: the invariants;
* `Acc.touch`, `Acc.getNewBlocks`, `Acc.takeNewBlocks`, `Acc.free`: what the operations do to them.
-/

set_option autoImplicit false

namespace SpaceServe

open Py LinkedList

namespace KVCacheManager

/-! ## Reading the primitive updates -/

section Primitive

variable (kv : KVCacheManager) (b c : ℕ)

/-- The hash of a block. -/
def hashOf : Option BlockHashType := (kv.blocks b).blockHash

/-- The number of occurrences of a block in the lists of the requests. -/
def owned : ℕ := kv.reqToBlocks.total (List.count b)

@[simp] theorem addRef_refCnt (d : ℤ) : ((kv.addRef b d).blocks c).refCnt =
    if c = b then (kv.blocks c).refCnt + d else (kv.blocks c).refCnt := by
  unfold addRef
  by_cases h : c = b
  · subst h; simp
  · simp [h]

@[simp] theorem addRef_hashOf (d : ℤ) : (kv.addRef b d).hashOf c = kv.hashOf c := by
  unfold addRef hashOf
  by_cases h : c = b
  · subst h; simp
  · simp [h]

@[simp] theorem addRef_owned (d : ℤ) : (kv.addRef b d).owned c = kv.owned c := rfl

@[simp] theorem addRef_queue (d : ℤ) : (kv.addRef b d).freeBlockQueue = kv.freeBlockQueue := rfl

@[simp] theorem addRef_reqToBlocks (d : ℤ) : (kv.addRef b d).reqToBlocks = kv.reqToBlocks := rfl

@[simp] theorem addRef_cached (d : ℤ) :
    (kv.addRef b d).cachedBlockHashToBlock = kv.cachedBlockHashToBlock := rfl

@[simp] theorem putHash_refCnt (h : Option BlockHashType) :
    ((kv.putHash b h).blocks c).refCnt = (kv.blocks c).refCnt := by
  unfold putHash
  by_cases hc : c = b
  · subst hc; simp
  · simp [hc]

@[simp] theorem putHash_hashOf (h : Option BlockHashType) :
    (kv.putHash b h).hashOf c = if c = b then h else kv.hashOf c := by
  unfold putHash hashOf
  by_cases hc : c = b
  · subst hc; simp
  · simp [hc]

theorem owned_setBlocks (id : ReqId) (bs : List ℕ) :
    (kv.setBlocks id bs).owned b + (kv.blocksOf id).count b = kv.owned b + bs.count b := by
  have h := Dict.total_set (List.count b) kv.reqToBlocks id bs
  unfold owned setBlocks blocksOf
  cases hg : kv.reqToBlocks.get? id <;> rw [hg] at h <;> simpa using h

theorem owned_pop (id : ReqId) :
    kv.reqToBlocks.pop id |>.total (List.count b) |> (· + (kv.blocksOf id).count b = kv.owned b) := by
  have h := Dict.total_pop (List.count b) kv.reqToBlocks id
  unfold owned blocksOf
  cases hg : kv.reqToBlocks.get? id <;> rw [hg] at h <;> simpa using h

theorem count_blocksOf_le (id : ReqId) : (kv.blocksOf id).count b ≤ kv.owned b := by
  have := kv.owned_pop b id
  omega

/-- A block that is in no list. -/
theorem owned_eq_zero : kv.owned b = 0 ↔ ∀ id, b ∉ kv.blocksOf id := by
  constructor
  · intro h id hb
    have := kv.count_blocksOf_le b id
    have := List.count_pos_iff.mpr hb
    omega
  · intro h
    rw [owned, Dict.total_eq_zero]
    rintro ⟨id, bs⟩ hm
    have hbs := h id
    rw [blocksOf, (kv.reqToBlocks.mem_entries id bs).mp hm, Option.getD_some] at hbs
    exact List.count_eq_zero_of_not_mem hbs

/-- Two different requests hold a block at least twice. -/
theorem count_two_le {id id' : ReqId} (hne : id' ≠ id) :
    (kv.blocksOf id).count b + (kv.blocksOf id').count b ≤ kv.owned b := by
  have h1 := kv.owned_pop b id
  have h2 := count_blocksOf_le { kv with reqToBlocks := kv.reqToBlocks.pop id } b id'
  have h3 : blocksOf { kv with reqToBlocks := kv.reqToBlocks.pop id } id' = kv.blocksOf id' := by
    simp only [blocksOf, Dict.get?_pop_ne _ hne]
  rw [h3] at h2
  change _ ≤ (kv.reqToBlocks.pop id).total (List.count b) at h2
  omega

/-- The block lists after one of them was written. -/
theorem blocksOf_of_set {kv' : KVCacheManager} {id : ReqId} {bs : List ℕ}
    (h : kv'.reqToBlocks = kv.reqToBlocks.set id bs) :
    kv'.blocksOf id = bs ∧ ∀ id', id' ≠ id → kv'.blocksOf id' = kv.blocksOf id' := by
  refine ⟨?_, fun id' hne => ?_⟩
  · rw [blocksOf, h, Dict.get?_set_self, Option.getD_some]
  · rw [blocksOf, h, Dict.get?_set_ne _ hne, blocksOf]

/-- Reading the block list of a request changes no list. -/
theorem setBlocks_self_blocksOf (id id' : ReqId) :
    (kv.setBlocks id (kv.blocksOf id)).blocksOf id' = kv.blocksOf id' := by
  simp only [blocksOf, setBlocks, Dict.get?_set]
  split_ifs with he
  · rw [he]
    rfl
  · rfl

theorem setBlocks_self_owned (id : ReqId) :
    (kv.setBlocks id (kv.blocksOf id)).owned b = kv.owned b := by
  have := kv.owned_setBlocks b id (kv.blocksOf id)
  omega

end Primitive

/-! ## The invariants -/

variable (p : KVCacheParams)

/-- Accounting with the blocks `extra` in flight and the free queue `free`. -/
structure Acc (kv : KVCacheManager) (extra free : List ℕ) : Prop where
  refCnt : ∀ b, (kv.blocks b).refCnt = kv.owned b + extra.count b
  rep : kv.freeBlockQueue.links.Rep free
  mem_free : ∀ b, b ∈ free ↔ b < p.numGpuBlocks ∧ (kv.blocks b).refCnt = 0
  num : kv.freeBlockQueue.numFreeBlocks = free.length
  valid : ∀ b, (kv.blocks b).refCnt ≠ 0 → b < p.numGpuBlocks

/-- The map of cached blocks files exactly the hashed blocks, each under its hash. -/
structure CacheOk (kv : KVCacheManager) : Prop where
  hash_of : ∀ h m b c, kv.cachedBlockHashToBlock.get? h = some m → m.get? b = some c →
    c = b ∧ kv.hashOf b = some h
  filed : ∀ h b, kv.hashOf b = some h →
    ∃ m, kv.cachedBlockHashToBlock.get? h = some m ∧ m.get? b = some b
  nonempty : ∀ h m, kv.cachedBlockHashToBlock.get? h = some m → m.entries ≠ []
  valid : ∀ h b, kv.hashOf b = some h → b < p.numGpuBlocks
  off : p.enableCaching = false → ∀ b, kv.hashOf b = none

variable {p}

theorem Acc.perm {kv : KVCacheManager} {extra extra' free : List ℕ}
    (h : Acc p kv extra free) (hp : extra.Perm extra') : Acc p kv extra' free where
  refCnt b := by rw [h.refCnt b, hp.count_eq]
  rep := h.rep
  mem_free := h.mem_free
  num := h.num
  valid := h.valid

/-- A block in flight has a positive count. -/
theorem Acc.refCnt_pos {kv : KVCacheManager} {extra free : List ℕ}
    (h : Acc p kv extra free) {b : ℕ} (hb : b ∈ extra) : 0 < (kv.blocks b).refCnt := by
  have := List.count_pos_iff.mpr hb
  rw [h.refCnt b]
  omega

/-- A block of a request has a positive count. -/
theorem Acc.refCnt_pos_of_owned {kv : KVCacheManager} {extra free : List ℕ}
    (h : Acc p kv extra free) {id : ReqId} {b : ℕ} (hb : b ∈ kv.blocksOf id) :
    0 < (kv.blocks b).refCnt := by
  have h1 := List.count_pos_iff.mpr hb
  have h2 := kv.count_blocksOf_le b id
  rw [h.refCnt b]
  omega

theorem Acc.lt_of_owned {kv : KVCacheManager} {extra free : List ℕ}
    (h : Acc p kv extra free) {id : ReqId} {b : ℕ} (hb : b ∈ kv.blocksOf id) :
    b < p.numGpuBlocks :=
  h.valid b (by have := h.refCnt_pos_of_owned hb; omega)

/-- Only the hashes and the map of cached blocks differ. -/
structure SameCounts (kv kv' : KVCacheManager) : Prop where
  refCnt : ∀ b, (kv'.blocks b).refCnt = (kv.blocks b).refCnt
  queue : kv'.freeBlockQueue = kv.freeBlockQueue
  reqToBlocks : kv'.reqToBlocks = kv.reqToBlocks

theorem SameCounts.refl (kv : KVCacheManager) : SameCounts kv kv := ⟨fun _ => rfl, rfl, rfl⟩

theorem SameCounts.trans {kv₁ kv₂ kv₃ : KVCacheManager} (h : SameCounts kv₁ kv₂)
    (h' : SameCounts kv₂ kv₃) : SameCounts kv₁ kv₃ :=
  ⟨fun b => (h'.refCnt b).trans (h.refCnt b), h'.queue.trans h.queue,
    h'.reqToBlocks.trans h.reqToBlocks⟩

theorem Acc.congr {kv kv' : KVCacheManager} {extra free : List ℕ} (ha : Acc p kv extra free)
    (h : SameCounts kv kv') : Acc p kv' extra free where
  refCnt b := by rw [h.refCnt, ha.refCnt, owned, owned, h.reqToBlocks]
  rep := by rw [h.queue]; exact ha.rep
  mem_free b := by rw [h.refCnt]; exact ha.mem_free b
  num := by rw [h.queue]; exact ha.num
  valid b hb := ha.valid b (by rwa [h.refCnt] at hb)

/-- The hashes and the map of cached blocks are the same. -/
structure SameHashes (kv kv' : KVCacheManager) : Prop where
  hashOf : ∀ b, kv'.hashOf b = kv.hashOf b
  cached : kv'.cachedBlockHashToBlock = kv.cachedBlockHashToBlock

theorem SameHashes.refl (kv : KVCacheManager) : SameHashes kv kv := ⟨fun _ => rfl, rfl⟩

theorem SameHashes.trans {kv₁ kv₂ kv₃ : KVCacheManager} (h : SameHashes kv₁ kv₂)
    (h' : SameHashes kv₂ kv₃) : SameHashes kv₁ kv₃ :=
  ⟨fun b => (h'.hashOf b).trans (h.hashOf b), h'.cached.trans h.cached⟩

theorem CacheOk.congr {kv kv' : KVCacheManager} (hc : CacheOk p kv) (h : SameHashes kv kv') :
    CacheOk p kv' where
  hash_of := by rw [h.cached]; simp only [h.hashOf]; exact hc.hash_of
  filed := by rw [h.cached]; simp only [h.hashOf]; exact hc.filed
  nonempty := by rw [h.cached]; exact hc.nonempty
  valid := by simp only [h.hashOf]; exact hc.valid
  off := by simp only [h.hashOf]; exact hc.off

/-! ## The initial state -/

theorem rep_init (n : ℕ) : (FreeKVCacheBlockQueue.init n).links.Rep (List.range n) where
  nodup := List.nodup_range
  head_eq := by
    simp only [FreeKVCacheBlockQueue.init]
    split_ifs with h
    · rw [List.getElem?_range h]
    · simp [show n = 0 by omega]
  tail_eq := by
    simp only [FreeKVCacheBlockQueue.init, List.range_eq_nil, List.length_range]
    split_ifs with h1 h2 h2
    · omega
    · rw [List.getElem?_range (by omega)]
    · rfl
    · omega
  prev_eq i a h := by
    obtain ⟨hi, rfl⟩ := List.getElem?_eq_some_iff.mp h
    simp only [List.length_range] at hi
    simp only [FreeKVCacheBlockQueue.init, List.getElem_range]
    by_cases h0 : i = 0
    · rw [if_neg (by omega), if_pos h0]
    · rw [if_pos (by omega), if_neg h0, List.getElem?_range (by omega)]
  next_eq i a h := by
    obtain ⟨hi, rfl⟩ := List.getElem?_eq_some_iff.mp h
    simp only [List.length_range] at hi
    simp only [FreeKVCacheBlockQueue.init, List.getElem_range]
    split_ifs with h1
    · rw [List.getElem?_range h1]
    · rw [List.getElem?_eq_none (by simpa using h1)]
  prev_out a h := by
    simp only [List.mem_range] at h
    simp only [FreeKVCacheBlockQueue.init]
    rw [if_neg (by omega)]
  next_out a h := by
    simp only [List.mem_range] at h
    simp only [FreeKVCacheBlockQueue.init]
    rw [if_neg (by omega)]

theorem acc_init (p : KVCacheParams) : Acc p (init p) [] (List.range p.numGpuBlocks) where
  refCnt _ := rfl
  rep := rep_init _
  mem_free b := by simp [init]
  num := by simp [init, FreeKVCacheBlockQueue.init]
  valid b hb := absurd rfl hb

theorem cacheOk_init (p : KVCacheParams) : CacheOk p (init p) where
  hash_of h m b c hm := by cases hm
  filed h b hb := by cases hb
  nonempty h m hm := by cases hm
  valid h b hb := by cases hb
  off _ _ := rfl

/-! ## Touching hit blocks -/

section Touch

variable {kv : KVCacheManager} {extra free : List ℕ}

theorem touchOne_sameHashes (kv : KVCacheManager) (b : ℕ) : SameHashes kv (kv.touchOne b) := by
  unfold touchOne
  split_ifs
  · exact ⟨fun c => by rw [addRef_hashOf]; rfl, rfl⟩
  · exact ⟨fun c => by rw [addRef_hashOf], rfl⟩

theorem touchOne_reqToBlocks (kv : KVCacheManager) (b : ℕ) :
    (kv.touchOne b).reqToBlocks = kv.reqToBlocks := by
  unfold touchOne
  split_ifs <;> rfl

theorem touchOne_refCnt (kv : KVCacheManager) (b c : ℕ) :
    ((kv.touchOne b).blocks c).refCnt =
      if c = b then (kv.blocks c).refCnt + 1 else (kv.blocks c).refCnt := by
  unfold touchOne
  split_ifs <;> simp_all

/-- Counts never go down to `0` by touching. -/
theorem touchOne_refCnt_eq_zero {b c : ℕ} (ha : Acc p kv extra free)
    (h : ((kv.touchOne b).blocks c).refCnt = 0) : (kv.blocks c).refCnt = 0 ∧ c ≠ b := by
  have hc := ha.refCnt c
  rw [touchOne_refCnt] at h
  split_ifs at h with hcb
  · omega
  · exact ⟨h, hcb⟩

theorem Acc.touchOne (ha : Acc p kv extra free) {b : ℕ} (hb : b < p.numGpuBlocks) :
    Acc p (kv.touchOne b) (extra ++ [b]) (free.erase b) where
  refCnt c := by
    have hc := ha.refCnt c
    rw [touchOne_refCnt, List.count_append, owned, touchOne_reqToBlocks, ← owned]
    by_cases hcb : c = b
    · subst hcb; simp [hc]; omega
    · simp [hcb, hc, Ne.symm hcb]
  rep := by
    unfold KVCacheManager.touchOne
    split_ifs with h0
    · exact ha.rep.unlink ((ha.mem_free b).mpr ⟨hb, h0⟩)
    · rw [List.erase_of_not_mem (fun hm => h0 ((ha.mem_free b).mp hm).2)]
      exact ha.rep
  mem_free c := by
    rw [ha.rep.nodup.mem_erase_iff, ha.mem_free c]
    constructor
    · rintro ⟨hcb, hc, h0⟩
      refine ⟨hc, ?_⟩
      rw [touchOne_refCnt, if_neg hcb, h0]
    · rintro ⟨hc, h0⟩
      obtain ⟨h1, hcb⟩ := touchOne_refCnt_eq_zero ha h0
      exact ⟨hcb, hc, h1⟩
  num := by
    unfold KVCacheManager.touchOne
    split_ifs with h0
    · have hm : b ∈ free := (ha.mem_free b).mpr ⟨hb, h0⟩
      have := List.length_pos_of_mem hm
      have hn := ha.num
      simp only [addRef_queue, FreeKVCacheBlockQueue.remove, List.length_erase_of_mem hm]
      omega
    · rw [List.erase_of_not_mem (fun hm => h0 ((ha.mem_free b).mp hm).2)]
      exact ha.num
  valid c hc := by
    rw [touchOne_refCnt] at hc
    split_ifs at hc with hcb
    · exact hcb ▸ hb
    · exact ha.valid c hc

/-- Touching one block makes at most one eviction candidate less. -/
theorem numEvictable_touchOne (ha : Acc p kv extra free) (b : ℕ) (bs : List ℕ) :
    (kv.touchOne b).numEvictable bs ≤ kv.numEvictable bs := by
  refine List.countP_mono_left fun c _ hc => ?_
  rw [decide_eq_true_eq] at hc ⊢
  exact (touchOne_refCnt_eq_zero ha hc).1

/-- **Touching** puts the hit blocks in flight and takes the eviction candidates among them out of
the queue; the hashes stay. -/
theorem Acc.touch : ∀ {kv : KVCacheManager} {extra free : List ℕ} (bs : List ℕ),
    Acc p kv extra free → (∀ b ∈ bs, b < p.numGpuBlocks) →
    ∃ free', Acc p (kv.touch bs) (extra ++ bs) free' ∧ SameHashes kv (kv.touch bs) ∧
      (kv.touch bs).reqToBlocks = kv.reqToBlocks ∧
      free.length ≤ free'.length + kv.numEvictable bs ∧ (∀ b ∈ free', b ∈ free ∧ b ∉ bs)
  | kv, extra, free, [], ha, _ => by
    refine ⟨free, ?_, SameHashes.refl kv, rfl, Nat.le_add_right _ _, fun b hb => ⟨hb, by simp⟩⟩
    rw [List.append_nil]
    exact ha
  | kv, extra, free, b :: bs, ha, hv => by
    have hb := hv b List.mem_cons_self
    obtain ⟨free', ha', hh, hr, hlen, hsub⟩ :=
      Acc.touch bs (ha.touchOne hb) fun c hc => hv c (List.mem_cons_of_mem _ hc)
    refine ⟨free', ?_, (touchOne_sameHashes kv b).trans hh, hr.trans (touchOne_reqToBlocks kv b),
      ?_, fun c hc => ?_⟩
    · rw [List.append_assoc] at ha'
      exact ha'
    · have hmono := numEvictable_touchOne ha b bs
      have hcons : kv.numEvictable (b :: bs) =
          kv.numEvictable bs + if (kv.blocks b).refCnt = 0 then 1 else 0 := by
        simp [numEvictable, List.countP_cons]
      by_cases h0 : (kv.blocks b).refCnt = 0
      · rw [List.length_erase_of_mem ((ha.mem_free b).mpr ⟨hb, h0⟩)] at hlen
        rw [if_pos h0] at hcons
        omega
      · rw [List.erase_of_not_mem (fun hm => h0 ((ha.mem_free b).mp hm).2)] at hlen
        rw [if_neg h0] at hcons
        omega
    · obtain ⟨h1, h2⟩ := hsub c hc
      rw [ha.rep.nodup.mem_erase_iff] at h1
      exact ⟨h1.2, by simp [h1.1, h2]⟩

end Touch

/-! ## Taking blocks from the pool -/

section NewBlocks

/-- Eviction takes the hash off a block and the block out of the map, and changes nothing else. -/
theorem CacheOk.maybeEvictCachedBlock {kv : KVCacheManager} (hc : CacheOk p kv) (b : ℕ) :
    ∃ kv', kv.maybeEvictCachedBlock b = .ok kv' ∧ SameCounts kv kv' ∧ CacheOk p kv' ∧
      ∀ c, kv'.hashOf c = if c = b then none else kv.hashOf c := by
  unfold KVCacheManager.maybeEvictCachedBlock
  cases hb : (kv.blocks b).blockHash with
  | none =>
    refine ⟨kv, rfl, SameCounts.refl kv, hc, fun c => ?_⟩
    split_ifs with h
    · rw [h]; exact hb
    · rfl
  | some h =>
    obtain ⟨m, hm, hmb⟩ := hc.filed h b hb
    simp only [hm]
    have hcont : m.contains b = true := by rw [Dict.contains, hmb]; rfl
    rw [if_neg (by rw [hcont]; decide)]
    -- whatever is left filed under `h` is filed without `b`
    have hpop : ∀ c d, (m.pop b).get? c = some d → c ≠ b ∧ m.get? c = some d := by
      intro c d hcd
      rw [Dict.get?_pop] at hcd
      split_ifs at hcd with hcb
      exact ⟨hcb, hcd⟩
    have hfiled : ∀ h' c, (kv.putHash b none).hashOf c = some h' →
        c ≠ b ∧ kv.hashOf c = some h' := by
      intro h' c hh
      rw [putHash_hashOf] at hh
      split_ifs at hh with hcb
      exact ⟨hcb, hh⟩
    split_ifs with hemp
    · refine ⟨_, rfl, ⟨fun c => putHash_refCnt kv b c none, rfl, rfl⟩, ⟨?_, ?_, ?_, ?_, ?_⟩,
        fun c => putHash_hashOf kv b c none⟩
      · intro h' m' c d hm' hcd
        rw [Dict.get?_pop] at hm'
        split_ifs at hm' with hne
        obtain ⟨rfl, h2⟩ := hc.hash_of h' m' c d hm' hcd
        refine ⟨rfl, ?_⟩
        change (kv.putHash b none).hashOf d = _
        rw [putHash_hashOf, if_neg (fun e => ?_), h2]
        subst e
        rw [hashOf, hb] at h2
        exact hne (Option.some.inj h2).symm
      · intro h' c hh
        obtain ⟨hcb, hh⟩ := hfiled h' c hh
        obtain ⟨m', hm', hmc⟩ := hc.filed h' c hh
        refine ⟨m', ?_, hmc⟩
        rw [Dict.get?_pop, if_neg (fun e => ?_)]
        · exact hm'
        · subst e
          obtain rfl : m = m' := Option.some.inj (hm.symm.trans hm')
          have : (c, c) ∈ (m.pop b).entries :=
            ((m.pop b).mem_entries c c).mpr (by rw [Dict.get?_pop_ne _ hcb]; exact hmc)
          rw [hemp] at this
          cases this
      · intro h' m' hm'
        rw [Dict.get?_pop] at hm'
        split_ifs at hm'
        exact hc.nonempty h' m' hm'
      · exact fun h' c hh => hc.valid h' c (hfiled h' c hh).2
      · intro hoff
        have := hc.off hoff b
        rw [hashOf, hb] at this
        cases this
    · refine ⟨_, rfl, ⟨fun c => putHash_refCnt kv b c none, rfl, rfl⟩, ⟨?_, ?_, ?_, ?_, ?_⟩,
        fun c => putHash_hashOf kv b c none⟩
      · intro h' m' c d hm' hcd
        change _ ∧ (kv.putHash b none).hashOf c = _
        rw [Dict.get?_set] at hm'
        split_ifs at hm' with he
        · subst he
          obtain rfl := Option.some.inj hm'
          obtain ⟨hcb, hcd⟩ := hpop c d hcd
          rw [putHash_hashOf, if_neg hcb]
          exact hc.hash_of h' m c d hm hcd
        · have h1 := hc.hash_of h' m' c d hm' hcd
          refine ⟨h1.1, ?_⟩
          rw [putHash_hashOf, if_neg (fun e => ?_), h1.2]
          subst e
          have h2 := h1.2
          rw [hashOf, hb] at h2
          exact he (Option.some.inj h2).symm
      · intro h' c hh
        obtain ⟨hcb, hh⟩ := hfiled h' c hh
        obtain ⟨m', hm', hmc⟩ := hc.filed h' c hh
        by_cases he : h' = h
        · subst he
          obtain rfl : m = m' := Option.some.inj (hm.symm.trans hm')
          exact ⟨m.pop b, by rw [Dict.get?_set_self], by rw [Dict.get?_pop_ne _ hcb]; exact hmc⟩
        · exact ⟨m', by rw [Dict.get?_set_ne _ he]; exact hm', hmc⟩
      · intro h' m' hm'
        rw [Dict.get?_set] at hm'
        split_ifs at hm'
        · obtain rfl := Option.some.inj hm'
          exact hemp
        · exact hc.nonempty h' m' hm'
      · exact fun h' c hh => hc.valid h' c (hfiled h' c hh).2
      · intro hoff
        have := hc.off hoff b
        rw [hashOf, hb] at this
        cases this

/-- Putting the head of the queue in flight. -/
theorem Acc.popHead {kv kv' : KVCacheManager} {extra free : List ℕ} {b : ℕ}
    (ha : Acc p kv extra (b :: free)) (hs : SameCounts
      { kv with freeBlockQueue := kv.freeBlockQueue.remove b } kv') :
    Acc p (kv'.addRef b 1) (extra ++ [b]) free where
  refCnt c := by
    have hc := ha.refCnt c
    have ho : kv'.owned c = kv.owned c := by rw [owned, hs.reqToBlocks]; rfl
    rw [addRef_refCnt, hs.refCnt, addRef_owned, ho, List.count_append]
    by_cases hcb : c = b
    · subst hcb; simp [hc]; omega
    · simp [hcb, hc, Ne.symm hcb]
  rep := by
    have hr := ha.rep.unlink (List.mem_cons_self (a := b))
    rw [List.erase_cons_head] at hr
    rw [addRef_queue, hs.queue]
    exact hr
  mem_free c := by
    have hm := ha.mem_free c
    have hn := List.nodup_cons.mp ha.rep.nodup
    rw [List.mem_cons] at hm
    rw [addRef_refCnt, hs.refCnt]
    by_cases hcb : c = b
    · subst hcb
      have h0 := (hm.mp (Or.inl rfl)).2
      simp only [if_true, h0, hn.1, false_iff]
      omega
    · rw [if_neg hcb, ← hm]
      simp [hcb]
  num := by
    have hn := ha.num
    rw [addRef_queue, hs.queue]
    simp only [FreeKVCacheBlockQueue.remove, List.length_cons] at hn ⊢
    omega
  valid c hc := by
    rw [addRef_refCnt, hs.refCnt] at hc
    split_ifs at hc with hcb
    · subst hcb
      exact ((ha.mem_free c).mp List.mem_cons_self).1
    · exact ha.valid c hc

/-- One new block: the head of the queue, evicted. -/
theorem Acc.getNewBlock {kv : KVCacheManager} {extra free : List ℕ} {b : ℕ}
    (ha : Acc p kv extra (b :: free)) (hc : CacheOk p kv) :
    ∃ kv', kv.getNewBlock p = .ok (b, kv') ∧ Acc p kv' (extra ++ [b]) free ∧ CacheOk p kv' ∧
      kv'.reqToBlocks = kv.reqToBlocks ∧
      ∀ c, kv'.hashOf c = if c = b then none else kv.hashOf c := by
  have hhead : kv.freeBlockQueue.links.head = some b := by rw [ha.rep.head_eq]; rfl
  have h0 := ((ha.mem_free b).mp List.mem_cons_self).2
  have hc' : CacheOk p { kv with freeBlockQueue := kv.freeBlockQueue.remove b } :=
    hc.congr ⟨fun _ => rfl, rfl⟩
  have hkey : ∃ kv₁, (if p.enableCaching = true then
      maybeEvictCachedBlock { kv with freeBlockQueue := kv.freeBlockQueue.remove b } b
      else .ok { kv with freeBlockQueue := kv.freeBlockQueue.remove b }) = .ok kv₁ ∧
      SameCounts { kv with freeBlockQueue := kv.freeBlockQueue.remove b } kv₁ ∧ CacheOk p kv₁ ∧
      ∀ c, kv₁.hashOf c = if c = b then none else kv.hashOf c := by
    by_cases he : p.enableCaching = true
    · rw [if_pos he]
      exact hc'.maybeEvictCachedBlock b
    · rw [if_neg he]
      refine ⟨_, rfl, SameCounts.refl _, hc', fun c => ?_⟩
      have hn := hc.off (by simpa using he) c
      split_ifs
      · exact hn
      · rfl
  obtain ⟨kv₁, h1, hs, hc₁, hh⟩ := hkey
  have hc₂ : CacheOk p (kv₁.addRef b 1) :=
    hc₁.congr ⟨fun c => addRef_hashOf kv₁ b c 1, rfl⟩
  refine ⟨kv₁.addRef b 1, ?_, ha.popHead hs, hc₂, hs.reqToBlocks,
    fun c => by rw [addRef_hashOf, hh]⟩
  unfold KVCacheManager.getNewBlock FreeKVCacheBlockQueue.popleft
  rw [hhead]
  simp only [ok_bind, assert_of h0, h1]

/-- **New blocks** are the first ones of the queue; they lose their hashes and are in flight. -/
theorem Acc.getNewBlocksLoop : ∀ (n : ℕ) {kv : KVCacheManager} {extra free : List ℕ}
    (ret : List ℕ), Acc p kv extra free → CacheOk p kv → n ≤ free.length →
    ∃ kv', KVCacheManager.getNewBlocksLoop p n kv ret = .ok (ret ++ free.take n, kv') ∧
      Acc p kv' (extra ++ free.take n) (free.drop n) ∧ CacheOk p kv' ∧
      kv'.reqToBlocks = kv.reqToBlocks ∧
      ∀ c, kv'.hashOf c = if c ∈ free.take n then none else kv.hashOf c
  | 0, kv, extra, free, ret, ha, hc, _ => by
    refine ⟨kv, ?_, ?_, hc, rfl, fun c => by simp⟩
    · simp [KVCacheManager.getNewBlocksLoop]
    · simpa using ha
  | n + 1, kv, extra, [], ret, _, _, hn => by simp at hn
  | n + 1, kv, extra, b :: free, ret, ha, hc, hn => by
    obtain ⟨kv₁, h1, ha₁, hc₁, hr₁, hh₁⟩ := ha.getNewBlock hc
    obtain ⟨kv', h', ha', hc', hr', hh'⟩ :=
      Acc.getNewBlocksLoop n (ret ++ [b]) ha₁ hc₁ (by simpa using hn)
    refine ⟨kv', ?_, ?_, hc', hr'.trans hr₁, fun c => ?_⟩
    · simp [KVCacheManager.getNewBlocksLoop, h1, h']
    · simpa using ha'
    · rw [hh', hh₁, List.take_succ_cons]
      by_cases hcb : c = b
      · subst hcb; simp
      · simp [hcb]

theorem Acc.getNewBlocks {kv : KVCacheManager} {extra free : List ℕ} {n : ℤ}
    (ha : Acc p kv extra free) (hc : CacheOk p kv) (hn : n ≤ kv.freeBlockQueue.numFreeBlocks) :
    ∃ kv', kv.getNewBlocks p n = .ok (free.take n.toNat, kv') ∧
      Acc p kv' (extra ++ free.take n.toNat) (free.drop n.toNat) ∧ CacheOk p kv' ∧
      kv'.reqToBlocks = kv.reqToBlocks ∧
      ∀ c, kv'.hashOf c = if c ∈ free.take n.toNat then none else kv.hashOf c := by
  unfold KVCacheManager.getNewBlocks
  rw [if_neg (by omega)]
  have hnum := ha.num
  obtain ⟨kv', h, rest⟩ := Acc.getNewBlocksLoop n.toNat [] ha hc (by omega)
  exact ⟨kv', by simpa using h, rest⟩

/-- What `takeNewBlocks` has asserted when it returned. -/
theorem takeNewBlocks_room {kv kv' : KVCacheManager} {numNew : ℤ} {numReq : ℕ} {new : List ℕ}
    (h : kv.takeNewBlocks p numNew numReq = .ok (new, kv')) (hn : 0 < numNew) :
    numReq < p.maxNumBlocksPerReq := by
  unfold KVCacheManager.takeNewBlocks at h
  rw [if_neg (by omega), bind_eq_ok] at h
  obtain ⟨_, h1, _⟩ := h
  rw [assert_eq_ok] at h1
  omega

/-- **Taking the missing blocks**: the first `k` of the queue, none if none is missing, at least
as many as are missing unless the request then has as many as it may have. -/
theorem Acc.takeNewBlocks {kv : KVCacheManager} {extra free : List ℕ} {numNew : ℤ} {numReq : ℕ}
    (ha : Acc p kv extra free) (hc : CacheOk p kv) (hn : numNew ≤ kv.freeBlockQueue.numFreeBlocks)
    (hmax : 0 < numNew → numReq < p.maxNumBlocksPerReq) :
    ∃ k kv', kv.takeNewBlocks p numNew numReq = .ok (free.take k, kv') ∧ k ≤ free.length ∧
      Acc p kv' (extra ++ free.take k) (free.drop k) ∧ CacheOk p kv' ∧
      kv'.reqToBlocks = kv.reqToBlocks ∧
      (∀ c, kv'.hashOf c = if c ∈ free.take k then none else kv.hashOf c) ∧
      (numNew ≤ 0 → k = 0) ∧ (0 < numNew → k + numReq ≤ p.maxNumBlocksPerReq) ∧
      (numNew ≤ k ∨ p.maxNumBlocksPerReq ≤ k + numReq) := by
  unfold KVCacheManager.takeNewBlocks
  by_cases h0 : numNew ≤ 0
  · rw [if_pos h0]
    refine ⟨0, kv, rfl, by omega, by simpa using ha, hc, rfl, fun c => by simp, fun _ => rfl,
      by omega, Or.inl (by omega)⟩
  · rw [if_neg h0]
    have hnum := ha.num
    have hm := hmax (by omega)
    simp only
    rw [assert_of (by omega), ok_bind]
    obtain ⟨kv', h, ha', hc', hr, hh⟩ := ha.getNewBlocks hc
      (show min (min (numNew + p.numPreallocateBlocks) kv.freeBlockQueue.numFreeBlocks)
        ((p.maxNumBlocksPerReq : ℤ) - numReq) ≤ _ by omega)
    exact ⟨_, kv', h, by omega, ha', hc', hr, hh, by omega, by omega, by omega⟩

end NewBlocks

/-! ## Block lists of the requests -/

section Lists

variable {kv : KVCacheManager} {extra fr : List ℕ}

/-- The blocks in flight join the list of a request. -/
theorem Acc.setBlocks (ha : Acc p kv extra fr) (id : ReqId) :
    Acc p (kv.setBlocks id (kv.blocksOf id ++ extra)) [] fr where
  refCnt b := by
    have h1 := ha.refCnt b
    have h2 := kv.owned_setBlocks b id (kv.blocksOf id ++ extra)
    rw [List.count_append] at h2
    change (kv.blocks b).refCnt = _
    rw [h1, List.count_nil]
    omega
  rep := ha.rep
  mem_free := ha.mem_free
  num := ha.num
  valid := ha.valid

/-- The list of a request is dropped and its blocks are in flight. -/
theorem Acc.popBlocks (ha : Acc p kv [] fr) (id : ReqId) :
    Acc p { kv with reqToBlocks := kv.reqToBlocks.pop id } (kv.blocksOf id) fr where
  refCnt b := by
    have h1 := ha.refCnt b
    have h2 := kv.owned_pop b id
    change (kv.blocks b).refCnt = _
    rw [h1, List.count_nil, ← h2]
    rfl
  rep := ha.rep
  mem_free := ha.mem_free
  num := ha.num
  valid := ha.valid

/-- A block in flight is given back: to the queue when nobody else holds it. -/
theorem Acc.releaseOne {b : ℕ} (ha : Acc p kv (b :: extra) fr) :
    ∃ kv' fr', kv.releaseOne b = .ok kv' ∧ Acc p kv' extra fr' ∧ SameHashes kv kv' ∧
      kv'.reqToBlocks = kv.reqToBlocks := by
  have hb := ha.refCnt_pos (List.mem_cons_self (a := b))
  have hbn := ha.valid b (by omega)
  have hcnt : ∀ c, ((kv.addRef b (-1)).blocks c).refCnt = kv.owned c + extra.count c := by
    intro c
    have hc := ha.refCnt c
    rw [List.count_cons] at hc
    rw [addRef_refCnt]
    by_cases hcb : c = b
    · subst hcb; simp at hc ⊢; omega
    · simp [Ne.symm hcb] at hc; simp [hcb]; omega
  have hvalid : ∀ c, ((kv.addRef b (-1)).blocks c).refCnt ≠ 0 → c < p.numGpuBlocks := by
    intro c hc
    rw [addRef_refCnt] at hc
    split_ifs at hc with hcb
    · exact hcb ▸ hbn
    · exact ha.valid c hc
  have hbf : b ∉ fr := fun hm => by have := ((ha.mem_free b).mp hm).2; omega
  unfold KVCacheManager.releaseOne
  simp only
  split_ifs with h0
  · have happ : (kv.addRef b (-1)).freeBlockQueue.append b =
        .ok ⟨kv.freeBlockQueue.links.linkLast b, kv.freeBlockQueue.numFreeBlocks + 1⟩ := by
      unfold FreeKVCacheBlockQueue.append
      rw [addRef_queue, assert_of (fun ht => ?_), ok_bind]
      rw [ha.rep.tail_eq_none_iff] at ht
      exact ha.rep.head_eq_none_iff.mpr ht
    refine ⟨{ kv.addRef b (-1) with freeBlockQueue :=
      ⟨kv.freeBlockQueue.links.linkLast b, kv.freeBlockQueue.numFreeBlocks + 1⟩ }, fr ++ [b],
      by rw [happ, ok_bind], ⟨hcnt, ha.rep.linkLast hbf, fun c => ?_, ?_, hvalid⟩,
      ⟨fun c => addRef_hashOf kv b c (-1), rfl⟩, rfl⟩
    · rw [List.mem_append, List.mem_singleton, ha.mem_free c]
      by_cases hcb : c = b
      · subst hcb
        exact ⟨fun _ => ⟨hbn, h0⟩, fun _ => Or.inr rfl⟩
      · simp [hcb]
    · have := ha.num
      simp only [List.length_append, List.length_singleton]
      omega
  · refine ⟨_, fr, rfl, ⟨hcnt, ha.rep, fun c => ?_, ha.num, hvalid⟩,
      ⟨fun c => addRef_hashOf kv b c (-1), rfl⟩, rfl⟩
    rw [ha.mem_free c]
    by_cases hcb : c = b
    · subst hcb
      exact ⟨fun h => by omega, fun h => absurd h.2 h0⟩
    · rw [addRef_refCnt, if_neg hcb]

theorem Acc.release : ∀ {kv : KVCacheManager} {fr : List ℕ} (bs : List ℕ),
    Acc p kv bs fr → ∃ kv' fr', bs.foldlM KVCacheManager.releaseOne kv = .ok kv' ∧
      Acc p kv' [] fr' ∧ SameHashes kv kv' ∧ kv'.reqToBlocks = kv.reqToBlocks
  | kv, fr, [], ha => ⟨kv, fr, rfl, ha, SameHashes.refl kv, rfl⟩
  | kv, fr, b :: bs, ha => by
    obtain ⟨kv₁, fr₁, h1, ha₁, hh₁, hr₁⟩ := ha.releaseOne
    obtain ⟨kv', fr', h', ha', hh', hr'⟩ := Acc.release bs ha₁
    refine ⟨kv', fr', ?_, ha', hh₁.trans hh', hr'.trans hr₁⟩
    rw [List.foldlM_cons, h1, ok_bind, h']

/-- **Freeing a request** returns, drops its list, keeps the hashes and keeps the accounts. -/
theorem Acc.free (ha : Acc p kv [] fr) (request : Request) :
    ∃ kv' fr', kv.free p request = .ok kv' ∧ Acc p kv' [] fr' ∧ SameHashes kv kv' ∧
      kv'.reqToBlocks = kv.reqToBlocks.pop request.requestId := by
  have hpop := ha.popBlocks request.requestId
  have hord : Acc p { kv with reqToBlocks := kv.reqToBlocks.pop request.requestId }
      (if p.enableCaching = true then (kv.blocksOf request.requestId).reverse
        else kv.blocksOf request.requestId) fr := by
    split_ifs
    · exact hpop.perm (List.reverse_perm _).symm
    · exact hpop
  obtain ⟨kv', fr', h, ha', hh, hr⟩ := hord.release
  exact ⟨kv', fr', h, ha', ⟨fun b => hh.hashOf b, hh.cached⟩, hr⟩

/-- The numbers of free and used blocks agree with the pool. -/
theorem Acc.length_free_le (ha : Acc p kv extra fr) : fr.length ≤ p.numGpuBlocks := by
  have hsub : fr ⊆ List.range p.numGpuBlocks := fun b hb =>
    List.mem_range.mpr ((ha.mem_free b).mp hb).1
  simpa using (List.Nodup.subperm ha.rep.nodup hsub).length_le

end Lists

end KVCacheManager

end SpaceServe
