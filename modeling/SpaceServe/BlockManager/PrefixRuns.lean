import SpaceServe.BlockManager.PrefixLawful

/-!
# Runs over a prefix cache

Calls on any number of tables over one `PrefixCachingBlockAllocator`, in any order.

* `runPrefixTables`: the runs;
* `PrefixInv.contentHashOf_total`: a block of a table has a content hash, if it is full;
* `PrefixAccounted`: where the ids are, how often they are used, and what is cached;
  **`prefix_cache_accounted`**: that holds in every state that calls lead to.
-/

set_option autoImplicit false

namespace SpaceServe

open Py PrefixCachingBlockAllocator

/-- Tables over an allocator with a prefix cache. -/
abbrev PrefixTables := Tables PrefixCachingBlockAllocator

/-- A run of calls that return, from a new allocator without tables. -/
def runPrefixTables (P : PrefixHasher) {blockSize : ℕ} (pos : 0 < blockSize) (blockIds : List BlockId)
    (calls : List TableCall) : Except Exn PrefixTables := do
  let alloc ← PrefixCachingBlockAllocator.init blockSize blockIds
  calls.foldlM (Tables.step (prefixAllocator P blockSize pos)) ⟨alloc, []⟩

/-! ## Content hashes -/

section Hash

variable {P : PrefixHasher} {n : ℕ} {all held : List BlockId} {busy : Option PoolId}
  {s s' : PrefixCachingBlockAllocator} {L D : Finset PoolId} {H : PoolId → Option ℤ} {o : PoolId}
  {blocks : List PoolId} {tokens : List TokenId}

/-- A full block has a hash, if no hash is that of `'None'`. -/
theorem HashData.exists_hash {pool : PoolId → PrefixCachingBlock} (hd : HashData P n pool D H)
    (hP : ∀ first prev tokens extra, P.hash first prev tokens extra ≠ P.noneHash) (ho : o ∈ D)
    (hfull : (pool o).block.isFull n = true) : ∃ h, H o = some h ∧ h ≠ P.noneHash := by
  have hnever : ∀ x, hashFrom P n H x ≠ some P.noneHash := by
    intro x hx
    rw [hashFrom] at hx
    by_cases hf : x.block.isFull n = true
    · rw [if_neg (not_not.mpr hf)] at hx
      cases hp : x.block.prevBlock with
      | none =>
        rw [hp] at hx
        exact hP _ _ _ _ (Option.some.inj hx)
      | some p =>
        rw [hp] at hx
        simp only at hx
        by_cases hz : H p = some P.noneHash
        · rw [if_pos hz] at hx
          cases hx
        · rw [if_neg hz] at hx
          exact hP _ _ _ _ (Option.some.inj hx)
    · rw [if_pos hf] at hx
      cases hx
  rw [hd.hash o ho, hashFrom, if_neg (not_not.mpr hfull)]
  cases hp : (pool o).block.prevBlock with
  | none => exact ⟨_, rfl, hP _ _ _ _⟩
  | some p =>
    have hne : H p ≠ some P.noneHash := by
      rw [hd.hash p (hd.prev o ho p hp)]
      exact hnever _
    simp only [if_neg hne]
    exact ⟨_, rfl, hP _ _ _ _⟩

/-- The hash of the block before, if there is one. -/
theorem exists_prevHash {fuel : ℕ} (h : ∀ p, (s.pool o).block.prevBlock = some p →
    ∃ r s', Returns (contentHash P fuel p) s r s') : ∃ r s', Returns (match (s.pool o).block.prevBlock with
      | none => pure (some P.noneHash)
      | some prev => contentHash P fuel prev : StateE PrefixCachingBlockAllocator (Option ℤ)) s r s' := by
  cases hcase : (s.pool o).block.prevBlock with
  | none => exact ⟨_, s, returns_pure.mpr ⟨rfl, rfl⟩⟩
  | some p => exact h p hcase

/-- `content_hash` returns, as a chain is not longer than the pool. -/
theorem contentHash_total : ∀ (fuel i : ℕ) {s : PrefixCachingBlockAllocator} {o : PoolId}, i < fuel →
    (∀ j x, blocks[j]? = some x → (s.block x).prevBlock = if j = 0 then none else blocks[j - 1]?) →
    blocks[i]? = some o → ∃ r s', Returns (contentHash P fuel o) s r s' := by
  intro fuel
  induction fuel with
  | zero => exact fun i _ _ hlt _ _ => absurd hlt (Nat.not_lt_zero i)
  | succ fuel ih =>
    intro i s o hlt hprev ho
    simp only [contentHash, returns_bind, returns_get]
    by_cases hmemo : (s.pool o).cachedContentHash ≠ none
    · exact ⟨_, s, s, s, ⟨rfl, rfl⟩, by rw [if_pos hmemo]; exact returns_pure.mpr ⟨rfl, rfl⟩⟩
    by_cases hfull : ¬ (s.pool o).block.isFull s.hashless.blockPool.blockSize
    · exact ⟨_, s, s, s, ⟨rfl, rfl⟩, by rw [if_neg hmemo, if_pos hfull]; exact returns_pure.mpr ⟨rfl, rfl⟩⟩
    -- the hash of the block before
    obtain ⟨prevHash, s₁, hone⟩ := exists_prevHash fun p hp => by
      have hstep := hprev i o ho
      change (s.pool o).block.prevBlock = _ at hstep
      rw [hp] at hstep
      split_ifs at hstep with hz
      exact ih (i - 1) (by omega) hprev hstep.symm
    by_cases hnone : prevHash = some P.noneHash ∧ (s.pool o).block.prevBlock ≠ none
    · refine ⟨none, s₁, s, s, ⟨rfl, rfl⟩, ?_⟩
      rw [if_neg hmemo, if_neg hfull]
      exact returns_bind.mpr ⟨prevHash, s₁, hone, by rw [if_pos hnone]; exact returns_pure.mpr ⟨rfl, rfl⟩⟩
    · obtain ⟨hash, hhash⟩ : ∃ hash, hash = some (P.hashBlockTokens (decide ((s.pool o).block.prevBlock = none))
          prevHash (s.pool o).block.tokenIds (s.pool o).extraHash) := ⟨_, rfl⟩
      refine ⟨hash, s₁.update o { s₁.pool o with cachedContentHash := hash }, s, s, ⟨rfl, rfl⟩, ?_⟩
      rw [if_neg hmemo, if_neg hfull]
      refine returns_bind.mpr ⟨prevHash, s₁, hone, ?_⟩
      rw [if_neg hnone, hhash]
      exact returns_bind.mpr ⟨⟨⟩, _, returns_modify.mpr rfl, returns_pure.mpr ⟨rfl, rfl⟩⟩

/-- The content hash of a block of a table. -/
theorem PrefixInv.contentHashOf_total (hi : PrefixInv P n all held busy s L D H) (hL : L = D)
    (hh : ChainHolds False n s.block blocks tokens) (hsub : ∀ x ∈ blocks, x ∈ D) (ho : o ∈ blocks) :
    ∃ s', Returns (PrefixCachingBlockAllocator.contentHashOf P o) s (H o) s' := by
  obtain ⟨i, hi'⟩ := List.mem_iff_getElem?.mp ho
  have hlt : i < s.hashless.blockPool.poolSize := by
    refine Nat.lt_of_lt_of_le (List.getElem?_eq_some_iff.mp hi').1 ?_
    rw [← List.toFinset_card_of_nodup hh.nodup, ← Finset.card_range s.hashless.blockPool.poolSize]
    refine Finset.card_le_card fun x hx => Finset.mem_range.mpr (hi.pool.used_lt x ?_)
    rw [hL]
    exact hsub x (List.mem_toFinset.mp hx)
  obtain ⟨r, s', hret⟩ := contentHash_total (P := P) _ i hlt hh.prev hi'
  have hof : Returns (PrefixCachingBlockAllocator.contentHashOf P o) s r s' :=
    returns_bind.mpr ⟨s, s, returns_get.mpr ⟨rfl, rfl⟩, hret⟩
  obtain ⟨rfl, -, -⟩ := hi.contentHashOf (hsub o ho) hof
  exact ⟨s', hof⟩

end Hash

/-! ## The accounts -/

/-- Where an id can be. -/
inductive Place
  | free
  | evictor
  | used

/-- The id is in the free list of the hashless allocator, or with the evictor, or has a count. -/
def InPlace (s : PrefixCachingBlockAllocator) (b : BlockId) : Place → Prop
  | .free => b ∈ s.hashless.freeBlockIndices
  | .evictor => s.evictor.contains b = true
  | .used => ∃ m, s.hashless.refcounter.get? b = some m ∧ 0 < m

/-- Nobody uses the id. -/
def Idle (s : PrefixCachingBlockAllocator) (b : BlockId) : Prop :=
  s.hashless.refcounter.get? b = some 0 ∧ ∃ t, s.blockTracker.get? b = some t ∧ t.active = false

/-- Every id is in one place, its count is the number of the blocks in use with that id, and the blocks are cached
under their content hashes. -/
structure PrefixAccounted (P : PrefixHasher) (all : List BlockId) (w : PrefixTables) : Prop where
  place : ∀ b ∈ all, ∃! place, InPlace w.alloc b place
  free : ∀ b, InPlace w.alloc b .free → Idle w.alloc b
  free_nodup : w.alloc.hashless.freeBlockIndices.Nodup
  evictor : ∀ b, InPlace w.alloc b .evictor → Idle w.alloc b ∧ ∃ h, w.alloc.cachedBlocks.get? h = some b
  used : ∀ b, InPlace w.alloc b .used → ∃ t, w.alloc.blockTracker.get? b = some t ∧ t.active = true
  refcount : ∀ b ∈ all, w.alloc.hashless.refcounter.get? b =
    some (holders (fun o => (w.alloc.block o).blockId) w.used b)
  injective : ∀ h h' b, w.alloc.cachedBlocks.get? h = some b → w.alloc.cachedBlocks.get? h' = some b → h = h'
  cached : ∀ t ∈ w.tables, ∀ o ∈ t.table.blocks, (w.alloc.block o).isFull w.alloc.hashless.blockPool.blockSize = true →
    ∃ h b s', Returns (PrefixCachingBlockAllocator.contentHashOf P o) w.alloc (some h) s' ∧
      (w.alloc.block o).blockId = some b ∧ w.alloc.cachedBlocks.get? h = some b
  numFree : w.alloc.getNumFreeBlocks = (all.filter fun b => w.alloc.hashless.refcounter.get? b = some 0).length

/-- The accounts of a state of the tables. -/
theorem prefixAccounted_of_ok {P : PrefixHasher} {n : ℕ} {pos : 0 < n} {all : List BlockId} {w : PrefixTables}
    (hP : ∀ first prev tokens extra, P.hash first prev tokens extra ≠ P.noneHash) (hall : all.Nodup)
    (h : w.Ok (prefixAllocator P n pos) (PrefixOk P n all)) : PrefixAccounted P all w := by
  obtain ⟨H, hi⟩ := h.inv
  have ha := hi.accounts
  refine ⟨fun b hb => ?_, fun b hb => ?_, ha.free_nodup, fun b hb => ?_, fun b hb => ?_, fun b hb => ?_, ha.inj,
    fun t ht o ho hfull => ?_, ?_⟩
  · -- each place excludes the other two
    obtain ⟨t, -, hplace⟩ := ha.place hb
    rcases hplace with ⟨hmem, hev, hm, -⟩ | ⟨hnot, ⟨x, hev, -⟩, hm, -⟩ | ⟨hnot, hev, ⟨m, hm⟩, -⟩
    · refine ⟨.free, hmem, fun place hin => ?_⟩
      cases place with
      | free => rfl
      | evictor =>
        obtain ⟨x, hx⟩ := LRUEvictor.contains_iff.mp hin
        rw [hev] at hx
        cases hx
      | used =>
        obtain ⟨m, hm', hpos⟩ := hin
        rw [hm] at hm'
        cases hm'
        exact absurd hpos (Nat.lt_irrefl 0)
    · refine ⟨.evictor, LRUEvictor.contains_iff.mpr ⟨x, hev⟩, fun place hin => ?_⟩
      cases place with
      | free => exact absurd hin hnot
      | evictor => rfl
      | used =>
        obtain ⟨m, hm', hpos⟩ := hin
        rw [hm] at hm'
        cases hm'
        exact absurd hpos (Nat.lt_irrefl 0)
    · refine ⟨.used, ⟨m + 1, hm, Nat.succ_pos m⟩, fun place hin => ?_⟩
      cases place with
      | free => exact absurd hin hnot
      | evictor =>
        obtain ⟨x, hx⟩ := LRUEvictor.contains_iff.mp hin
        rw [hev] at hx
        cases hx
      | used => rfl
  · have hzero := ((ha.free_iff b).mp hb).1
    obtain ⟨t, ht, hactive⟩ := ha.tracked b 0 hzero
    exact ⟨hzero, t, ht, Bool.not_eq_true _ ▸ fun hon => Nat.lt_irrefl 0 (hactive.mp hon)⟩
  · obtain ⟨x, hx⟩ := LRUEvictor.contains_iff.mp hb
    obtain ⟨hzero, hcached⟩ := ha.evicted b x hx
    obtain ⟨t, ht, hactive⟩ := ha.tracked b 0 hzero
    exact ⟨⟨hzero, t, ht, Bool.not_eq_true _ ▸ fun hon => Nat.lt_irrefl 0 (hactive.mp hon)⟩, _, hcached⟩
  · obtain ⟨m, hm, hpos⟩ := hb
    obtain ⟨t, ht, hactive⟩ := ha.tracked b m hm
    exact ⟨t, ht, hactive.mpr hpos⟩
  · rw [ha.counted.get?_of_mem hb, List.count_nil, Nat.add_zero]
    rfl
  · obtain ⟨i, hti⟩ := List.mem_iff_getElem?.mp ht
    have hsub := Tables.Ok.subset hti
    have hholds := (h.table i t hti).holds
    obtain ⟨s', hret⟩ := hi.contentHashOf_total rfl hholds hsub ho
    rw [hi.size] at hfull
    obtain ⟨hash, hH, -⟩ := hi.data.exists_hash hP (hsub o ho) hfull
    obtain ⟨b, hb⟩ := Option.ne_none_iff_exists'.mp (hholds.held o ho)
    rw [hH] at hret
    exact ⟨hash, b, s', hret, hb, hi.cached o (hsub o ho) nofun hash b hH hb⟩
  · have hlen := (ha.perm_free hall).length_eq
    rw [List.length_append] at hlen
    rw [← hlen]
    show _ + w.alloc.evictor.freeTable.entries.length = _
    rw [Dict.keys, List.length_map]
    rfl

/-- The tables of a run. -/
theorem prefixTables_ok {P : PrefixHasher} {n : ℕ} {pos : 0 < n} {blockIds : List BlockId} {calls : List TableCall}
    {w : PrefixTables} (hrun : runPrefixTables P pos blockIds calls = .ok w) :
    blockIds.Nodup ∧ w.Ok (prefixAllocator P n pos) (PrefixOk P n blockIds) := by
  obtain ⟨s, hinit, hrun⟩ := bind_eq_ok.mp hrun
  refine ⟨PrefixOk.nodup_of_init hinit, ?_⟩
  exact Tables.ok_run PrefixOk.lawful PrefixOk.freeLawful (Tables.ok_init (PrefixOk.of_init hinit)) hrun

/-- **The prefix cache keeps its accounts**, in every state that calls lead to. -/
theorem prefix_cache_accounted {P : PrefixHasher}
    (hP : ∀ first prev tokens extra, P.hash first prev tokens extra ≠ P.noneHash) {blockSize : ℕ}
    (pos : 0 < blockSize) {blockIds : List BlockId} {calls : List TableCall} {w : PrefixTables}
    (hrun : runPrefixTables P pos blockIds calls = .ok w) : PrefixAccounted P blockIds w := by
  obtain ⟨hnodup, hok⟩ := prefixTables_ok hrun
  exact prefixAccounted_of_ok hP hnodup hok

/-- A hasher whose hashes are no negative numbers. -/
def PrefixHasher.sample : PrefixHasher where
  noneHash := -1
  hash _ prev tokens _ := Int.ofNat (tokens.foldl (fun h t => 31 * h + t + 1) (prev.getD 0).natAbs)

theorem PrefixHasher.sample_ne (first : Bool) (prev : Option ℤ) (tokens : List TokenId) (extra : Option ℤ) :
    sample.hash first prev tokens extra ≠ sample.noneHash := Int.noConfusion

/-- Two tables share a full block, which outlives both of them and is found again. -/
theorem prefix_cache_accounted_shared : ∃ w,
    runPrefixTables .sample Nat.zero_lt_two [0, 1, 2] [.new, .allocate 0 [1, 2, 3] none, .new, .allocate 1 [1, 2] none,
      .free 0, .free 1, .new, .allocate 2 [1, 2, 4] none, .fork 2, .appendTokenIds 3 [5] 0 none] = .ok w ∧
      (w.tables.map fun t => t.table.blockIds) = [[], [], [0, 1], [0, 2]] ∧ PrefixAccounted .sample [0, 1, 2] w := by
  have hall : (do
      let w ← runPrefixTables .sample Nat.zero_lt_two [0, 1, 2] [.new, .allocate 0 [1, 2, 3] none, .new,
        .allocate 1 [1, 2] none, .free 0, .free 1, .new, .allocate 2 [1, 2, 4] none, .fork 2,
        .appendTokenIds 3 [5] 0 none]
      .ok (w.tables.map fun t : Tracked => t.table.blockIds)) = .ok [[], [], [0, 1], [0, 2]] := by decide +kernel
  obtain ⟨w, hw, h⟩ := bind_eq_ok.mp hall
  exact ⟨w, hw, Except.ok.inj h, prefix_cache_accounted PrefixHasher.sample_ne Nat.zero_lt_two hw⟩

end SpaceServe
