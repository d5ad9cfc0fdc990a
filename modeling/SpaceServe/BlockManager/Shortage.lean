import SpaceServe.BlockManager.PrefixRuns

/-!
# Calls that find no free block

What `NoFreeBlocksError` leaves behind. An allocation of several blocks takes one id after the other, and
copy-on-write gives the old id back before it asks for a new one; neither is undone.

* `Holdings`, `Unchanged`: the counts, the ids that can be given out, and the blocks in use, before and after;
* `raises_allocateImmutableBlocks`, `raises_appendTokenIds`: where the allocator without a cache fails;
* `PrefixInv.raises_allocateImmutableBlock`, `PrefixInv.raises_appendTokenIds`: where the one with a cache does;
* **`failed_allocations_unchanged_iff`**: which failed calls change nothing.
-/

set_option autoImplicit false

namespace SpaceServe

open Py

/-- The counts of the ids, the ids that are free or can be evicted, and the blocks. -/
structure Holdings where
  refcount : BlockId → Option ℕ
  free : BlockId → Prop
  block : PoolId → NaiveBlock

/-- No count has changed, the same ids can be given out, and the blocks in use have their ids and tokens. -/
structure Unchanged (used : Finset PoolId) (h h' : Holdings) : Prop where
  refcount : ∀ b, h'.refcount b = h.refcount b
  free : ∀ b, h'.free b ↔ h.free b
  blockId : ∀ o ∈ used, (h'.block o).blockId = (h.block o).blockId
  tokenIds : ∀ o ∈ used, (h'.block o).tokenIds = (h.block o).tokenIds

theorem Unchanged.refl (used : Finset PoolId) (h : Holdings) : Unchanged used h h :=
  ⟨fun _ => rfl, fun _ => Iff.rfl, fun _ _ => rfl, fun _ _ => rfl⟩

/-- A block lost its id. -/
theorem not_unchanged_of_lost {used : Finset PoolId} {h h' : Holdings} {o : PoolId} (ho : o ∈ used)
    (hheld : (h.block o).blockId ≠ none) (hlost : (h'.block o).blockId = none) : ¬ Unchanged used h h' := by
  intro hun
  exact hheld ((hun.blockId o ho).symm.trans hlost)

/-! ## Exceptions of another kind -/

section Others

theorem RaisesOnly.key {α : Type} (x : Option α) : RaisesOnly (· ≠ noFreeBlocksError) (ofOption .keyError x) :=
  RaisesOnly.ofOption (by decide) x

theorem RaisesOnly.option {α : Type} (x : Option α) :
    RaisesOnly (· ≠ noFreeBlocksError) (ofOption (.assertionError "") x) :=
  RaisesOnly.ofOption (by decide) x

theorem RefCounter.raisesOnly_incr (r : RefCounter) (b : BlockId) :
    RaisesOnly (· ≠ noFreeBlocksError) (r.incr b) :=
  (RaisesOnly.option _).bind fun _ _ => RaisesOnly.ok _

theorem RefCounter.raisesOnly_decr (r : RefCounter) (b : BlockId) :
    RaisesOnly (· ≠ noFreeBlocksError) (r.decr b) := by
  refine (RaisesOnly.option _).bind fun _ _ => RaisesOnly.bind ?_ fun _ _ => RaisesOnly.ok _
  exact RaisesOnly.assert (by decide)

theorem RefCounter.raisesOnly_get (r : RefCounter) (b : BlockId) :
    RaisesOnly (· ≠ noFreeBlocksError) (r.get b) := RaisesOnly.option _

theorem raisesOnly_heappopLive {α : Type} [LinearOrder α] {live : α → Bool} : ∀ (fuel : ℕ) (heap : List α),
    RaisesOnly (· ≠ noFreeBlocksError) (heappopLive live fuel heap) := by
  intro fuel
  induction fuel with
  | zero =>
    intro heap
    rw [heappopLive]
    split_ifs
    · exact RaisesOnly.ok _
    · rintro _ ⟨⟩
      decide
  | succ fuel ih =>
    intro heap
    rw [heappopLive]
    split_ifs
    · exact RaisesOnly.ok _
    · refine RaisesOnly.bind ?_ fun p _ => ?_
      · rw [heappop]
        split
        · exact RaisesOnly.ok _
        · rintro _ ⟨⟩
          decide
      · dsimp only
        split_ifs
        · exact RaisesOnly.ok _
        · exact ih _

theorem LRUEvictor.raisesOnly_evict (e : LRUEvictor) : RaisesOnly (· ≠ noFreeBlocksError) e.evict := by
  have hmemory : RaisesOnly (· ≠ noFreeBlocksError) (.error noUsableMemory : Except Exn ((BlockId × ℤ) × LRUEvictor)) := by
    rintro _ ⟨⟩
    decide
  rw [evict]
  split_ifs
  · exact hmemory
  · refine (raisesOnly_heappopLive _ _).bind fun r _ => ?_
    split
    · exact RaisesOnly.ok _
    · exact hmemory

theorem NaiveBlock.raisesOnly_append (block : NaiveBlock) (n : ℕ) (tokenIds : List TokenId) :
    RaisesOnly (· ≠ noFreeBlocksError) (block.appendTokenIdsNoCow n tokenIds) :=
  NaiveBlock.raisesOnly_appendTokenIdsNoCow.mono fun _ he => he ▸ by decide

end Others

/-! ## Without a cache -/

namespace NaiveBlockAllocator

variable {B : Type} [Block B] {s s' : NaiveBlockAllocator B} {o : PoolId}

/-- What of the allocator a failed call is to leave. -/
def holdings (s : NaiveBlockAllocator B) : Holdings :=
  ⟨s.refcounter.get?, (· ∈ s.freeBlockIndices), s.block⟩

theorem never_initBlock (prevBlock : Option PoolId) (tokenIds : List TokenId) (physicalBlockId : Option BlockId)
    (extraHash : Option ℤ) : Never noFreeBlocksError
      (initBlock prevBlock tokenIds physicalBlockId extraHash : StateE (NaiveBlockAllocator B) PoolId) := by
  intro s s' h
  cases raises_initBlock h

theorem never_initBlocks : ∀ (pairs : List (List TokenId × BlockId)) (prevBlock : Option PoolId),
    Never noFreeBlocksError (initBlocks prevBlock pairs : StateE (NaiveBlockAllocator B) (List PoolId)) := by
  intro pairs
  induction pairs with
  | nil => exact fun _ => Never.pure _
  | cons p pairs ih =>
    intro prevBlock
    apply (never_initBlock prevBlock p.1 (some p.2) none).bind
    intro o
    exact (ih (some o)).bind fun _ => Never.pure _

theorem never_freeBlockIdOf (o : PoolId) :
    Never noFreeBlocksError (freeBlockIdOf o : StateE (NaiveBlockAllocator B) Unit) := by
  refine Never.get.bind fun s => (Never.set _).bind fun _ => (Never.fromExcept (RaisesOnly.option _)).bind fun b => ?_
  exact Never.fromState fun s => (s.refcounter.raisesOnly_decr b).bind fun _ _ => RaisesOnly.ok _

omit [Block B] in
/-- The ids that were free were taken one after the other. -/
theorem raises_allocateBlockIds : ∀ (chunks : List (List TokenId)) {s : NaiveBlockAllocator B},
    Raises (chunks.mapM fun _ => (allocateBlockId : StateE (NaiveBlockAllocator B) BlockId)) s noFreeBlocksError s' →
      s'.freeBlockIndices = [] ∧ (s.freeBlockIndices = [] → s' = s) := by
  intro chunks
  induction chunks with
  | nil => exact fun h => absurd h raises_pure
  | cons c chunks ih =>
    intro s h
    rw [List.mapM_cons, raises_bind] at h
    rcases h with h | ⟨b, s₁, hone, h⟩
    · obtain ⟨hfree, rfl⟩ := raises_allocateBlockId h
      exact ⟨hfree, fun _ => rfl⟩
    · rw [Never.raises_bind_iff_left fun _ => Never.pure _] at h
      obtain ⟨hfree, -⟩ := ih h
      obtain ⟨rest, m, hcons, -, -⟩ := returns_allocateBlockId hone
      refine ⟨hfree, fun hnil => ?_⟩
      rw [hnil] at hcons
      cases hcons

/-- `allocate_immutable_blocks` fails when no id is free any more. -/
theorem raises_allocateImmutableBlocks {prevBlock : Option PoolId} {blockTokenIds : List (List TokenId)}
    (h : Raises (allocateImmutableBlocks prevBlock blockTokenIds) s noFreeBlocksError s') :
    s'.freeBlockIndices = [] ∧ (s.freeBlockIndices = [] → s' = s) := by
  rw [allocateImmutableBlocks, raises_bind] at h
  rcases h with h | ⟨ids, s₁, -, h⟩
  · exact raises_allocateBlockIds _ h
  · exact absurd h (never_initBlocks _ _ _ _)

theorem returns_freeBlockIdOf_lost {u : Unit} (h : Returns (freeBlockIdOf o) s u s') :
    (s.block o).blockId ≠ none ∧ (s'.block o).blockId = none := by
  obtain ⟨b, hb, hfree⟩ := returns_freeBlockIdOf h
  obtain ⟨n, -, rfl⟩ := returns_freeBlockId hfree
  refine ⟨hb ▸ Option.some_ne_none b, ?_⟩
  show ((s.setBlockId o none).block o).blockId = none
  rw [block_setBlockId_self]

/-- Copy-on-write fails when it has given the id back. -/
theorem raises_cowBlockIfNotAppendable (h : Raises (cowBlockIfNotAppendable o) s noFreeBlocksError s') :
    (s.block o).blockId ≠ none ∧ (s'.block o).blockId = none := by
  rw [cowBlockIfNotAppendable, Never.get.raises_bind_iff] at h
  obtain ⟨s₀, s₁, hget, h⟩ := h
  obtain ⟨rfl, rfl⟩ := returns_get.mp hget
  rw [(Never.fromExcept (RaisesOnly.option _)).raises_bind_iff] at h
  obtain ⟨b, s₂, hid, h⟩ := h
  obtain ⟨-, rfl⟩ := returns_fromExcept.mp hid
  rw [(Never.fromExcept (s₂.refcounter.raisesOnly_get b)).raises_bind_iff] at h
  obtain ⟨m, s₃, hcount, h⟩ := h
  obtain ⟨-, rfl⟩ := returns_fromExcept.mp hcount
  split_ifs at h with hle
  · exact absurd h raises_pure
  · rw [(never_freeBlockIdOf o).raises_bind_iff] at h
    obtain ⟨u, s₄, hfree, h⟩ := h
    rw [raises_bind] at h
    rcases h with h | ⟨b', s₅, -, h⟩
    · obtain ⟨-, rfl⟩ := raises_allocateBlockId h
      exact returns_freeBlockIdOf_lost hfree
    · exact absurd h (((Never.modify _).bind fun _ => Never.pure _) _ _)

end NaiveBlockAllocator

/-- An append fails in the copy-on-write. -/
theorem NaiveBlock.raises_appendTokenIds {B σ : Type} [Block B] {base : σ → NaiveBlockAllocator B}
    {setBase : σ → NaiveBlockAllocator B → σ} {cow : PoolId → StateE σ BlockId} {o : PoolId}
    {tokenIds : List TokenId} {s s' : σ}
    (h : Raises (NaiveBlock.appendTokenIds base setBase cow o tokenIds) s noFreeBlocksError s') : ∃ block,
      block = { (base s).block o with tokenIds := ((base s).block o).tokenIds ++ tokenIds } ∧
      Raises (cow o) (setBase s ((base s).setBlock o block)) noFreeBlocksError s' := by
  rw [NaiveBlock.appendTokenIds, Never.get.raises_bind_iff] at h
  obtain ⟨s₀, s₁, hget, h⟩ := h
  obtain ⟨rfl, rfl⟩ := returns_get.mp hget
  rw [(Never.fromExcept (NaiveBlock.raisesOnly_append _ _ _)).raises_bind_iff] at h
  obtain ⟨block, s₂, hblock, h⟩ := h
  obtain ⟨hblock, rfl⟩ := returns_fromExcept.mp hblock
  rw [(Never.set _).raises_bind_iff] at h
  obtain ⟨u, s₃, hset, h⟩ := h
  rw [returns_set] at hset
  subst hset
  refine ⟨block, (NaiveBlock.appendTokenIdsNoCow_eq_ok hblock).1, ?_⟩
  split_ifs at h
  · exact absurd h raises_pure
  · rw [raises_bind] at h
    rcases h with h | ⟨b, s₄, -, h⟩
    · exact h
    · exact absurd h raises_modify

/-! ## With a cache -/

namespace PrefixCachingBlockAllocator

variable {P : PrefixHasher} {s s' : PrefixCachingBlockAllocator} {o : PoolId}

/-- What of the allocator a failed call is to leave. The ids of the evictor can be given out too. -/
def holdings (s : PrefixCachingBlockAllocator) : Holdings :=
  ⟨s.hashless.refcounter.get?, fun b => b ∈ s.hashless.freeBlockIndices ∨ s.evictor.contains b = true, s.block⟩

theorem never_contentHash : ∀ (fuel : ℕ) (o : PoolId), Never noFreeBlocksError (contentHash P fuel o) := by
  intro fuel
  induction fuel with
  | zero => exact fun o => Never.throw (by decide)
  | succ fuel ih =>
    intro o
    rw [contentHash]
    apply Never.get.bind
    intro s
    dsimp only
    split_ifs
    · exact Never.pure _
    · refine Never.bind ?_ fun prevHash => ?_
      · split
        · exact Never.pure _
        · exact ih _
      · split_ifs
        · exact Never.pure _
        · exact (Never.modify _).bind fun _ => Never.pure _
    · exact Never.pure _

theorem never_contentHashOf (o : PoolId) : Never noFreeBlocksError (contentHashOf P o) :=
  Never.get.bind fun _ => never_contentHash _ o

theorem never_blockIdOf (o : PoolId) : Never noFreeBlocksError (blockIdOf o) :=
  Never.get.bind fun _ => Never.fromExcept (RaisesOnly.option _)

theorem never_getRefcount (b : BlockId) : Never noFreeBlocksError (getRefcount b) :=
  Never.get.bind fun s => Never.fromExcept (s.hashless.refcounter.raisesOnly_get b)

theorem never_incrRefcount (b : BlockId) : Never noFreeBlocksError (incrRefcount b) :=
  Never.fromState fun s => (s.hashless.refcounter.raisesOnly_incr b).bind fun _ _ => RaisesOnly.ok _

theorem never_trackBlockId (b : BlockId) (computed : Bool) : Never noFreeBlocksError (trackBlockId b computed) := by
  refine Never.fromState fun s => (RaisesOnly.key _).bind fun t _ => RaisesOnly.bind ?_ fun _ _ => RaisesOnly.ok _
  exact (RaisesOnly.assert (by decide)).bind fun _ _ => RaisesOnly.ok _

theorem never_untrackBlockId (b : BlockId) : Never noFreeBlocksError (untrackBlockId b) := by
  refine Never.fromState fun s => (RaisesOnly.key _).bind fun t _ => RaisesOnly.bind ?_ fun _ _ => RaisesOnly.ok _
  exact (RaisesOnly.assert (by decide)).bind fun _ _ => RaisesOnly.ok _

theorem never_incrRefcountCachedBlock (o : PoolId) : Never noFreeBlocksError (incrRefcountCachedBlock o) := by
  refine (Never.modify _).bind fun _ => (never_blockIdOf o).bind fun b => (never_incrRefcount b).bind fun m => ?_
  split_ifs
  · apply Never.get.bind
    intro s
    dsimp only
    split_ifs
    · refine (Never.fromExcept ?_).bind fun _ => (Never.set _).bind fun _ => never_trackBlockId b true
      unfold LRUEvictor.remove
      split_ifs
      exact RaisesOnly.ok _
    · exact never_trackBlockId b true
  · exact Never.pure _

theorem never_decrRefcountHashlessBlock (o : PoolId) : Never noFreeBlocksError (decrRefcountHashlessBlock o) := by
  have hfree : Never noFreeBlocksError (onHashless (NaiveBlockAllocator.free o true)) :=
    Never.zoom ((NaiveBlockAllocator.never_freeBlockIdOf o).bind fun _ => Never.pure _)
  refine (never_blockIdOf o).bind fun b => (never_getRefcount b).bind fun m => ?_
  dsimp only
  split_ifs
  · exact (never_untrackBlockId b).bind fun _ => hfree
  · exact hfree

theorem never_promoteToImmutableBlock (o : PoolId) : Never noFreeBlocksError (promoteToImmutableBlock P o) := by
  refine (never_contentHashOf o).bind fun r => (Never.fromExcept (RaisesOnly.option r)).bind fun hash => ?_
  refine (never_blockIdOf o).bind fun b => (never_getRefcount b).bind fun m => ?_
  refine (Never.fromExcept (RaisesOnly.assert (by decide))).bind fun _ => Never.get.bind fun s => ?_
  split
  · exact (Never.set _).bind fun _ => Never.pure _
  · refine (never_decrRefcountHashlessBlock o).bind fun _ => (Never.modify _).bind fun _ => ?_
    exact (never_incrRefcountCachedBlock o).bind fun _ => Never.pure _

theorem never_maybeAllocateHashlessBlockId : Never noFreeBlocksError maybeAllocateHashlessBlockId := by
  intro s s' h
  obtain ⟨e, s₁, -, h⟩ := raises_tryCatch.mp h
  split_ifs at h with he
  · exact raises_pure h
  · exact he (raises_throw.mp h).1.symm

theorem never_maybeAllocateEvictedBlockId : Never noFreeBlocksError maybeAllocateEvictedBlockId := by
  apply Never.get.bind
  intro s
  split_ifs
  · exact Never.pure _
  · refine (Never.fromExcept ?_).bind fun p => (Never.set _).bind fun _ => ?_
    · exact s.evictor.raisesOnly_evict
    · refine (Never.fromExcept (RaisesOnly.option _)).bind fun cachedId => (never_getRefcount cachedId).bind fun m => ?_
      refine (Never.fromExcept (RaisesOnly.assert (by decide))).bind fun _ => ?_
      refine (Never.fromExcept (RaisesOnly.assert (by decide))).bind fun _ => (Never.modify _).bind fun _ => ?_
      exact (never_incrRefcount _).bind fun _ => (never_trackBlockId _ _).bind fun _ => Never.pure _

/-- There is neither a free id nor one of the evictor. -/
theorem raises_allocateBlockId {D : Finset PoolId} (hp : s.hashless.blockPool.Ok D)
    (h : Raises allocateBlockId s noFreeBlocksError s') :
    s.hashless.freeBlockIndices = [] ∧ s.evictor.numBlocks = 0 ∧ s' = s := by
  rw [allocateBlockId, never_maybeAllocateHashlessBlockId.raises_bind_iff] at h
  obtain ⟨r, s₁, hhashless, h⟩ := h
  rcases returns_maybeAllocateHashlessBlockId hp hhashless with ⟨b, -, -, -, rfl, -⟩ | ⟨rfl, hfree, rfl⟩
  · exact absurd h raises_pure
  · rw [never_maybeAllocateEvictedBlockId.raises_bind_iff] at h
    obtain ⟨r, s₂, hevicted, h⟩ := h
    rcases returns_maybeAllocateEvictedBlockId hevicted with ⟨b, -, -, -, rfl, -⟩ | ⟨rfl, hzero, rfl⟩
    · exact absurd h raises_pure
    · exact ⟨hfree, hzero, (raises_throw.mp h).2⟩

/-- An id that was allocated was free, or with the evictor. -/
theorem returns_allocateBlockId {D : Finset PoolId} (hp : s.hashless.blockPool.Ok D) {b : BlockId}
    (h : Returns allocateBlockId s b s') : s.hashless.freeBlockIndices ≠ [] ∨ s.evictor.numBlocks ≠ 0 := by
  rw [allocateBlockId, returns_bind] at h
  obtain ⟨r, s₁, hhashless, h⟩ := h
  rcases returns_maybeAllocateHashlessBlockId hp hhashless with ⟨b, rest, -, -, -, hcons, -⟩ | ⟨rfl, -, rfl⟩
  · exact Or.inl (hcons ▸ List.cons_ne_nil b rest)
  · right
    rw [returns_bind] at h
    obtain ⟨r, s₂, hevicted, h⟩ := h
    rcases returns_maybeAllocateEvictedBlockId hevicted with ⟨b, -, -, x, -, hx, -⟩ | ⟨rfl, -, rfl⟩
    · intro hzero
      have hentries : s₁.evictor.freeTable.entries = [] := List.length_eq_zero_iff.mp hzero
      have hmem := (s₁.evictor.freeTable.mem_entries _ _).mpr hx
      rw [hentries] at hmem
      exact List.not_mem_nil hmem
    · exact absurd h returns_throw

/-- The id of a block was given back. -/
theorem returns_decrRefcountHashlessBlock_lost {D : Finset PoolId} {u : PUnit} (hp : s.hashless.blockPool.Ok D)
    (h : Returns (decrRefcountHashlessBlock o) s u s') :
    (s.block o).blockId ≠ none ∧ (s'.block o).blockId = none ∧ s'.hashless.blockPool.Ok D := by
  simp only [decrRefcountHashlessBlock, returns_bind] at h
  obtain ⟨b, s₁, hid, m, s₂, hcount, h⟩ := h
  obtain ⟨hb, rfl⟩ := returns_blockIdOf hid
  obtain ⟨-, rfl⟩ := returns_getRefcount hcount
  -- the tracker does not matter
  have hgive : ∀ {t : PrefixCachingBlockAllocator}, Returns (onHashless (NaiveBlockAllocator.free o true)) t u s' →
      t.hashless = s₂.hashless → (s'.block o).blockId = none ∧ s'.hashless.blockPool.Ok D := by
    intro t h ht
    obtain ⟨hashless, hfree, rfl⟩ := returns_onHashless h
    obtain ⟨u₁, t₁, hgiven, hkept⟩ := returns_bind.mp hfree
    obtain ⟨-, rfl⟩ := returns_pure.mp hkept
    obtain ⟨b', -, hfreed⟩ := NaiveBlockAllocator.returns_freeBlockIdOf hgiven
    obtain ⟨k, -, rfl⟩ := NaiveBlockAllocator.returns_freeBlockId hfreed
    refine ⟨?_, ?_⟩
    · show ((t.hashless.setBlockId o none).block o).blockId = none
      rw [NaiveBlockAllocator.block_setBlockId_self]
    · show (t.hashless.blockPool.update o _).Ok D
      rw [ht]
      exact hp.update _
  have hheld : (s₂.block o).blockId ≠ none := by
    rw [show (s₂.block o).blockId = some b from hb]
    exact Option.some_ne_none b
  refine ⟨hheld, ?_⟩
  split_ifs at h with hone
  · obtain ⟨v, s₃, htrack, h⟩ := returns_bind.mp h
    rw [returns_untrackBlockId htrack] at h
    exact hgive h rfl
  · exact hgive h rfl

/-- Copy-on-write of a shared id fails when it has given the id back. -/
theorem raises_cowBlockIfNotAppendable {D : Finset PoolId} (hp : s.hashless.blockPool.Ok D)
    (h : Raises (cowBlockIfNotAppendable o) s noFreeBlocksError s') : ∃ b m, (s.block o).blockId = some b ∧
      s.hashless.refcounter.get? b = some m ∧ 1 < m ∧ (s'.block o).blockId = none := by
  rw [cowBlockIfNotAppendable, (never_blockIdOf o).raises_bind_iff] at h
  obtain ⟨b, s₁, hid, h⟩ := h
  obtain ⟨hb, rfl⟩ := returns_blockIdOf hid
  rw [(never_getRefcount b).raises_bind_iff] at h
  obtain ⟨m, s₂, hcount, h⟩ := h
  obtain ⟨hm, rfl⟩ := returns_getRefcount hcount
  refine ⟨b, m, hb, hm, ?_⟩
  split_ifs at h with hle
  · exact absurd h raises_pure
  · rw [(never_decrRefcountHashlessBlock o).raises_bind_iff] at h
    obtain ⟨u, s₃, hgive, h⟩ := h
    obtain ⟨-, hlost, hp'⟩ := returns_decrRefcountHashlessBlock_lost hp hgive
    rw [raises_bind] at h
    rcases h with h | ⟨b', s₄, -, h⟩
    · obtain ⟨-, -, rfl⟩ := raises_allocateBlockId hp' h
      exact ⟨Nat.lt_of_not_le hle, hlost⟩
    · exact absurd h (((Never.modify _).bind fun _ => Never.pure _) _ _)

end PrefixCachingBlockAllocator

namespace PrefixInv

open PrefixCachingBlockAllocator

variable {P : PrefixHasher} {n : ℕ} {all : List BlockId} {s s' : PrefixCachingBlockAllocator} {D : Finset PoolId}
  {H : PoolId → Option ℤ} {o : PoolId}

/-- An append fails when the copy-on-write of a shared id has given it back. -/
theorem raises_appendTokenIds (hi : PrefixInv P n all [] none s D D H) (ho : o ∈ D) {tokenIds : List TokenId}
    (h : Raises (PrefixCachingBlockAllocator.appendTokenIds P o tokenIds) s noFreeBlocksError s') :
    ∃ b m, (s.block o).blockId = some b ∧ s.hashless.refcounter.get? b = some m ∧ 1 < m ∧
      (s'.block o).blockId = none := by
  rw [PrefixCachingBlockAllocator.appendTokenIds, (never_contentHashOf o).raises_bind_iff] at h
  obtain ⟨r, s₁, hhash, h⟩ := h
  obtain ⟨-, hi₁, hhashed⟩ := hi.contentHashOf ho hhash
  rw [(Never.fromExcept (RaisesOnly.assert (by decide))).raises_bind_iff] at h
  obtain ⟨v, s₂, hassert, h⟩ := h
  obtain ⟨-, rfl⟩ := returns_fromExcept.mp hassert
  rw [Never.get.raises_bind_iff] at h
  obtain ⟨s₃, s₄, hget, h⟩ := h
  obtain ⟨rfl, rfl⟩ := returns_get.mp hget
  rw [(Never.fromExcept (RaisesOnly.assert (by decide))).raises_bind_iff] at h
  obtain ⟨w, s₅, hassert', h⟩ := h
  obtain ⟨-, rfl⟩ := returns_fromExcept.mp hassert'
  split_ifs at h with hnil
  · exact absurd h raises_pure
  · -- nothing behind the write fails in this way
    have hrest : ∀ v : PUnit, Never noFreeBlocksError (do
        modify fun s => s.update o { s.pool o with
          cachedNumTokensTotal := numTokensTotal s.pool (s.block o).prevBlock (s.block o).tokenIds }
        let contentHash ← PrefixCachingBlockAllocator.contentHashOf P o
        if contentHash ≠ none then
          let blockId ← promoteToImmutableBlock P o
          setBlockId o (some blockId) : StateE PrefixCachingBlockAllocator PUnit) := by
      intro v
      refine (Never.modify _).bind fun _ => (never_contentHashOf o).bind fun hash => ?_
      split_ifs
      · exact (never_promoteToImmutableBlock o).bind fun _ => Never.modify _
      · exact Never.pure _
    rw [raises_bind] at h
    rcases h with h | ⟨v, s₆, -, h⟩
    · obtain ⟨block, hblock, hcow⟩ := NaiveBlock.raises_appendTokenIds h
      obtain ⟨b, m, hb, hm, hlt, hlost⟩ := raises_cowBlockIfNotAppendable (hi₁.pool.update _) hcow
      change ((s₅.hashless.setBlock o block).block o).blockId = some b at hb
      rw [NaiveBlockAllocator.block_setBlock_self, hblock] at hb
      refine ⟨b, m, ?_, ?_, hlt, hlost⟩
      · rw [← hhashed.block o]
        exact hb
      · obtain ⟨pool, rfl, -⟩ := hhashed
        exact hm
    · exact absurd h (hrest v _ _)

theorem never_initObject (prevBlock : Option PoolId) (tokenIds : List TokenId) (blockId : Option BlockId)
    (extraHash : Option ℤ) : Never noFreeBlocksError
      (onHashless (NaiveBlockAllocator.initBlock prevBlock tokenIds blockId extraHash)) :=
  Never.zoom (NaiveBlockAllocator.never_initBlock _ _ _ _)

/-- A mutable block is not made when there is neither a free id nor one of the evictor. -/
theorem raises_allocateMutableBlock (hi : PrefixInv P n all [] none s D D H) {prevBlock : Option PoolId}
    {extraHash : Option ℤ}
    (h : Raises (PrefixCachingBlockAllocator.allocateMutableBlock P prevBlock extraHash) s noFreeBlocksError s') :
    s.hashless.freeBlockIndices = [] ∧ s.evictor.numBlocks = 0 ∧ s' = s := by
  rw [PrefixCachingBlockAllocator.allocateMutableBlock, raises_bind] at h
  rcases h with h | ⟨b, s₁, -, h⟩
  · exact raises_allocateBlockId hi.pool h
  · refine absurd h (Never.bind (never_initObject _ _ _ _) (fun o => Never.get.bind fun t => ?_) _ _)
    refine (Never.fromExcept (RaisesOnly.assert (by decide))).bind fun _ => (never_contentHashOf o).bind fun r => ?_
    exact (Never.fromExcept (RaisesOnly.assert (by decide))).bind fun _ => Never.pure _

/-- What a failed call for one block leaves: its hash was not cached, and no id could be given out. -/
structure Short (P : PrefixHasher) (n : ℕ) (H : PoolId → Option ℤ) (s s' : PrefixCachingBlockAllocator)
    (D : Finset PoolId) (prevBlock : Option PoolId) (tokenIds : List TokenId) (extraHash : Option ℤ) : Prop where
  uncached : ∃ hash, hashFrom P n H (PrefixCachingBlock.mk ⟨prevBlock, tokenIds, none⟩ none 0 false extraHash) =
    some hash ∧ s.cachedBlocks.get? hash = none
  noFree : s.hashless.freeBlockIndices = [] ∧ s.evictor.numBlocks = 0
  refcounter : s'.hashless.refcounter = s.hashless.refcounter
  freeBlockIndices : s'.hashless.freeBlockIndices = s.hashless.freeBlockIndices
  evictor : s'.evictor = s.evictor
  frame : ∀ x ∈ D, s'.block x = s.block x

/-- **A call for one block fails** if it has to take an id and there is none. -/
theorem raises_allocateImmutableBlock (pos : 0 < n) (hi : PrefixInv P n all [] none s D D H)
    {prevBlock : Option PoolId} {tokenIds : List TokenId} {extraHash : Option ℤ}
    (hprev : ∀ p, prevBlock = some p → p ∈ D) (hfull : ∀ p, prevBlock = some p → (s.block p).isFull n = true)
    (h : Raises (PrefixCachingBlockAllocator.allocateImmutableBlock P prevBlock tokenIds extraHash) s
      noFreeBlocksError s') : Short P n H s s' D prevBlock tokenIds extraHash := by
  rw [PrefixCachingBlockAllocator.allocateImmutableBlock, (never_initObject _ _ _ _).raises_bind_iff] at h
  obtain ⟨probe, s₁, hprobe, h⟩ := h
  rw [(never_contentHashOf probe).raises_bind_iff] at h
  obtain ⟨r, s₂, hhash, h⟩ := h
  rw [(Never.fromExcept (RaisesOnly.option r)).raises_bind_iff] at h
  obtain ⟨hash, s₃, hsome, h⟩ := h
  rw [returns_fromExcept, ofOption_eq_ok] at hsome
  obtain ⟨rfl, rfl⟩ := hsome
  rw [Never.get.raises_bind_iff] at h
  obtain ⟨s₄, s₅, hget, h⟩ := h
  obtain ⟨rfl, rfl⟩ := returns_get.mp hget
  obtain ⟨heq, hlen, hrefs, hfree, hevictor, hcached, H₁, hi₅, hmade, -, -⟩ := hi.probe hprev hfull hprobe hhash
  cases hcase : s₅.cachedBlocks.get? hash with
  | some cachedId =>
    rw [hcase] at h
    exact absurd h (((Never.modify _).bind fun _ => (never_incrRefcountCachedBlock probe).bind fun _ =>
      Never.pure _) _ _)
  | none =>
    have hgive : Never noFreeBlocksError (onHashless (NaiveBlockAllocator.freeBlock probe)) :=
      Never.zoom (Never.modify _)
    rw [hcase] at h
    obtain ⟨u, s₆, hfreed, h⟩ := hgive.raises_bind_iff.mp h
    have hid : s₅.hashless.ids probe = none := congrArg NaiveBlock.blockId hmade.block
    have hclosed : ∀ x ∈ D, ∀ p, (s₅.block x).prevBlock = some p → p ∈ D := by
      intro x hx p hp
      rw [hmade.frame x hx] at hp
      exact hi.data.prev x hx p hp
    obtain ⟨hi₆, hsame, hrefs₆, hfree₆, hevictor₆⟩ := hi₅.unprobe hmade.new hid hclosed hfreed
    rw [raises_bind] at h
    rcases h with h | ⟨o, s₇, hmutable, h⟩
    · obtain ⟨hnil, hzero, rfl⟩ := hi₆.raises_allocateMutableBlock h
      refine ⟨⟨hash, heq, by rw [← hcached, hcase]⟩, ⟨?_, ?_⟩, hrefs₆.trans hrefs, hfree₆.trans hfree,
        hevictor₆.trans hevictor, fun x hx => ?_⟩
      · rw [← hfree, ← hfree₆, hnil]
      · rw [← hevictor, ← hevictor₆, hzero]
      · exact (congrArg PrefixCachingBlock.block (hsame x)).trans (hmade.frame x hx)
    · -- the id of a new block is not shared, so nothing is copied
      exfalso
      obtain ⟨H₂, b, hi₇, hmade₇, -, hunused⟩ := hi₆.allocateMutableBlock pos hprev hmutable
      rw [Never.raises_bind_iff_left fun _ => Never.pure _] at h
      obtain ⟨b', m, hb', hm, hlt, -⟩ := hi₇.raises_appendTokenIds (Finset.mem_insert_self _ _) h
      rw [hmade₇.block] at hb'
      cases hb'
      have hcount := (hi₇.accounts.counted.mem_of_get? hm).2
      have hzero := (hi₆.accounts.counted.mem_of_get? hunused).2
      have hids : ∀ x ∈ D, s₇.hashless.ids x = s₆.hashless.ids x := fun x hx =>
        congrArg NaiveBlock.blockId (hmade₇.frame x hx)
      have hself : s₇.hashless.ids o = some b := congrArg NaiveBlock.blockId hmade₇.block
      rw [holders_insert hmade₇.new, holders_congr hids, hself, if_pos rfl] at hcount
      omega

/-- A call for one block that returned: the block is full, and its hash was cached or an id could be given out. -/
theorem returns_allocateImmutableBlock (hi : PrefixInv P n all [] none s D D H) {prevBlock : Option PoolId}
    {tokenIds : List TokenId} {extraHash : Option ℤ} (hprev : ∀ p, prevBlock = some p → p ∈ D)
    (hfull : ∀ p, prevBlock = some p → (s.block p).isFull n = true)
    (h : Returns (PrefixCachingBlockAllocator.allocateImmutableBlock P prevBlock tokenIds extraHash) s o s') :
    tokenIds.length = n ∧ ∃ hash,
      hashFrom P n H (PrefixCachingBlock.mk ⟨prevBlock, tokenIds, none⟩ none 0 false extraHash) = some hash ∧
      (s.cachedBlocks.get? hash = none → s.hashless.freeBlockIndices ≠ [] ∨ s.evictor.numBlocks ≠ 0) := by
  simp only [PrefixCachingBlockAllocator.allocateImmutableBlock, returns_bind, returns_fromExcept, returns_get,
    ofOption_eq_ok] at h
  obtain ⟨probe, s₁, hprobe, r, s₂, hhash, hash, s₃, ⟨rfl, rfl⟩, s₄, s₅, ⟨rfl, rfl⟩, hrest⟩ := h
  obtain ⟨heq, hlen, -, hfree, hevictor, hcached, H₁, hi₅, hmade, -, -⟩ := hi.probe hprev hfull hprobe hhash
  refine ⟨hlen, hash, heq, fun huncached => ?_⟩
  rw [← hcached] at huncached
  rw [huncached] at hrest
  simp only [returns_bind, returns_pure] at hrest
  obtain ⟨u, s₆, hfreed, o', s₇, hmutable, -⟩ := hrest
  have hid : s₅.hashless.ids probe = none := congrArg NaiveBlock.blockId hmade.block
  have hclosed : ∀ x ∈ D, ∀ p, (s₅.block x).prevBlock = some p → p ∈ D := by
    intro x hx p hp
    rw [hmade.frame x hx] at hp
    exact hi.data.prev x hx p hp
  obtain ⟨hi₆, -, -, hfree₆, hevictor₆⟩ := hi₅.unprobe hmade.new hid hclosed hfreed
  simp only [PrefixCachingBlockAllocator.allocateMutableBlock, returns_bind] at hmutable
  obtain ⟨b, s₈, halloc, -⟩ := hmutable
  rw [← hfree, ← hfree₆, ← hevictor, ← hevictor₆]
  exact returns_allocateBlockId hi₆.pool halloc

/-- The count of an id in use, after a block was made. -/
theorem get?_of_made {H' : PoolId → Option ℤ} {block : NaiveBlock} {extraHash : Option ℤ}
    (hi : PrefixInv P n all [] none s D D H) (hi' : PrefixInv P n all [] none s' (insert o D) (insert o D) H')
    (hmade : Made s s' D o block extraHash) {b : BlockId} {m : ℕ} (hm : s.hashless.refcounter.get? b = some m) :
    s'.hashless.refcounter.get? b = some (m + if block.blockId = some b then 1 else 0) := by
  obtain ⟨hmem, hcount⟩ := hi.accounts.counted.mem_of_get? hm
  have hids : ∀ x ∈ D, s'.hashless.ids x = s.hashless.ids x := fun x hx =>
    congrArg NaiveBlock.blockId (hmade.frame x hx)
  have hself : s'.hashless.ids o = block.blockId := congrArg NaiveBlock.blockId hmade.block
  rw [hi'.accounts.counted.get?_of_mem hmem, holders_insert hmade.new, holders_congr hids, hself, hcount]
  rfl

/-- A call for several blocks that fails lets no count go down. -/
theorem raises_allocateImmutableBlocks_le (pos : 0 < n) {extraHash : Option ℤ} : ∀ (chunks : List (List TokenId))
    {s : PrefixCachingBlockAllocator} {D : Finset PoolId} {H : PoolId → Option ℤ} {prevBlock : Option PoolId},
    PrefixInv P n all [] none s D D H → (∀ p, prevBlock = some p → p ∈ D) →
    (∀ p, prevBlock = some p → (s.block p).isFull n = true) →
    Raises (PrefixCachingBlockAllocator.allocateImmutableBlocks P extraHash prevBlock chunks) s noFreeBlocksError s' →
    ∀ b m, s.hashless.refcounter.get? b = some m → ∃ m', s'.hashless.refcounter.get? b = some m' ∧ m ≤ m' := by
  intro chunks
  induction chunks with
  | nil => exact fun _ _ _ h => absurd h raises_pure
  | cons c chunks ih =>
    intro s D H prevBlock hi hprev hfull h b m hm
    rw [PrefixCachingBlockAllocator.allocateImmutableBlocks, raises_bind] at h
    rcases h with h | ⟨o, s₁, hone, h⟩
    · have hshort := hi.raises_allocateImmutableBlock pos hprev hfull h
      exact ⟨m, hshort.refcounter ▸ hm, le_refl m⟩
    · rw [Never.raises_bind_iff_left fun _ => Never.pure _] at h
      obtain ⟨hlen, -⟩ := hi.returns_allocateImmutableBlock hprev hfull hone
      obtain ⟨H₁, b₁, hi₁, hmade, -⟩ := hi.allocateImmutableBlock pos hprev hfull hlen hone
      have hfull₁ : ∀ p, some o = some p → (s₁.block p).isFull n = true := by
        rintro _ ⟨⟩
        rw [hmade.block]
        exact isFull_of_length hlen
      obtain ⟨m', hm', hle⟩ := ih hi₁ (fun _ hp => by cases hp; exact Finset.mem_insert_self _ _) hfull₁ h b _
        (hi.get?_of_made hi₁ hmade hm)
      exact ⟨m', hm', (Nat.le_add_right _ _).trans hle⟩

/-- **A call for several blocks fails** at the first of them, or when a count has gone up. -/
theorem raises_allocateImmutableBlocks (pos : 0 < n) {extraHash : Option ℤ} {chunk : List TokenId}
    {chunks : List (List TokenId)} {prevBlock : Option PoolId} (hi : PrefixInv P n all [] none s D D H)
    (hprev : ∀ p, prevBlock = some p → p ∈ D) (hfull : ∀ p, prevBlock = some p → (s.block p).isFull n = true)
    (h : Raises (PrefixCachingBlockAllocator.allocateImmutableBlocks P extraHash prevBlock (chunk :: chunks)) s
      noFreeBlocksError s') : Short P n H s s' D prevBlock chunk extraHash ∨
      (∃ hash, hashFrom P n H (PrefixCachingBlock.mk ⟨prevBlock, chunk, none⟩ none 0 false extraHash) = some hash ∧
        (s.cachedBlocks.get? hash = none → s.hashless.freeBlockIndices ≠ [] ∨ s.evictor.numBlocks ≠ 0)) ∧
      ∃ b, s'.hashless.refcounter.get? b ≠ s.hashless.refcounter.get? b := by
  rw [PrefixCachingBlockAllocator.allocateImmutableBlocks, raises_bind] at h
  rcases h with h | ⟨o, s₁, hone, h⟩
  · exact Or.inl (hi.raises_allocateImmutableBlock pos hprev hfull h)
  · rw [Never.raises_bind_iff_left fun _ => Never.pure _] at h
    obtain ⟨hlen, hash, heq, hroom⟩ := hi.returns_allocateImmutableBlock hprev hfull hone
    obtain ⟨H₁, b, hi₁, hmade, hold⟩ := hi.allocateImmutableBlock pos hprev hfull hlen hone
    refine Or.inr ⟨⟨hash, heq, hroom⟩, b, ?_⟩
    have hfull₁ : ∀ p, some o = some p → (s₁.block p).isFull n = true := by
      rintro _ ⟨⟩
      rw [hmade.block]
      exact isFull_of_length hlen
    -- the id is cached
    have hall : b ∈ all := by
      have hself : H₁ o = some hash := by
        rw [hi₁.data.hash o (Finset.mem_insert_self o D), ← heq]
        have hblock : (s₁.pool o).block = ⟨prevBlock, chunk, some b⟩ := hmade.block
        apply hashFrom_congr
        · rw [hblock]
          rfl
        · rw [hblock]
        · rw [hblock]
        · exact hmade.extra
        · exact fun _ p hp => hold p (hprev p hp)
      have hid : s₁.hashless.ids o = some b := congrArg NaiveBlock.blockId hmade.block
      have hcached := hi₁.cached o (Finset.mem_insert_self o D) (Option.some_ne_none o).symm hash b hself hid
      exact (hi₁.accounts.kept hash b hcached).1
    have hm := hi.accounts.counted.get?_of_mem hall
    obtain ⟨m', hm', hle⟩ := raises_allocateImmutableBlocks_le pos chunks hi₁
      (fun _ hp => by cases hp; exact Finset.mem_insert_self _ _) hfull₁ h b _ (hi.get?_of_made hi₁ hmade hm)
    rw [if_pos rfl] at hle
    rw [hm, hm']
    intro heq
    rw [Option.some.inj heq] at hle
    omega

end PrefixInv

/-! ## Failed calls -/

section Failed

variable {P : PrefixHasher} {n : ℕ} {s s' : PrefixCachingBlockAllocator} {prevHash : Option ℤ} {hash : ℤ}
  {prevBlock : Option PoolId} {chunk : List TokenId} {extraHash : Option ℤ}

/-- The hash of the block before, which is that of `'None'` if there is none. -/
def PrevHash (P : PrefixHasher) (s : PrefixCachingBlockAllocator) : Option PoolId → Option ℤ → Prop
  | none, prevHash => prevHash = some P.noneHash
  | some p, prevHash => ∃ s', Returns (PrefixCachingBlockAllocator.contentHashOf P p) s prevHash s'

/-- No id can be given out, and the first of the new blocks would need one. -/
structure StartsShort (P : PrefixHasher) (s : PrefixCachingBlockAllocator) (prevBlock : Option PoolId)
    (blockTokenIds : List (List TokenId)) (extraHash : Option ℤ) : Prop where
  noFree : s.getNumFreeBlocks = 0
  uncached : ∀ chunk ∈ blockTokenIds.head?, ∀ prevHash, PrevHash P s prevBlock prevHash →
    s.cachedBlocks.get? (P.hashBlockTokens (decide (prevBlock = none)) prevHash chunk extraHash) = none

theorem getNumFreeBlocks_eq_zero :
    s.getNumFreeBlocks = 0 ↔ s.hashless.freeBlockIndices = [] ∧ s.evictor.numBlocks = 0 := by
  rw [PrefixCachingBlockAllocator.getNumFreeBlocks, Nat.add_eq_zero_iff, NaiveBlockAllocator.getNumFreeBlocks,
    List.length_eq_zero_iff]

/-- The hash of a new block. -/
theorem hash_eq_of_prevHash {all : List BlockId} {D : Finset PoolId} {H : PoolId → Option ℤ}
    (hi : PrefixInv P n all [] none s D D H) (hprev : ∀ p, prevBlock = some p → p ∈ D)
    (h : hashFrom P n H (PrefixCachingBlock.mk ⟨prevBlock, chunk, none⟩ none 0 false extraHash) = some hash)
    (hp : PrevHash P s prevBlock prevHash) :
    hash = P.hashBlockTokens (decide (prevBlock = none)) prevHash chunk extraHash := by
  rw [hashFrom] at h
  split_ifs at h with hfull
  cases prevBlock with
  | none =>
    rw [show prevHash = some P.noneHash from hp]
    exact (Option.some.inj h).symm
  | some p =>
    obtain ⟨s₁, hret⟩ := hp
    obtain ⟨rfl, -, -⟩ := hi.contentHashOf (hprev p rfl) hret
    simp only at h
    split_ifs at h with hnone
    exact (Option.some.inj h).symm

/-- A block of a table has a hash to follow. -/
theorem Tables.exists_prevHash {pos : 0 < n} {all : List BlockId} {w : PrefixTables} {H : PoolId → Option ℤ}
    (hok : w.Ok (prefixAllocator P n pos) (PrefixOk P n all)) (hi : PrefixInv P n all [] none w.alloc w.used w.used H)
    (hprev : ∀ p, prevBlock = some p → p ∈ w.used) : ∃ prevHash, PrevHash P w.alloc prevBlock prevHash := by
  cases prevBlock with
  | none => exact ⟨_, rfl⟩
  | some p =>
    obtain ⟨i, t, ht, hp⟩ := Tables.mem_used.mp (hprev p rfl)
    obtain ⟨s₁, hret⟩ := hi.contentHashOf_total rfl (hok.table i t ht).holds (Tables.Ok.subset ht) hp
    exact ⟨_, s₁, hret⟩

/-- A call for several blocks that fails. -/
theorem PrefixInv.unchanged_iff {pos : 0 < n} {all : List BlockId} {w : PrefixTables} {H : PoolId → Option ℤ}
    (hok : w.Ok (prefixAllocator P n pos) (PrefixOk P n all)) (hi : PrefixInv P n all [] none w.alloc w.used w.used H)
    (hprev : ∀ p, prevBlock = some p → p ∈ w.used)
    (hfull : ∀ p, prevBlock = some p → (w.alloc.block p).isFull n = true) {blockTokenIds : List (List TokenId)}
    (h : Raises (PrefixCachingBlockAllocator.allocateImmutableBlocks P extraHash prevBlock blockTokenIds) w.alloc
      noFreeBlocksError s') :
    Unchanged w.used w.alloc.holdings s'.holdings ↔ StartsShort P w.alloc prevBlock blockTokenIds extraHash := by
  cases blockTokenIds with
  | nil => exact absurd h raises_pure
  | cons chunk chunks =>
    rcases hi.raises_allocateImmutableBlocks pos hprev hfull h with hshort | ⟨⟨hash, heq, hroom⟩, b, hb⟩
    · refine iff_of_true ⟨fun b => ?_, fun b => ?_, fun x hx => ?_, fun x hx => ?_⟩
        ⟨getNumFreeBlocks_eq_zero.mpr hshort.noFree, ?_⟩
      · exact congrArg (Dict.get? · b) hshort.refcounter
      · show _ ∈ s'.hashless.freeBlockIndices ∨ s'.evictor.contains b = true ↔ _
        rw [hshort.freeBlockIndices, hshort.evictor]
        rfl
      · exact congrArg NaiveBlock.blockId (hshort.frame x hx)
      · exact congrArg NaiveBlock.tokenIds (hshort.frame x hx)
      · rintro _ ⟨⟩ prevHash hp
        obtain ⟨hash, heq, huncached⟩ := hshort.uncached
        rw [← hash_eq_of_prevHash hi hprev heq hp]
        exact huncached
    · -- a count went up
      refine iff_of_false (fun hun => hb (hun.refcount b)) fun hstart => ?_
      obtain ⟨prevHash, hp⟩ := Tables.exists_prevHash hok hi hprev
      have huncached := hstart.uncached chunk rfl prevHash hp
      rw [← hash_eq_of_prevHash hi hprev heq hp] at huncached
      obtain ⟨hfree, hzero⟩ := getNumFreeBlocks_eq_zero.mp hstart.noFree
      rcases hroom huncached with hne | hne
      · exact hne hfree
      · exact hne hzero

end Failed

/-- **A failed call changes nothing** if it fails before it has taken anything: never with copy-on-write, and for
several blocks if already the first of them finds no id. -/
theorem failed_allocations_unchanged_iff {P : PrefixHasher} {n : ℕ} {pos : 0 < n} :
    (∀ {s s' : NaiveBlockAllocator NaiveBlock} {used : Finset PoolId} {prevBlock : Option PoolId}
      {blockTokenIds : List (List TokenId)},
      Raises (NaiveBlockAllocator.allocateImmutableBlocks prevBlock blockTokenIds) s noFreeBlocksError s' →
        (Unchanged used s.holdings s'.holdings ↔ s.getNumFreeBlocks = 0)) ∧
    (∀ {s s' : NaiveBlockAllocator NaiveBlock} {used : Finset PoolId} {o : PoolId} {tokenIds : List TokenId},
      o ∈ used →
      Raises ((naiveAllocator n pos).appendTokenIds o tokenIds) s noFreeBlocksError s' →
        ¬ Unchanged used s.holdings s'.holdings) ∧
    ∀ {blockIds : List BlockId} {calls : List TableCall} {w : PrefixTables},
      runPrefixTables P pos blockIds calls = .ok w →
        (∀ {s' : PrefixCachingBlockAllocator} {prevBlock : Option PoolId} {blockTokenIds : List (List TokenId)}
          {extraHash : Option ℤ}, (∀ p, prevBlock = some p → p ∈ w.used ∧ (w.alloc.block p).isFull n = true) →
          Raises ((prefixAllocator P n pos).allocateImmutableBlocks prevBlock blockTokenIds extraHash) w.alloc
            noFreeBlocksError s' →
            (Unchanged w.used w.alloc.holdings s'.holdings ↔ StartsShort P w.alloc prevBlock blockTokenIds extraHash)) ∧
        ∀ {s' : PrefixCachingBlockAllocator} {o : PoolId} {tokenIds : List TokenId}, o ∈ w.used →
          Raises ((prefixAllocator P n pos).appendTokenIds o tokenIds) w.alloc noFreeBlocksError s' →
            ¬ Unchanged w.used w.alloc.holdings s'.holdings := by
  refine ⟨fun {s s' used prevBlock blockTokenIds} h => ?_, fun {s s' used o tokenIds} ho h => ?_,
    fun {blockIds calls w} hrun => ?_⟩
  · obtain ⟨hnil, hsame⟩ := NaiveBlockAllocator.raises_allocateImmutableBlocks h
    rw [NaiveBlockAllocator.getNumFreeBlocks, List.length_eq_zero_iff]
    constructor
    · intro hun
      apply List.eq_nil_iff_forall_not_mem.mpr
      intro b hb
      have hmem : b ∈ s'.freeBlockIndices := (hun.free b).mpr hb
      rw [hnil] at hmem
      exact List.not_mem_nil hmem
    · intro hfree
      rw [hsame hfree]
      exact Unchanged.refl used _
  · have hcall : Raises (NaiveBlock.appendTokenIds (fun s => s) (fun _ s => s)
        NaiveBlockAllocator.cowBlockIfNotAppendable o tokenIds) s noFreeBlocksError s' := h
    obtain ⟨block, hblock, hcow⟩ := NaiveBlock.raises_appendTokenIds hcall
    obtain ⟨hheld, hlost⟩ := NaiveBlockAllocator.raises_cowBlockIfNotAppendable hcow
    rw [NaiveBlockAllocator.block_setBlock_self, hblock] at hheld
    exact not_unchanged_of_lost ho hheld hlost
  · obtain ⟨-, hok⟩ := prefixTables_ok hrun
    obtain ⟨H, hi⟩ := hok.inv
    refine ⟨fun {s' prevBlock blockTokenIds extraHash} hprev h => ?_, fun {s' o tokenIds} ho h => ?_⟩
    · exact hi.unchanged_iff hok (fun p hp => (hprev p hp).1) (fun p hp => (hprev p hp).2) h
    · obtain ⟨b, m, hb, -, -, hlost⟩ := hi.raises_appendTokenIds ho h
      have hheld : (w.alloc.block o).blockId ≠ none := hb ▸ Option.some_ne_none b
      exact not_unchanged_of_lost ho hheld hlost

/-- A run that raises, by what it gives. -/
theorem raises_of_fst {σ α : Type} {x : StateE σ α} {s : σ} {e : Exn} (h : (x.runOn s).1 = .error e) :
    Raises x s e (x.runOn s).2 := Prod.ext h rfl

/-- An allocator with one id. -/
def oneId : NaiveBlockAllocator NaiveBlock := ⟨[0], [0], .init [0], 1, [], .init ⟨none, [], none⟩ 1 4⟩

/-- An allocator with one id, which two blocks share. -/
def sharedId : NaiveBlockAllocator NaiveBlock :=
  ⟨[], [0], Dict.ofPairs [(0, 2)], 2, [], ⟨2, 4, [2, 3], fun _ => ⟨none, [7], some 0⟩⟩⟩

/-- The four kinds of failed calls: an id was taken, a shared id was given back, a cached block was found. -/
theorem failed_allocations_unchanged_iff_one_id :
    (∃ s', Raises (NaiveBlockAllocator.allocateImmutableBlocks none [[7], [8]]) oneId noFreeBlocksError s' ∧
      (Unchanged ∅ oneId.holdings s'.holdings ↔ oneId.getNumFreeBlocks = 0)) ∧
    (∃ s', Raises ((naiveAllocator 2 Nat.zero_lt_two).appendTokenIds 0 [8]) sharedId noFreeBlocksError s' ∧
      ¬ Unchanged {0} sharedId.holdings s'.holdings) ∧
    ∃ w, runPrefixTables .sample Nat.zero_lt_two [0, 1] [.new, .allocate 0 [1, 2, 3] none, .fork 0] = .ok w ∧
      (∃ s', Raises ((prefixAllocator .sample 2 Nat.zero_lt_two).allocateImmutableBlocks none [[1, 2], [5, 6]] none)
        w.alloc noFreeBlocksError s' ∧ (Unchanged w.used w.alloc.holdings s'.holdings ↔
          StartsShort .sample w.alloc none [[1, 2], [5, 6]] none)) ∧
      ∃ s', Raises ((prefixAllocator .sample 2 Nat.zero_lt_two).appendTokenIds 3 [4]) w.alloc noFreeBlocksError s' ∧
        ¬ Unchanged w.used w.alloc.holdings s'.holdings := by
  obtain ⟨hnaive, hcow, htables⟩ := @failed_allocations_unchanged_iff .sample 2 Nat.zero_lt_two
  refine ⟨⟨_, raises_of_fst (by decide), hnaive (raises_of_fst (by decide))⟩,
    ⟨_, raises_of_fst (by decide), hcow (Finset.mem_singleton_self 0) (raises_of_fst (by decide))⟩, ?_⟩
  have hall : (do
      let w ← runPrefixTables .sample Nat.zero_lt_two [0, 1] [.new, .allocate 0 [1, 2, 3] none, .fork 0]
      let r := StateE.runOn (PrefixCachingBlockAllocator.allocateImmutableBlocks .sample none none [[1, 2], [5, 6]]) w.alloc
      let r' := StateE.runOn (PrefixCachingBlockAllocator.appendTokenIds .sample 3 [4]) w.alloc
      .ok (decide (3 ∈ w.used), r.1, r'.1)) =
        .ok (true, .error noFreeBlocksError, .error noFreeBlocksError) := by decide +kernel
  obtain ⟨w, hw, h⟩ := bind_eq_ok.mp hall
  obtain ⟨hused, hblocks, happend⟩ : decide (3 ∈ w.used) = true ∧ _ = _ ∧ _ = _ := by
    simpa only [Except.ok.injEq, Prod.mk.injEq] using h
  obtain ⟨hiff, hnot⟩ := htables hw
  refine ⟨w, hw, ⟨_, raises_of_fst hblocks, hiff (fun p hp => by cases hp) (raises_of_fst hblocks)⟩,
    ⟨_, raises_of_fst happend, hnot (of_decide_eq_true hused) (raises_of_fst happend)⟩⟩

/-- Two blocks are asked for, and one id is taken; a shared block is written to, and has no id after that. -/
theorem failed_allocations_leak :
    (∃ s', NaiveBlockAllocator.init ⟨none, [], none⟩ 1 [0] = .ok oneId ∧
      Raises (NaiveBlockAllocator.allocateImmutableBlocks none [[7], [8]]) oneId noFreeBlocksError s' ∧
      ¬ Unchanged ∅ oneId.holdings s'.holdings) ∧
    ∃ w s', runPrefixTables .sample Nat.zero_lt_two [0, 1] [.new, .allocate 0 [1, 2, 3] none, .fork 0] = .ok w ∧
      3 ∈ w.used ∧
      Raises ((prefixAllocator .sample 2 Nat.zero_lt_two).appendTokenIds 3 [4]) w.alloc noFreeBlocksError s' ∧
      ¬ Unchanged w.used w.alloc.holdings s'.holdings := by
  constructor
  · refine ⟨_, rfl, raises_of_fst (by decide), fun hun => ?_⟩
    have hzero : 0 ∈ NaiveBlockAllocator.freeBlockIndices (StateE.runOn
        (NaiveBlockAllocator.allocateImmutableBlocks none [[7], [8]]) oneId).2 := (hun.free 0).mpr (List.mem_singleton_self 0)
    revert hzero
    decide
  · have hall : (do
        let w ← runPrefixTables .sample Nat.zero_lt_two [0, 1] [.new, .allocate 0 [1, 2, 3] none, .fork 0]
        let r := StateE.runOn (PrefixCachingBlockAllocator.appendTokenIds .sample 3 [4]) w.alloc
        .ok (decide (3 ∈ w.used), r.1, (w.alloc.block 3).blockId, (r.2.block 3).blockId)) =
          .ok (true, .error noFreeBlocksError, some 1, none) := by decide +kernel
    obtain ⟨w, hw, h⟩ := bind_eq_ok.mp hall
    obtain ⟨hused, hraise, hheld, hlost⟩ : decide (3 ∈ w.used) = true ∧ _ = _ ∧ _ = _ ∧ _ = _ := by
      simpa only [Except.ok.injEq, Prod.mk.injEq] using h
    have hmem : 3 ∈ w.used := of_decide_eq_true hused
    exact ⟨w, _, hw, hmem, raises_of_fst hraise, not_unchanged_of_lost hmem (hheld ▸ Option.some_ne_none 1) hlost⟩

end SpaceServe
