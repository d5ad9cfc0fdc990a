import SpaceServe.Lib.RefCount
import SpaceServe.BlockManager.Blocks

/-!
# The allocator without a cache

`NaiveBlockAllocator` of `vllm/core/block/naive_block.py`, for any block objects: the allocator with a prefix
cache takes the ids of its mutable blocks from one.

* `NaiveBlockAllocator`, `allocateMutableBlock`, `free`, `fork`, `cowBlockIfNotAppendable`, `appendTokenIds`: the
  model;
* `returns_allocateBlockId`, `returns_freeBlockId`, `returns_initBlock`, `returns_appendTokenIds`: what each of
  the steps does if it returns.
-/

set_option autoImplicit false

namespace SpaceServe

open Py

/-- `BlockAllocator.NoFreeBlocksError`. -/
def noFreeBlocksError : Exn := .valueError "NoFreeBlocksError"

/-- `NaiveBlockAllocator`, with its `CopyOnWriteTracker`. -/
structure NaiveBlockAllocator (B : Type) where
  freeBlockIndices : List BlockId
  allBlockIndices : List BlockId
  refcounter : RefCounter
  blockSize : ℕ
  copyOnWrites : List (BlockId × BlockId)
  blockPool : BlockPool B

namespace NaiveBlockAllocator

variable {B : Type} [Block B]

/-- `__init__`, for as many blocks as there are ids. The pool has a buffer of more objects than blocks. -/
def init (create : B) (blockSize : ℕ) (blockIds : List BlockId) : Except Exn (NaiveBlockAllocator B) := do
  assert (blockIds.dedup.length = blockIds.length) ""
  .ok {
    freeBlockIndices := blockIds
    allBlockIndices := blockIds.dedup
    refcounter := .init blockIds
    blockSize
    copyOnWrites := []
    blockPool := .init create blockSize (blockIds.length * 4) }

/-- A block object. -/
def block (s : NaiveBlockAllocator B) (o : PoolId) : NaiveBlock := Block.block (s.blockPool.pool o)

/-- A write to a block object. -/
def setBlock (s : NaiveBlockAllocator B) (o : PoolId) (block : NaiveBlock) : NaiveBlockAllocator B :=
  { s with blockPool := s.blockPool.update o (Block.setBlock (s.blockPool.pool o) block) }

/-- The setter of `block_id`. -/
def setBlockId (s : NaiveBlockAllocator B) (o : PoolId) (blockId : Option BlockId) : NaiveBlockAllocator B :=
  s.setBlock o { s.block o with blockId }

/-- `_allocate_block_id`. -/
def allocateBlockId : StateE (NaiveBlockAllocator B) BlockId := .fromState fun s =>
  match s.freeBlockIndices with
  | [] => .error noFreeBlocksError
  | blockId :: freeBlockIndices => do
    let (_, refcounter) ← s.refcounter.incr blockId
    .ok (blockId, { s with freeBlockIndices, refcounter })

/-- `_free_block_id`, for an id. -/
def freeBlockId (blockId : BlockId) : StateE (NaiveBlockAllocator B) Unit := .fromState fun s => do
  let (refcount, refcounter) ← s.refcounter.decr blockId
  .ok ((), { s with
    refcounter
    freeBlockIndices := if refcount = 0 then blockId :: s.freeBlockIndices else s.freeBlockIndices })

/-- `_free_block_id`, for a block. -/
def freeBlockIdOf (o : PoolId) : StateE (NaiveBlockAllocator B) Unit := do
  let s ← get
  set (s.setBlockId o none)
  let blockId ← .fromExcept (ofOption (.assertionError "") (s.block o).blockId)
  freeBlockId blockId

/-- `init_block` of the pool. -/
def initBlock (prevBlock : Option PoolId) (tokenIds : List TokenId) (physicalBlockId : Option BlockId)
    (extraHash : Option ℤ) : StateE (NaiveBlockAllocator B) PoolId := .fromState fun s => do
  let (o, blockPool) ← s.blockPool.initBlock prevBlock tokenIds physicalBlockId extraHash
  .ok (o, { s with blockPool })

/-- `free_block` of the pool. -/
def freeBlock (o : PoolId) : StateE (NaiveBlockAllocator B) PUnit :=
  modify fun s => { s with blockPool := s.blockPool.freeBlock o }

/-- `free`. -/
def free (o : PoolId) (keepBlockObject : Bool) : StateE (NaiveBlockAllocator B) PUnit := do
  freeBlockIdOf o
  if keepBlockObject then pure ⟨⟩ else freeBlock o

/-- `allocate_mutable_block`. -/
def allocateMutableBlock (prevBlock : Option PoolId) : StateE (NaiveBlockAllocator B) PoolId := do
  let blockId ← allocateBlockId
  initBlock prevBlock [] (some blockId) none

/-- One round of the second loop of `allocate_immutable_blocks`, and those after it. -/
def initBlocks : Option PoolId → List (List TokenId × BlockId) → StateE (NaiveBlockAllocator B) (List PoolId)
  | _, [] => pure []
  | prevBlock, (tokenIds, blockId) :: rest => do
    let o ← initBlock prevBlock tokenIds (some blockId) none
    let blocks ← initBlocks (some o) rest
    pure (o :: blocks)

/-- `allocate_immutable_blocks`. -/
def allocateImmutableBlocks (prevBlock : Option PoolId) (blockTokenIds : List (List TokenId)) :
    StateE (NaiveBlockAllocator B) (List PoolId) := do
  let blockIds ← blockTokenIds.mapM fun _ => allocateBlockId
  initBlocks prevBlock (blockTokenIds.zip blockIds)

/-- The round of `fork` for one block. A `NaiveBlock` has no extra hash. -/
def forkBlock (prevBlock : Option PoolId) (o : PoolId) : StateE (NaiveBlockAllocator B) PoolId := do
  let s ← get
  let blockId ← .fromExcept (ofOption (.assertionError "") (s.block o).blockId)
  let (refcount, refcounter) ← .fromExcept (s.refcounter.incr blockId)
  set { s with refcounter }
  .fromExcept (assert (refcount ≠ 1) "can't fork free'd block")
  initBlock prevBlock (s.block o).tokenIds (some blockId) (Block.extraHash (s.blockPool.pool o))

/-- The loop of `fork`. -/
def forkBlocks : Option PoolId → List PoolId → StateE (NaiveBlockAllocator B) (List PoolId)
  | _, [] => pure []
  | prevBlock, o :: rest => do
    let forked ← forkBlock prevBlock o
    let blocks ← forkBlocks (some forked) rest
    pure (forked :: blocks)

/-- `fork`. -/
def fork (lastBlock : PoolId) : StateE (NaiveBlockAllocator B) (List PoolId) := do
  let s ← get
  let sourceBlocks ← .fromExcept (getAllBlocksRecursively s.blockPool.pool s.blockPool.poolSize lastBlock)
  forkBlocks none sourceBlocks

/-- `get_num_free_blocks`. -/
def getNumFreeBlocks (s : NaiveBlockAllocator B) : ℕ := s.freeBlockIndices.length

/-- `cow_block_if_not_appendable`. A block is appendable if its id is not shared. -/
def cowBlockIfNotAppendable (o : PoolId) : StateE (NaiveBlockAllocator B) BlockId := do
  let s ← get
  let srcBlockId ← .fromExcept (ofOption (.assertionError "") (s.block o).blockId)
  let refcount ← .fromExcept (s.refcounter.get srcBlockId)
  if refcount ≤ 1 then pure srcBlockId
  else
    freeBlockIdOf o
    let trgBlockId ← allocateBlockId
    modify fun s => { s with copyOnWrites := s.copyOnWrites ++ [(srcBlockId, trgBlockId)] }
    pure trgBlockId

/-- `clear_copy_on_writes`. -/
def clearCopyOnWrites : StateE (NaiveBlockAllocator B) (List (BlockId × BlockId)) := do
  let s ← get
  set { s with copyOnWrites := [] }
  pure s.copyOnWrites

end NaiveBlockAllocator

/-- `append_token_ids` of a `NaiveBlock`, for an allocator with such a block inside: `cow` is its
`cow_block_if_not_appendable`. -/
def NaiveBlock.appendTokenIds {B σ : Type} [Block B] (base : σ → NaiveBlockAllocator B)
    (setBase : σ → NaiveBlockAllocator B → σ) (cow : PoolId → StateE σ BlockId) (o : PoolId)
    (tokenIds : List TokenId) : StateE σ PUnit := do
  let s ← get
  let block ← .fromExcept (((base s).block o).appendTokenIdsNoCow (base s).blockPool.blockSize tokenIds)
  set (setBase s ((base s).setBlock o block))
  if block.blockId = none then pure ⟨⟩
  else
    let blockId ← cow o
    modify fun s => setBase s ((base s).setBlockId o (some blockId))

/-! ## What the steps do -/

namespace NaiveBlockAllocator

variable {B : Type} {s s' : NaiveBlockAllocator B} {o o' : PoolId} {b : BlockId} {u : PUnit}

theorem returns_allocateBlockId (h : Returns allocateBlockId s b s') : ∃ rest n,
    s.freeBlockIndices = b :: rest ∧ s.refcounter.get? b = some n ∧
    s' = { s with freeBlockIndices := rest, refcounter := s.refcounter.set b (n + 1) } := by
  rw [allocateBlockId, returns_fromState] at h
  split at h
  · cases h
  · rename_i rest hfree
    obtain ⟨⟨m, r⟩, hincr, h⟩ := bind_eq_ok.mp h
    cases h
    obtain ⟨n, hn, -, rfl⟩ := RefCounter.incr_eq_ok.mp hincr
    exact ⟨rest, n, hfree, hn, rfl⟩

/-- There is no free id. -/
theorem raises_allocateBlockId (h : Raises allocateBlockId s noFreeBlocksError s') :
    s.freeBlockIndices = [] ∧ s' = s := by
  rw [allocateBlockId, raises_fromState] at h
  obtain ⟨h, rfl⟩ := h
  refine ⟨?_, rfl⟩
  split at h
  · assumption
  · rename_i b rest hfree
    rw [RefCounter.incr] at h
    cases hb : s'.refcounter.get? b with
    | none =>
      rw [hb] at h
      cases h
    | some m =>
      rw [hb] at h
      cases h

theorem returns_freeBlockId (h : Returns (freeBlockId b) s u s') : ∃ n,
    s.refcounter.get? b = some (n + 1) ∧ s' = { s with
      refcounter := s.refcounter.set b n
      freeBlockIndices := if n = 0 then b :: s.freeBlockIndices else s.freeBlockIndices } := by
  rw [freeBlockId, returns_fromState] at h
  obtain ⟨⟨n, r⟩, hdecr, h⟩ := bind_eq_ok.mp h
  cases h
  obtain ⟨hn, rfl⟩ := RefCounter.decr_eq_ok.mp hdecr
  exact ⟨n, hn, rfl⟩

theorem returns_freeBlock (h : Returns (freeBlock o) s u s') :
    s' = { s with blockPool := s.blockPool.freeBlock o } := returns_modify.mp h

variable [Block B]

@[simp] theorem block_setBlock_self (block : NaiveBlock) : (s.setBlock o block).block o = block := by
  rw [NaiveBlockAllocator.block, setBlock, BlockPool.update]
  simp only [Function.update_self, block_setBlock]

theorem block_setBlock_ne (h : o' ≠ o) (block : NaiveBlock) : (s.setBlock o block).block o' = s.block o' := by
  rw [NaiveBlockAllocator.block, setBlock, BlockPool.update]
  simp only [Function.update_of_ne h]
  rfl

@[simp] theorem block_setBlockId_self (blockId : Option BlockId) :
    (s.setBlockId o blockId).block o = { s.block o with blockId } := block_setBlock_self _

theorem block_setBlockId_ne (h : o' ≠ o) (blockId : Option BlockId) :
    (s.setBlockId o blockId).block o' = s.block o' := block_setBlock_ne h _

/-- The ids that the blocks hold, after one was changed. -/
theorem blockId_setBlock (block : NaiveBlock) : (fun o' => ((s.setBlock o block).block o').blockId) =
    Function.update (fun o' => (s.block o').blockId) o block.blockId := by
  funext o'
  rcases eq_or_ne o' o with rfl | hne
  · rw [Function.update_self, block_setBlock_self]
  · rw [Function.update_of_ne hne, block_setBlock_ne hne]

theorem returns_freeBlockIdOf (h : Returns (freeBlockIdOf o) s u s') : ∃ b,
    (s.block o).blockId = some b ∧ Returns (freeBlockId b) (s.setBlockId o none) u s' := by
  simp only [freeBlockIdOf, returns_bind, returns_get, returns_set, returns_fromExcept, ofOption_eq_ok] at h
  obtain ⟨s₀, s₁, ⟨rfl, rfl⟩, -, s₂, rfl, b, s₃, ⟨hb, rfl⟩, h⟩ := h
  exact ⟨b, hb, h⟩

theorem returns_initBlock {prevBlock : Option PoolId} {tokenIds : List TokenId}
    {physicalBlockId : Option BlockId} {extraHash : Option ℤ} {used : Finset PoolId}
    (hp : s.blockPool.Ok used) (h : Returns (initBlock prevBlock tokenIds physicalBlockId extraHash) s o s') :
    o ∉ used ∧ tokenIds.length ≤ s.blockPool.blockSize ∧ ∃ pool, s' = { s with blockPool := pool } ∧
      pool.Ok (insert o used) ∧ pool.blockSize = s.blockPool.blockSize ∧
      pool.pool = Function.update s.blockPool.pool o
        (Block.init s.blockPool.pool ⟨prevBlock, tokenIds, physicalBlockId⟩ extraHash) := by
  rw [initBlock, returns_fromState] at h
  obtain ⟨⟨o', pool⟩, hinit, h⟩ := bind_eq_ok.mp h
  cases h
  obtain ⟨hnew, hok, hsize, hlen, hpool⟩ := hp.initBlock hinit
  exact ⟨hnew, hlen, pool, rfl, hok, hsize, hpool⟩

/-- A new object raises nothing but an assertion. -/
theorem raises_initBlock {prevBlock : Option PoolId} {tokenIds : List TokenId} {physicalBlockId : Option BlockId}
    {extraHash : Option ℤ} {e : Exn}
    (h : Raises (initBlock prevBlock tokenIds physicalBlockId extraHash) s e s') : e = .assertionError "" := by
  rw [initBlock, raises_fromState] at h
  refine RaisesOnly.bind BlockPool.raisesOnly_initBlock (fun _ _ => RaisesOnly.ok _) e h.1

/-- A block that was made. -/
theorem block_of_pool {pool : BlockPool B} {block : NaiveBlock} {extraHash : Option ℤ}
    (hpool : pool.pool = Function.update s.blockPool.pool o (Block.init s.blockPool.pool block extraHash)) :
    ({ s with blockPool := pool } : NaiveBlockAllocator B).block o = block ∧
      ∀ o' ≠ o, ({ s with blockPool := pool } : NaiveBlockAllocator B).block o' = s.block o' := by
  refine ⟨?_, fun o' hne => ?_⟩
  · show Block.block (pool.pool o) = _
    rw [hpool, Function.update_self, block_init]
  · show Block.block (pool.pool o') = _
    rw [hpool, Function.update_of_ne hne]
    rfl

theorem returns_forkBlock {prevBlock : Option PoolId} (h : Returns (forkBlock prevBlock o) s o' s') : ∃ b n,
    (s.block o).blockId = some b ∧ s.refcounter.get? b = some n ∧ n ≠ 0 ∧
      Returns (initBlock prevBlock (s.block o).tokenIds (some b) (Block.extraHash (s.blockPool.pool o)))
        { s with refcounter := s.refcounter.set b (n + 1) } o' s' := by
  simp only [forkBlock, returns_bind, returns_get, returns_set, returns_fromExcept, ofOption_eq_ok] at h
  obtain ⟨s₀, s₁, ⟨rfl, rfl⟩, b, s₂, ⟨hb, rfl⟩, ⟨n, r⟩, s₃, ⟨hincr, rfl⟩, -, s₄, rfl, u, s₅, ⟨hassert, rfl⟩, h⟩ := h
  obtain ⟨m, hm, rfl, rfl⟩ := RefCounter.incr_eq_ok.mp hincr
  exact ⟨b, m, hb, hm, fun hz => assert_eq_ok.mp hassert (by rw [hz]), h⟩

end NaiveBlockAllocator

/-- An append that returned: the tokens were added first, and a copy made after that. -/
theorem NaiveBlock.returns_appendTokenIds {B σ : Type} [Block B] {base : σ → NaiveBlockAllocator B}
    {setBase : σ → NaiveBlockAllocator B → σ} {cow : PoolId → StateE σ BlockId} {o : PoolId}
    {tokenIds : List TokenId} {s s' : σ} {u : PUnit}
    (h : Returns (NaiveBlock.appendTokenIds base setBase cow o tokenIds) s u s') : ∃ block,
    block = { (base s).block o with tokenIds := ((base s).block o).tokenIds ++ tokenIds } ∧
    (tokenIds ≠ [] → tokenIds.length ≤ (base s).blockPool.blockSize - ((base s).block o).tokenIds.length) ∧
    (block.blockId = none ∧ s' = setBase s ((base s).setBlock o block) ∨
      block.blockId ≠ none ∧ ∃ b s₁, Returns (cow o) (setBase s ((base s).setBlock o block)) b s₁ ∧
        s' = setBase s₁ ((base s₁).setBlockId o (some b))) := by
  simp only [NaiveBlock.appendTokenIds, returns_bind, returns_get, returns_set, returns_fromExcept] at h
  obtain ⟨s₀, s₁, ⟨rfl, rfl⟩, block, s₂, ⟨hblock, rfl⟩, -, s₃, rfl, h⟩ := h
  obtain ⟨hblock', hlen⟩ := NaiveBlock.appendTokenIdsNoCow_eq_ok hblock
  refine ⟨block, hblock', hlen, ?_⟩
  split_ifs at h with hnone
  · exact Or.inl ⟨hnone, (returns_pure.mp h).2⟩
  · obtain ⟨b, s₄, hcow, hset⟩ := returns_bind.mp h
    exact Or.inr ⟨hnone, b, s₄, hcow, returns_modify.mp hset⟩

end SpaceServe
