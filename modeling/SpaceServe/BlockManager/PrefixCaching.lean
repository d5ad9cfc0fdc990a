import SpaceServe.BlockManager.BlockTable

/-!
# The allocator with a prefix cache

`PrefixCachingBlockAllocator` and `PrefixCachingBlock` of `vllm/core/block/prefix_caching_block.py`. A full block has
a content hash, which takes in the hash of the block before it. Its id is found under that hash as long as nothing
else was written to it: also after the last block with the id was freed, when the evictor has it.

* `PrefixHasher`, `PrefixCachingBlock`, `BlockTracker`, `PrefixCachingBlockAllocator`: the model;
* `contentHash`: the hash of a block, computed when it is asked for and kept;
* `allocateBlockId`, `freeBlockId`, `promoteToImmutableBlock`, `cowBlockIfNotAppendable`, `appendTokenIds`,
  `allocateImmutableBlock`: its functions;
* `prefixAllocator`: the allocator as a table sees it.
-/

set_option autoImplicit false

namespace SpaceServe

open Py

/-- `hash` of `'None'`, and of the tuples that `hash_block_tokens` makes. -/
structure PrefixHasher where
  noneHash : ℤ
  hash : Bool → Option ℤ → List TokenId → Option ℤ → ℤ

/-- `hash_block_tokens`. -/
def PrefixHasher.hashBlockTokens (P : PrefixHasher) (isFirstBlock : Bool) (prevBlockHash : Option ℤ)
    (curBlockTokenIds : List TokenId) (extraHash : Option ℤ) : ℤ :=
  let prevBlockHash := if isFirstBlock ∧ prevBlockHash = none then some P.noneHash else prevBlockHash
  P.hash isFirstBlock prevBlockHash curBlockTokenIds extraHash

/-- `PrefixCachingBlock`, around a `NaiveBlock`. -/
structure PrefixCachingBlock where
  block : NaiveBlock
  cachedContentHash : Option ℤ
  cachedNumTokensTotal : ℕ
  computed : Bool
  extraHash : Option ℤ
deriving DecidableEq

/-- `_update_num_tokens_total`, for a block with these tokens behind `prevBlock`. -/
def numTokensTotal (pool : PoolId → PrefixCachingBlock) (prevBlock : Option PoolId) (tokenIds : List TokenId) : ℕ :=
  (match prevBlock with
    | none => 0
    | some prev => (pool prev).cachedNumTokensTotal) + tokenIds.length

instance : Block PrefixCachingBlock where
  block x := x.block
  setBlock x block := { x with block }
  extraHash x := x.extraHash
  init pool block extraHash :=
    { block, cachedContentHash := none, computed := false, extraHash
      cachedNumTokensTotal := numTokensTotal pool block.prevBlock block.tokenIds }
  block_setBlock _ _ := rfl
  block_init _ _ _ := rfl

/-- The objects of a new pool. -/
def PrefixCachingBlock.new : PrefixCachingBlock := ⟨⟨none, [], none⟩, none, 0, false, none⟩

/-- `BlockTracker`. -/
structure BlockTracker where
  active : Bool
  lastAccessed : ℚ
  computed : Bool
deriving DecidableEq

namespace BlockTracker

/-- `__init__`. The time of a block that was not accessed yet is `-1`. -/
def init : BlockTracker := ⟨false, -1, false⟩

/-- `enable`. -/
def enable (t : BlockTracker) : Except Exn BlockTracker := do
  assert (t.active = false) ""
  .ok ⟨true, -1, false⟩

/-- `disable`. -/
def disable (t : BlockTracker) : Except Exn BlockTracker := do
  assert (t.active = true) ""
  .ok ⟨false, -1, false⟩

end BlockTracker

/-- `PrefixCachingBlockAllocator`. Both allocators have one pool and one table of counts. -/
structure PrefixCachingBlockAllocator where
  hashless : NaiveBlockAllocator PrefixCachingBlock
  cachedBlocks : Dict ℤ BlockId
  touchedBlocks : List BlockId
  blockTracker : Dict BlockId BlockTracker
  evictor : LRUEvictor
  copyOnWrites : List (BlockId × BlockId)

namespace PrefixCachingBlockAllocator

/-- `__init__`, for as many blocks as there are ids. -/
def init (blockSize : ℕ) (blockIds : List BlockId) : Except Exn PrefixCachingBlockAllocator := do
  let hashless ← NaiveBlockAllocator.init PrefixCachingBlock.new blockSize blockIds
  .ok {
    hashless
    cachedBlocks := .empty
    touchedBlocks := []
    blockTracker := .ofPairs (blockIds.map (·, .init))
    evictor := .init
    copyOnWrites := [] }

/-- A block object. -/
def pool (s : PrefixCachingBlockAllocator) (o : PoolId) : PrefixCachingBlock := s.hashless.blockPool.pool o

/-- The block inside it. -/
def block (s : PrefixCachingBlockAllocator) (o : PoolId) : NaiveBlock := s.hashless.block o

/-- A write to a block object. -/
def update (s : PrefixCachingBlockAllocator) (o : PoolId) (x : PrefixCachingBlock) : PrefixCachingBlockAllocator :=
  { s with hashless := { s.hashless with blockPool := s.hashless.blockPool.update o x } }

/-- A program of the hashless allocator. -/
def onHashless {α : Type} (x : StateE (NaiveBlockAllocator PrefixCachingBlock) α) :
    StateE PrefixCachingBlockAllocator α :=
  .zoom (·.hashless) (fun s hashless => { s with hashless }) x

/-- The `block_id` of a block, asserted not to be `None`. -/
def blockIdOf (o : PoolId) : StateE PrefixCachingBlockAllocator BlockId := do
  let s ← get
  .fromExcept (ofOption (.assertionError "") (s.block o).blockId)

/-- The setter of `block_id`. -/
def setBlockId (o : PoolId) (blockId : Option BlockId) : StateE PrefixCachingBlockAllocator PUnit :=
  modify fun s => { s with hashless := s.hashless.setBlockId o blockId }

/-- `_refcounter.incr`. -/
def incrRefcount (blockId : BlockId) : StateE PrefixCachingBlockAllocator ℕ := .fromState fun s => do
  let (refcount, refcounter) ← s.hashless.refcounter.incr blockId
  .ok (refcount, { s with hashless := { s.hashless with refcounter } })

/-- `_refcounter.decr`. -/
def decrRefcount (blockId : BlockId) : StateE PrefixCachingBlockAllocator ℕ := .fromState fun s => do
  let (refcount, refcounter) ← s.hashless.refcounter.decr blockId
  .ok (refcount, { s with hashless := { s.hashless with refcounter } })

/-- `_refcounter.get`. -/
def getRefcount (blockId : BlockId) : StateE PrefixCachingBlockAllocator ℕ := do
  let s ← get
  .fromExcept (s.hashless.refcounter.get blockId)

/-- `_track_block_id`. -/
def trackBlockId (blockId : BlockId) (computed : Bool) : StateE PrefixCachingBlockAllocator Unit := .fromState fun s => do
  let tracker ← ofOption .keyError (s.blockTracker.get? blockId)
  let tracker ← tracker.enable
  .ok ((), { s with blockTracker := s.blockTracker.set blockId { tracker with computed } })

/-- `_untrack_block_id`. -/
def untrackBlockId (blockId : BlockId) : StateE PrefixCachingBlockAllocator Unit := .fromState fun s => do
  let tracker ← ofOption .keyError (s.blockTracker.get? blockId)
  let tracker ← tracker.disable
  .ok ((), { s with blockTracker := s.blockTracker.set blockId tracker })

/-! ## Content hashes -/

section Hash

variable (P : PrefixHasher)

/-- `content_hash`. The hash is kept; the block before is asked for its own, which fails to give one if that is the
hash of `'None'`. No chain of blocks is longer than the pool. -/
def contentHash : ℕ → PoolId → StateE PrefixCachingBlockAllocator (Option ℤ)
  | 0, _ => throw .diverges
  | fuel + 1, o => do
    let s ← get
    let x := s.pool o
    if x.cachedContentHash ≠ none then pure x.cachedContentHash
    else if ¬ x.block.isFull s.hashless.blockPool.blockSize then pure none
    else
      let prevBlockHash ← (match x.block.prevBlock with
        | none => pure (some P.noneHash)
        | some prev => contentHash fuel prev : StateE PrefixCachingBlockAllocator (Option ℤ))
      if prevBlockHash = some P.noneHash ∧ x.block.prevBlock ≠ none then pure none
      else
        let cachedContentHash :=
          some (P.hashBlockTokens (x.block.prevBlock = none) prevBlockHash x.block.tokenIds x.extraHash)
        modify fun s => s.update o { s.pool o with cachedContentHash }
        pure cachedContentHash

/-- `content_hash`. -/
def contentHashOf (o : PoolId) : StateE PrefixCachingBlockAllocator (Option ℤ) := do
  let s ← get
  contentHash P s.hashless.blockPool.poolSize o

/-! ## Ids -/

/-- `_incr_refcount_cached_block`. -/
def incrRefcountCachedBlock (o : PoolId) : StateE PrefixCachingBlockAllocator PUnit := do
  modify fun s => s.update o { s.pool o with computed := true }
  let blockId ← blockIdOf o
  let refcount ← incrRefcount blockId
  if refcount = 1 then
    let s ← get
    -- a cached block that the evictor has is restored
    if s.evictor.contains blockId then
      let evictor ← .fromExcept (s.evictor.remove blockId)
      set { s with evictor }
    trackBlockId blockId true

/-- `_decr_refcount_cached_block`. -/
def decrRefcountCachedBlock (o : PoolId) : StateE PrefixCachingBlockAllocator PUnit := do
  let contentHash ← contentHashOf P o
  let contentHash ← .fromExcept (ofOption (.assertionError "") contentHash)
  let blockId ← blockIdOf o
  let refcount ← decrRefcount blockId
  if 0 < refcount then setBlockId o none
  else
    let s ← get
    .fromExcept (assert (s.cachedBlocks.contains contentHash) "")
    let tracker ← .fromExcept (ofOption .keyError (s.blockTracker.get? blockId))
    set { s with
      evictor := s.evictor.add blockId contentHash (s.pool o).cachedNumTokensTotal tracker.lastAccessed }
    untrackBlockId blockId
    setBlockId o none

/-- `_decr_refcount_hashless_block`, for a block or for the block inside one. -/
def decrRefcountHashlessBlock (o : PoolId) : StateE PrefixCachingBlockAllocator PUnit := do
  let blockId ← blockIdOf o
  let refcount ← getRefcount blockId
  if refcount = 1 then untrackBlockId blockId
  onHashless (NaiveBlockAllocator.free o true)

/-- `_maybe_allocate_hashless_block_id`. -/
def maybeAllocateHashlessBlockId : StateE PrefixCachingBlockAllocator (Option BlockId) :=
  tryCatch
    (do
      let o ← onHashless (NaiveBlockAllocator.allocateMutableBlock none)
      let s ← get
      onHashless (NaiveBlockAllocator.freeBlock o)
      let blockId ← .fromExcept (ofOption (.assertionError "") (s.block o).blockId)
      trackBlockId blockId false
      pure (some blockId))
    fun e => if e = noFreeBlocksError then pure none else throw e

/-- `_maybe_allocate_evicted_block_id`. -/
def maybeAllocateEvictedBlockId : StateE PrefixCachingBlockAllocator (Option BlockId) := do
  let s ← get
  if s.evictor.numBlocks = 0 then pure none
  else
    let ((blockId, contentHashToEvict), evictor) ← .fromExcept s.evictor.evict
    set { s with evictor }
    let cachedId ← .fromExcept (ofOption (.assertionError "") (s.cachedBlocks.get? contentHashToEvict))
    let refcount ← getRefcount cachedId
    .fromExcept (assert (refcount = 0) "")
    .fromExcept (assert (cachedId = blockId) "")
    modify fun s => { s with cachedBlocks := s.cachedBlocks.pop contentHashToEvict }
    let _ ← incrRefcount blockId
    trackBlockId blockId false
    pure (some blockId)

/-- `_allocate_block_id`. -/
def allocateBlockId : StateE PrefixCachingBlockAllocator BlockId := do
  match ← maybeAllocateHashlessBlockId with
  | some hashlessBlockId => pure hashlessBlockId
  | none =>
    match ← maybeAllocateEvictedBlockId with
    | some evictedBlockId => pure evictedBlockId
    | none => throw noFreeBlocksError

/-- `_free_block_id`. -/
def freeBlockId (o : PoolId) : StateE PrefixCachingBlockAllocator PUnit := do
  let _ ← blockIdOf o
  let contentHash ← contentHashOf P o
  if contentHash ≠ none then decrRefcountCachedBlock P o else decrRefcountHashlessBlock o
  let s ← get
  .fromExcept (assert ((s.block o).blockId = none) "")

/-- `free`. -/
def free (o : PoolId) (keepBlockObject : Bool) : StateE PrefixCachingBlockAllocator PUnit := do
  freeBlockId P o
  if keepBlockObject then pure ⟨⟩ else onHashless (NaiveBlockAllocator.freeBlock o)

/-- `promote_to_immutable_block`. -/
def promoteToImmutableBlock (o : PoolId) : StateE PrefixCachingBlockAllocator BlockId := do
  let contentHash ← contentHashOf P o
  let contentHash ← .fromExcept (ofOption (.assertionError "") contentHash)
  let blockId ← blockIdOf o
  let refcount ← getRefcount blockId
  .fromExcept (assert (0 < refcount) "")
  let s ← get
  match s.cachedBlocks.get? contentHash with
  | none =>
    set { s with
      cachedBlocks := s.cachedBlocks.set contentHash blockId
      touchedBlocks := s.touchedBlocks.insert blockId }
    pure blockId
  | some cachedBlockId =>
    -- the block gets the id that is cached
    decrRefcountHashlessBlock o
    setBlockId o (some cachedBlockId)
    incrRefcountCachedBlock o
    pure cachedBlockId

/-- `cow_block_if_not_appendable`, called by the block inside: that one has no content hash, so its id is given back
as that of a mutable block. -/
def cowBlockIfNotAppendable (o : PoolId) : StateE PrefixCachingBlockAllocator BlockId := do
  let srcBlockId ← blockIdOf o
  let refcount ← getRefcount srcBlockId
  if refcount ≤ 1 then pure srcBlockId
  else
    decrRefcountHashlessBlock o
    let trgBlockId ← allocateBlockId
    modify fun s => { s with copyOnWrites := s.copyOnWrites ++ [(srcBlockId, trgBlockId)] }
    pure trgBlockId

/-- `append_token_ids` of a `PrefixCachingBlock`. -/
def appendTokenIds (o : PoolId) (tokenIds : List TokenId) : StateE PrefixCachingBlockAllocator PUnit := do
  let contentHash ← contentHashOf P o
  .fromExcept (assert (contentHash = none) "")
  let s ← get
  .fromExcept (assert ((s.pool o).computed = false) "")
  if tokenIds = [] then pure ⟨⟩
  else
    NaiveBlock.appendTokenIds (·.hashless) (fun s hashless => { s with hashless }) cowBlockIfNotAppendable o tokenIds
    modify fun s => s.update o { s.pool o with
      cachedNumTokensTotal := numTokensTotal s.pool (s.block o).prevBlock (s.block o).tokenIds }
    let contentHash ← contentHashOf P o
    if contentHash ≠ none then
      let blockId ← promoteToImmutableBlock P o
      setBlockId o (some blockId)

/-! ## Blocks -/

/-- `allocate_mutable_block`. -/
def allocateMutableBlock (prevBlock : Option PoolId) (extraHash : Option ℤ) :
    StateE PrefixCachingBlockAllocator PoolId := do
  let blockId ← allocateBlockId
  let o ← onHashless (NaiveBlockAllocator.initBlock prevBlock [] (some blockId) extraHash)
  let s ← get
  .fromExcept (assert ((s.pool o).computed = false) "")
  let contentHash ← contentHashOf P o
  .fromExcept (assert (contentHash = none) "")
  pure o

/-- `allocate_immutable_block`. -/
def allocateImmutableBlock (prevBlock : Option PoolId) (tokenIds : List TokenId) (extraHash : Option ℤ) :
    StateE PrefixCachingBlockAllocator PoolId := do
  let o ← onHashless (NaiveBlockAllocator.initBlock prevBlock tokenIds none extraHash)
  let contentHash ← contentHashOf P o
  let contentHash ← .fromExcept (ofOption (.assertionError "") contentHash)
  let s ← get
  match s.cachedBlocks.get? contentHash with
  | some cachedBlockId =>
    setBlockId o (some cachedBlockId)
    incrRefcountCachedBlock o
    pure o
  | none =>
    onHashless (NaiveBlockAllocator.freeBlock o)
    let o ← allocateMutableBlock P prevBlock extraHash
    appendTokenIds P o tokenIds
    pure o

/-- `allocate_immutable_blocks`. -/
def allocateImmutableBlocks (extraHash : Option ℤ) :
    Option PoolId → List (List TokenId) → StateE PrefixCachingBlockAllocator (List PoolId)
  | _, [] => pure []
  | prevBlock, tokenIds :: rest => do
    let o ← allocateImmutableBlock P prevBlock tokenIds extraHash
    let blocks ← allocateImmutableBlocks extraHash (some o) rest
    pure (o :: blocks)

/-- `fork`. Its text is that of the allocator without a cache. -/
def fork (lastBlock : PoolId) : StateE PrefixCachingBlockAllocator (List PoolId) :=
  onHashless (NaiveBlockAllocator.fork lastBlock)

/-- `get_num_free_blocks`. -/
def getNumFreeBlocks (s : PrefixCachingBlockAllocator) : ℕ := s.hashless.getNumFreeBlocks + s.evictor.numBlocks

end Hash

end PrefixCachingBlockAllocator

/-- A `PrefixCachingBlockAllocator` with its blocks. -/
def prefixAllocator (P : PrefixHasher) (blockSize : ℕ) (pos : 0 < blockSize) :
    Allocator PrefixCachingBlockAllocator where
  blockSize
  pos
  ownIds := False
  block s o := s.block o
  allocateImmutableBlocks prevBlock blockTokenIds extraHash :=
    PrefixCachingBlockAllocator.allocateImmutableBlocks P extraHash prevBlock blockTokenIds
  allocateMutableBlock := PrefixCachingBlockAllocator.allocateMutableBlock P
  appendTokenIds := PrefixCachingBlockAllocator.appendTokenIds P
  fork := PrefixCachingBlockAllocator.fork
  free o := PrefixCachingBlockAllocator.free P o false

end SpaceServe
