import SpaceServe.Lib.Dict
import SpaceServe.Lib.LinkedList
import SpaceServe.KVCache.Hash

/-!
# The KV-cache manager

`KVCacheManager` of `vllm/v1/core/kv_cache_manager.py` with the block pool and the free queue of
`vllm/v1/core/kv_cache_utils.py`.

Blocks are named by their ids. The constants of the manager are `KVCacheParams`; what changes
(reference counts and hashes of the pool, the linked free queue with its separate counter, the
map of cached blocks, the block lists of the requests) is `KVCacheManager`. A method that writes
to the request it is given returns the request as well.

* `FreeKVCacheBlockQueue`: `popleft`, `remove`, `append`, `getAllFreeBlocks`;
* `getComputedBlocks`, `allocateSlots`, `free`, `resetPrefixCache`, `getNumCommonPrefixBlocks`.
-/

set_option autoImplicit false

namespace SpaceServe

open Py LinkedList

/-- The constants of a `KVCacheManager`, with the interpreter's `hash`. -/
structure KVCacheParams where
  blockSize : ℕ
  numGpuBlocks : ℕ
  maxModelLen : ℕ
  enableCaching : Bool
  numPreallocateTokens : ℕ := 64
  hash : HashInput → ℤ
  blockSize_pos : 0 < blockSize
  /-- Asserted by the scheduler that creates the manager. -/
  numGpuBlocks_pos : 0 < numGpuBlocks

namespace KVCacheParams

/-- `max_num_blocks_per_req`. -/
def maxNumBlocksPerReq (p : KVCacheParams) : ℕ := cdiv p.maxModelLen p.blockSize

/-- `num_preallocate_blocks`. -/
def numPreallocateBlocks (p : KVCacheParams) : ℕ := cdiv p.numPreallocateTokens p.blockSize

end KVCacheParams

/-- `KVCacheBlock`, without the links, which belong to the queue. -/
structure KVCacheBlock where
  refCnt : ℤ
  blockHash : Option BlockHashType
deriving DecidableEq

/-! ## The free queue -/

/-- `FreeKVCacheBlockQueue`: the links of the blocks and the counter kept beside them. -/
structure FreeKVCacheBlockQueue where
  links : Links ℕ
  numFreeBlocks : ℤ

namespace FreeKVCacheBlockQueue

/-- The queue of the blocks `0 .. n-1` in order. -/
def init (n : ℕ) : FreeKVCacheBlockQueue where
  links :=
    { head := if 0 < n then some 0 else none
      tail := if 0 < n then some (n - 1) else none
      prev := fun i => if 0 < i ∧ i < n then some (i - 1) else none
      next := fun i => if i + 1 < n then some (i + 1) else none }
  numFreeBlocks := n

/-- `remove`. -/
def remove (q : FreeKVCacheBlockQueue) (b : ℕ) : FreeKVCacheBlockQueue :=
  { links := q.links.unlink b, numFreeBlocks := q.numFreeBlocks - 1 }

/-- `popleft`. -/
def popleft (q : FreeKVCacheBlockQueue) : Except Exn (ℕ × FreeKVCacheBlockQueue) :=
  match q.links.head with
  | none => .error (.valueError "No free blocks available")
  | some b => .ok (b, q.remove b)

/-- `append`. -/
def append (q : FreeKVCacheBlockQueue) (b : ℕ) : Except Exn FreeKVCacheBlockQueue := do
  assert (q.links.tail = none → q.links.head = none) ""
  .ok { links := q.links.linkLast b, numFreeBlocks := q.numFreeBlocks + 1 }

/-- `get_all_free_blocks`: follow `next_free_block` from the head, for at most `fuel` blocks. -/
def getAllFreeBlocks (q : FreeKVCacheBlockQueue) (fuel : ℕ) : Option (List ℕ) :=
  q.links.walk fuel q.links.head

end FreeKVCacheBlockQueue

/-! ## The manager -/

/-- The state of a `KVCacheManager`. -/
structure KVCacheManager where
  blocks : ℕ → KVCacheBlock
  freeBlockQueue : FreeKVCacheBlockQueue
  cachedBlockHashToBlock : Dict BlockHashType (Dict ℕ ℕ)
  reqToBlocks : Dict ReqId (List ℕ)

namespace KVCacheManager

variable (p : KVCacheParams)

/-- `KVCacheManager.__init__`. -/
def init : KVCacheManager where
  blocks := fun _ => { refCnt := 0, blockHash := none }
  freeBlockQueue := .init p.numGpuBlocks
  cachedBlockHashToBlock := .empty
  reqToBlocks := .empty

variable (kv : KVCacheManager)

/-- `incr_ref` and `decr_ref`, by `d`. -/
def addRef (b : ℕ) (d : ℤ) : KVCacheManager :=
  { kv with
    blocks := Function.update kv.blocks b ⟨(kv.blocks b).refCnt + d, (kv.blocks b).blockHash⟩ }

/-- Write the hash of a block. -/
def putHash (b : ℕ) (h : Option BlockHashType) : KVCacheManager :=
  { kv with blocks := Function.update kv.blocks b ⟨(kv.blocks b).refCnt, h⟩ }

/-- The blocks of a request, `req_to_blocks[request_id]`. -/
def blocksOf (id : ReqId) : List ℕ := (kv.reqToBlocks.get? id).getD []

/-- Write the block list of a request. -/
def setBlocks (id : ReqId) (bs : List ℕ) : KVCacheManager :=
  { kv with reqToBlocks := kv.reqToBlocks.set id bs }

/-- `_get_cached_block`: the first block cached under a hash. -/
def getCachedBlock (h : BlockHashType) : Except Exn (Option ℕ) :=
  match kv.cachedBlockHashToBlock.get? h with
  | none => .ok none
  | some m => do
    let first ← ofOption (.indexError "list index out of range") m.keys.head?
    let b ← ofOption .keyError (m.get? first)
    .ok (some b)

/-- The loop of `get_computed_blocks`: the cached blocks up to the first miss. -/
def computedLoop : List BlockHashType → List ℕ → Except Exn (List ℕ)
  | [], computed => .ok computed
  | h :: rest, computed => do
    match ← kv.getCachedBlock h with
    | some b => computedLoop rest (computed ++ [b])
    | none => .ok computed

/-- The block hashes of a request are computed when it has none yet. -/
def ensureKvBlockHashes (request : Request) : Except Exn Request :=
  if request.kvBlockHashes = [] then do
    let hashes ← hashRequestTokens p.hash p.blockSize request
    .ok (request.setKvBlockHashes hashes)
  else .ok request

/-- `get_computed_blocks`: the blocks, the number of computed tokens, and the request with its
block hashes set. -/
def getComputedBlocks (request : Request) : Except Exn (List ℕ × ℕ × Request) :=
  if p.enableCaching = false then .ok ([], 0, request)
  else do
    let request ← ensureKvBlockHashes p request
    let computed ← kv.computedLoop request.kvBlockHashes []
    .ok (computed, computed.length * p.blockSize, request)

/-- `_touch` of one block. -/
def touchOne (b : ℕ) : KVCacheManager :=
  if (kv.blocks b).refCnt = 0 then
    { kv with freeBlockQueue := kv.freeBlockQueue.remove b }.addRef b 1
  else kv.addRef b 1

/-- `_touch`. -/
def touch (bs : List ℕ) : KVCacheManager := bs.foldl touchOne kv

/-- `_maybe_evict_cached_block`. -/
def maybeEvictCachedBlock (b : ℕ) : Except Exn KVCacheManager :=
  match (kv.blocks b).blockHash with
  | none => .ok kv
  | some h =>
    match kv.cachedBlockHashToBlock.get? h with
    | none => .ok kv
    | some m =>
      if m.contains b = false then .error .keyError
      else if (m.pop b).entries = [] then
        .ok { kv.putHash b none with
          cachedBlockHashToBlock := kv.cachedBlockHashToBlock.pop h }
      else
        .ok { kv.putHash b none with
          cachedBlockHashToBlock := kv.cachedBlockHashToBlock.set h (m.pop b) }

/-- One round of the loop of `_get_new_blocks`. -/
def getNewBlock : Except Exn (ℕ × KVCacheManager) := do
  let (b, q) ← kv.freeBlockQueue.popleft
  assert ((kv.blocks b).refCnt = 0) ""
  let kv' : KVCacheManager := { kv with freeBlockQueue := q }
  let kv' ← (if p.enableCaching = true then kv'.maybeEvictCachedBlock b else .ok kv')
  .ok (b, kv'.addRef b 1)

/-- The loop of `_get_new_blocks`. -/
def getNewBlocksLoop : ℕ → KVCacheManager → List ℕ →
    Except Exn (List ℕ × KVCacheManager)
  | 0, kv, ret => .ok (ret, kv)
  | n + 1, kv, ret => do
    let (b, kv) ← kv.getNewBlock p
    getNewBlocksLoop n kv (ret ++ [b])

/-- `_get_new_blocks`. -/
def getNewBlocks (numBlocks : ℤ) : Except Exn (List ℕ × KVCacheManager) :=
  if kv.freeBlockQueue.numFreeBlocks < numBlocks then
    .error (.valueError ("Cannot get " ++ toString numBlocks ++ " free blocks from the pool"))
  else getNewBlocksLoop p numBlocks.toNat kv []

/-- The first loop of `_cache_full_blocks`: the hash value of the last block that carries a hash
and the number of blocks before the first one that does not. -/
def skipCached : List ℕ → Option ℤ → ℕ → Option ℤ × ℕ
  | [], prev, offset => (prev, offset)
  | b :: rest, prev, offset =>
    match (kv.blocks b).blockHash with
    | none => (prev, offset)
    | some h => skipCached rest (some h.hashValue) (offset + 1)

/-- The hash of block `blkIdx` of a request, as `_cache_full_blocks` computes it. -/
def newBlockHash (request : Request) (blkIdx : ℕ) (prev : Option ℤ) :
    Except Exn BlockHashType := do
  let startTokenIdx := blkIdx * p.blockSize
  let endTokenIdx := (blkIdx + 1) * p.blockSize
  let blockTokens := slice request.allTokenIds startTokenIdx endTokenIdx
  assert (blockTokens.length = p.blockSize)
    ("Expected " ++ toString p.blockSize ++ " tokens, got " ++ toString blockTokens.length ++
      " at " ++ toString blkIdx ++ "th block for request " ++ request.requestId)
  let (extraKeys, _) ← generateBlockHashExtraKeys request startTokenIdx endTokenIdx (-1)
  .ok (hashBlockTokens p.hash prev blockTokens extraKeys)

/-- The hash to attach to block `blkIdx`: the one the request has, else a new one, which the
request then keeps. -/
def blockHashAt (numCachedBlockHashes : ℕ) (request : Request) (blkIdx : ℕ) (prev : Option ℤ) :
    Except Exn (BlockHashType × Request) :=
  if blkIdx < numCachedBlockHashes then do
    let h ← ofOption (.indexError "list index out of range") request.kvBlockHashes[blkIdx]?
    .ok (h, request)
  else do
    let h ← newBlockHash p request blkIdx prev
    .ok (h, request.appendKvBlockHashes h)

/-- Attach a hash to a block and file the block under it. -/
def cacheBlock (b : ℕ) (h : BlockHashType) : KVCacheManager :=
  { kv.putHash b (some h) with
    cachedBlockHashToBlock := kv.cachedBlockHashToBlock.set h
      (((kv.cachedBlockHashToBlock.get? h).getD .empty).set b b) }

/-- The second loop of `_cache_full_blocks`, from block index `blkIdx` on. An assertion of
`_cache_full_blocks` that has no message is named by its text. -/
def cacheLoop (numCachedBlockHashes : ℕ) : List ℕ → ℕ → Option ℤ → KVCacheManager →
    Request → Except Exn (KVCacheManager × Request)
  | [], _, _, kv, request => .ok (kv, request)
  | b :: rest, blkIdx, prev, kv, request => do
    assert ((kv.blocks b).blockHash = none) "blk.block_hash is None"
    let (h, request) ← blockHashAt p numCachedBlockHashes request blkIdx prev
    -- the setter of `block_hash`
    assert ((kv.blocks b).blockHash = none) "The block already has a hash. This should not happen."
    cacheLoop numCachedBlockHashes rest (blkIdx + 1) (some h.hashValue) (kv.cacheBlock b h) request

/-- The hash value of the block before the new full blocks. -/
def prevHashValue (prevBlock : Option ℕ) : Except Exn (Option ℤ) :=
  match prevBlock with
  | none => .ok none
  | some b =>
    match (kv.blocks b).blockHash with
    | none => .error (.assertionError "prev_block.block_hash is not None")
    | some h => .ok (some h.hashValue)

/-- `_cache_full_blocks`. -/
def cacheFullBlocks (request : Request) (blkStartIdx : ℕ) (fullBlocks : List ℕ)
    (prevBlock : Option ℕ) : Except Exn (KVCacheManager × Request) := do
  let numCachedBlockHashes := request.kvBlockHashes.length
  let prev ← kv.prevHashValue prevBlock
  let (prev, offset) := kv.skipCached fullBlocks prev 0
  if offset = fullBlocks.length then .ok (kv, request)
  else
    cacheLoop p numCachedBlockHashes (fullBlocks.drop offset) (blkStartIdx + offset) prev kv request

/-- The part of `allocate_slots` that takes the new blocks: nothing if none is missing, else the
missing ones and some in advance. -/
def takeNewBlocks (numNewBlocks : ℤ) (numReqBlocks : ℕ) :
    Except Exn (List ℕ × KVCacheManager) :=
  if numNewBlocks ≤ 0 then .ok ([], kv)
  else do
    let numNewBlocks := min (min (numNewBlocks + p.numPreallocateBlocks)
      kv.freeBlockQueue.numFreeBlocks) ((p.maxNumBlocksPerReq : ℤ) - numReqBlocks)
    assert (0 < numNewBlocks) ""
    kv.getNewBlocks p numNewBlocks

/-- The part of `allocate_slots` that hashes and caches the blocks that will be full. -/
def cacheNewFullBlocks (request : Request) (numComputedTokens numTokens : ℕ) :
    Except Exn (KVCacheManager × Request) :=
  let reqBlocks := kv.blocksOf request.requestId
  let numFullBlocks := (numComputedTokens + numTokens) / p.blockSize
  let numComputedFullBlocks := numComputedTokens / p.blockSize
  let newFullBlocks := slice reqBlocks numComputedFullBlocks numFullBlocks
  if newFullBlocks = [] then .ok (kv, request)
  else do
    let prevBlock ← (if 0 < numComputedFullBlocks then
        (ofOption (.indexError "list index out of range")
          reqBlocks[numComputedFullBlocks - 1]?).map some
      else .ok none)
    kv.cacheFullBlocks p request numComputedFullBlocks newFullBlocks prevBlock

/-- The number of blocks `allocate_slots` is missing for `numTokens` more tokens. -/
def numMissingBlocks (request : Request) (numTokens : ℕ) (newComputedBlocks : List ℕ) : ℤ :=
  let numComputedTokens := request.numComputedTokens + newComputedBlocks.length * p.blockSize
  (cdiv (numComputedTokens + numTokens) p.blockSize : ℤ) -
    (kv.blocksOf request.requestId).length - newComputedBlocks.length

/-- The computed blocks that are eviction candidates. -/
def numEvictable (newComputedBlocks : List ℕ) : ℕ :=
  newComputedBlocks.countP fun b => decide ((kv.blocks b).refCnt = 0)

/-- `allocate_slots`: the new blocks, or `none` if there are too few free ones. Reading the
block list of a request that has none creates it. -/
def allocateSlots (request : Request) (numTokens : ℕ) (newComputedBlocks : List ℕ) :
    Except Exn (Option (List ℕ) × KVCacheManager × Request) :=
  if numTokens = 0 then .error (.valueError "num_tokens must be greater than 0")
  else
    let numComputedTokens := request.numComputedTokens + newComputedBlocks.length * p.blockSize
    let reqBlocks := kv.blocksOf request.requestId
    let numNewBlocks := kv.numMissingBlocks p request numTokens newComputedBlocks
    if kv.freeBlockQueue.numFreeBlocks - kv.numEvictable newComputedBlocks < numNewBlocks then
      .ok (none, kv.setBlocks request.requestId reqBlocks, request)
    else do
      assert (p.enableCaching = false → newComputedBlocks = [])
        "Computed blocks should be empty when prefix caching is disabled"
      let kv := if p.enableCaching = true then kv.touch newComputedBlocks else kv
      let (newBlocks, kv) ← kv.takeNewBlocks p numNewBlocks
        (reqBlocks ++ newComputedBlocks).length
      let kv := kv.setBlocks request.requestId (reqBlocks ++ newComputedBlocks ++ newBlocks)
      if p.enableCaching = false then .ok (some newBlocks, kv, request)
      else do
        let (kv, request) ← kv.cacheNewFullBlocks p request numComputedTokens numTokens
        .ok (some newBlocks, kv, request)

/-- `free` of one block. -/
def releaseOne (b : ℕ) : Except Exn KVCacheManager :=
  let kv := kv.addRef b (-1)
  if (kv.blocks b).refCnt = 0 then do
    let q ← kv.freeBlockQueue.append b
    .ok { kv with freeBlockQueue := q }
  else .ok kv

/-- `free`. -/
def free (request : Request) : Except Exn KVCacheManager :=
  let blocks := kv.blocksOf request.requestId
  let ordered := if p.enableCaching = true then blocks.reverse else blocks
  ordered.foldlM releaseOne { kv with reqToBlocks := kv.reqToBlocks.pop request.requestId }

/-- `reset_prefix_cache`. -/
def resetPrefixCache : Bool × KVCacheManager :=
  if 0 < (p.numGpuBlocks : ℤ) - kv.freeBlockQueue.numFreeBlocks then (false, kv)
  else
    (true, { kv with
      cachedBlockHashToBlock := .empty
      blocks := fun b => { kv.blocks b with blockHash := none } })

/-- `get_num_common_prefix_blocks`. -/
def getNumCommonPrefixBlocks (request : Request) (numRunningRequests : ℕ) :
    Except Exn (ℕ × KVCacheManager) := do
  assert (request.status = .running) ""
  let blocks := kv.blocksOf request.requestId
  .ok ((blocks.takeWhile fun b => decide ((kv.blocks b).refCnt = numRunningRequests)).length,
    kv.setBlocks request.requestId blocks)

end KVCacheManager

end SpaceServe
