import Mathlib.Data.Finset.Card
import Mathlib.Data.Finset.Insert
import SpaceServe.BlockManager.Evictor
import SpaceServe.Lib.Stateful

/-!
# Blocks and their pool

The block objects of `vllm/core/block`, and what of `common.py` both allocators share. Objects come from a
pool and are used again after they were released; an object is known by its number in the pool.

* `RefCounter`, `NaiveBlock`, `Block`, `BlockPool`, `getAllBlocksRecursively`: the model;
* `BlockPool.Ok`: the objects in use are none of the free ones; **`BlockPool.Ok.initBlock`**,
  `BlockPool.Ok.freeBlock`.
-/

set_option autoImplicit false

namespace SpaceServe

open Py

/-- A dictionary with one value for all of its keys. -/
theorem get?_ofPairs_map {K V : Type} [DecidableEq K] (ks : List K) (v : V) {k : K} :
    (Dict.ofPairs (ks.map (·, v))).get? k = if k ∈ ks then some v else none := by
  have hofPairs : ∀ (l : List K) (d : Dict K V),
      ((l.map (·, v)).foldl (fun d p => d.set p.1 p.2) d).get? k = if k ∈ l then some v else d.get? k := by
    intro l
    induction l with
    | nil => exact fun d => rfl
    | cons k' l ih =>
      intro d
      rw [List.map_cons, List.foldl_cons, ih, Dict.get?_set]
      by_cases hk : k ∈ l
      · rw [if_pos hk, if_pos (List.mem_cons_of_mem _ hk)]
      · by_cases heq : k = k'
        · rw [if_neg hk, if_pos heq, if_pos (heq ▸ List.mem_cons_self)]
        · rw [if_neg hk, if_neg heq, if_neg (by simp [hk, heq])]
  exact hofPairs ks .empty

/-- Numbers of block objects in their pool. -/
abbrev PoolId := ℕ

/-- `RefCounter`. -/
abbrev RefCounter := Dict BlockId ℕ

namespace RefCounter

/-- `__init__`. -/
def init (allBlockIndices : List BlockId) : RefCounter := Dict.ofPairs (allBlockIndices.map (·, 0))

/-- `incr`. -/
def incr (r : RefCounter) (blockId : BlockId) : Except Exn (ℕ × RefCounter) := do
  let refcount ← ofOption (.assertionError "") (r.get? blockId)
  .ok (refcount + 1, r.set blockId (refcount + 1))

/-- `decr`. -/
def decr (r : RefCounter) (blockId : BlockId) : Except Exn (ℕ × RefCounter) := do
  let refcount ← ofOption (.assertionError "") (r.get? blockId)
  assert (0 < refcount) ""
  .ok (refcount - 1, r.set blockId (refcount - 1))

/-- `get`. -/
def get (r : RefCounter) (blockId : BlockId) : Except Exn ℕ :=
  ofOption (.assertionError "") (r.get? blockId)

variable {r r' : RefCounter} {b : BlockId} {n : ℕ}

theorem incr_eq_ok : r.incr b = .ok (n, r') ↔ ∃ m, r.get? b = some m ∧ n = m + 1 ∧ r' = r.set b (m + 1) := by
  simp only [incr, bind_eq_ok, ofOption_eq_ok, Except.ok.injEq, Prod.mk.injEq]
  exact exists_congr fun m => and_congr_right fun _ => and_congr eq_comm eq_comm

theorem decr_eq_ok : r.decr b = .ok (n, r') ↔ r.get? b = some (n + 1) ∧ r' = r.set b n := by
  simp only [decr, bind_eq_ok, ofOption_eq_ok, assert_eq_ok, Except.ok.injEq, Prod.mk.injEq]
  constructor
  · rintro ⟨m, hm, -, hpos, rfl, rfl⟩
    rw [Nat.sub_add_cancel hpos]
    exact ⟨hm, rfl⟩
  · rintro ⟨hm, rfl⟩
    exact ⟨n + 1, hm, (), Nat.succ_pos n, rfl, rfl⟩

theorem get?_init (ids : List BlockId) : (init ids).get? b = if b ∈ ids then some 0 else none :=
  get?_ofPairs_map ids 0

end RefCounter

/-! ## Block objects -/

/-- `NaiveBlock`. The block before it is known by its number; `_cow_target` is the block itself. -/
structure NaiveBlock where
  prevBlock : Option PoolId
  tokenIds : List TokenId
  blockId : Option BlockId
deriving DecidableEq

namespace NaiveBlock

/-- `num_empty_slots`. -/
def numEmptySlots (block : NaiveBlock) (blockSize : ℕ) : ℕ := blockSize - block.tokenIds.length

/-- `is_full`. -/
def isFull (block : NaiveBlock) (blockSize : ℕ) : Bool := block.numEmptySlots blockSize = 0

/-- `_append_token_ids_no_cow`. -/
def appendTokenIdsNoCow (block : NaiveBlock) (blockSize : ℕ) (tokenIds : List TokenId) :
    Except Exn NaiveBlock := do
  if tokenIds.length = 0 then .ok block
  else
    assert (tokenIds.length ≤ block.numEmptySlots blockSize) ""
    .ok { block with tokenIds := block.tokenIds ++ tokenIds }

/-- `__init__`. -/
def init (prevBlock : Option PoolId) (tokenIds : List TokenId) (blockSize : ℕ) (blockId : Option BlockId) :
    Except Exn NaiveBlock :=
  appendTokenIdsNoCow ⟨prevBlock, [], blockId⟩ blockSize tokenIds

theorem appendTokenIdsNoCow_eq_ok {block block' : NaiveBlock} {n : ℕ} {tokenIds : List TokenId}
    (h : block.appendTokenIdsNoCow n tokenIds = .ok block') :
    block' = { block with tokenIds := block.tokenIds ++ tokenIds } ∧
      (tokenIds ≠ [] → tokenIds.length ≤ n - block.tokenIds.length) := by
  unfold appendTokenIdsNoCow at h
  split_ifs at h with hnil
  · cases h
    rw [List.length_eq_zero_iff.mp hnil, List.append_nil]
    exact ⟨rfl, fun hne => absurd rfl hne⟩
  · obtain ⟨u, hassert, h⟩ := bind_eq_ok.mp h
    cases h
    exact ⟨rfl, fun _ => assert_eq_ok.mp hassert⟩

theorem init_eq_ok {block : NaiveBlock} {prevBlock : Option PoolId} {tokenIds : List TokenId} {n : ℕ}
    {blockId : Option BlockId} (h : init prevBlock tokenIds n blockId = .ok block) :
    block = ⟨prevBlock, tokenIds, blockId⟩ ∧ tokenIds.length ≤ n := by
  obtain ⟨rfl, hlen⟩ := appendTokenIdsNoCow_eq_ok h
  refine ⟨rfl, ?_⟩
  rcases eq_or_ne tokenIds [] with rfl | hne
  · exact Nat.zero_le n
  · exact hlen hne

/-- A block that its tokens do not fit into. -/
theorem raisesOnly_appendTokenIdsNoCow {block : NaiveBlock} {n : ℕ} {tokenIds : List TokenId} :
    RaisesOnly (· = .assertionError "") (block.appendTokenIdsNoCow n tokenIds) := by
  unfold appendTokenIdsNoCow
  split_ifs
  · exact RaisesOnly.ok _
  · refine RaisesOnly.bind (fun e he => ?_) fun _ _ => RaisesOnly.ok _
    unfold assert at he
    split_ifs at he
    cases he
    rfl

end NaiveBlock

/-- The objects of a pool: a `NaiveBlock`, or an object around one. Making an object may read those that it
is linked to. -/
class Block (B : Type) where
  block : B → NaiveBlock
  setBlock : B → NaiveBlock → B
  extraHash : B → Option ℤ
  init : (PoolId → B) → NaiveBlock → Option ℤ → B
  block_setBlock : ∀ (x : B) (block' : NaiveBlock), block (setBlock x block') = block'
  block_init : ∀ (pool : PoolId → B) (block' : NaiveBlock) (extraHash : Option ℤ),
    block (init pool block' extraHash) = block'

instance : Block NaiveBlock where
  block x := x
  setBlock _ block := block
  extraHash _ := none
  init _ block _ := block
  block_setBlock _ _ := rfl
  block_init _ _ _ := rfl

export Block (block_setBlock block_init)

/-! ## The pool -/

/-- `BlockPool`. -/
structure BlockPool (B : Type) where
  blockSize : ℕ
  poolSize : ℕ
  freeIds : List PoolId
  pool : PoolId → B

namespace BlockPool

variable {B : Type}

/-- `__init__`. -/
def init (create : B) (blockSize poolSize : ℕ) : BlockPool B :=
  ⟨blockSize, poolSize, List.range poolSize, fun _ => create⟩

/-- `increase_pool`. The new objects are as those of a new pool. -/
def increasePool (p : BlockPool B) : BlockPool B :=
  { p with
    poolSize := p.poolSize * 2
    freeIds := p.freeIds ++ List.range' p.poolSize p.poolSize }

/-- `init_block`. -/
def initBlock [Block B] (p : BlockPool B) (prevBlock : Option PoolId) (tokenIds : List TokenId)
    (physicalBlockId : Option BlockId) (extraHash : Option ℤ) : Except Exn (PoolId × BlockPool B) :=
  let p := if p.freeIds.length = 0 then p.increasePool else p
  match p.freeIds with
  | [] => .error (.assertionError "")
  | poolId :: freeIds => do
    let block ← NaiveBlock.init prevBlock tokenIds p.blockSize physicalBlockId
    .ok (poolId, { p with
      freeIds
      pool := Function.update p.pool poolId (Block.init p.pool block extraHash) })

/-- `free_block`. -/
def freeBlock (p : BlockPool B) (o : PoolId) : BlockPool B := { p with freeIds := o :: p.freeIds }

/-- A write to an object. -/
def update (p : BlockPool B) (o : PoolId) (x : B) : BlockPool B :=
  { p with pool := Function.update p.pool o x }

theorem update_update (p : BlockPool B) (o : PoolId) (x y : B) : (p.update o x).update o y = p.update o y :=
  congrArg (fun pool => { p with pool }) (Function.update_idem x y p.pool)

theorem update_self (p : BlockPool B) (o : PoolId) : p.update o (p.pool o) = p :=
  congrArg (fun pool => { p with pool }) (Function.update_eq_self o p.pool)

/-- The objects in use are none of the free ones. -/
structure Ok (p : BlockPool B) (used : Finset PoolId) : Prop where
  nodup : p.freeIds.Nodup
  free_lt : ∀ o : ℕ, o ∈ p.freeIds → o < p.poolSize
  used_lt : ∀ o : ℕ, o ∈ used → o < p.poolSize
  not_free : ∀ o ∈ used, o ∉ p.freeIds

variable {p p' : BlockPool B} {used : Finset PoolId} {o : PoolId}

theorem ok_init (create : B) (blockSize poolSize : ℕ) : (init create blockSize poolSize).Ok ∅ where
  nodup := List.nodup_range
  free_lt _ ho := List.mem_range.mp ho
  used_lt _ ho := absurd ho (Finset.notMem_empty _)
  not_free _ ho := absurd ho (Finset.notMem_empty _)

theorem Ok.increasePool (hp : p.Ok used) : p.increasePool.Ok used where
  nodup := by
    refine List.nodup_append.mpr ⟨hp.nodup, List.nodup_range', fun a ha b hb => ?_⟩
    have hlt := hp.free_lt a ha
    have hge := (List.mem_range'_1.mp hb).1
    exact Nat.ne_of_lt (Nat.lt_of_lt_of_le hlt hge)
  free_lt o ho := by
    show o < p.poolSize * 2
    rcases List.mem_append.mp ho with ho | ho
    · have hlt := hp.free_lt o ho
      omega
    · have hlt := (List.mem_range'_1.mp ho).2
      omega
  used_lt o ho := by
    show o < p.poolSize * 2
    have hlt := hp.used_lt o ho
    omega
  not_free o ho hfree := by
    rcases List.mem_append.mp hfree with hfree | hfree
    · exact hp.not_free o ho hfree
    · have hlt := hp.used_lt o ho
      have hge := (List.mem_range'_1.mp hfree).1
      omega

theorem Ok.update (hp : p.Ok used) (x : B) : (p.update o x).Ok used :=
  ⟨hp.nodup, hp.free_lt, hp.used_lt, hp.not_free⟩

/-- **A new object** is none of those in use. -/
theorem Ok.initBlock [Block B] (hp : p.Ok used) {prevBlock : Option PoolId} {tokenIds : List TokenId}
    {physicalBlockId : Option BlockId} {extraHash : Option ℤ}
    (h : p.initBlock prevBlock tokenIds physicalBlockId extraHash = .ok (o, p')) :
    o ∉ used ∧ p'.Ok (insert o used) ∧ p'.blockSize = p.blockSize ∧ tokenIds.length ≤ p.blockSize ∧
      p'.pool = Function.update p.pool o
        (Block.init p.pool ⟨prevBlock, tokenIds, physicalBlockId⟩ extraHash) := by
  unfold BlockPool.initBlock at h
  -- the pool may grow first, which leaves its objects as they are
  obtain ⟨q, hq, hok, hsize, hpool⟩ : ∃ q, (if p.freeIds.length = 0 then p.increasePool else p) = q ∧
      q.Ok used ∧ q.blockSize = p.blockSize ∧ q.pool = p.pool := by
    split_ifs
    · exact ⟨_, rfl, hp.increasePool, rfl, rfl⟩
    · exact ⟨_, rfl, hp, rfl, rfl⟩
  rw [hq] at h
  simp only at h
  split at h
  · cases h
  · rename_i poolId freeIds hfree
    obtain ⟨block, hblock, h⟩ := bind_eq_ok.mp h
    cases h
    obtain ⟨rfl, hlen⟩ := NaiveBlock.init_eq_ok hblock
    have hnodup := hok.nodup
    rw [hfree] at hnodup
    have hmem : o ∈ q.freeIds := by
      rw [hfree]
      exact List.mem_cons_self
    have hnew : o ∉ used := fun ho => hok.not_free o ho hmem
    refine ⟨hnew, ⟨hnodup.of_cons, fun x hx => ?_, fun x hx => ?_, fun x hx hfree' => ?_⟩, hsize,
      hsize ▸ hlen, by rw [hpool]⟩
    · exact hok.free_lt x (by rw [hfree]; exact List.mem_cons_of_mem _ hx)
    · rcases Finset.mem_insert.mp hx with rfl | hx
      · exact hok.free_lt x hmem
      · exact hok.used_lt x hx
    · rcases Finset.mem_insert.mp hx with rfl | hx
      · exact (List.nodup_cons.mp hnodup).1 hfree'
      · exact hok.not_free x hx (by rw [hfree]; exact List.mem_cons_of_mem _ hfree')

theorem raisesOnly_initBlock [Block B] {prevBlock : Option PoolId} {tokenIds : List TokenId}
    {physicalBlockId : Option BlockId} {extraHash : Option ℤ} :
    RaisesOnly (· = .assertionError "") (p.initBlock prevBlock tokenIds physicalBlockId extraHash) := by
  unfold BlockPool.initBlock
  simp only
  split
  · rintro e he
    cases he
    rfl
  · exact RaisesOnly.bind NaiveBlock.raisesOnly_appendTokenIdsNoCow fun _ _ => RaisesOnly.ok _

theorem Ok.freeBlock (hp : p.Ok used) (ho : o ∈ used) : (p.freeBlock o).Ok (used.erase o) where
  nodup := List.nodup_cons.mpr ⟨hp.not_free o ho, hp.nodup⟩
  free_lt x hx := by
    rcases List.mem_cons.mp hx with rfl | hx
    · exact hp.used_lt x ho
    · exact hp.free_lt x hx
  used_lt x hx := hp.used_lt x (Finset.mem_of_mem_erase hx)
  not_free x hx hfree := by
    rcases List.mem_cons.mp hfree with rfl | hfree
    · exact Finset.ne_of_mem_erase hx rfl
    · exact hp.not_free x (Finset.mem_of_mem_erase hx) hfree

end BlockPool

/-- `get_all_blocks_recursively`. No chain of blocks is longer than the pool. -/
def getAllBlocksRecursively {B : Type} [Block B] (pool : PoolId → B) : ℕ → PoolId → Except Exn (List PoolId)
  | 0, _ => .error .diverges
  | fuel + 1, o =>
    match (Block.block (pool o)).prevBlock with
    | none => .ok [o]
    | some prev => do
      let blocks ← getAllBlocksRecursively pool fuel prev
      .ok (blocks ++ [o])

end SpaceServe
