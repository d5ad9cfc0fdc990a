import Mathlib.Tactic.Ring
import SpaceServe.BlockManager.NaiveAllocator

/-!
# Block tables

`BlockTable` of `vllm/core/block/block_table.py`, with its `BlockList`, over either of the allocators. No block is
dropped because of a sliding window, and all are on one device.

* `Allocator`: what a table needs of an allocator;
* `BlockTable`, `allocate`, `appendTokenIds`, `fork`, `free`: the model;
* `ChainHolds`: a chain of blocks holds a list of tokens; `Lawful`: what an allocator keeps;
* **`allocate_spec`**, **`appendTokenIds_spec`**, **`fork_spec`**: what the calls do over a lawful allocator.
-/

set_option autoImplicit false

namespace SpaceServe

open Py

/-- `chunk_list`. -/
def chunkList {α : Type} (lst : List α) (chunkSize : ℕ) : List (List α) :=
  (List.range (cdiv lst.length chunkSize)).map fun i => slice lst (i * chunkSize) (i * chunkSize + chunkSize)

/-- An allocator, as a table sees it; and whether it gives every block of a table an id of its own. -/
structure Allocator (σ : Type) where
  blockSize : ℕ
  pos : 0 < blockSize
  ownIds : Prop
  block : σ → PoolId → NaiveBlock
  allocateImmutableBlocks : Option PoolId → List (List TokenId) → Option ℤ → StateE σ (List PoolId)
  allocateMutableBlock : Option PoolId → Option ℤ → StateE σ PoolId
  appendTokenIds : PoolId → List TokenId → StateE σ PUnit
  fork : PoolId → StateE σ (List PoolId)
  free : PoolId → StateE σ PUnit

/-- `BlockTable`, with the two lists of its `BlockList`. -/
structure BlockTable where
  blocks : List PoolId
  blockIds : List BlockId
  numFullSlots : ℕ
deriving DecidableEq

variable {σ : Type}

/-- The id of a block, which `BlockList` asserts not to be `None`. -/
def Allocator.blockId (A : Allocator σ) (o : PoolId) : StateE σ BlockId := do
  let s ← get
  .fromExcept (ofOption (.assertionError "") (A.block s o).blockId)

/-! ## The model -/

namespace BlockTable

/-- `BlockTable.__init__`, without blocks. -/
def init : BlockTable := ⟨[], [], 0⟩

variable (A : Allocator σ)

/-- `update`. -/
def update (t : BlockTable) (blocks : List PoolId) : StateE σ BlockTable := do
  let blockIds ← blocks.mapM A.blockId
  pure { t with blocks, blockIds }

/-- `append_token_ids` of the `BlockList`. Copy-on-write or promotion may change the id of the block. -/
def appendToBlock (t : BlockTable) (blockIndex : ℕ) (tokenIds : List TokenId) : StateE σ BlockTable := do
  let o ← .fromExcept (ofOption (.indexError "list index out of range") t.blocks[blockIndex]?)
  let s ← get
  A.appendTokenIds o tokenIds
  let s' ← get
  if (A.block s o).blockId = (A.block s' o).blockId then pure t
  else
    let blockId ← A.blockId o
    pure { t with blockIds := t.blockIds.set blockIndex blockId }

/-- `_allocate_blocks_for_token_ids`. -/
def allocateBlocksForTokenIds (prevBlock : Option PoolId) (tokenIds : List TokenId) (extraHash : Option ℤ) :
    StateE σ (List PoolId) := do
  let chunks := chunkList tokenIds A.blockSize
  let blockTokenIds := chunks.filter fun cur => cur.length = A.blockSize
  let tailTokenIds := chunks.filter fun cur => ¬ cur.length = A.blockSize
  let (blocks, prevBlock) ← (if blockTokenIds = [] then pure ([], prevBlock)
    else do
      let blocks ← A.allocateImmutableBlocks prevBlock blockTokenIds extraHash
      let last ← .fromExcept (ofOption (.indexError "list index out of range") blocks.getLast?)
      pure (blocks, some last) : StateE σ (List PoolId × Option PoolId))
  match tailTokenIds with
  | [] => pure blocks
  | cur :: rest => do
    .fromExcept (assert (rest = []) "")
    let block ← A.allocateMutableBlock prevBlock extraHash
    A.appendTokenIds block cur
    pure (blocks ++ [block])

/-- `allocate`. -/
def allocate (t : BlockTable) (tokenIds : List TokenId) (extraHash : Option ℤ) : StateE σ BlockTable := do
  .fromExcept (assert (t.blocks = []) "")
  .fromExcept (assert (tokenIds ≠ []) "")
  let blocks ← allocateBlocksForTokenIds A none tokenIds extraHash
  let t ← t.update A blocks
  pure { t with numFullSlots := tokenIds.length }

/-- `_num_empty_slots`. -/
def numEmptySlots (t : BlockTable) : ℤ := t.blocks.length * A.blockSize - t.numFullSlots

/-- The loop of `ensure_num_empty_slots`. -/
def appendBlocks (extraHash : Option ℤ) : ℕ → BlockTable → StateE σ BlockTable
  | 0, t => pure t
  | n + 1, t => do
    let last ← .fromExcept (ofOption (.assertionError "") t.blocks.getLast?)
    let block ← A.allocateMutableBlock (some last) extraHash
    let blockId ← A.blockId block
    appendBlocks extraHash n { t with blocks := t.blocks ++ [block], blockIds := t.blockIds ++ [blockId] }

/-- `ensure_num_empty_slots`. -/
def ensureNumEmptySlots (t : BlockTable) (numEmptySlots : ℕ) (extraHash : Option ℤ) : StateE σ BlockTable := do
  .fromExcept (assert (t.blocks ≠ []) "")
  if t.numEmptySlots A ≥ numEmptySlots then pure t
  else
    let slotsToAllocate := (numEmptySlots : ℤ) - t.numEmptySlots A
    appendBlocks A extraHash (cdiv slotsToAllocate.toNat A.blockSize) t

/-- `_chunk_token_blocks_for_append`. -/
def chunkTokenBlocksForAppend (t : BlockTable) (tokenIds : List TokenId) : List (List TokenId) :=
  if tokenIds = [] then []
  else
    let firstChunkSize := A.blockSize - t.numFullSlots % A.blockSize
    tokenIds.take firstChunkSize :: chunkList (tokenIds.drop firstChunkSize) A.blockSize

/-- The loop over the chunks, which are appended to one block after another. -/
def appendChunks : ℕ → List (List TokenId) → BlockTable → StateE σ BlockTable
  | _, [], t => pure t
  | blockIndex, tokenBlock :: rest, t => do
    let t ← t.appendToBlock A blockIndex tokenBlock
    appendChunks (blockIndex + 1) rest t

/-- `append_token_ids`. -/
def appendTokenIds (t : BlockTable) (tokenIds : List TokenId) (numLookaheadSlots : ℕ)
    (extraHash : Option ℤ) : StateE σ BlockTable := do
  .fromExcept (assert (t.blocks ≠ []) "no blocks have been allocated")
  let t ← t.ensureNumEmptySlots A (tokenIds.length + numLookaheadSlots) extraHash
  let firstBlockIdx := t.numFullSlots / A.blockSize
  let t ← appendChunks A firstBlockIdx (t.chunkTokenBlocksForAppend A tokenIds) t
  pure { t with numFullSlots := t.numFullSlots + tokenIds.length }

/-- `fork`. -/
def fork (t : BlockTable) : StateE σ BlockTable := do
  let last ← .fromExcept (ofOption (.assertionError "") t.blocks.getLast?)
  let forkedBlocks ← A.fork last
  let t ← init.update A forkedBlocks
  let s ← get
  pure { t with numFullSlots := (forkedBlocks.map fun o => (A.block s o).tokenIds.length).sum }

/-- `free`. -/
def free (t : BlockTable) : StateE σ BlockTable := do
  t.blocks.forM fun o => A.free o
  pure { t with blocks := [], blockIds := [] }

end BlockTable

/-! ## Chunks -/

section Chunks

variable {α : Type} {n : ℕ}

theorem slice_of_length_le {l : List α} {a b : ℕ} (h : l.length ≤ a) : slice l a b = [] := by
  rw [slice, List.drop_eq_nil_of_le h, List.take_nil]

/-- A slice that reaches the end gets what is appended, if that fits. -/
theorem slice_append_of_fits {l m : List α} {a b : ℕ} (ha : a ≤ l.length) (hb : l.length + m.length ≤ b) :
    slice (l ++ m) a b = slice l a b ++ m := by
  rw [slice, slice, List.drop_append_of_le_length ha, List.take_of_length_le, List.take_of_length_le]
  · rw [List.length_drop]
    omega
  · rw [List.length_append, List.length_drop]
    omega

/-- A slice of full chunks is one of them. -/
theorem slice_flatten_full : ∀ {chunks : List (List α)} {i : ℕ} {c : List α}, (∀ c ∈ chunks, c.length = n) →
    chunks[i]? = some c → slice chunks.flatten (i * n) ((i + 1) * n) = c
  | c :: cs, 0, _, hfull, hi => by
    cases hi
    have hlen := hfull c List.mem_cons_self
    rw [slice, Nat.zero_mul, List.drop_zero, Nat.zero_add, Nat.one_mul, Nat.sub_zero, List.flatten_cons, ← hlen,
      List.take_left]
  | c :: cs, i + 1, d, hfull, hi => by
    have hrest : slice cs.flatten (i * n) ((i + 1) * n) = d :=
      slice_flatten_full (fun c hc => hfull c (List.mem_cons_of_mem _ hc)) hi
    have hlen := hfull c List.mem_cons_self
    rw [← hrest, slice, slice, List.flatten_cons, Nat.succ_mul (i + 1), Nat.succ_mul i, Nat.add_comm (i * n) n,
      ← List.drop_drop, ← hlen, List.drop_left]
    congr 1
    omega

theorem chunkList_nil (n : ℕ) : chunkList ([] : List α) n = [] := by
  rcases Nat.eq_zero_or_pos n with rfl | hn
  · simp [chunkList, cdiv]
  · have hzero : cdiv 0 n = 0 := Nat.le_zero.mp ((cdiv_le_iff hn 0 0).mpr (Nat.zero_le _))
    rw [chunkList, List.length_nil, hzero]
    rfl

theorem chunkList_of_ne_nil (hn : 0 < n) {l : List α} (hl : l ≠ []) :
    chunkList l n = l.take n :: chunkList (l.drop n) n := by
  have hpos : 0 < l.length := List.length_pos_iff.mpr hl
  have hcount : cdiv l.length n = cdiv (l.drop n).length n + 1 := by
    have hstep : ∀ k, cdiv l.length n ≤ k + 1 ↔ cdiv (l.drop n).length n ≤ k := by
      intro k
      rw [cdiv_le_iff hn, cdiv_le_iff hn, List.length_drop, Nat.succ_mul]
      omega
    have hone : 0 < cdiv l.length n := (lt_cdiv_iff hn _ 0).mpr (by omega)
    have h₁ := (hstep (cdiv (l.drop n).length n)).mpr (le_refl _)
    have h₂ := (hstep (cdiv l.length n - 1)).mp (by omega)
    omega
  rw [chunkList, hcount, List.range_succ_eq_map, List.map_cons, List.map_map, chunkList]
  congr 1
  · simp [slice]
  · apply List.map_congr_left
    intro i _
    simp only [Function.comp_apply, slice, List.drop_drop, Nat.succ_mul]
    rw [Nat.add_comm n (i * n)]
    congr 1
    omega

end Chunks

/-! ## Chains of blocks -/

/-- The tokens of a chain of blocks, in the way in which a table fills it. If they have ids of their own, its blocks
hold different ones. -/
structure ChainHolds (own : Prop) (n : ℕ) (v : PoolId → NaiveBlock) (blocks : List PoolId) (tokens : List TokenId) : Prop where
  nodup : blocks.Nodup
  prev : ∀ i o, blocks[i]? = some o → (v o).prevBlock = if i = 0 then none else blocks[i - 1]?
  tokenIds : ∀ i o, blocks[i]? = some o → (v o).tokenIds = slice tokens (i * n) ((i + 1) * n)
  fits : tokens.length ≤ blocks.length * n
  held : ∀ o ∈ blocks, (v o).blockId ≠ none
  distinct : own → ∀ o ∈ blocks, ∀ o' ∈ blocks, (v o).blockId = (v o').blockId → o = o'

namespace ChainHolds

variable {own : Prop} {n : ℕ} {v v' : PoolId → NaiveBlock} {blocks : List PoolId} {tokens : List TokenId} {o : PoolId}

theorem nil (own : Prop) (n : ℕ) (v : PoolId → NaiveBlock) : ChainHolds own n v [] [] where
  nodup := List.nodup_nil
  prev _ _ h := by cases h
  tokenIds _ _ h := by cases h
  fits := Nat.zero_le _
  held _ h := by cases h
  distinct _ _ h := by cases h

/-- Other blocks do not matter. -/
theorem congr (h : ChainHolds own n v blocks tokens) (hv : ∀ o ∈ blocks, v' o = v o) : ChainHolds own n v' blocks tokens where
  nodup := h.nodup
  prev i o hi := by
    rw [hv o (List.mem_of_getElem? hi)]
    exact h.prev i o hi
  tokenIds i o hi := by
    rw [hv o (List.mem_of_getElem? hi)]
    exact h.tokenIds i o hi
  fits := h.fits
  held o ho := by
    rw [hv o ho]
    exact h.held o ho
  distinct hown o ho o' ho' := by
    rw [hv o ho, hv o' ho']
    exact h.distinct hown o ho o' ho'

theorem getLast?_eq {l : List PoolId} : l.getLast? = if l.length = 0 then none else l[l.length - 1]? := by
  rcases l.eq_nil_or_concat with rfl | ⟨l, x, rfl⟩
  · rfl
  · simp

/-- An empty block is put behind the others. -/
theorem snoc (h : ChainHolds own n v blocks tokens) (ho : o ∉ blocks) (hprev : (v o).prevBlock = blocks.getLast?)
    (htokens : (v o).tokenIds = []) (hheld : (v o).blockId ≠ none)
    (hfresh : own → ∀ o' ∈ blocks, (v o').blockId ≠ (v o).blockId) : ChainHolds own n v (blocks ++ [o]) tokens where
  nodup := by
    refine List.nodup_append.mpr ⟨h.nodup, List.nodup_singleton o, fun a ha b hb => ?_⟩
    rw [List.mem_singleton.mp hb]
    rintro rfl
    exact ho ha
  prev i o' hi := by
    rcases Nat.lt_trichotomy i blocks.length with hlt | rfl | hgt
    · rw [List.getElem?_append_left hlt] at hi
      rw [h.prev i o' hi, List.getElem?_append_left (by omega)]
    · rw [List.getElem?_concat_length] at hi
      cases hi
      rw [hprev, getLast?_eq]
      split_ifs with hz
      · rfl
      · rw [List.getElem?_append_left (by omega)]
    · rw [List.getElem?_eq_none (by rw [List.length_append, List.length_singleton]; omega)] at hi
      cases hi
  tokenIds i o' hi := by
    rcases Nat.lt_trichotomy i blocks.length with hlt | rfl | hgt
    · rw [List.getElem?_append_left hlt] at hi
      exact h.tokenIds i o' hi
    · rw [List.getElem?_concat_length] at hi
      cases hi
      rw [htokens, slice_of_length_le h.fits]
    · rw [List.getElem?_eq_none (by rw [List.length_append, List.length_singleton]; omega)] at hi
      cases hi
  fits := by
    rw [List.length_append, Nat.add_mul]
    exact h.fits.trans (Nat.le_add_right _ _)
  held o' ho' := by
    rcases List.mem_append.mp ho' with ho' | ho'
    · exact h.held o' ho'
    · rw [List.mem_singleton.mp ho']
      exact hheld
  distinct hown a ha b hb heq := by
    rcases List.mem_append.mp ha with ha | ha <;> rcases List.mem_append.mp hb with hb | hb
    · exact h.distinct hown a ha b hb heq
    · rw [List.mem_singleton.mp hb] at heq
      exact absurd heq (hfresh hown a ha)
    · rw [List.mem_singleton.mp ha] at heq
      exact absurd heq.symm (hfresh hown b hb)
    · rw [List.mem_singleton.mp ha, List.mem_singleton.mp hb]

/-- Tokens are written to the first block that is not full. -/
theorem write (h : ChainHolds own n v blocks tokens) (ho : blocks[tokens.length / n]? = some o)
    {chunk : List TokenId} (hchunk : tokens.length % n + chunk.length ≤ n)
    (hv : ∀ o' ∈ blocks, o' ≠ o → v' o' = v o') (hprev : (v' o).prevBlock = (v o).prevBlock)
    (htokens : (v' o).tokenIds = (v o).tokenIds ++ chunk) (hheld : (v' o).blockId ≠ none)
    (hfresh : own → ∀ o' ∈ blocks, o' ≠ o → (v o').blockId ≠ (v' o).blockId) :
    ChainHolds own n v' blocks (tokens ++ chunk) where
  nodup := h.nodup
  prev i o' hi := by
    rcases eq_or_ne o' o with rfl | hne
    · rw [hprev]
      exact h.prev i o' hi
    · rw [hv o' (List.mem_of_getElem? hi) hne]
      exact h.prev i o' hi
  tokenIds i o' hi := by
    have hdiv := Nat.div_add_mod tokens.length n
    rw [Nat.mul_comm] at hdiv
    rcases Nat.lt_trichotomy i (tokens.length / n) with hlt | rfl | hgt
    · have hne : o' ≠ o := by
        rintro rfl
        exact hlt.ne ((List.getElem?_inj (List.getElem?_eq_some_iff.mp hi).1 h.nodup).mp (hi.trans ho.symm))
      have hle : (i + 1) * n ≤ tokens.length / n * n := Nat.mul_le_mul_right n hlt
      rw [hv o' (List.mem_of_getElem? hi) hne, h.tokenIds i o' hi, slice_append_of_le (by omega)]
    · rw [ho] at hi
      cases hi
      rw [htokens, h.tokenIds _ o ho, slice_append_of_fits]
      · omega
      · rw [Nat.add_mul, Nat.one_mul]
        omega
    · have hne : o' ≠ o := by
        rintro rfl
        exact hgt.ne' ((List.getElem?_inj (List.getElem?_eq_some_iff.mp hi).1 h.nodup).mp (hi.trans ho.symm))
      have hle : (tokens.length / n + 1) * n ≤ i * n := Nat.mul_le_mul_right n hgt
      rw [Nat.add_mul, Nat.one_mul] at hle
      rw [hv o' (List.mem_of_getElem? hi) hne, h.tokenIds i o' hi, slice_of_length_le, slice_of_length_le]
      · rw [List.length_append]
        omega
      · omega
  fits := by
    have hdiv := Nat.div_add_mod tokens.length n
    rw [Nat.mul_comm] at hdiv
    have hle : (tokens.length / n + 1) * n ≤ blocks.length * n :=
      Nat.mul_le_mul_right n (List.getElem?_eq_some_iff.mp ho).1
    rw [Nat.add_mul, Nat.one_mul] at hle
    rw [List.length_append]
    omega
  held o' ho' := by
    rcases eq_or_ne o' o with rfl | hne
    · exact hheld
    · rw [hv o' ho' hne]
      exact h.held o' ho'
  distinct hown a ha b hb heq := by
    rcases eq_or_ne a o with rfl | hae <;> rcases eq_or_ne b a with rfl | hbe
    · rfl
    · rw [hv b hb hbe] at heq
      exact absurd heq.symm (hfresh hown b hb hbe)
    · rfl
    · rcases eq_or_ne b o with rfl | hbo
      · rw [hv a ha hae] at heq
        exact absurd heq (hfresh hown a ha hae)
      · rw [hv a ha hae, hv b hb hbo] at heq
        exact h.distinct hown a ha b hb heq

/-- The blocks hold the tokens one after the other. -/
theorem flatMap_tokenIds (h : ChainHolds own n v blocks tokens) : (blocks.flatMap fun o => (v o).tokenIds) = tokens := by
  have hslices : ∀ (l : List PoolId) (k : ℕ), (∀ i o, l[i]? = some o → (v o).tokenIds =
      slice tokens ((k + i) * n) ((k + i + 1) * n)) → (l.flatMap fun o => (v o).tokenIds) =
        slice tokens (k * n) ((k + l.length) * n) := by
    intro l
    induction l with
    | nil =>
      intro k _
      rw [List.length_nil, Nat.add_zero, slice, Nat.sub_self]
      rfl
    | cons o l ih =>
      intro k hl
      have hrest := ih (k + 1) fun i o' hi => by
        rw [hl (i + 1) o' (by rw [List.getElem?_cons_succ]; exact hi)]
        congr 2 <;> omega
      rw [List.flatMap_cons, hl 0 o rfl, hrest, List.length_cons, slice, slice, slice]
      have h₁ : (k + 1) * n - k * n = n := by rw [Nat.succ_mul]; omega
      have h₂ : (k + 1) * n = k * n + n := Nat.succ_mul k n
      have h₃ : (k + (l.length + 1)) * n = k * n + (n + l.length * n) := by ring
      have h₄ : (k + 1 + l.length) * n = k * n + n + l.length * n := by ring
      simp only [Nat.add_zero]
      rw [h₁, h₂, h₃, h₄, Nat.add_sub_cancel_left, Nat.add_sub_cancel_left, ← List.drop_drop,
        List.take_add]
  have hall := hslices blocks 0 fun i o hi => by rw [Nat.zero_add]; exact h.tokenIds i o hi
  rw [hall, Nat.zero_mul, Nat.zero_add, slice, List.drop_zero, Nat.sub_zero, List.take_of_length_le h.fits]

/-- All blocks before a block are found from it. -/
theorem getAllBlocksRecursively_eq {B : Type} [Block B] {pool : PoolId → B}
    (h : ChainHolds own n (fun x => Block.block (pool x)) blocks tokens) : ∀ (fuel i : ℕ) {o : PoolId} {l : List PoolId},
      blocks[i]? = some o → getAllBlocksRecursively pool fuel o = .ok l → l = blocks.take (i + 1)
  | 0, i, o, l, _, hl => by cases hl
  | fuel + 1, i, o, l, hi, hl => by
    have hprev := h.prev i o hi
    rw [getAllBlocksRecursively, hprev] at hl
    rw [List.take_add_one, hi]
    rcases Nat.eq_zero_or_pos i with rfl | hpos
    · rw [if_pos rfl] at hl
      cases hl
      rfl
    · have hlt : i - 1 < blocks.length := by
        have hlen := (List.getElem?_eq_some_iff.mp hi).1
        omega
      rw [if_neg hpos.ne', List.getElem?_eq_getElem hlt] at hl
      obtain ⟨l', hl', hl⟩ := bind_eq_ok.mp hl
      cases hl
      rw [h.getAllBlocksRecursively_eq fuel (i - 1) (List.getElem?_eq_getElem hlt) hl', Nat.sub_add_cancel hpos]
      rfl

theorem getAllBlocksRecursively_last {B : Type} [Block B] {pool : PoolId → B}
    (h : ChainHolds own n (fun x => Block.block (pool x)) blocks tokens) {fuel : ℕ} {l : List PoolId}
    (ho : blocks.getLast? = some o) (hl : getAllBlocksRecursively pool fuel o = .ok l) : l = blocks := by
  rw [getLast?_eq] at ho
  split_ifs at ho with hz
  rw [h.getAllBlocksRecursively_eq fuel _ ho hl, Nat.sub_add_cancel (Nat.pos_of_ne_zero hz), List.take_length]

end ChainHolds

/-- Blocks that are linked one to the other, with their tokens and ids. -/
def Linked (v : PoolId → NaiveBlock) : Option PoolId → List PoolId → List (List TokenId × Option BlockId) → Prop
  | _, [], [] => True
  | prev, o :: os, c :: cs => v o = ⟨prev, c.1, c.2⟩ ∧ Linked v (some o) os cs
  | _, _, _ => False

namespace Linked

variable {own : Prop} {n : ℕ} {v v' : PoolId → NaiveBlock} {tokens : List TokenId}

theorem congr : ∀ {prev : Option PoolId} {os : List PoolId} {cs : List (List TokenId × Option BlockId)},
    Linked v prev os cs → (∀ o ∈ os, v' o = v o) → Linked v' prev os cs
  | _, [], [], _, _ => trivial
  | _, o :: _, _ :: _, ⟨ho, h⟩, hv =>
    ⟨(hv o List.mem_cons_self).trans ho, h.congr fun x hx => hv x (List.mem_cons_of_mem _ hx)⟩

theorem length_eq : ∀ {prev : Option PoolId} {os : List PoolId} {cs : List (List TokenId × Option BlockId)},
    Linked v prev os cs → os.length = cs.length
  | _, [], [], _ => rfl
  | _, _ :: _, _ :: _, ⟨_, h⟩ => congrArg (· + 1) h.length_eq

/-- A block, with the one before it. -/
theorem getElem? : ∀ {prev : Option PoolId} {os : List PoolId} {cs : List (List TokenId × Option BlockId)},
    Linked v prev os cs → ∀ i o, os[i]? = some o → ∃ c, cs[i]? = some c ∧
      v o = ⟨if i = 0 then prev else os[i - 1]?, c.1, c.2⟩
  | _, _ :: _, c :: _, ⟨ho, _⟩, 0, x, hx => by
    cases hx
    exact ⟨c, rfl, ho⟩
  | _, _ :: _, _ :: _, ⟨_, h⟩, i + 1, x, hx => by
    obtain ⟨d, hd, hv⟩ := h.getElem? i x hx
    refine ⟨d, hd, hv.trans ?_⟩
    cases i with
    | zero => rfl
    | succ i => rfl

/-- A chain of blocks that together have the tokens. -/
theorem holds {os : List PoolId} {cs : List (List TokenId × Option BlockId)} (h : Linked v none os cs)
    (hnodup : os.Nodup) (htokens : ∀ i c, cs[i]? = some c → c.1 = slice tokens (i * n) ((i + 1) * n))
    (hfits : tokens.length ≤ cs.length * n) (hheld : ∀ c ∈ cs, c.2 ≠ none) (hdistinct : own → (cs.map (·.2)).Nodup) :
    ChainHolds own n v os tokens where
  nodup := hnodup
  prev i o hi := by
    obtain ⟨c, -, hv⟩ := h.getElem? i o hi
    rw [hv]
  tokenIds i o hi := by
    obtain ⟨c, hc, hv⟩ := h.getElem? i o hi
    rw [hv]
    exact htokens i c hc
  fits := by
    rw [h.length_eq]
    exact hfits
  held o ho := by
    obtain ⟨i, hi⟩ := List.mem_iff_getElem?.mp ho
    obtain ⟨c, hc, hv⟩ := h.getElem? i o hi
    rw [hv]
    exact hheld c (List.mem_of_getElem? hc)
  distinct hown o ho o' ho' heq := by
    obtain ⟨i, hi⟩ := List.mem_iff_getElem?.mp ho
    obtain ⟨j, hj⟩ := List.mem_iff_getElem?.mp ho'
    obtain ⟨c, hc, hv⟩ := h.getElem? i o hi
    obtain ⟨d, hd, hv'⟩ := h.getElem? j o' hj
    rw [hv, hv'] at heq
    have hci : (cs.map (·.2))[i]? = some c.2 := by rw [List.getElem?_map, hc]; rfl
    have hdj : (cs.map (·.2))[j]? = some c.2 := by rw [List.getElem?_map, hd]; exact congrArg some heq.symm
    have hij : i = j :=
      (List.getElem?_inj (List.getElem?_eq_some_iff.mp hci).1 (hdistinct hown)).mp (hci.trans hdj.symm)
    rw [hij, hj] at hi
    exact (Option.some.inj hi).symm

end Linked

/-- The content of a chain. -/
def contentsOf (v : PoolId → NaiveBlock) (blocks : List PoolId) : List (List TokenId × Option BlockId) :=
  blocks.map fun o => ((v o).tokenIds, (v o).blockId)

/-- A copy of a chain holds the same tokens. -/
theorem ChainHolds.copy {own : Prop} {n : ℕ} {v v' : PoolId → NaiveBlock} {blocks forked : List PoolId} {tokens : List TokenId}
    (h : ChainHolds own n v blocks tokens) (hc : Linked v' none forked (contentsOf v blocks)) (hnodup : forked.Nodup) :
    ChainHolds own n v' forked tokens ∧ (forked.map fun o => (v' o).blockId) = blocks.map fun o => (v o).blockId := by
  have hlen := hc.length_eq
  rw [contentsOf, List.length_map] at hlen
  constructor
  · refine hc.holds hnodup (fun i c hi => ?_) ?_ (fun c hmem => ?_) fun hown => ?_
    · rw [contentsOf, List.getElem?_map, Option.map_eq_some_iff] at hi
      obtain ⟨o, ho, rfl⟩ := hi
      exact h.tokenIds i o ho
    · rw [contentsOf, List.length_map]
      exact h.fits
    · obtain ⟨o, ho, rfl⟩ := List.mem_map.mp hmem
      exact h.held o ho
    · rw [contentsOf, List.map_map]
      exact List.Nodup.map_on (fun o ho o' ho' heq => h.distinct hown o ho o' ho' heq) h.nodup
  · refine List.ext_getElem? fun i => ?_
    rw [List.getElem?_map, List.getElem?_map]
    cases hi : forked[i]? with
    | none =>
      rw [List.getElem?_eq_none (by rw [← hlen]; exact List.getElem?_eq_none_iff.mp hi)]
      rfl
    | some o =>
      obtain ⟨c, hci, hv⟩ := hc.getElem? i o hi
      rw [contentsOf, List.getElem?_map, Option.map_eq_some_iff] at hci
      obtain ⟨x, hx, rfl⟩ := hci
      rw [hx, Option.map_some, Option.map_some, hv]

/-- Each block is behind the one that comes before it in the list. -/
def Following (v : PoolId → NaiveBlock) : Option PoolId → List PoolId → Prop
  | _, [] => True
  | prev, o :: os => (v o).prevBlock = prev ∧ Following v (some o) os

theorem Following.congr {v v' : PoolId → NaiveBlock} : ∀ {prev : Option PoolId} {os : List PoolId},
    Following v prev os → (∀ o ∈ os, v' o = v o) → Following v' prev os
  | _, [], _, _ => trivial
  | _, o :: _, ⟨ho, h⟩, hv =>
    ⟨by rw [hv o List.mem_cons_self, ho], h.congr fun x hx => hv x (List.mem_cons_of_mem _ hx)⟩

theorem following_of_prev {v : PoolId → NaiveBlock} : ∀ {os : List PoolId} {prev : Option PoolId},
    (∀ i o, os[i]? = some o → (v o).prevBlock = if i = 0 then prev else os[i - 1]?) → Following v prev os
  | [], _, _ => trivial
  | o :: os, prev, h => by
    refine ⟨h 0 o rfl, following_of_prev fun i x hx => ?_⟩
    rw [h (i + 1) x hx, if_neg (Nat.succ_ne_zero i)]
    cases i with
    | zero => rfl
    | succ i => rfl

theorem ChainHolds.following {own : Prop} {n : ℕ} {v : PoolId → NaiveBlock} {blocks : List PoolId}
    {tokens : List TokenId} (h : ChainHolds own n v blocks tokens) : Following v none blocks := following_of_prev h.prev

/-- **The loop of `fork`**, if every round of it keeps an invariant, which may be about the last copy and the block
that it is a copy of. -/
theorem forkBlocks_spec {B : Type} [Block B]
    {I : NaiveBlockAllocator B → Finset PoolId → Option PoolId → Option PoolId → Prop}
    (hround : ∀ {s s' : NaiveBlockAllocator B} {D : Finset PoolId} {prev orig : Option PoolId} {x y : PoolId},
      I s D prev orig → x ∈ D → (s.block x).prevBlock = orig →
      Returns (NaiveBlockAllocator.forkBlock prev x) s y s' → y ∉ D ∧ I s' (insert y D) (some y) (some x) ∧
        s'.block y = ⟨prev, (s.block x).tokenIds, (s.block x).blockId⟩ ∧ ∀ z ∈ D, s'.block z = s.block z) :
    ∀ (blocks : List PoolId) {s s' : NaiveBlockAllocator B} {D : Finset PoolId} {prev orig : Option PoolId}
      {forked : List PoolId}, I s D prev orig → (∀ x ∈ blocks, x ∈ D) → Following s.block orig blocks →
      Returns (NaiveBlockAllocator.forkBlocks prev blocks) s forked s' →
      (∃ prev' orig', I s' (D ∪ forked.toFinset) prev' orig') ∧
        forked.Nodup ∧ (∀ x ∈ forked, x ∉ D) ∧ (∀ x ∈ D, s'.block x = s.block x) ∧
        Linked s'.block prev forked (contentsOf s.block blocks)
  | [], s, s', D, prev, orig, forked, hi, _, _, h => by
    obtain ⟨rfl, rfl⟩ := returns_pure.mp h
    refine ⟨⟨prev, orig, ?_⟩, List.nodup_nil, fun x hx => absurd hx List.not_mem_nil, fun _ _ => rfl, trivial⟩
    rw [List.toFinset_nil, Finset.union_empty]
    exact hi
  | o :: os, s, s', D, prev, orig, forked, hi, hsub, ⟨horig, hbehind⟩, h => by
    simp only [NaiveBlockAllocator.forkBlocks, returns_bind, returns_pure] at h
    obtain ⟨y, s₁, hone, rest, s₂, hrest, rfl, rfl⟩ := h
    obtain ⟨hy, hi₁, hblock, hframe₁⟩ := hround hi (hsub o List.mem_cons_self) horig hone
    have hsub' : ∀ x ∈ os, x ∈ D := fun x hx => hsub x (List.mem_cons_of_mem _ hx)
    obtain ⟨⟨prev', orig', hi'⟩, hnodup, hnew, hframe', hchain⟩ := forkBlocks_spec hround os hi₁
      (fun x hx => Finset.mem_insert_of_mem (hsub' x hx)) (hbehind.congr fun x hx => hframe₁ x (hsub' x hx)) hrest
    have hyrest : y ∉ rest := fun hmem => hnew y hmem (Finset.mem_insert_self y D)
    refine ⟨⟨prev', orig', ?_⟩, List.nodup_cons.mpr ⟨hyrest, hnodup⟩, fun x hx => ?_, fun x hx => ?_, ?_, ?_⟩
    · rw [List.toFinset_cons, Finset.union_insert, ← Finset.insert_union]
      exact hi'
    · rcases List.mem_cons.mp hx with rfl | hx
      · exact hy
      · exact fun hD => hnew x hx (Finset.mem_insert_of_mem hD)
    · rw [hframe' x (Finset.mem_insert_of_mem hx), hframe₁ x hx]
    · rw [hframe' y (Finset.mem_insert_self y D), hblock]
    · have hcontents : contentsOf s₁.block os = contentsOf s.block os :=
        List.map_congr_left fun x hx => by rw [hframe₁ x (hsub' x hx)]
      rw [hcontents] at hchain
      exact hchain

/-! ## Lawful allocators -/

/-- What an allocator keeps: `Inv s D`, for the blocks `D` in use. Each call says what it returns, that the other
blocks in use stay as they are, and that no two blocks of a chain come to hold one id. -/
structure Lawful (A : Allocator σ) (Inv : σ → Finset PoolId → Prop) : Prop where
  allocateMutable : ∀ {s s' : σ} {D : Finset PoolId} {blocks : List PoolId} {tokens : List TokenId}
    {extraHash : Option ℤ} {o : PoolId}, Inv s D → ChainHolds A.ownIds A.blockSize (A.block s) blocks tokens →
    (∀ x ∈ blocks, x ∈ D) → Returns (A.allocateMutableBlock blocks.getLast? extraHash) s o s' →
    o ∉ D ∧ Inv s' (insert o D) ∧ (∀ x ∈ D, A.block s' x = A.block s x) ∧
      (A.block s' o).prevBlock = blocks.getLast? ∧ (A.block s' o).tokenIds = [] ∧
      (A.block s' o).blockId ≠ none ∧
      (A.ownIds → ∀ x ∈ blocks, (A.block s x).blockId ≠ (A.block s' o).blockId)
  allocateImmutable : ∀ {s s' : σ} {D : Finset PoolId} {chunks : List (List TokenId)} {extraHash : Option ℤ}
    {blocks : List PoolId}, Inv s D → (∀ c ∈ chunks, c.length = A.blockSize) →
    Returns (A.allocateImmutableBlocks none chunks extraHash) s blocks s' →
    ChainHolds A.ownIds A.blockSize (A.block s') blocks chunks.flatten ∧ blocks.length = chunks.length ∧
      (∀ x ∈ blocks, x ∉ D) ∧ Inv s' (D ∪ blocks.toFinset) ∧ ∀ x ∈ D, A.block s' x = A.block s x
  appendTokenIds : ∀ {s s' : σ} {D : Finset PoolId} {blocks : List PoolId} {tokens chunk : List TokenId}
    {o : PoolId} {u : PUnit}, Inv s D → ChainHolds A.ownIds A.blockSize (A.block s) blocks tokens → (∀ x ∈ blocks, x ∈ D) →
    blocks[tokens.length / A.blockSize]? = some o → chunk ≠ [] →
    tokens.length % A.blockSize + chunk.length ≤ A.blockSize → Returns (A.appendTokenIds o chunk) s u s' →
    Inv s' D ∧ (∀ x ∈ D, x ≠ o → A.block s' x = A.block s x) ∧
      (A.block s' o).prevBlock = (A.block s o).prevBlock ∧
      (A.block s' o).tokenIds = (A.block s o).tokenIds ++ chunk ∧ (A.block s' o).blockId ≠ none ∧
      (A.ownIds → ∀ x ∈ blocks, x ≠ o → (A.block s x).blockId ≠ (A.block s' o).blockId)
  fork : ∀ {s s' : σ} {D : Finset PoolId} {blocks forked : List PoolId} {tokens : List TokenId} {last : PoolId},
    Inv s D → ChainHolds A.ownIds A.blockSize (A.block s) blocks tokens → (∀ x ∈ blocks, x ∈ D) →
    blocks.getLast? = some last → Returns (A.fork last) s forked s' →
    ChainHolds A.ownIds A.blockSize (A.block s') forked tokens ∧ (∀ x ∈ forked, x ∉ D) ∧ Inv s' (D ∪ forked.toFinset) ∧
      (∀ x ∈ D, A.block s' x = A.block s x) ∧
      (forked.map fun x => (A.block s' x).blockId) = blocks.map fun x => (A.block s x).blockId

/-! ## Chunks that fit -/

/-- Chunks that fill one block after the other, behind `len` tokens. -/
def ChunksFit (n : ℕ) : ℕ → List (List TokenId) → Prop
  | _, [] => True
  | len, c :: cs => c ≠ [] ∧ len % n + c.length ≤ n ∧ (cs ≠ [] → len % n + c.length = n) ∧
      ChunksFit n (len + c.length) cs

section ChunksFit

variable {n : ℕ}

theorem chunksFit_chunkList (hn : 0 < n) {l : List TokenId} {len : ℕ} (hlen : len % n = 0) :
    ChunksFit n len (chunkList l n) := by
  induction hl : l.length using Nat.strong_induction_on generalizing l len with
  | _ m ih =>
    subst hl
    rcases eq_or_ne l [] with rfl | hne
    · rw [chunkList_nil]
      trivial
    · have hpos : 0 < l.length := List.length_pos_iff.mpr hne
      rw [chunkList_of_ne_nil hn hne]
      have htake : (l.take n).length ≤ n := by
        rw [List.length_take]
        exact Nat.min_le_left _ _
      refine ⟨fun h => hne ((List.take_eq_nil_iff.mp h).resolve_left hn.ne'), by omega, fun hrest => ?_, ?_⟩
      · have hlong : n < l.length := by
          by_contra hle
          rw [List.drop_eq_nil_of_le (Nat.le_of_not_lt hle), chunkList_nil] at hrest
          exact hrest rfl
        rw [hlen, List.length_take, Nat.min_eq_left hlong.le, Nat.zero_add]
      · rcases Nat.lt_or_ge n l.length with hlong | hshort
        · refine ih _ ?_ ?_ rfl
          · rw [List.length_drop]
            omega
          · rw [List.length_take, Nat.min_eq_left hlong.le, Nat.add_mod_right, hlen]
        · rw [List.drop_eq_nil_of_le hshort, chunkList_nil]
          trivial

theorem flatten_chunkList (hn : 0 < n) {α : Type} {l : List α} : (chunkList l n).flatten = l := by
  induction hl : l.length using Nat.strong_induction_on generalizing l with
  | _ m ih =>
    subst hl
    rcases eq_or_ne l [] with rfl | hne
    · rw [chunkList_nil]
      rfl
    · have hpos : 0 < l.length := List.length_pos_iff.mpr hne
      rw [chunkList_of_ne_nil hn hne, List.flatten_cons, ih _ (by rw [List.length_drop]; omega) rfl,
        List.take_append_drop]

/-- All chunks but the last are full. -/
theorem chunkList_split (hn : 0 < n) {l : List TokenId} : ∃ full tail, chunkList l n = full ++ tail ∧
    (∀ c ∈ full, c.length = n) ∧ (tail = [] ∨ ∃ c, tail = [c] ∧ c ≠ [] ∧ c.length < n) := by
  induction hl : l.length using Nat.strong_induction_on generalizing l with
  | _ m ih =>
    subst hl
    rcases eq_or_ne l [] with rfl | hne
    · exact ⟨[], [], chunkList_nil n, fun c hc => absurd hc List.not_mem_nil, Or.inl rfl⟩
    · have hpos : 0 < l.length := List.length_pos_iff.mpr hne
      rw [chunkList_of_ne_nil hn hne]
      rcases Nat.lt_or_ge l.length n with hshort | hlong
      · rw [List.drop_eq_nil_of_le hshort.le, chunkList_nil, List.take_of_length_le hshort.le]
        exact ⟨[], [l], rfl, fun c hc => absurd hc List.not_mem_nil, Or.inr ⟨l, rfl, hne, hshort⟩⟩
      · obtain ⟨full, tail, heq, hfull, htail⟩ := ih (l.drop n).length (by rw [List.length_drop]; omega) rfl
        refine ⟨l.take n :: full, tail, by rw [heq]; rfl, fun c hc => ?_, htail⟩
        rcases List.mem_cons.mp hc with rfl | hc
        · rw [List.length_take, Nat.min_eq_left hlong]
        · exact hfull c hc

end ChunksFit

/-! ## Tables -/

/-- A table with the tokens that were appended to it. -/
structure TableOk (A : Allocator σ) (s : σ) (t : BlockTable) (tokens : List TokenId) : Prop where
  holds : ChainHolds A.ownIds A.blockSize (A.block s) t.blocks tokens
  blockIds : (t.blocks.map fun o => (A.block s o).blockId) = t.blockIds.map some
  numFullSlots : t.blocks ≠ [] → t.numFullSlots = tokens.length

namespace BlockTable

variable {A : Allocator σ} {Inv : σ → Finset PoolId → Prop} {s s' : σ} {D : Finset PoolId} {t t' : BlockTable}
  {tokens : List TokenId} {extraHash : Option ℤ}

theorem returns_blockId {o : PoolId} {b : BlockId} (h : Returns (A.blockId o) s b s') :
    (A.block s o).blockId = some b ∧ s' = s := by
  simp only [Allocator.blockId, returns_bind, returns_get, returns_fromExcept, ofOption_eq_ok] at h
  obtain ⟨s₀, s₁, ⟨rfl, rfl⟩, hb, rfl⟩ := h
  exact ⟨hb, rfl⟩

theorem returns_update {blocks : List PoolId} (h : Returns (t.update A blocks) s t' s') : s' = s ∧
    t'.blocks = blocks ∧ t'.numFullSlots = t.numFullSlots ∧
      (blocks.map fun o => (A.block s o).blockId) = t'.blockIds.map some := by
  have hmap : ∀ (l : List PoolId) {ids : List BlockId} {s₁ : σ}, Returns (l.mapM A.blockId) s ids s₁ → s₁ = s ∧
      (l.map fun o => (A.block s o).blockId) = ids.map some := by
    intro l
    induction l with
    | nil =>
      intro ids s₁ h
      obtain ⟨rfl, rfl⟩ := returns_pure.mp h
      exact ⟨rfl, rfl⟩
    | cons o l ih =>
      intro ids s₁ h
      simp only [List.mapM_cons, returns_bind, returns_pure] at h
      obtain ⟨b, s₂, hb, bs, s₃, hbs, rfl, rfl⟩ := h
      obtain ⟨hid, rfl⟩ := returns_blockId hb
      obtain ⟨rfl, hids⟩ := ih hbs
      exact ⟨rfl, by rw [List.map_cons, List.map_cons, hid, hids]⟩
  simp only [update, returns_bind, returns_pure] at h
  obtain ⟨ids, s₁, hids, rfl, rfl⟩ := h
  obtain ⟨rfl, hids⟩ := hmap blocks hids
  exact ⟨rfl, rfl, rfl, hids⟩

/-- **Empty blocks** are put behind the others. -/
theorem appendBlocks_spec (hA : Lawful A Inv) : ∀ (n : ℕ) {s : σ} {D : Finset PoolId} {t : BlockTable}, Inv s D →
    ChainHolds A.ownIds A.blockSize (A.block s) t.blocks tokens →
    (t.blocks.map fun o => (A.block s o).blockId) = t.blockIds.map some → (∀ x ∈ t.blocks, x ∈ D) →
    Returns (appendBlocks A extraHash n t) s t' s' → ∃ new, t'.blocks = t.blocks ++ new ∧ new.length = n ∧
      (∀ x ∈ new, x ∉ D) ∧ t'.numFullSlots = t.numFullSlots ∧ Inv s' (D ∪ new.toFinset) ∧
      (∀ x ∈ D, A.block s' x = A.block s x) ∧ ChainHolds A.ownIds A.blockSize (A.block s') t'.blocks tokens ∧
      (t'.blocks.map fun o => (A.block s' o).blockId) = t'.blockIds.map some
  | 0, s, D, t, hi, hh, hids, hsub, h => by
    obtain ⟨rfl, rfl⟩ := returns_pure.mp h
    refine ⟨[], (List.append_nil _).symm, rfl, fun x hx => absurd hx List.not_mem_nil, rfl, ?_, fun _ _ => rfl,
      hh, hids⟩
    rw [List.toFinset_nil, Finset.union_empty]
    exact hi
  | n + 1, s, D, t, hi, hh, hids, hsub, h => by
    simp only [appendBlocks, returns_bind, returns_fromExcept, ofOption_eq_ok] at h
    obtain ⟨last, s₁, ⟨hlast, rfl⟩, o, s₂, hnew, b, s₃, hb, h⟩ := h
    rw [← hlast] at hnew
    obtain ⟨ho, hi₂, hframe, hprev, htokens, hheld, hfresh⟩ := hA.allocateMutable hi hh hsub hnew
    obtain ⟨hb, rfl⟩ := returns_blockId hb
    have hframe' : ∀ x ∈ t.blocks, A.block s₃ x = A.block s₁ x := fun x hx => hframe x (hsub x hx)
    have hh₂ : ChainHolds A.ownIds A.blockSize (A.block s₃) (t.blocks ++ [o]) tokens := by
      apply (hh.congr hframe').snoc (fun hmem => ho (hsub o hmem)) hprev htokens hheld
      intro hown x hx
      rw [hframe' x hx]
      exact hfresh hown x hx
    have hids₂ : ((t.blocks ++ [o]).map fun o => (A.block s₃ o).blockId) = (t.blockIds ++ [b]).map some := by
      rw [List.map_append, List.map_append, List.map_singleton, hb, ← hids]
      congr 1
      exact List.map_congr_left fun x hx => by rw [hframe' x hx]
    have hsub₂ : ∀ x ∈ t.blocks ++ [o], x ∈ insert o D := by
      intro x hx
      rcases List.mem_append.mp hx with hx | hx
      · exact Finset.mem_insert_of_mem (hsub x hx)
      · rw [List.mem_singleton.mp hx]
        exact Finset.mem_insert_self o D
    obtain ⟨new, hblocks, hlen, hdisj, hnum, hi', hframe₂, hh', hids'⟩ :=
      appendBlocks_spec hA n hi₂ hh₂ hids₂ hsub₂ h
    refine ⟨o :: new, ?_, by rw [List.length_cons, hlen], ?_, hnum, ?_, ?_, hh', hids'⟩
    · rw [hblocks, List.append_assoc]
      rfl
    · intro x hx
      rcases List.mem_cons.mp hx with rfl | hx
      · exact ho
      · exact fun hD => hdisj x hx (Finset.mem_insert_of_mem hD)
    · rw [List.toFinset_cons, Finset.union_insert, ← Finset.insert_union]
      exact hi'
    · intro x hx
      rw [hframe₂ x (Finset.mem_insert_of_mem hx), hframe x hx]

/-- **A chunk** is written to the first block that is not full. -/
theorem appendToBlock_spec (hA : Lawful A Inv) (hi : Inv s D) (hh : ChainHolds A.ownIds A.blockSize (A.block s) t.blocks tokens)
    (hids : (t.blocks.map fun o => (A.block s o).blockId) = t.blockIds.map some) (hsub : ∀ x ∈ t.blocks, x ∈ D)
    {chunk : List TokenId} (hne : chunk ≠ []) (hfit : tokens.length % A.blockSize + chunk.length ≤ A.blockSize)
    (h : Returns (t.appendToBlock A (tokens.length / A.blockSize) chunk) s t' s') :
    t'.blocks = t.blocks ∧ t'.numFullSlots = t.numFullSlots ∧ Inv s' D ∧
      ChainHolds A.ownIds A.blockSize (A.block s') t'.blocks (tokens ++ chunk) ∧
      (t'.blocks.map fun o => (A.block s' o).blockId) = t'.blockIds.map some ∧
      ∀ x ∈ D, t.blocks[tokens.length / A.blockSize]? ≠ some x → A.block s' x = A.block s x := by
  simp only [appendToBlock, returns_bind, returns_get, returns_fromExcept, ofOption_eq_ok] at h
  obtain ⟨o, s₁, ⟨ho, rfl⟩, s₂, s₃, ⟨rfl, rfl⟩, u, s₄, happ, s₅, s₆, ⟨rfl, rfl⟩, h⟩ := h
  obtain ⟨hi', hframe, hprev, htokens, hheld, hfresh⟩ := hA.appendTokenIds hi hh hsub ho hne hfit happ
  have hh' : ChainHolds A.ownIds A.blockSize (A.block s₆) t.blocks (tokens ++ chunk) :=
    hh.write ho hfit (fun x hx => hframe x (hsub x hx)) hprev htokens hheld hfresh
  have hother : ∀ x ∈ D, t.blocks[tokens.length / A.blockSize]? ≠ some x → A.block s₆ x = A.block s₃ x := by
    intro x hx hnot
    refine hframe x hx ?_
    rintro rfl
    exact hnot ho
  split_ifs at h with hsame
  · obtain ⟨rfl, rfl⟩ := returns_pure.mp h
    refine ⟨rfl, rfl, hi', hh', ?_, hother⟩
    rw [← hids]
    apply List.map_congr_left
    intro x hx
    rcases eq_or_ne x o with rfl | hxo
    · exact hsame.symm
    · rw [hframe x (hsub x hx) hxo]
  · simp only [returns_bind, returns_pure] at h
    obtain ⟨b, s₇, hb, rfl, rfl⟩ := h
    obtain ⟨hb, rfl⟩ := returns_blockId hb
    refine ⟨rfl, rfl, hi', hh', ?_, hother⟩
    show (t.blocks.map fun o => (A.block s' o).blockId) = (t.blockIds.set _ b).map some
    rw [List.map_set, ← hids]
    apply List.ext_getElem?
    intro i
    rw [List.getElem?_map, List.getElem?_set, List.length_map, List.getElem?_map]
    split_ifs with hidx hlt
    · rw [← hidx, ho, Option.map_some, hb]
    · rw [← hidx, List.getElem?_eq_none (Nat.le_of_not_lt hlt)]
      rfl
    · cases hx : t.blocks[i]? with
      | none => rfl
      | some x =>
        have hxo : x ≠ o := by
          rintro rfl
          have hlt := (List.getElem?_eq_some_iff.mp ho).1
          exact hidx ((List.getElem?_inj hlt hh.nodup).mp (ho.trans hx.symm))
        rw [Option.map_some, Option.map_some, hframe x (hsub x (List.mem_of_getElem? hx)) hxo]

/-- A chunk that fills a block is followed by the next one. -/
theorem div_of_full {n len : ℕ} (hn : 0 < n) {c : List TokenId} (hfull : len % n + c.length = n) :
    (len + c.length) / n = len / n + 1 := by
  have hdiv := Nat.div_add_mod len n
  have hsum : len + c.length = n * (len / n + 1) := by
    rw [Nat.mul_add, Nat.mul_one]
    omega
  rw [hsum, Nat.mul_div_cancel_left _ hn]

/-- **The chunks** are written one after the other. -/
theorem appendChunks_spec (hA : Lawful A Inv) : ∀ (chunks : List (List TokenId)) {s : σ} {t : BlockTable}
    {tokens : List TokenId} {i : ℕ}, Inv s D → ChainHolds A.ownIds A.blockSize (A.block s) t.blocks tokens →
    (t.blocks.map fun o => (A.block s o).blockId) = t.blockIds.map some → (∀ x ∈ t.blocks, x ∈ D) →
    ChunksFit A.blockSize tokens.length chunks → (chunks ≠ [] → i = tokens.length / A.blockSize) →
    Returns (appendChunks A i chunks t) s t' s' →
    t'.blocks = t.blocks ∧ t'.numFullSlots = t.numFullSlots ∧ Inv s' D ∧
      ChainHolds A.ownIds A.blockSize (A.block s') t'.blocks (tokens ++ chunks.flatten) ∧
      (t'.blocks.map fun o => (A.block s' o).blockId) = t'.blockIds.map some ∧
      ∀ x ∈ D, (∀ k < chunks.length, t.blocks[i + k]? ≠ some x) → A.block s' x = A.block s x
  | [], s, t, tokens, i, hi, hh, hids, _, _, _, h => by
    obtain ⟨rfl, rfl⟩ := returns_pure.mp h
    rw [List.flatten_nil, List.append_nil]
    exact ⟨rfl, rfl, hi, hh, hids, fun _ _ _ => rfl⟩
  | c :: cs, s, t, tokens, i, hi, hh, hids, hsub, ⟨hne, hfit, hfull, hrest⟩, hidx, h => by
    rw [hidx (List.cons_ne_nil c cs)] at h ⊢
    rw [appendChunks, returns_bind] at h
    obtain ⟨t₁, s₁, hone, h⟩ := h
    obtain ⟨hblocks, hnum, hi₁, hh₁, hids₁, hother₁⟩ := appendToBlock_spec hA hi hh hids hsub hne hfit hone
    rw [← List.length_append] at hrest
    have hnext : cs ≠ [] → tokens.length / A.blockSize + 1 = (tokens ++ c).length / A.blockSize := fun hcs => by
      rw [List.length_append, div_of_full A.pos (hfull hcs)]
    obtain ⟨hblocks', hnum', hi', hh', hids', hother'⟩ :=
      appendChunks_spec hA cs hi₁ hh₁ hids₁ (by rw [hblocks]; exact hsub) hrest hnext h
    rw [List.append_assoc] at hh'
    refine ⟨hblocks'.trans hblocks, hnum'.trans hnum, hi', hh', hids', fun x hx hnot => ?_⟩
    rw [hother' x hx, hother₁ x hx (hnot 0 (Nat.succ_pos _))]
    intro k hk
    rw [hblocks, Nat.add_assoc, Nat.add_comm 1 k]
    exact hnot (k + 1) (Nat.succ_lt_succ hk)

/-- The block that a chunk is written to. -/
theorem returns_appendToBlock {i : ℕ} {chunk : List TokenId} (h : Returns (t.appendToBlock A i chunk) s t' s') :
    ∃ o u, t.blocks[i]? = some o ∧ Returns (A.appendTokenIds o chunk) s u s' := by
  simp only [appendToBlock, returns_bind, returns_get, returns_fromExcept, ofOption_eq_ok] at h
  obtain ⟨o, s₁, ⟨ho, rfl⟩, s₂, s₃, ⟨rfl, rfl⟩, u, s₄, happ, s₅, s₆, ⟨rfl, rfl⟩, h⟩ := h
  have hsame : s' = s₆ := by
    split_ifs at h with hid
    · exact (returns_pure.mp h).2
    · simp only [returns_bind, returns_pure] at h
      obtain ⟨b, s₇, hb, -, rfl⟩ := h
      exact (returns_blockId hb).2
  rw [hsame]
  exact ⟨o, u, ho, happ⟩

theorem flatten_chunkTokenBlocks (t : BlockTable) (tokenIds : List TokenId) :
    (t.chunkTokenBlocksForAppend A tokenIds).flatten = tokenIds := by
  unfold chunkTokenBlocksForAppend
  split_ifs with hnil
  · rw [hnil]
    rfl
  · rw [List.flatten_cons, flatten_chunkList A.pos, List.take_append_drop]

theorem chunksFit_chunkTokenBlocks (t : BlockTable) (tokenIds : List TokenId) :
    ChunksFit A.blockSize t.numFullSlots (t.chunkTokenBlocksForAppend A tokenIds) := by
  have hmod := Nat.mod_lt t.numFullSlots A.pos
  unfold chunkTokenBlocksForAppend
  split_ifs with hnil
  · trivial
  · have hlong : chunkList (tokenIds.drop (A.blockSize - t.numFullSlots % A.blockSize)) A.blockSize ≠ [] →
        A.blockSize - t.numFullSlots % A.blockSize < tokenIds.length := by
      intro hrest
      by_contra hle
      rw [List.drop_eq_nil_of_le (Nat.le_of_not_lt hle), chunkList_nil] at hrest
      exact hrest rfl
    refine ⟨fun h => ?_, ?_, fun hrest => ?_, ?_⟩
    · rcases List.take_eq_nil_iff.mp h with h | h
      · omega
      · exact hnil h
    · rw [List.length_take]
      omega
    · have hlt := hlong hrest
      rw [List.length_take]
      omega
    · rcases eq_or_ne (chunkList (tokenIds.drop (A.blockSize - t.numFullSlots % A.blockSize)) A.blockSize) []
        with hrest | hrest
      · rw [hrest]
        trivial
      · have hlt := hlong hrest
        apply chunksFit_chunkList A.pos
        have hdiv := Nat.div_add_mod t.numFullSlots A.blockSize
        have hsum : t.numFullSlots + (A.blockSize - t.numFullSlots % A.blockSize) =
            A.blockSize * (t.numFullSlots / A.blockSize + 1) := by
          rw [Nat.mul_add, Nat.mul_one]
          omega
        rw [List.length_take, Nat.min_eq_left hlt.le, hsum, Nat.mul_mod_right]

/-- What a call on a table leaves: the table with its tokens, and the other blocks as they were. -/
structure Kept (A : Allocator σ) (Inv : σ → Finset PoolId → Prop) (s s' : σ) (D : Finset PoolId)
    (t t' : BlockTable) (tokens : List TokenId) : Prop where
  table : TableOk A s' t' tokens
  inv : Inv s' (D ∪ t'.blocks.toFinset)
  new : ∀ x ∈ t'.blocks, x ∈ t.blocks ∨ x ∉ D
  frame : ∀ x ∈ D, x ∉ t.blocks → A.block s' x = A.block s x

theorem ensureNumEmptySlots_spec (hA : Lawful A Inv) (hi : Inv s D) (ht : TableOk A s t tokens)
    (hsub : ∀ x ∈ t.blocks, x ∈ D) {k : ℕ} (h : Returns (t.ensureNumEmptySlots A k extraHash) s t' s') :
    ∃ new, t'.blocks = t.blocks ++ new ∧ (∀ x ∈ new, x ∉ D) ∧ t'.numFullSlots = t.numFullSlots ∧
      Inv s' (D ∪ new.toFinset) ∧ (∀ x ∈ D, A.block s' x = A.block s x) ∧
      ChainHolds A.ownIds A.blockSize (A.block s') t'.blocks tokens ∧
      (t'.blocks.map fun o => (A.block s' o).blockId) = t'.blockIds.map some := by
  simp only [ensureNumEmptySlots, returns_bind, returns_fromExcept] at h
  obtain ⟨-, s₁, ⟨-, rfl⟩, h⟩ := h
  split_ifs at h with henough
  · obtain ⟨rfl, rfl⟩ := returns_pure.mp h
    refine ⟨[], (List.append_nil _).symm, fun x hx => absurd hx List.not_mem_nil, rfl, ?_, fun _ _ => rfl,
      ht.holds, ht.blockIds⟩
    rw [List.toFinset_nil, Finset.union_empty]
    exact hi
  · obtain ⟨new, hblocks, -, hnew, hnum, hi', hframe, hh', hids'⟩ :=
      appendBlocks_spec hA _ hi ht.holds ht.blockIds hsub h
    exact ⟨new, hblocks, hnew, hnum, hi', hframe, hh', hids'⟩

/-- **`append_token_ids`**. -/
theorem appendTokenIds_spec (hA : Lawful A Inv) (hi : Inv s D) (ht : TableOk A s t tokens)
    (hsub : ∀ x ∈ t.blocks, x ∈ D) {tokenIds : List TokenId} {numLookaheadSlots : ℕ}
    (h : Returns (t.appendTokenIds A tokenIds numLookaheadSlots extraHash) s t' s') :
    (∀ x ∈ t.blocks, x ∈ t'.blocks) ∧ Kept A Inv s s' D t t' (tokens ++ tokenIds) := by
  simp only [appendTokenIds, returns_bind, returns_fromExcept, returns_pure] at h
  obtain ⟨u, s₁, ⟨hassert, rfl⟩, t₁, s₂, hensure, t₂, s₃, hchunks, rfl, rfl⟩ := h
  have hne : t.blocks ≠ [] := assert_eq_ok.mp hassert
  obtain ⟨new, hblocks, hnew, hnum, hi₁, hframe₁, hh₁, hids₁⟩ := ensureNumEmptySlots_spec hA hi ht hsub hensure
  have hfull := ht.numFullSlots hne
  have hsub₁ : ∀ x ∈ t₁.blocks, x ∈ D ∪ new.toFinset := by
    intro x hx
    rw [hblocks] at hx
    rcases List.mem_append.mp hx with hx | hx
    · exact Finset.mem_union_left _ (hsub x hx)
    · exact Finset.mem_union_right _ (List.mem_toFinset.mpr hx)
  have hfit := chunksFit_chunkTokenBlocks (A := A) t₁ tokenIds
  rw [hnum, hfull] at hfit hchunks
  obtain ⟨hblocks₂, hnum₂, hi₂, hh₂, hids₂, hother⟩ :=
    appendChunks_spec hA _ hi₁ hh₁ hids₁ hsub₁ hfit (fun _ => rfl) hchunks
  rw [flatten_chunkTokenBlocks] at hh₂
  refine ⟨fun x hx => ?_, ⟨hh₂, hids₂, fun _ => ?_⟩, ?_, ?_, ?_⟩
  · show x ∈ t₂.blocks
    rw [hblocks₂, hblocks]
    exact List.mem_append_left _ hx
  · show t₂.numFullSlots + tokenIds.length = _
    rw [hnum₂, hnum, hfull, List.length_append]
  · have hunion : D ∪ t₂.blocks.toFinset = D ∪ new.toFinset := by
      rw [hblocks₂, hblocks, List.toFinset_append, ← Finset.union_assoc,
        Finset.union_eq_left.mpr fun x hx => hsub x (List.mem_toFinset.mp hx)]
    show Inv s' (D ∪ t₂.blocks.toFinset)
    rw [hunion]
    exact hi₂
  · intro x hx
    change x ∈ t₂.blocks at hx
    rw [hblocks₂, hblocks] at hx
    rcases List.mem_append.mp hx with hx | hx
    · exact Or.inl hx
    · exact Or.inr (hnew x hx)
  · intro x hx hnot
    have hnot₁ : x ∉ t₁.blocks := by
      rw [hblocks]
      intro hmem
      rcases List.mem_append.mp hmem with hmem | hmem
      · exact hnot hmem
      · exact hnew x hmem hx
    rw [hother x (Finset.mem_union_left _ hx) fun k _ hk => hnot₁ (List.mem_of_getElem? hk), hframe₁ x hx]

theorem filter_full {full tail : List (List TokenId)} {n : ℕ} (hfull : ∀ c ∈ full, c.length = n)
    (htail : tail = [] ∨ ∃ c, tail = [c] ∧ c ≠ [] ∧ c.length < n) :
    ((full ++ tail).filter fun c => c.length = n) = full ∧
      ((full ++ tail).filter fun c => ¬ c.length = n) = tail := by
  have hfull₁ : (full.filter fun c => c.length = n) = full :=
    List.filter_eq_self.mpr fun c hc => decide_eq_true (hfull c hc)
  have hfull₂ : (full.filter fun c => ¬ c.length = n) = [] :=
    List.filter_eq_nil_iff.mpr fun c hc => by simp [hfull c hc]
  rw [List.filter_append, List.filter_append, hfull₁, hfull₂]
  rcases htail with rfl | ⟨c, rfl, -, hlt⟩
  · exact ⟨List.append_nil _, rfl⟩
  · simp [hlt.ne]

/-- The full chunks of a list go to immutable blocks, and the others to a mutable one. -/
theorem allocateBlocks_spec (hA : Lawful A Inv) (hi : Inv s D) {tokenIds : List TokenId} {blocks : List PoolId}
    (h : Returns (allocateBlocksForTokenIds A none tokenIds extraHash) s blocks s') :
    ChainHolds A.ownIds A.blockSize (A.block s') blocks tokenIds ∧ Inv s' (D ∪ blocks.toFinset) ∧ (∀ x ∈ blocks, x ∉ D) ∧
      ∀ x ∈ D, A.block s' x = A.block s x := by
  obtain ⟨full, tail, hchunks, hfull, htail⟩ := chunkList_split A.pos (l := tokenIds)
  obtain ⟨hfilter₁, hfilter₂⟩ := filter_full hfull htail
  have hflat : full.flatten ++ tail.flatten = tokenIds := by
    rw [← List.flatten_append, ← hchunks, flatten_chunkList A.pos]
  simp only [allocateBlocksForTokenIds, hchunks, hfilter₁, hfilter₂, returns_bind] at h
  obtain ⟨⟨imm, prevBlock⟩, s₁, himm, h⟩ := h
  -- the immutable blocks, if there are any
  have hone : ChainHolds A.ownIds A.blockSize (A.block s₁) imm full.flatten ∧ imm.length = full.length ∧
      prevBlock = imm.getLast? ∧ (∀ x ∈ imm, x ∉ D) ∧ Inv s₁ (D ∪ imm.toFinset) ∧
      ∀ x ∈ D, A.block s₁ x = A.block s x := by
    split_ifs at himm with hnil
    · obtain ⟨heq, rfl⟩ := returns_pure.mp himm
      cases heq
      rw [hnil, List.toFinset_nil, Finset.union_empty]
      exact ⟨.nil _ _ _, rfl, rfl, fun x hx => absurd hx List.not_mem_nil, hi, fun _ _ => rfl⟩
    · simp only [returns_bind, returns_fromExcept, ofOption_eq_ok, returns_pure] at himm
      obtain ⟨bs, s₂, hbs, last, s₃, ⟨hlast, rfl⟩, heq, rfl⟩ := himm
      cases heq
      obtain ⟨hh, hlen, hnew, hi₁, hframe⟩ := hA.allocateImmutable hi hfull hbs
      exact ⟨hh, hlen, hlast.symm, hnew, hi₁, hframe⟩
  obtain ⟨hh₁, hlen₁, rfl, hnew₁, hi₁, hframe₁⟩ := hone
  rcases htail with rfl | ⟨c, rfl, hc, hlt⟩
  · obtain ⟨rfl, rfl⟩ := returns_pure.mp h
    rw [List.flatten_nil, List.append_nil] at hflat
    rw [hflat] at hh₁
    exact ⟨hh₁, hi₁, hnew₁, hframe₁⟩
  · simp only [returns_bind, returns_fromExcept, returns_pure] at h
    obtain ⟨-, s₂, ⟨-, rfl⟩, o, s₃, hmut, u, s₄, happ, rfl, rfl⟩ := h
    have hsub₁ : ∀ x ∈ imm, x ∈ D ∪ imm.toFinset := fun x hx =>
      Finset.mem_union_right _ (List.mem_toFinset.mpr hx)
    obtain ⟨ho, hi₃, hframe₃, hprev, htokens, hheld, hfresh⟩ := hA.allocateMutable hi₁ hh₁ hsub₁ hmut
    have hh₃ : ChainHolds A.ownIds A.blockSize (A.block s₃) (imm ++ [o]) full.flatten := by
      apply (hh₁.congr fun x hx => hframe₃ x (hsub₁ x hx)).snoc (fun hmem => ho (hsub₁ o hmem)) hprev htokens hheld
      intro hown x hx
      rw [hframe₃ x (hsub₁ x hx)]
      exact hfresh hown x hx
    -- the immutable blocks are full, so the tail goes to the new block
    have hfulllen : full.flatten.length = A.blockSize * full.length := by
      rw [List.length_flatten, List.map_congr_left hfull, List.map_const', List.sum_replicate_nat,
        Nat.mul_comm]
    have hidx : (imm ++ [o])[full.flatten.length / A.blockSize]? = some o := by
      rw [hfulllen, Nat.mul_div_cancel_left _ A.pos, ← hlen₁, List.getElem?_concat_length]
    have hsub₃ : ∀ x ∈ imm ++ [o], x ∈ insert o (D ∪ imm.toFinset) := by
      intro x hx
      rcases List.mem_append.mp hx with hx | hx
      · exact Finset.mem_insert_of_mem (hsub₁ x hx)
      · rw [List.mem_singleton.mp hx]
        exact Finset.mem_insert_self _ _
    have hfit : full.flatten.length % A.blockSize + c.length ≤ A.blockSize := by
      rw [hfulllen, Nat.mul_mod_right, Nat.zero_add]
      exact hlt.le
    obtain ⟨hi', hframe', hprev', htokens', hheld', hfresh'⟩ :=
      hA.appendTokenIds hi₃ hh₃ hsub₃ hidx hc hfit happ
    have hh' := hh₃.write hidx hfit (fun x hx => hframe' x (hsub₃ x hx)) hprev' htokens' hheld' hfresh'
    rw [List.flatten_cons, List.flatten_nil, List.append_nil] at hflat
    rw [hflat] at hh'
    have hset : D ∪ (imm ++ [o]).toFinset = insert o (D ∪ imm.toFinset) := by
      ext x
      simp only [Finset.mem_union, List.mem_toFinset, List.mem_append, List.mem_singleton, Finset.mem_insert]
      tauto
    have hoD : o ∉ D := fun hD => ho (Finset.mem_union_left _ hD)
    rw [hset]
    refine ⟨hh', hi', fun x hx => ?_, fun x hx => ?_⟩
    · rcases List.mem_append.mp hx with hx | hx
      · exact hnew₁ x hx
      · rw [List.mem_singleton.mp hx]
        exact hoD
    · have hxo : x ≠ o := by
        rintro rfl
        exact hoD hx
      rw [hframe' x (Finset.mem_insert_of_mem (Finset.mem_union_left _ hx)) hxo,
        hframe₃ x (Finset.mem_union_left _ hx), hframe₁ x hx]

/-- **`allocate`**. -/
theorem allocate_spec (hA : Lawful A Inv) (hi : Inv s D) {tokenIds : List TokenId}
    (h : Returns (t.allocate A tokenIds extraHash) s t' s') : t.blocks = [] ∧ t'.blocks ≠ [] ∧
      Kept A Inv s s' D t t' tokenIds := by
  simp only [allocate, returns_bind, returns_fromExcept, returns_pure] at h
  obtain ⟨u, s₁, ⟨hempty, rfl⟩, u', s₂, ⟨htokens, rfl⟩, blocks, s₃, hblocks, t₁, s₄, hupdate, rfl, rfl⟩ := h
  obtain ⟨hh, hi', hnew, hframe⟩ := allocateBlocks_spec hA hi hblocks
  obtain ⟨rfl, rfl, -, hids⟩ := returns_update hupdate
  refine ⟨assert_eq_ok.mp hempty, fun hnil => ?_, ⟨⟨hh, hids, fun _ => rfl⟩, hi', fun x hx => Or.inr (hnew x hx),
    fun x hx _ => hframe x hx⟩⟩
  change t₁.blocks = [] at hnil
  have hfits := hh.fits
  rw [hnil, List.length_nil, Nat.zero_mul] at hfits
  exact assert_eq_ok.mp htokens (List.eq_nil_of_length_eq_zero (Nat.le_zero.mp hfits))

/-- **`fork`**. -/
theorem fork_spec (hA : Lawful A Inv) (hi : Inv s D) (ht : TableOk A s t tokens) (hsub : ∀ x ∈ t.blocks, x ∈ D)
    (h : Returns (t.fork A) s t' s') : t.blocks ≠ [] ∧ t'.blockIds = t.blockIds ∧
      Kept A Inv s s' D init t' tokens := by
  simp only [fork, returns_bind, returns_fromExcept, ofOption_eq_ok, returns_get, returns_pure] at h
  obtain ⟨last, s₁, ⟨hlast, rfl⟩, forked, s₂, hfork, t₁, s₃, hupdate, s₄, s₅, ⟨rfl, rfl⟩, rfl, rfl⟩ := h
  obtain ⟨hh, hnew, hi', hframe, hsame⟩ := hA.fork hi ht.holds hsub hlast hfork
  obtain ⟨rfl, rfl, -, hids⟩ := returns_update hupdate
  refine ⟨?_, ?_, ⟨⟨hh, hids, fun _ => ?_⟩, hi', fun x hx => Or.inr (hnew x hx), fun x hx _ => hframe x hx⟩⟩
  · rintro hnil
    rw [hnil] at hlast
    cases hlast
  · rw [hsame, ht.blockIds] at hids
    exact (List.map_injective_iff.mpr (Option.some_injective _) hids).symm
  · have hlen := congrArg List.length hh.flatMap_tokenIds
    rw [List.length_flatMap] at hlen
    exact hlen

end BlockTable

end SpaceServe
