import SpaceServe.KVCache.Accounting

/-!
# The free queue is a list

`FreeKVCacheBlockQueue` of `vllm/v1/core/kv_cache_utils.py`, from any list of blocks. Its links stand in the
blocks themselves. A block is known by its `block_id`: blocks are compared as dataclass values, of which the id is
the first field.

* `ofBlocks`, `QueueOp`, `runQueue`: the queue; `runOnList`: the same operations on a list;
* `rep_ofBlocks`: what the loop of `__init__` links; `ofBlocks_range`: the queue of a manager;
* `LooksLike`, **`queue_refines_list`**.
-/

set_option autoImplicit false

namespace SpaceServe

open Py LinkedList

namespace FreeKVCacheBlockQueue

/-! ## The model -/

/-- A round of the loop of `__init__`. -/
def linkBlock (blocks : List ℕ) (q : Links ℕ) (i : ℕ) : Links ℕ :=
  match blocks[i]? with
  | none => q
  | some b => { q with
      prev := if 0 < i then Function.update q.prev b blocks[i - 1]? else q.prev
      next := if i < blocks.length - 1 then Function.update q.next b blocks[i + 1]? else q.next }

/-- `__init__`, for blocks that are not linked. -/
def ofBlocks (blocks : List ℕ) : Except Exn FreeKVCacheBlockQueue := do
  let head ← ofOption (.indexError "list index out of range") blocks.head?
  let tail ← ofOption (.indexError "list index out of range") blocks.getLast?
  .ok {
    links := (List.range blocks.length).foldl (linkBlock blocks) ⟨some head, some tail, fun _ => none, fun _ => none⟩
    numFreeBlocks := blocks.length }

/-- Follow `prev_free_block` from the tail, for at most `fuel` blocks. -/
def walkBack (q : FreeKVCacheBlockQueue) (fuel : ℕ) : Option (List ℕ) := q.links.reversed.walk fuel q.links.tail

end FreeKVCacheBlockQueue

/-- The operations. -/
inductive QueueOp
  | popleft
  | remove (block : ℕ)
  | append (block : ℕ)

namespace QueueOp

/-- On the queue, with the block that comes out. -/
def onQueue (q : FreeKVCacheBlockQueue) : QueueOp → Except Exn (FreeKVCacheBlockQueue × List ℕ)
  | popleft => do
    let (block, q) ← q.popleft
    .ok (q, [block])
  | remove block => .ok (q.remove block, [])
  | append block => do
    let q ← q.append block
    .ok (q, [])

/-- On a list, where the operation may be called. -/
def onList : List ℕ → QueueOp → Option (List ℕ × List ℕ)
  | [], popleft => none
  | block :: l, popleft => some (l, [block])
  | l, remove block => if block ∈ l then some (l.erase block, []) else none
  | l, append block => if block ∈ l then none else some (l ++ [block], [])

end QueueOp

namespace QueueOp

/-- Operations on a queue, with the blocks that come out. -/
def runOnQueue (q : FreeKVCacheBlockQueue) : List QueueOp → Except Exn (FreeKVCacheBlockQueue × List ℕ)
  | [] => .ok (q, [])
  | op :: ops => do
    let (q, popped) ← op.onQueue q
    let (q, rest) ← runOnQueue q ops
    .ok (q, popped ++ rest)

/-- The same operations on a list. -/
def runOnList (l : List ℕ) : List QueueOp → Option (List ℕ × List ℕ)
  | [] => some (l, [])
  | op :: ops => do
    let (l, popped) ← op.onList l
    let (l, rest) ← runOnList l ops
    some (l, popped ++ rest)

end QueueOp

/-- Operations on a new queue. -/
def runQueue (blocks : List ℕ) (ops : List QueueOp) : Except Exn (FreeKVCacheBlockQueue × List ℕ) := do
  let q ← FreeKVCacheBlockQueue.ofBlocks blocks
  QueueOp.runOnQueue q ops

/-! ## The initial links -/

namespace FreeKVCacheBlockQueue

variable {blocks : List ℕ} {q : FreeKVCacheBlockQueue}

/-- After some rounds the blocks before are linked. -/
theorem foldl_linkBlock (hnd : blocks.Nodup) (q : Links ℕ) (hprev : ∀ b, q.prev b = none)
    (hnext : ∀ b, q.next b = none) : ∀ k ≤ blocks.length,
    let q' := (List.range k).foldl (linkBlock blocks) q
    q'.head = q.head ∧ q'.tail = q.tail ∧
      ∀ b, (∀ i < k, blocks[i]? = some b → q'.prev b = (if i = 0 then none else blocks[i - 1]?) ∧
          q'.next b = blocks[i + 1]?) ∧
        ((∀ i < k, blocks[i]? ≠ some b) → q'.prev b = none ∧ q'.next b = none)
  | 0, _ => ⟨rfl, rfl, fun b => ⟨fun i hi => absurd hi (Nat.not_lt_zero i), fun _ => ⟨hprev b, hnext b⟩⟩⟩
  | k + 1, hk => by
    intro q'
    obtain ⟨hhead, htail, hlinks⟩ := foldl_linkBlock hnd q hprev hnext k (Nat.le_of_succ_le hk)
    have hq' : q' = linkBlock blocks ((List.range k).foldl (linkBlock blocks) q) k := by
      show (List.range (k + 1)).foldl (linkBlock blocks) q = _
      rw [List.range_succ, List.foldl_append]
      rfl
    generalize (List.range k).foldl (linkBlock blocks) q = q₁ at hhead htail hlinks hq'
    obtain ⟨a, ha⟩ : ∃ a, blocks[k]? = some a := ⟨_, List.getElem?_eq_getElem hk⟩
    rw [hq']
    simp only [linkBlock, ha]
    refine ⟨hhead, htail, fun b => ?_⟩
    rcases eq_or_ne b a with rfl | hne
    · -- the block of this round was not linked before
      have hold := (hlinks b).2 fun i hi hb => hi.ne (index_unique hnd hb ha)
      refine ⟨fun i _ hb => ?_, fun hnot => absurd ha (hnot k (Nat.lt_succ_self k))⟩
      have hik : i = k := index_unique hnd hb ha
      subst hik
      constructor
      · split_ifs with hpos hz hz
        · omega
        · exact Function.update_self _ _ _
        · exact hold.1
        · omega
      · split_ifs with hlt
        · exact Function.update_self _ _ _
        · rw [hold.2, List.getElem?_eq_none (by omega)]
    · have hsame : ∀ (f g : ℕ → Option ℕ) (p : Prop) [Decidable p] (x : Option ℕ), f b = g b →
          (if p then Function.update f a x else f) b = g b := by
        intro f g p _ x h
        split_ifs
        · rw [Function.update_of_ne hne, h]
        · exact h
      refine ⟨fun i hi hb => ?_, fun hnot => ?_⟩
      · have hik : i ≠ k := by
          rintro rfl
          rw [ha] at hb
          exact hne (Option.some.inj hb).symm
        obtain ⟨hp, hn⟩ := (hlinks b).1 i (by omega) hb
        exact ⟨(hsame _ q₁.prev _ _ rfl).trans hp, (hsame _ q₁.next _ _ rfl).trans hn⟩
      · obtain ⟨hp, hn⟩ := (hlinks b).2 fun i hi => hnot i (Nat.lt_succ_of_lt hi)
        exact ⟨(hsame _ q₁.prev _ _ rfl).trans hp, (hsame _ q₁.next _ _ rfl).trans hn⟩

/-- **The loop of `__init__` links the blocks up.** -/
theorem rep_ofBlocks (hne : blocks ≠ []) (hnd : blocks.Nodup) :
    ∃ q, ofBlocks blocks = .ok q ∧ q.links.Rep blocks ∧ q.numFreeBlocks = blocks.length := by
  obtain ⟨head, hhead⟩ : ∃ b, blocks.head? = some b := Option.isSome_iff_exists.mp (List.isSome_head?.mpr hne)
  obtain ⟨tail, htail⟩ : ∃ b, blocks.getLast? = some b :=
    ⟨_, List.getLast?_eq_some_getLast hne⟩
  obtain ⟨h₁, h₂, hlinks⟩ := foldl_linkBlock hnd ⟨some head, some tail, fun _ => none, fun _ => none⟩
    (fun _ => rfl) (fun _ => rfl) blocks.length (le_refl _)
  refine ⟨_, by rw [ofBlocks, hhead, htail]; rfl, ⟨hnd, ?_, ?_, fun i b hi => ?_, fun i b hi => ?_,
    fun b hb => ?_, fun b hb => ?_⟩, rfl⟩
  · rw [h₁, ← hhead, List.head?_eq_getElem?]
  · rw [h₂, ← htail, if_neg hne, List.getLast?_eq_getElem?]
  · exact ((hlinks b).1 i (List.getElem?_eq_some_iff.mp hi).1 hi).1
  · exact ((hlinks b).1 i (List.getElem?_eq_some_iff.mp hi).1 hi).2
  · exact ((hlinks b).2 fun i _ hi => hb (List.mem_of_getElem? hi)).1
  · exact ((hlinks b).2 fun i _ hi => hb (List.mem_of_getElem? hi)).2

/-- The queue that a manager starts with. -/
theorem ofBlocks_range {n : ℕ} (hn : 0 < n) : ofBlocks (List.range n) = .ok (init n) := by
  obtain ⟨q, hq, hrep, hnum⟩ := rep_ofBlocks (fun h => hn.ne' (List.range_eq_nil.mp h)) List.nodup_range
  have hlinks : q.links = (init n).links := hrep.unique (KVCacheManager.rep_init n)
  rw [List.length_range] at hnum
  rw [hq]
  cases q
  congr

end FreeKVCacheBlockQueue

/-! ## Refinement -/

/-- What is seen of a queue is a list. -/
structure LooksLike (q : FreeKVCacheBlockQueue) (l : List ℕ) : Prop where
  forwards : ∀ fuel, l.length ≤ fuel → q.getAllFreeBlocks fuel = some l
  backwards : ∀ fuel, l.length ≤ fuel → q.walkBack fuel = some l.reverse
  num : q.numFreeBlocks = l.length
  unlinked : ∀ b ∉ l, q.links.prev b = none ∧ q.links.next b = none

section Refinement

variable {q : FreeKVCacheBlockQueue} {l l' out : List ℕ}

theorem looksLike (h : q.links.Rep l) (hnum : q.numFreeBlocks = l.length) : LooksLike q l where
  forwards _ hfuel := h.walk_head hfuel
  backwards _ hfuel := h.reversed.walk_head (by rw [List.length_reverse]; exact hfuel)
  num := hnum
  unlinked b hb := ⟨h.prev_out b hb, h.next_out b hb⟩

theorem length_erase {b : ℕ} (hb : b ∈ l) : (((l.erase b).length : ℕ) : ℤ) = l.length - 1 := by
  have hpos := List.length_pos_of_mem hb
  rw [List.length_erase_of_mem hb]
  omega

/-- **One operation** does to the links what it does to the list. -/
theorem QueueOp.onQueue_spec {op : QueueOp} (h : q.links.Rep l) (hnum : q.numFreeBlocks = l.length)
    (hop : op.onList l = some (l', out)) : ∃ q', op.onQueue q = .ok (q', out) ∧ q'.links.Rep l' ∧
      q'.numFreeBlocks = l'.length := by
  cases op with
  | popleft =>
    cases l with
    | nil => cases hop
    | cons b l =>
      cases hop
      have hhead : q.links.head = some b := h.head_eq
      have hrep := h.unlink List.mem_cons_self
      rw [List.erase_cons_head] at hrep
      refine ⟨q.remove b, ?_, hrep, ?_⟩
      · simp only [QueueOp.onQueue, FreeKVCacheBlockQueue.popleft, hhead, ok_bind]
      · show q.numFreeBlocks - 1 = _
        rw [hnum, List.length_cons]
        omega
  | remove b =>
    simp only [QueueOp.onList] at hop
    split_ifs at hop with hb
    cases hop
    refine ⟨q.remove b, rfl, h.unlink hb, ?_⟩
    show q.numFreeBlocks - 1 = _
    rw [hnum, length_erase hb]
  | append b =>
    simp only [QueueOp.onList] at hop
    split_ifs at hop with hb
    cases hop
    have hassert : q.links.tail = none → q.links.head = none := fun htail =>
      h.head_eq_none_iff.mpr (h.tail_eq_none_iff.mp htail)
    refine ⟨⟨q.links.linkLast b, q.numFreeBlocks + 1⟩, ?_, h.linkLast hb, ?_⟩
    · simp only [QueueOp.onQueue, FreeKVCacheBlockQueue.append, assert_of hassert, ok_bind]
    · rw [hnum, List.length_append, List.length_singleton]
      rfl

/-- **A run** of operations. -/
theorem QueueOp.runOnQueue_spec : ∀ (ops : List QueueOp) {q : FreeKVCacheBlockQueue} {l out : List ℕ},
    q.links.Rep l → q.numFreeBlocks = l.length → runOnList l ops = some (l', out) →
    ∃ q', runOnQueue q ops = .ok (q', out) ∧ q'.links.Rep l' ∧ q'.numFreeBlocks = l'.length
  | [], q, l, out, hrep, hnum, h => by
    cases h
    exact ⟨q, rfl, hrep, hnum⟩
  | op :: ops, q, l, out, hrep, hnum, h => by
    obtain ⟨⟨l₁, popped⟩, hone, h⟩ := Option.bind_eq_some_iff.mp h
    obtain ⟨⟨l₂, rest⟩, hrest, h⟩ := Option.bind_eq_some_iff.mp h
    cases h
    obtain ⟨q₁, hq₁, hrep₁, hnum₁⟩ := onQueue_spec hrep hnum hone
    obtain ⟨q₂, hq₂, hrep₂, hnum₂⟩ := runOnQueue_spec ops hrep₁ hnum₁ hrest
    exact ⟨q₂, by simp only [runOnQueue, hq₁, hq₂, ok_bind], hrep₂, hnum₂⟩

/-- **The free queue refines a list**, with the blocks that come out. -/
theorem queue_refines_list {blocks : List ℕ} (hne : blocks ≠ []) (hnd : blocks.Nodup) {ops : List QueueOp}
    (hrun : QueueOp.runOnList blocks ops = some (l, out)) :
    ∃ q, runQueue blocks ops = .ok (q, out) ∧ LooksLike q l := by
  obtain ⟨q₀, hq₀, hrep₀, hnum₀⟩ := FreeKVCacheBlockQueue.rep_ofBlocks hne hnd
  obtain ⟨q, hq, hrep, hnum⟩ := QueueOp.runOnQueue_spec ops hrep₀ hnum₀ hrun
  exact ⟨q, by rw [runQueue, hq₀, ok_bind, hq], looksLike hrep hnum⟩

/-- Through the empty queue: both blocks are taken out, one at the tail, and one comes back. -/
theorem queue_refines_list_through_empty : ∃ q,
    runQueue [3, 7] [.remove 7, .popleft, .append 3, .append 7] = .ok (q, [3]) ∧ LooksLike q [3, 7] :=
  queue_refines_list (by decide) (by decide) rfl

end Refinement

end SpaceServe
