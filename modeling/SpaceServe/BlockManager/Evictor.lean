import Mathlib.Data.Prod.Lex
import SpaceServe.Lib.Dict
import SpaceServe.Lib.Heapq
import SpaceServe.Request

/-!
# The evictor of cached blocks

`LRUEvictor` of `vllm/core/evictor.py`. The blocks that can be evicted stand in a table; a heap with
their access times finds the next one. Writing a new access time and taking a block out leave the heap
as it is: an entry counts as outdated when its time is not the one in the table.

* `BlockMetaData`, `HeapEntry`, `LRUEvictor`: the model;
* `evict_spec`: what comes out of the heap;
* `OwnEntries`: every block of the table is found under its own entry; `OwnEntries.evict`;
* `EvictorRun`, `Clear`: runs of calls in which no outdated entry gets in the way of a block's own;
  **`evicts_least_recent`**.
-/

set_option autoImplicit false

namespace SpaceServe

open Py

/-- Physical block ids. -/
abbrev BlockId := ℕ

/-! ## The model -/

/-- `BlockMetaData`. -/
structure BlockMetaData where
  contentHash : ℤ
  numHashedTokens : ℕ
  lastAccessed : ℚ
deriving DecidableEq

/-- An entry of the heap: `(last_accessed, -num_hashed_tokens, block_id, content_hash)`. -/
structure HeapEntry where
  lastAccessed : ℚ
  negNumHashedTokens : ℤ
  blockId : BlockId
  contentHash : ℤ
deriving DecidableEq

namespace HeapEntry

/-- The entry as a tuple. -/
def tuple (e : HeapEntry) : ℚ ×ₗ ℤ ×ₗ BlockId ×ₗ ℤ :=
  toLex (e.lastAccessed, toLex (e.negNumHashedTokens, toLex (e.blockId, e.contentHash)))

theorem tuple_injective : Function.Injective tuple := by
  rintro ⟨t, n, b, h⟩ ⟨t', n', b', h'⟩ heq
  simp only [tuple, EmbeddingLike.apply_eq_iff_eq, Prod.mk.injEq] at heq
  obtain ⟨rfl, rfl, rfl, rfl⟩ := heq
  rfl

/-- Tuples compare component by component. -/
instance : LinearOrder HeapEntry := LinearOrder.lift' tuple tuple_injective

theorem le_iff {e e' : HeapEntry} : e ≤ e' ↔ e.lastAccessed < e'.lastAccessed ∨
    e.lastAccessed = e'.lastAccessed ∧ (e.negNumHashedTokens < e'.negNumHashedTokens ∨
      e.negNumHashedTokens = e'.negNumHashedTokens ∧ (e.blockId < e'.blockId ∨
        e.blockId = e'.blockId ∧ e.contentHash ≤ e'.contentHash)) := by
  change e.tuple ≤ e'.tuple ↔ _
  simp only [tuple, Prod.Lex.toLex_le_toLex]

end HeapEntry

/-- The heap entry of a block of the table. -/
def BlockMetaData.entry (block : BlockMetaData) (blockId : BlockId) : HeapEntry :=
  ⟨block.lastAccessed, -block.numHashedTokens, blockId, block.contentHash⟩

/-- The block is evicted before another one: it was used less recently, or at the same time and it is
further from the beginning of its sequence. -/
def BlockMetaData.EvictedBefore (block block' : BlockMetaData) : Prop :=
  block.lastAccessed < block'.lastAccessed ∨
    block.lastAccessed = block'.lastAccessed ∧ block'.numHashedTokens ≤ block.numHashedTokens

theorem BlockMetaData.evictedBefore_of_le {block block' : BlockMetaData} {b b' : BlockId}
    (hle : block.entry b ≤ block'.entry b') : EvictedBefore block block' := by
  obtain hlt | ⟨heq, hlt | ⟨hn, -⟩⟩ := HeapEntry.le_iff.mp hle
  · exact Or.inl hlt
  · refine Or.inr ⟨heq, ?_⟩
    simp only [BlockMetaData.entry] at hlt
    omega
  · refine Or.inr ⟨heq, ?_⟩
    simp only [BlockMetaData.entry] at hn
    omega

/-- `LRUEvictor`. -/
structure LRUEvictor where
  freeTable : Dict BlockId BlockMetaData
  priorityQueue : List HeapEntry
deriving DecidableEq

namespace LRUEvictor

/-- `CLEANUP_THRESHOLD`. -/
def cleanupThreshold : ℕ := 50

/-- `LRUEvictor.__init__`. -/
def init : LRUEvictor := ⟨.empty, []⟩

variable (e : LRUEvictor)

/-- `num_blocks`. -/
def numBlocks : ℕ := e.freeTable.entries.length

/-- `block_id in evictor`. -/
def contains (blockId : BlockId) : Bool := e.freeTable.contains blockId

/-- Outdated entries are either not in the free table, or have another access time. -/
def isLive (entry : HeapEntry) : Bool :=
  (e.freeTable.get? entry.blockId).any fun block => block.lastAccessed = entry.lastAccessed

/-- The `ValueError` of an empty evictor. -/
def noUsableMemory : Exn := .valueError "No usable cache memory left"

/-- `evict`. Every round of its loop takes an entry from the heap. -/
def evict : Except Exn ((BlockId × ℤ) × LRUEvictor) :=
  if e.freeTable.entries = [] then .error noUsableMemory
  else do
    match ← heappopLive e.isLive e.priorityQueue.length e.priorityQueue with
    | some (entry, priorityQueue) =>
      .ok ((entry.blockId, entry.contentHash), ⟨e.freeTable.pop entry.blockId, priorityQueue⟩)
    | none => .error noUsableMemory

/-- `_cleanup`: a heap with nothing but the entries of the table. -/
def cleanup : LRUEvictor :=
  { e with priorityQueue := e.freeTable.entries.map fun p => p.2.entry p.1 }

/-- `_cleanup_if_necessary`. -/
def cleanupIfNecessary : LRUEvictor :=
  if cleanupThreshold * e.freeTable.entries.length < e.priorityQueue.length then e.cleanup else e

/-- `add`. -/
def add (blockId : BlockId) (contentHash : ℤ) (numHashedTokens : ℕ) (lastAccessed : ℚ) : LRUEvictor :=
  let block : BlockMetaData := ⟨contentHash, numHashedTokens, lastAccessed⟩
  cleanupIfNecessary
    ⟨e.freeTable.set blockId block, heappush e.priorityQueue (block.entry blockId)⟩

/-- `update`. -/
def update (blockId : BlockId) (lastAccessed : ℚ) : Except Exn LRUEvictor := do
  let block ← ofOption .keyError (e.freeTable.get? blockId)
  .ok { e with freeTable := e.freeTable.set blockId { block with lastAccessed } }

/-- `remove`. -/
def remove (blockId : BlockId) : Except Exn LRUEvictor :=
  if e.contains blockId then .ok { e with freeTable := e.freeTable.pop blockId }
  else .error (.valueError "Attempting to remove block that's not in the evictor")

variable {e} {e' : LRUEvictor} {b : BlockId} {h : ℤ} {n : ℕ} {t : ℚ} {block : BlockMetaData}

theorem isLive_iff {entry : HeapEntry} : e.isLive entry = true ↔
    ∃ block, e.freeTable.get? entry.blockId = some block ∧ block.lastAccessed = entry.lastAccessed := by
  simp [isLive, Option.any_eq_true]

theorem contains_iff : e.contains b = true ↔ ∃ block, e.freeTable.get? b = some block := by
  rw [contains, Dict.contains, Option.isSome_iff_exists]

theorem entry_isLive (hb : e.freeTable.get? b = some block) : e.isLive (block.entry b) = true :=
  isLive_iff.mpr ⟨block, hb, rfl⟩

theorem entries_ne_nil (hb : e.freeTable.get? b = some block) : e.freeTable.entries ≠ [] :=
  List.ne_nil_of_mem ((e.freeTable.mem_entries b block).mpr hb)

/-! ## Eviction -/

/-- What `evict` returns is a least live entry of the heap; the live entries of other blocks stay. -/
theorem evict_spec (hev : e.evict = .ok ((b, h), e')) :
    ∃ entry, entry ∈ e.priorityQueue ∧ e.isLive entry = true ∧ entry.blockId = b ∧
      entry.contentHash = h ∧ (∀ x ∈ e.priorityQueue, e.isLive x = true → entry ≤ x) ∧
      e'.freeTable = e.freeTable.pop b ∧ (∀ x ∈ e'.priorityQueue, x ∈ e.priorityQueue) ∧
      ∀ x ∈ e.priorityQueue, e.isLive x = true → x ≠ entry → x ∈ e'.priorityQueue := by
  unfold evict at hev
  split_ifs at hev
  obtain ⟨r, hpop, hev⟩ := bind_eq_ok.mp hev
  match r, hpop, hev with
  | some (entry, rest), hpop, hev =>
    cases hev
    obtain ⟨hmem, hlive, hle, hback, hkept⟩ := heappopLive_spec hpop
    exact ⟨entry, hmem, hlive, rfl, rfl, hle, rfl, hback, hkept⟩

/-- With a live entry in the heap `evict` returns. -/
theorem evict_total {entry : HeapEntry} (hmem : entry ∈ e.priorityQueue)
    (hlive : e.isLive entry = true) : ∃ r, e.evict = .ok r := by
  obtain ⟨block, hb, -⟩ := isLive_iff.mp hlive
  obtain ⟨r, hr⟩ : ∃ r, heappopLive e.isLive e.priorityQueue.length e.priorityQueue = .ok r :=
    heappopLive_total (le_refl _)
  rw [evict, if_neg (entries_ne_nil hb), hr, ok_bind]
  cases r with
  | some r => exact ⟨_, rfl⟩
  | none =>
    have := heappopLive_dead hr entry hmem
    rw [hlive] at this
    cases this

/-- Every block of the table is found under its own entry: the entry is in the heap, and no outdated
one with the same time stands before it. -/
def OwnEntries (e : LRUEvictor) : Prop := ∀ b block, e.freeTable.get? b = some block →
  block.entry b ∈ e.priorityQueue ∧ ∀ x ∈ e.priorityQueue, x.blockId = b →
    x.lastAccessed = block.lastAccessed → block.entry b ≤ x

/-- **Eviction** of a block that is found under its own entry: the least recently used one. -/
theorem OwnEntries.evict (hown : e.OwnEntries) (hev : e.evict = .ok ((b, h), e')) :
    ∃ block, e.freeTable.get? b = some block ∧ block.contentHash = h ∧
      e'.freeTable = e.freeTable.pop b ∧
      (∀ b' block', e.freeTable.get? b' = some block' → BlockMetaData.EvictedBefore block block') ∧
      e'.OwnEntries := by
  obtain ⟨entry, hmem, hlive, rfl, rfl, hle, hpop, hback, hkept⟩ := evict_spec hev
  obtain ⟨block, hb, htime⟩ := isLive_iff.mp hlive
  obtain ⟨hin, hleast⟩ := hown _ _ hb
  -- the entry that came is the block's own
  have heq : block.entry entry.blockId = entry :=
    le_antisymm (hleast entry hmem rfl htime.symm) (hle _ hin (entry_isLive hb))
  refine ⟨block, hb, congrArg HeapEntry.contentHash heq, hpop, fun b' block' hb' => ?_, ?_⟩
  · have hfirst : block.entry entry.blockId ≤ block'.entry b' := by
      rw [heq]
      exact hle _ (hown b' block' hb').1 (entry_isLive hb')
    exact BlockMetaData.evictedBefore_of_le hfirst
  · intro b' block' hb'
    rw [hpop, Dict.get?_pop] at hb'
    split_ifs at hb' with hne
    obtain ⟨hin', hleast'⟩ := hown b' block' hb'
    refine ⟨hkept _ hin' (entry_isLive hb') fun hx => hne ?_, fun x hx => hleast' x (hback x hx)⟩
    rw [← hx]
    rfl

theorem OwnEntries.evict_total (hown : e.OwnEntries) (hpos : 0 < e.numBlocks) :
    ∃ b h e', e.evict = .ok ((b, h), e') := by
  obtain ⟨p, hp⟩ := List.exists_mem_of_length_pos hpos
  have hb := (e.freeTable.mem_entries p.1 p.2).mp hp
  obtain ⟨⟨⟨b, h⟩, e'⟩, hr⟩ := LRUEvictor.evict_total (hown p.1 p.2 hb).1 (entry_isLive hb)
  exact ⟨b, h, e', hr⟩

/-! ## The other calls -/

theorem ownEntries_init : init.OwnEntries := fun b block hb => by cases hb

/-- After a cleanup the heap holds the entries of the table and no others. -/
theorem ownEntries_cleanup (e : LRUEvictor) : e.cleanup.OwnEntries := by
  intro b block hb
  refine ⟨List.mem_map.mpr ⟨(b, block), (e.freeTable.mem_entries b block).mpr hb, rfl⟩, ?_⟩
  intro x hx hxb _
  obtain ⟨⟨b', block'⟩, hp, rfl⟩ := List.mem_map.mp hx
  have hb' := (e.freeTable.mem_entries b' block').mp hp
  change b' = b at hxb
  subst hxb
  change e.freeTable.get? b' = some block at hb
  rw [hb] at hb'
  cases hb'
  exact le_refl _

theorem cleanupIfNecessary_freeTable (e : LRUEvictor) :
    e.cleanupIfNecessary.freeTable = e.freeTable := by
  unfold cleanupIfNecessary
  split_ifs <;> rfl

theorem OwnEntries.cleanupIfNecessary (hown : e.OwnEntries) : e.cleanupIfNecessary.OwnEntries := by
  unfold LRUEvictor.cleanupIfNecessary
  split_ifs
  · exact ownEntries_cleanup e
  · exact hown

@[simp] theorem add_freeTable : (e.add b h n t).freeTable = e.freeTable.set b ⟨h, n, t⟩ :=
  cleanupIfNecessary_freeTable _

/-- A block that is added is found, if no entry it left behind stands before the new one. -/
theorem OwnEntries.add (hown : e.OwnEntries)
    (hclear : ∀ x ∈ e.priorityQueue, x.blockId = b → x.lastAccessed = t →
      BlockMetaData.entry ⟨h, n, t⟩ b ≤ x) : (e.add b h n t).OwnEntries := by
  refine OwnEntries.cleanupIfNecessary fun b' block' hb' => ?_
  simp only [Dict.get?_set] at hb'
  split_ifs at hb' with hbb
  · cases hb'
    subst hbb
    refine ⟨List.mem_cons_self, fun x hx hxb hxt => ?_⟩
    obtain rfl | hx := mem_heappush.mp hx
    · exact le_refl _
    · exact hclear x hx hxb hxt
  · obtain ⟨hin, hleast⟩ := hown b' block' hb'
    refine ⟨mem_heappush.mpr (Or.inr hin), fun x hx hxb hxt => ?_⟩
    obtain rfl | hx := mem_heappush.mp hx
    · exact absurd hxb.symm hbb
    · exact hleast x hx hxb hxt

theorem remove_eq_ok : e.remove b = .ok e' ↔
    e.contains b = true ∧ e' = { e with freeTable := e.freeTable.pop b } := by
  unfold remove
  split_ifs with hc <;> simp [hc, eq_comm]

theorem OwnEntries.remove (hown : e.OwnEntries) (hrem : e.remove b = .ok e') : e'.OwnEntries := by
  obtain ⟨-, rfl⟩ := remove_eq_ok.mp hrem
  intro b' block' hb'
  simp only [Dict.get?_pop] at hb'
  split_ifs at hb'
  exact hown b' block' hb'

theorem update_eq_ok : e.update b t = .ok e' ↔ ∃ block, e.freeTable.get? b = some block ∧
    e' = { e with freeTable := e.freeTable.set b { block with lastAccessed := t } } := by
  simp only [update, bind_eq_ok, ofOption_eq_ok, Except.ok.injEq]
  exact exists_congr fun _ => and_congr_right fun _ => eq_comm

/-- A block with a new access time is found, if the heap has its entry with that time. -/
theorem OwnEntries.update (hown : e.OwnEntries) (hup : e.update b t = .ok e')
    (hclear : ∀ block, e.freeTable.get? b = some block →
      BlockMetaData.entry { block with lastAccessed := t } b ∈ e.priorityQueue ∧
      ∀ x ∈ e.priorityQueue, x.blockId = b → x.lastAccessed = t →
        BlockMetaData.entry { block with lastAccessed := t } b ≤ x) : e'.OwnEntries := by
  obtain ⟨block, hb, rfl⟩ := update_eq_ok.mp hup
  intro b' block' hb'
  simp only [Dict.get?_set] at hb'
  split_ifs at hb' with hbb
  · cases hb'
    subst hbb
    exact hclear block hb
  · exact hown b' block' hb'

end LRUEvictor

/-! ## Runs -/

/-- The calls of an evictor. -/
inductive EvictorCall
  | add (blockId : BlockId) (contentHash : ℤ) (numHashedTokens : ℕ) (lastAccessed : ℚ)
  | update (blockId : BlockId) (lastAccessed : ℚ)
  | remove (blockId : BlockId)
  | evict

/-- An evictor, with the content hash that each block was last added with. No call reads the latter. -/
structure EvictorRun where
  evictor : LRUEvictor
  addedHash : Dict BlockId ℤ

namespace EvictorRun

/-- A new evictor. -/
def init : EvictorRun := ⟨.init, .empty⟩

/-- A call that returns. -/
def step (s : EvictorRun) : EvictorCall → Except Exn EvictorRun
  | .add blockId contentHash numHashedTokens lastAccessed =>
    .ok ⟨s.evictor.add blockId contentHash numHashedTokens lastAccessed,
      s.addedHash.set blockId contentHash⟩
  | .update blockId lastAccessed => do
    let evictor ← s.evictor.update blockId lastAccessed
    .ok { s with evictor }
  | .remove blockId => do
    let evictor ← s.evictor.remove blockId
    .ok { s with evictor }
  | .evict => do
    let (_, evictor) ← s.evictor.evict
    .ok { s with evictor }

/-- Only a block that is not present is added. -/
def Allowed (s : EvictorRun) : EvictorCall → Prop
  | .add blockId _ _ _ => s.evictor.contains blockId = false
  | _ => True

/-- The entry of the block in the heap is the first of those that the call makes valid. -/
def Clear (s : EvictorRun) : EvictorCall → Prop
  | .add b h n t => ∀ x ∈ s.evictor.priorityQueue, x.blockId = b → x.lastAccessed = t →
      BlockMetaData.entry ⟨h, n, t⟩ b ≤ x
  | .update b t => ∀ block ∈ s.evictor.freeTable.get? b,
      BlockMetaData.entry { block with lastAccessed := t } b ∈ s.evictor.priorityQueue ∧
      ∀ x ∈ s.evictor.priorityQueue, x.blockId = b → x.lastAccessed = t →
        BlockMetaData.entry { block with lastAccessed := t } b ≤ x
  | _ => True

instance (s : EvictorRun) (c : EvictorCall) : Decidable (s.Allowed c) := by
  cases c <;> unfold Allowed <;> infer_instance

instance (s : EvictorRun) (c : EvictorCall) : Decidable (s.Clear c) := by
  cases c <;> unfold Clear <;> infer_instance

/-- Blocks are found under their own entries, with the hash they were last added with. -/
structure Inv (s : EvictorRun) : Prop where
  own : s.evictor.OwnEntries
  hash : ∀ b block, s.evictor.freeTable.get? b = some block →
    s.addedHash.get? b = some block.contentHash

theorem inv_init : init.Inv := ⟨LRUEvictor.ownEntries_init, fun _ _ hb => by cases hb⟩

theorem Inv.step {s s' : EvictorRun} {c : EvictorCall} (hi : s.Inv) (hclear : s.Clear c)
    (hs : s.step c = .ok s') : s'.Inv := by
  cases c with
  | add b h n t =>
    cases hs
    refine ⟨hi.own.add hclear, fun b' block hb' => ?_⟩
    simp only [LRUEvictor.add_freeTable, Dict.get?_set] at hb' ⊢
    split_ifs at hb' ⊢ with hbb
    · cases hb'
      rfl
    · exact hi.hash b' block hb'
  | update b t =>
    obtain ⟨evictor, hup, hs⟩ := bind_eq_ok.mp hs
    cases hs
    refine ⟨hi.own.update hup hclear, fun b' block hb' => ?_⟩
    obtain ⟨old, hb, rfl⟩ := LRUEvictor.update_eq_ok.mp hup
    simp only [Dict.get?_set] at hb'
    split_ifs at hb' with hbb
    · cases hb'
      rw [hbb]
      exact hi.hash b old hb
    · exact hi.hash b' block hb'
  | remove b =>
    obtain ⟨evictor, hrem, hs⟩ := bind_eq_ok.mp hs
    cases hs
    refine ⟨hi.own.remove hrem, fun b' block hb' => ?_⟩
    obtain ⟨-, rfl⟩ := LRUEvictor.remove_eq_ok.mp hrem
    simp only [Dict.get?_pop] at hb'
    split_ifs at hb'
    exact hi.hash b' block hb'
  | evict =>
    obtain ⟨⟨⟨b, h⟩, evictor⟩, hev, hs⟩ := bind_eq_ok.mp hs
    cases hs
    obtain ⟨-, -, -, hpop, -, hown⟩ := hi.own.evict hev
    refine ⟨hown, fun b' block hb' => ?_⟩
    rw [hpop, Dict.get?_pop] at hb'
    split_ifs at hb'
    exact hi.hash b' block hb'

/-- `evict` does what it is for: it returns the block to evict, with the hash it was added with. -/
def EvictsLeastRecent (s : EvictorRun) : Prop :=
  0 < s.evictor.numBlocks → ∃ b h e' block, s.evictor.evict = .ok ((b, h), e') ∧
    s.evictor.freeTable.get? b = some block ∧
    (∀ b' block', s.evictor.freeTable.get? b' = some block' → block.EvictedBefore block') ∧
    s.addedHash.get? b = some h

/-- **Least recently used.** In a run in which no outdated entry gets in the way, `evict` returns
whenever there is a block, namely the least recently used one; of those last used at the same time, one
with the most tokens; and with it the hash that the block was last added with. -/
theorem evicts_least_recent {s : EvictorRun}
    (h : Reachable step (fun s c => s.Allowed c ∧ s.Clear c) init s) : s.EvictsLeastRecent := by
  have hi : s.Inv := h.invariant inv_init fun s c s' hi hc hs => hi.step hc.2 hs
  intro hpos
  obtain ⟨b, hash, e', hev⟩ := hi.own.evict_total hpos
  obtain ⟨block, hb, rfl, -, hleast, -⟩ := hi.own.evict hev
  exact ⟨b, block.contentHash, e', block, hev, hb, hleast, hi.hash b block hb⟩

/-- Two blocks of one access time, of which one was taken out and added again. -/
theorem evicts_least_recent_added_again : ∃ s : EvictorRun, 0 < s.evictor.numBlocks ∧
    s.EvictsLeastRecent := by
  obtain ⟨s, hs, hpos⟩ := exists_reachable step (fun s c => s.Allowed c ∧ s.Clear c) init
    [.add 1 11 16 5, .add 2 22 32 5, .remove 1, .add 1 13 16 7, .update 2 5] (0 < ·.evictor.numBlocks)
    (by decide)
  exact ⟨s, hpos, evicts_least_recent hs⟩

/-- Neither holds without the condition: a block whose access time was written anew is not found, and
one that was added again under another hash at the same time comes with the hash it had before. -/
theorem outdated_entries_get_in_the_way :
    (∃ s, Reachable step Allowed init s ∧ 0 < s.evictor.numBlocks ∧
      s.evictor.evict = .error LRUEvictor.noUsableMemory) ∧
    ∃ s, Reachable step Allowed init s ∧ s.addedHash.get? 1 = some 22 ∧
      ∃ e', s.evictor.evict = .ok ((1, 11), e') := by
  constructor
  · obtain ⟨s, hs, hp⟩ := exists_reachable step Allowed init [.add 1 11 16 5, .update 1 7]
      (fun s => 0 < s.evictor.numBlocks ∧ s.evictor.evict = .error LRUEvictor.noUsableMemory) (by decide)
    exact ⟨s, hs, hp⟩
  · obtain ⟨s, hs, hp⟩ := exists_reachable step Allowed init
      [.add 1 11 32 5, .remove 1, .add 1 22 16 5]
      (fun s => s.addedHash.get? 1 = some 22 ∧
        s.evictor.evict = .ok ((1, 11), ⟨.empty, [⟨5, -16, 1, 22⟩]⟩)) (by decide)
    exact ⟨s, hs, hp.1, _, hp.2⟩

end EvictorRun

end SpaceServe
