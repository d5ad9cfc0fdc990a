import SpaceServe.BlockManager.Tables

/-!
# Copy-on-write

Block tables over a `NaiveBlockAllocator`. Tables that were forked share the ids of their blocks; a write to a
block whose id is shared moves it to a new id, and notes the copy.

* `naiveAllocator`: the allocator as a table sees it;
* `NaiveInv`: the counts are those of the blocks, and the free ids those that no block has;
  `NaiveInv.allocateBlockId`, `NaiveInv.freeBlockIdOf`, `NaiveInv.initBlock`, `append_spec`: its steps;
* **`NaiveInv.lawful`**, **`NaiveInv.freeLawful`**: what `BlockTable` asks for;
* `naiveInv_init`: a new allocator.
-/

set_option autoImplicit false

namespace SpaceServe

open Py

/-- A `NaiveBlockAllocator` with its blocks. -/
def naiveAllocator (blockSize : ℕ) (pos : 0 < blockSize) : Allocator (NaiveBlockAllocator NaiveBlock) where
  blockSize
  pos
  ownIds := True
  block s o := s.block o
  allocateImmutableBlocks prevBlock blockTokenIds _ := NaiveBlockAllocator.allocateImmutableBlocks prevBlock blockTokenIds
  allocateMutableBlock prevBlock _ := NaiveBlockAllocator.allocateMutableBlock prevBlock
  appendTokenIds o tokenIds := NaiveBlock.appendTokenIds (fun s => s) (fun _ s => s)
    NaiveBlockAllocator.cowBlockIfNotAppendable o tokenIds
  fork := NaiveBlockAllocator.fork
  free o := NaiveBlockAllocator.free o false

/-- The ids that the blocks hold. -/
def NaiveBlockAllocator.ids {B : Type} [Block B] (s : NaiveBlockAllocator B) (o : PoolId) : Option BlockId :=
  (s.block o).blockId

/-- The counts of all ids are those of the blocks in use and of the ids in hand, and the free ids those with
count zero. -/
structure NaiveInv (n : ℕ) (all held : List BlockId) (s : NaiveBlockAllocator NaiveBlock)
    (D : Finset PoolId) : Prop where
  pool : s.blockPool.Ok D
  size : s.blockPool.blockSize = n
  counted : Counted s.refcounter all s.ids D held
  free_nodup : s.freeBlockIndices.Nodup
  free_iff : ∀ b, b ∈ s.freeBlockIndices ↔ s.refcounter.get? b = some 0

namespace NaiveInv

open NaiveBlockAllocator

variable {n : ℕ} {all held : List BlockId} {s s' : NaiveBlockAllocator NaiveBlock} {D : Finset PoolId} {o : PoolId}
  {b : BlockId} {u : PUnit}

/-- No block holds a free id. -/
theorem not_held (hi : NaiveInv n all held s D) (hb : b ∈ s.freeBlockIndices) : holders s.ids D b = 0 := by
  have hzero := (hi.counted.mem_of_get? ((hi.free_iff b).mp hb)).2
  omega

theorem ne_of_free (hi : NaiveInv n all held s D) (hb : b ∈ s.freeBlockIndices) (ho : o ∈ D) : s.ids o ≠ some b := by
  intro heq
  have hpos := holders_pos.mpr ⟨o, ho, heq⟩
  have hzero := hi.not_held hb
  omega

/-- **An id is taken** from the free ones. -/
theorem allocateBlockId (hi : NaiveInv n all held s D) (h : Returns NaiveBlockAllocator.allocateBlockId s b s') :
    NaiveInv n all (b :: held) s' D ∧ s.freeBlockIndices = b :: s'.freeBlockIndices ∧
      s'.copyOnWrites = s.copyOnWrites ∧ s'.blockPool = s.blockPool := by
  obtain ⟨rest, m, hfree, hm, rfl⟩ := returns_allocateBlockId h
  have hnodup := hi.free_nodup
  rw [hfree] at hnodup
  have hzero : m = 0 := by
    have hb : s.refcounter.get? b = some 0 := (hi.free_iff b).mp (by rw [hfree]; exact List.mem_cons_self)
    rw [hm] at hb
    exact Option.some.inj hb
  subst hzero
  refine ⟨⟨hi.pool, hi.size, hi.counted.incr hm, hnodup.of_cons, fun b' => ?_⟩, hfree, rfl, rfl⟩
  have hiff := hi.free_iff b'
  rw [hfree, List.mem_cons] at hiff
  rw [Dict.get?_set]
  split_ifs with heq
  · constructor
    · intro hmem
      rw [heq] at hmem
      exact absurd hmem (List.nodup_cons.mp hnodup).1
    · intro hone
      cases hone
  · rw [← hiff, or_iff_right heq]

/-- **The id of a block is given back**. -/
theorem freeBlockIdOf (hi : NaiveInv n all held s D) (ho : o ∈ D)
    (h : Returns (NaiveBlockAllocator.freeBlockIdOf o) s u s') : ∃ b, s.ids o = some b ∧ NaiveInv n all held s' D ∧
      s'.blockPool = (s.setBlockId o none).blockPool ∧ s'.copyOnWrites = s.copyOnWrites ∧
      (1 < holders s.ids D b → s'.freeBlockIndices = s.freeBlockIndices) := by
  obtain ⟨b, hb, hfree⟩ := returns_freeBlockIdOf h
  obtain ⟨m, hm, rfl⟩ := returns_freeBlockId hfree
  change s.refcounter.get? b = some (m + 1) at hm
  have hids : (s.setBlockId o none).ids = Function.update s.ids o none := blockId_setBlock _
  have hcounted := (hi.counted.release ho hb).decr hm
  rw [← hids] at hcounted
  have hnot : b ∉ s.freeBlockIndices := by
    rw [hi.free_iff b, hm]
    exact nofun
  refine ⟨b, hb, ⟨hi.pool.update _, hi.size, hcounted, ?_, fun b' => ?_⟩, rfl, rfl, fun hone => ?_⟩
  · show (if m = 0 then b :: s.freeBlockIndices else s.freeBlockIndices).Nodup
    split_ifs
    · exact List.nodup_cons.mpr ⟨hnot, hi.free_nodup⟩
    · exact hi.free_nodup
  · show b' ∈ (if m = 0 then b :: s.freeBlockIndices else s.freeBlockIndices) ↔
      (s.refcounter.set b m).get? b' = some 0
    have hiff := hi.free_iff b'
    rw [Dict.get?_set]
    by_cases heq : b' = b
    · rw [if_pos heq, heq, Option.some.injEq]
      split_ifs with hz
      · simp [hz]
      · simp [hz, hnot]
    · rw [if_neg heq, ← hiff]
      split_ifs
      · rw [List.mem_cons, or_iff_right heq]
      · exact Iff.rfl
  · have hcount := (hi.counted.mem_of_get? hm).2
    show (if m = 0 then _ else _) = _
    rw [if_neg (by omega)]
    rfl

/-- **A block is made** with an id in hand. -/
theorem initBlock (hi : NaiveInv n all (b :: held) s D) {prevBlock : Option PoolId} {tokenIds : List TokenId}
    {extraHash : Option ℤ}
    (h : Returns (NaiveBlockAllocator.initBlock prevBlock tokenIds (some b) extraHash) s o s') :
    o ∉ D ∧ NaiveInv n all held s' (insert o D) ∧ s'.block o = ⟨prevBlock, tokenIds, some b⟩ ∧
      (∀ x ≠ o, s'.block x = s.block x) ∧ s'.freeBlockIndices = s.freeBlockIndices ∧
      s'.copyOnWrites = s.copyOnWrites := by
  obtain ⟨ho, -, pool, rfl, hok, hsize, hpool⟩ := returns_initBlock hi.pool h
  obtain ⟨hblock, hframe⟩ := block_of_pool hpool
  have href : ∀ x ∈ D, ({ s with blockPool := pool } : NaiveBlockAllocator NaiveBlock).ids x = s.ids x := by
    intro x hx
    refine congrArg NaiveBlock.blockId (hframe x ?_)
    rintro rfl
    exact ho hx
  exact ⟨ho, ⟨hok, hsize.trans hi.size, hi.counted.new ho href (congrArg NaiveBlock.blockId hblock),
    hi.free_nodup, hi.free_iff⟩, hblock, hframe, rfl, rfl⟩

/-- A block without an id gets the one in hand. -/
theorem setBlockId (hi : NaiveInv n all (b :: held) s D) (ho : o ∈ D) (hnone : s.ids o = none) :
    NaiveInv n all held (s.setBlockId o (some b)) D := by
  have hids : (s.setBlockId o (some b)).ids = Function.update s.ids o (some b) := blockId_setBlock _
  refine ⟨hi.pool.update _, hi.size, ?_, hi.free_nodup, hi.free_iff⟩
  rw [hids]
  exact hi.counted.acquire ho hnone

/-- The tokens of a block do not matter. -/
theorem setBlock (hi : NaiveInv n all held s D) {block : NaiveBlock} (hid : block.blockId = s.ids o) :
    NaiveInv n all held (s.setBlock o block) D ∧ (s.setBlock o block).ids = s.ids := by
  have hids : (s.setBlock o block).ids = s.ids := by
    show (fun x => ((s.setBlock o block).block x).blockId) = _
    rw [blockId_setBlock, hid]
    exact Function.update_eq_self o s.ids
  refine ⟨⟨hi.pool.update _, hi.size, ?_, hi.free_nodup, hi.free_iff⟩, hids⟩
  rw [hids]
  exact hi.counted

/-- **Copy-on-write**, for a block whose id is shared. -/
theorem cow (hi : NaiveInv n all [] s D) (ho : o ∈ D) {b' : BlockId} (h : Returns (cowBlockIfNotAppendable o) s b' s') :
    ∃ b, s.ids o = some b ∧ (holders s.ids D b ≤ 1 ∧ b' = b ∧ s' = s ∨
      1 < holders s.ids D b ∧ NaiveInv n all [b'] s' D ∧ s'.blockPool = (s.setBlockId o none).blockPool ∧
        s.freeBlockIndices = b' :: s'.freeBlockIndices ∧ s'.copyOnWrites = s.copyOnWrites ++ [(b, b')]) := by
  simp only [cowBlockIfNotAppendable, returns_bind, returns_get, returns_fromExcept, ofOption_eq_ok] at h
  obtain ⟨s₀, s₁, ⟨rfl, rfl⟩, b, s₂, ⟨hb, rfl⟩, m, s₃, ⟨hm, rfl⟩, h⟩ := h
  refine ⟨b, hb, ?_⟩
  have hcount := (hi.counted.mem_of_get? (ofOption_eq_ok.mp hm)).2
  rw [List.count_nil, Nat.add_zero] at hcount
  rw [← hcount]
  split_ifs at h with hle
  · obtain ⟨rfl, rfl⟩ := returns_pure.mp h
    exact Or.inl ⟨hle, rfl, rfl⟩
  · simp only [returns_bind, returns_modify, returns_pure] at h
    obtain ⟨u, s₄, hfree, trg, s₅, halloc, u', s₆, rfl, rfl, rfl⟩ := h
    obtain ⟨b₁, hb₁, hi₁, hpool₁, hcows₁, hsame⟩ := hi.freeBlockIdOf ho hfree
    have hbb : b₁ = b := Option.some.inj (hb₁.symm.trans hb)
    subst hbb
    obtain ⟨hi₂, hfree₂, hcows₂, hpool₂⟩ := hi₁.allocateBlockId halloc
    refine Or.inr ⟨Nat.lt_of_not_le hle, ⟨hi₂.pool, hi₂.size, hi₂.counted, hi₂.free_nodup, hi₂.free_iff⟩,
      hpool₂.trans hpool₁, ?_, ?_⟩
    · rw [← hsame (by rw [← hcount]; exact Nat.lt_of_not_le hle)]
      exact hfree₂
    · show s₅.copyOnWrites ++ [(b₁, b')] = _
      rw [hcows₂, hcows₁]

/-- **A write** to a block. -/
theorem append_spec {pos : 0 < n} (hi : NaiveInv n all [] s D) (ho : o ∈ D) (hheld : s.ids o ≠ none)
    {tokenIds : List TokenId} (h : Returns ((naiveAllocator n pos).appendTokenIds o tokenIds) s u s') : ∃ b b',
      s.ids o = some b ∧ NaiveInv n all [] s' D ∧
      s'.block o = ⟨(s.block o).prevBlock, (s.block o).tokenIds ++ tokenIds, some b'⟩ ∧
      (∀ x ≠ o, s'.block x = s.block x) ∧
      (holders s.ids D b ≤ 1 ∧ b' = b ∧ s'.freeBlockIndices = s.freeBlockIndices ∧
          s'.copyOnWrites = s.copyOnWrites ∨
        1 < holders s.ids D b ∧ s.freeBlockIndices = b' :: s'.freeBlockIndices ∧
          s'.copyOnWrites = s.copyOnWrites ++ [(b, b')]) := by
  have happ : Returns (NaiveBlock.appendTokenIds (fun s => s) (fun _ s => s) cowBlockIfNotAppendable o tokenIds)
      s u s' := h
  obtain ⟨block, hblock, -, hcases⟩ := NaiveBlock.returns_appendTokenIds happ
  have hid : block.blockId = s.ids o := by rw [hblock]; rfl
  obtain ⟨hi₁, hids₁⟩ := hi.setBlock hid
  rcases hcases with ⟨hnone, -⟩ | ⟨-, b', s₁, hcow, rfl⟩
  · exact absurd (hid.symm.trans hnone) hheld
  · obtain ⟨b, hb, hcow⟩ := hi₁.cow ho hcow
    rw [hids₁] at hb hcow
    rcases hcow with ⟨hle, rfl, rfl⟩ | ⟨hlt, hi₂, hpool, hfree, hcows⟩
    · -- the id stays, so writing it again changes nothing
      have hwrite : (s.setBlock o block).setBlockId o (some b') = s.setBlock o block := by
        have hsame : { block with blockId := some b' } = block := by rw [← hid.trans hb]
        rw [NaiveBlockAllocator.setBlockId, block_setBlock_self, hsame]
        simp only [NaiveBlockAllocator.setBlock, BlockPool.update, Function.update_idem, Block.setBlock]
      rw [hwrite]
      refine ⟨b', b', hb, hi₁, ?_, fun x hx => block_setBlock_ne hx block, Or.inl ⟨hle, rfl, rfl, rfl⟩⟩
      rw [block_setBlock_self, hblock]
      show NaiveBlock.mk _ _ (s.block o).blockId = _
      rw [show (s.block o).blockId = some b' from hb]
    · have hblocks : ∀ x, s₁.block x = ((s.setBlock o block).setBlockId o none).block x := fun x => by
        rw [NaiveBlockAllocator.block, hpool]
        rfl
      have hnone : s₁.ids o = none := by
        show (s₁.block o).blockId = none
        rw [hblocks, block_setBlockId_self]
      refine ⟨b, b', hb, hi₂.setBlockId ho hnone, ?_, fun x hx => ?_, Or.inr ⟨hlt, hfree, hcows⟩⟩
      · rw [block_setBlockId_self, hblocks, block_setBlockId_self, block_setBlock_self, hblock]
      · rw [block_setBlockId_ne hx, hblocks, block_setBlockId_ne hx, block_setBlock_ne hx]

theorem incr (hi : NaiveInv n all held s D) {m : ℕ} (hb : s.refcounter.get? b = some m) (hm : m ≠ 0) :
    NaiveInv n all (b :: held) { s with refcounter := s.refcounter.set b (m + 1) } D := by
  refine ⟨hi.pool, hi.size, hi.counted.incr hb, hi.free_nodup, fun b' => ?_⟩
  show b' ∈ s.freeBlockIndices ↔ _
  rw [hi.free_iff b', Dict.get?_set]
  split_ifs with heq
  · rw [heq, hb, Option.some.injEq, Option.some.injEq]
    omega
  · exact Iff.rfl

/-- **The copy** of a block for a forked table. -/
theorem forkBlock (hi : NaiveInv n all [] s D) {prevBlock : Option PoolId} {x y : PoolId}
    (h : Returns (NaiveBlockAllocator.forkBlock prevBlock x) s y s') : y ∉ D ∧ NaiveInv n all [] s' (insert y D) ∧
      s'.block y = ⟨prevBlock, (s.block x).tokenIds, (s.block x).blockId⟩ ∧ ∀ z ∈ D, s'.block z = s.block z := by
  obtain ⟨b, m, hb, hm, hne, hinit⟩ := returns_forkBlock h
  obtain ⟨hy, hi', hblock, hframe, -, -⟩ := (hi.incr hm hne).initBlock hinit
  rw [hb]
  refine ⟨hy, hi', hblock, fun z hz => hframe z ?_⟩
  rintro rfl
  exact hy hz

theorem perm {held' : List BlockId} (hi : NaiveInv n all held s D) (hp : held.Perm held') : NaiveInv n all held' s D :=
  ⟨hi.pool, hi.size, fun b => by rw [hi.counted b, hp.count_eq], hi.free_nodup, hi.free_iff⟩

/-- The ids of new blocks are the first free ones. -/
theorem allocateBlockIds : ∀ (chunks : List (List TokenId)) {held : List BlockId}
    {s : NaiveBlockAllocator NaiveBlock} {ids : List BlockId}, NaiveInv n all held s D →
    Returns (chunks.mapM fun _ => NaiveBlockAllocator.allocateBlockId) s ids s' → ids.length = chunks.length ∧
      NaiveInv n all (ids ++ held) s' D ∧ s.freeBlockIndices = ids ++ s'.freeBlockIndices ∧
      s'.blockPool = s.blockPool
  | [], held, s, ids, hi, h => by
    obtain ⟨rfl, rfl⟩ := returns_pure.mp h
    exact ⟨rfl, hi, rfl, rfl⟩
  | c :: cs, held, s, ids, hi, h => by
    simp only [List.mapM_cons, returns_bind, returns_pure] at h
    obtain ⟨b, s₁, hb, bs, s₂, hbs, rfl, rfl⟩ := h
    obtain ⟨hi₁, hfree₁, -, hpool₁⟩ := hi.allocateBlockId hb
    obtain ⟨hlen, hi₂, hfree₂, hpool₂⟩ := allocateBlockIds cs hi₁ hbs
    refine ⟨congrArg (· + 1) hlen, hi₂.perm ?_, ?_, hpool₂.trans hpool₁⟩
    · exact List.perm_middle
    · rw [hfree₁, hfree₂]
      rfl

/-- The blocks for ids in hand. -/
theorem initBlocks : ∀ (pairs : List (List TokenId × BlockId)) {s : NaiveBlockAllocator NaiveBlock}
    {D : Finset PoolId} {prev : Option PoolId} {blocks : List PoolId}, NaiveInv n all (pairs.map (·.2)) s D →
    Returns (NaiveBlockAllocator.initBlocks prev pairs) s blocks s' → NaiveInv n all [] s' (D ∪ blocks.toFinset) ∧
      blocks.Nodup ∧ (∀ x ∈ blocks, x ∉ D) ∧ (∀ x ∈ D, s'.block x = s.block x) ∧
      Linked s'.block prev blocks (pairs.map fun p => (p.1, some p.2))
  | [], s, D, prev, blocks, hi, h => by
    obtain ⟨rfl, rfl⟩ := returns_pure.mp h
    refine ⟨?_, List.nodup_nil, fun x hx => absurd hx List.not_mem_nil, fun _ _ => rfl, trivial⟩
    rw [List.toFinset_nil, Finset.union_empty]
    exact hi
  | (tokenIds, b) :: pairs, s, D, prev, blocks, hi, h => by
    simp only [NaiveBlockAllocator.initBlocks, returns_bind, returns_pure] at h
    obtain ⟨y, s₁, hone, rest, s₂, hrest, rfl, rfl⟩ := h
    obtain ⟨hy, hi₁, hblock, hframe, -, -⟩ := hi.initBlock hone
    obtain ⟨hi', hnodup, hnew, hframe', hchain⟩ := initBlocks pairs hi₁ hrest
    have hframe₁ : ∀ x ∈ D, s₁.block x = s.block x := by
      intro x hx
      refine hframe x ?_
      rintro rfl
      exact hy hx
    refine ⟨?_, List.nodup_cons.mpr ⟨fun hmem => hnew y hmem (Finset.mem_insert_self y D), hnodup⟩, fun x hx => ?_,
      fun x hx => ?_, ?_, hchain⟩
    · rw [List.toFinset_cons, Finset.union_insert, ← Finset.insert_union]
      exact hi'
    · rcases List.mem_cons.mp hx with rfl | hx
      · exact hy
      · exact fun hD => hnew x hx (Finset.mem_insert_of_mem hD)
    · rw [hframe' x (Finset.mem_insert_of_mem hx), hframe₁ x hx]
    · rw [hframe' y (Finset.mem_insert_self y D), hblock]

/-- **A block is freed**. -/
theorem free (hi : NaiveInv n all [] s D) (ho : o ∈ D) (h : Returns (NaiveBlockAllocator.free o false) s u s') :
    NaiveInv n all [] s' (D.erase o) ∧ ∀ x ≠ o, s'.block x = s.block x := by
  simp only [NaiveBlockAllocator.free, returns_bind, Bool.false_eq_true, if_false] at h
  obtain ⟨u, s₁, hfree, hpool⟩ := h
  obtain ⟨b, hb, hi₁, hpool₁, -, -⟩ := hi.freeBlockIdOf ho hfree
  have hblocks : ∀ x, s₁.block x = (s.setBlockId o none).block x := fun x => by
    rw [NaiveBlockAllocator.block, hpool₁]
    rfl
  have hnone : s₁.ids o = none := by
    show (s₁.block o).blockId = none
    rw [hblocks, block_setBlockId_self]
  rw [returns_freeBlock hpool]
  refine ⟨⟨hi₁.pool.freeBlock ho, hi₁.size, ?_, hi₁.free_nodup, hi₁.free_iff⟩, fun x hx => ?_⟩
  · refine hi₁.counted.shrink (Finset.erase_subset o D) fun x hx hnot => ?_
    have hxo : x = o := by
      by_contra hne
      exact hnot (Finset.mem_erase.mpr ⟨hne, hx⟩)
    rw [hxo]
    exact hnone
  · exact (hblocks x).trans (block_setBlockId_ne hx none)

end NaiveInv

/-! ## What block tables ask for -/

section Lawful

open NaiveBlockAllocator

variable {n : ℕ} {pos : 0 < n} {all : List BlockId}

/-- **The allocator is lawful**. -/
theorem NaiveInv.lawful : Lawful (naiveAllocator n pos) (NaiveInv n all []) where
  allocateMutable {s s' D blocks tokens extraHash o} hi hh hsub h := by
    simp only [naiveAllocator, allocateMutableBlock, returns_bind] at h
    obtain ⟨b, s₁, hb, hinit⟩ := h
    obtain ⟨hi₁, hfree, -, hpool⟩ := hi.allocateBlockId hb
    obtain ⟨ho, hi', hblock, hframe, -, -⟩ := hi₁.initBlock hinit
    have hblocks : ∀ x, s₁.block x = s.block x := fun x => by
      rw [NaiveBlockAllocator.block, hpool]
      rfl
    have hmem : b ∈ s.freeBlockIndices := by
      rw [hfree]
      exact List.mem_cons_self
    change NaiveInv n all [] s' _ at hi'
    refine ⟨ho, hi', fun x hx => ?_, ?_, ?_, ?_, fun _ x hx => ?_⟩
    · have hne : x ≠ o := by
        rintro rfl
        exact ho hx
      exact (hframe x hne).trans (hblocks x)
    · exact congrArg NaiveBlock.prevBlock hblock
    · exact congrArg NaiveBlock.tokenIds hblock
    · show (s'.block o).blockId ≠ none
      rw [hblock]
      exact Option.some_ne_none _
    · show s.ids x ≠ (s'.block o).blockId
      rw [hblock]
      exact hi.ne_of_free hmem (hsub x hx)
  allocateImmutable {s s' D chunks extraHash blocks} hi hfull h := by
    simp only [naiveAllocator, allocateImmutableBlocks, returns_bind] at h
    obtain ⟨ids, s₁, hids, hinit⟩ := h
    obtain ⟨hlen, hi₁, hfree, hpool⟩ := NaiveInv.allocateBlockIds chunks hi hids
    rw [List.append_nil] at hi₁
    have hsnd : (chunks.zip ids).map (·.2) = ids := List.map_snd_zip hlen.le
    rw [← hsnd] at hi₁
    obtain ⟨hi', hnodup, hnew, hframe, hchain⟩ := NaiveInv.initBlocks (chunks.zip ids) hi₁ hinit
    have hblocks : ∀ x, s₁.block x = s.block x := fun x => by
      rw [NaiveBlockAllocator.block, hpool]
      rfl
    have hziplen : (chunks.zip ids).length = chunks.length := by
      rw [List.length_zip, hlen, Nat.min_self]
    refine ⟨hchain.holds hnodup (fun i c hc => ?_) ?_ (fun c hc => ?_) fun _ => ?_, ?_, hnew, hi', fun x hx => ?_⟩
    · rw [List.getElem?_map, Option.map_eq_some_iff] at hc
      obtain ⟨p, hp, rfl⟩ := hc
      exact (slice_flatten_full hfull (List.getElem?_zip_eq_some.mp hp).1).symm
    · rw [List.length_map, hziplen, List.length_flatten, List.map_congr_left hfull, List.map_const',
        List.sum_replicate_nat]
    · obtain ⟨p, -, rfl⟩ := List.mem_map.mp hc
      exact Option.some_ne_none _
    · have hsome : ((chunks.zip ids).map fun p => (p.1, some p.2)).map (·.2) =
          ((chunks.zip ids).map (·.2)).map some := by
        rw [List.map_map, List.map_map]
        rfl
      rw [hsome, hsnd]
      have hall := hi.free_nodup
      rw [hfree] at hall
      exact (List.nodup_append.mp hall).1.map (Option.some_injective _)
    · rw [hchain.length_eq, List.length_map, hziplen]
    · exact (hframe x hx).trans (hblocks x)
  appendTokenIds {s s' D blocks tokens chunk o u} hi hh hsub ho _ _ h := by
    have hmem : o ∈ blocks := List.mem_of_getElem? ho
    obtain ⟨b, b', hb, hi', hblock, hframe, hcases⟩ := hi.append_spec (hsub o hmem) (hh.held o hmem) h
    refine ⟨hi', fun x _ hx => hframe x hx, ?_, congrArg NaiveBlock.tokenIds hblock, ?_, fun _ x hx hne => ?_⟩
    · show (s'.block o).prevBlock = _
      rw [hblock]
      rfl
    · show (s'.block o).blockId ≠ none
      rw [hblock]
      exact Option.some_ne_none _
    · show s.ids x ≠ (s'.block o).blockId
      rw [hblock]
      rcases hcases with ⟨-, rfl, -, -⟩ | ⟨-, hfree, -⟩
      · intro heq
        exact hne (hh.distinct trivial x hx o hmem (heq.trans hb.symm))
      · exact hi.ne_of_free (by rw [hfree]; exact List.mem_cons_self) (hsub x hx)
  fork {s s' D blocks forked tokens last} hi hh hsub hlast h := by
    simp only [naiveAllocator, fork, returns_bind, returns_get, returns_fromExcept] at h
    obtain ⟨s₀, s₁, ⟨rfl, rfl⟩, source, s₂, ⟨hsource, rfl⟩, h⟩ := h
    have heq : source = blocks := hh.getAllBlocksRecursively_last hlast hsource
    subst heq
    obtain ⟨⟨-, -, hi'⟩, hnodup, hnew, hframe, hchain⟩ := forkBlocks_spec
      (I := fun s D _ _ => NaiveInv n all [] s D)
      (fun hi _ _ hround => NaiveInv.forkBlock hi hround) source hi hsub hh.following h
    obtain ⟨hh', hids⟩ := hh.copy hchain hnodup
    exact ⟨hh', hnew, hi', hframe, hids⟩

theorem NaiveInv.freeLawful : Tables.FreeLawful (naiveAllocator n pos) (NaiveInv n all []) := by
  intro s s' D blocks tokens u hi hh hsub _ h
  have hloop : ∀ (l : List PoolId) {s : NaiveBlockAllocator NaiveBlock} {D : Finset PoolId}, NaiveInv n all [] s D →
      l.Nodup → (∀ x ∈ l, x ∈ D) → Returns (l.forM fun o => NaiveBlockAllocator.free o false) s u s' →
      NaiveInv n all [] s' (D \ l.toFinset) ∧ ∀ x ∉ l, s'.block x = s.block x := by
    intro l
    induction l with
    | nil =>
      intro s D hi _ _ h
      obtain ⟨-, rfl⟩ := returns_pure.mp h
      rw [List.toFinset_nil, Finset.sdiff_empty]
      exact ⟨hi, fun _ _ => rfl⟩
    | cons o l ih =>
      intro s D hi hnodup hsub h
      obtain ⟨u₁, s₁, hone, hrest⟩ := returns_bind.mp h
      obtain ⟨hnot, hnodup⟩ := List.nodup_cons.mp hnodup
      obtain ⟨hi₁, hframe₁⟩ := hi.free (hsub o List.mem_cons_self) hone
      obtain ⟨hi', hframe'⟩ := ih hi₁ hnodup (fun x hx => Finset.mem_erase.mpr
        ⟨fun heq => hnot (heq ▸ hx), hsub x (List.mem_cons_of_mem _ hx)⟩) hrest
      refine ⟨?_, fun x hx => ?_⟩
      · have hset : D \ (o :: l).toFinset = D.erase o \ l.toFinset := by
          ext x
          simp only [List.toFinset_cons, Finset.mem_sdiff, Finset.mem_insert, Finset.mem_erase]
          tauto
        rw [hset]
        exact hi'
      · rw [List.mem_cons, not_or] at hx
        rw [hframe' x hx.2, hframe₁ x hx.1]
  obtain ⟨hi', hframe⟩ := hloop blocks hi hh.nodup hsub h
  exact ⟨hi', fun x _ hx => hframe x hx⟩

end Lawful

/-- The objects of a new pool. -/
def NaiveBlock.new : NaiveBlock := ⟨none, [], none⟩

/-- **A new allocator**. -/
theorem naiveInv_init {n : ℕ} {blockIds : List BlockId} {s : NaiveBlockAllocator NaiveBlock}
    (h : NaiveBlockAllocator.init NaiveBlock.new n blockIds = .ok s) : NaiveInv n blockIds [] s ∅ := by
  obtain ⟨u, hassert, h⟩ := bind_eq_ok.mp h
  cases h
  have hsame : blockIds.dedup = blockIds :=
    List.Sublist.eq_of_length (List.dedup_sublist _) (assert_eq_ok.mp hassert)
  refine ⟨BlockPool.ok_init _ _ _, rfl, fun b => ?_, ?_, fun b => ?_⟩
  · show (RefCounter.init blockIds).get? b = _
    rw [RefCounter.get?_init]
    simp [holders]
  · show blockIds.Nodup
    rw [← hsame]
    exact List.nodup_dedup _
  · show b ∈ blockIds ↔ (RefCounter.init blockIds).get? b = _
    rw [RefCounter.get?_init]
    split_ifs with hb <;> simp [hb]

end SpaceServe
