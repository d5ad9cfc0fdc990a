import SpaceServe.BlockManager.CopyOnWrite

/-!
# Trees of forked tables

Tables over one `NaiveBlockAllocator`, forked from one another in any way. Each has the tokens that were appended
to it, whatever the others do; a write to a shared block is noted as a copy to a free id, once.

* `appendBlocks_free`, `appendChunks_cows`: the ids and the copies of an append;
* `TablesHold`, `OthersKept`, `Copied`: what is claimed of the tables, and of a call;
* **`copy_on_write_isolates`**.
-/

set_option autoImplicit false

namespace SpaceServe

open Py

section Copies

open NaiveBlockAllocator

variable {n : ℕ} {pos : 0 < n} {all : List BlockId}

/-! ## The copies of an append -/

open BlockTable

variable {s s' : NaiveBlockAllocator NaiveBlock} {D : Finset PoolId} {t t' : BlockTable} {tokens : List TokenId}
  {extraHash : Option ℤ}

/-- New blocks take the first free ids. -/
theorem appendBlocks_free : ∀ (k : ℕ) {s : NaiveBlockAllocator NaiveBlock} {D : Finset PoolId} {t : BlockTable},
    NaiveInv n all [] s D → Returns (appendBlocks (naiveAllocator n pos) extraHash k t) s t' s' →
    ∃ ids, s.freeBlockIndices = ids ++ s'.freeBlockIndices ∧ s'.copyOnWrites = s.copyOnWrites ∧
      t'.blockIds = t.blockIds ++ ids
  | 0, s, D, t, _, h => by
    obtain ⟨rfl, rfl⟩ := returns_pure.mp h
    exact ⟨[], rfl, rfl, (List.append_nil _).symm⟩
  | k + 1, s, D, t, hi, h => by
    simp only [appendBlocks, returns_bind, returns_fromExcept, ofOption_eq_ok] at h
    obtain ⟨last, s₁, ⟨-, rfl⟩, o, s₂, hnew, b, s₃, hb, h⟩ := h
    simp only [naiveAllocator, allocateMutableBlock, returns_bind] at hnew
    obtain ⟨b₀, s₄, hb₀, hinit⟩ := hnew
    obtain ⟨hi₄, hfree₄, hcows₄, -⟩ := hi.allocateBlockId hb₀
    obtain ⟨-, hi₂, hblock, -, hfree₂, hcows₂⟩ := hi₄.initBlock hinit
    obtain ⟨hb, rfl⟩ := returns_blockId hb
    have hbb : b₀ = b := by
      change (s₃.block o).blockId = some b at hb
      rw [hblock] at hb
      exact Option.some.inj hb
    obtain ⟨ids, hfree, hcows, hids⟩ := appendBlocks_free k hi₂ h
    refine ⟨b :: ids, ?_, hcows.trans (hcows₂.trans hcows₄), ?_⟩
    · rw [hfree₄, ← hfree₂, hfree, hbb]
      rfl
    · rw [hids, List.append_assoc]
      rfl

/-- The other ids have as many holders as before, after a block moved to another id. -/
theorem holders_move {ref ref' : PoolId → Option BlockId} {o : PoolId} {c : BlockId}
    (hother : ∀ x ∈ D, x ≠ o → ref' x = ref x) (hold : ref o ≠ some c) (hnew : ref' o ≠ some c) :
    holders ref' D c = holders ref D c := by
  have heq : (D.filter fun x => ref' x = some c) = D.filter fun x => ref x = some c := by
    apply Finset.filter_congr
    intro x hx
    rcases eq_or_ne x o with rfl | hne
    · exact iff_of_false hnew hold
    · rw [hother x hx hne]
  rw [holders, heq, holders]

/-- **The copies** that the chunks make: one for each block whose id is shared, to the next free id. -/
theorem appendChunks_cows : ∀ (chunks : List (List TokenId)) {s : NaiveBlockAllocator NaiveBlock} {t : BlockTable}
    {tokens : List TokenId} {i : ℕ}, NaiveInv n all [] s D → ChainHolds True n s.block t.blocks tokens →
    (t.blocks.map fun o => (s.block o).blockId) = t.blockIds.map some → (∀ x ∈ t.blocks, x ∈ D) →
    ChunksFit n tokens.length chunks → (chunks ≠ [] → i = tokens.length / n) →
    Returns (appendChunks (naiveAllocator n pos) i chunks t) s t' s' → ∃ cows,
      s'.copyOnWrites = s.copyOnWrites ++ cows ∧ s.freeBlockIndices = cows.map (·.2) ++ s'.freeBlockIndices ∧
      (∀ k < chunks.length, ∀ o b, t.blocks[i + k]? = some o → s.ids o = some b →
        if 1 < holders s.ids D b then ∃ b', s'.ids o = some b' ∧ (b, b') ∈ cows else s'.ids o = some b) ∧
      ∀ r ∈ cows, ∃ k < chunks.length, ∃ o, t.blocks[i + k]? = some o ∧ s.ids o = some r.1 ∧
        s'.ids o = some r.2 ∧ 1 < holders s.ids D r.1
  | [], s, t, tokens, i, _, _, _, _, _, _, h => by
    obtain ⟨rfl, rfl⟩ := returns_pure.mp h
    exact ⟨[], (List.append_nil _).symm, rfl, fun k hk => absurd hk (Nat.not_lt_zero k),
      fun r hr => absurd hr List.not_mem_nil⟩
  | c :: cs, s, t, tokens, i, hi, hh, hids, hsub, ⟨hne, hfit, hfull, hrest⟩, hidx, h => by
    have hi_eq := hidx (List.cons_ne_nil c cs)
    rw [appendChunks, returns_bind] at h
    obtain ⟨t₁, s₁, hone, h⟩ := h
    obtain ⟨o, u, ho, happ⟩ := returns_appendToBlock hone
    rw [hi_eq] at hone
    have hmem := List.mem_of_getElem? ho
    obtain ⟨b, b', hb, hi₁, hblock, hframe, hcases⟩ := hi.append_spec (hsub o hmem) (hh.held o hmem) happ
    obtain ⟨hblocks, -, -, hh₁, hids₁, -⟩ := appendToBlock_spec NaiveInv.lawful hi hh hids hsub hne hfit hone
    rw [← List.length_append] at hrest
    have hnext : cs ≠ [] → i + 1 = (tokens ++ c).length / n := fun hcs => by
      rw [List.length_append, div_of_full pos (hfull hcs), hi_eq]
    have hsub₁ : ∀ x ∈ t₁.blocks, x ∈ D := by
      rw [hblocks]
      exact hsub
    obtain ⟨-, -, -, -, -, hlater⟩ :=
      appendChunks_spec NaiveInv.lawful cs hi₁ hh₁ hids₁ hsub₁ hrest hnext h
    obtain ⟨cows, hcows, hfree, hwritten, hall⟩ :=
      appendChunks_cows cs hi₁ hh₁ hids₁ hsub₁ hrest hnext h
    have hb₁ : s₁.ids o = some b' := congrArg NaiveBlock.blockId hblock
    -- the later chunks leave this block as it is
    have hkeep : s'.ids o = some b' := by
      have hsame : s'.block o = s₁.block o := by
        refine hlater o (hsub o hmem) fun k _ hk => ?_
        rw [hblocks] at hk
        have hlt := (List.getElem?_eq_some_iff.mp ho).1
        have heq := (List.getElem?_inj hlt hh.nodup).mp (ho.trans hk.symm)
        omega
      show (s'.block o).blockId = _
      rw [hsame]
      exact hb₁
    -- and the other blocks have the ids and the holders that they had
    have hothers : ∀ x ∈ t.blocks, x ≠ o → s₁.ids x = s.ids x ∧ ∀ d, s.ids x = some d →
        holders s₁.ids D d = holders s.ids D d := by
      intro x hx hxo
      refine ⟨congrArg NaiveBlock.blockId (hframe x hxo), fun d hd => ?_⟩
      apply holders_move (o := o) fun y _ hy => congrArg NaiveBlock.blockId (hframe y hy)
      · intro heq
        exact hxo (hh.distinct trivial x hx o hmem (hd.trans heq.symm))
      · show s₁.ids o ≠ some d
        rw [hb₁]
        rcases hcases with ⟨-, rfl, -, -⟩ | ⟨-, hfree, -⟩
        · intro heq
          exact hxo (hh.distinct trivial x hx o hmem (hd.trans (heq.symm.trans hb.symm)))
        · intro heq
          exact hi.ne_of_free (by rw [hfree]; exact List.mem_cons_self) (hsub x hx) (hd.trans heq.symm)
    have hne_later : ∀ k x, t.blocks[i + (k + 1)]? = some x → x ≠ o := by
      rintro k x hx rfl
      have hlt := (List.getElem?_eq_some_iff.mp ho).1
      have heq := (List.getElem?_inj hlt hh.nodup).mp (ho.trans hx.symm)
      omega
    have hfirst : ∀ r, (r = (b, b') ∧ 1 < holders s.ids D b) ∨ r ∈ cows → ∃ k < (c :: cs).length, ∃ x,
        t.blocks[i + k]? = some x ∧ s.ids x = some r.1 ∧ s'.ids x = some r.2 ∧ 1 < holders s.ids D r.1 := by
      rintro r (⟨rfl, hshared⟩ | hr)
      · exact ⟨0, Nat.succ_pos _, o, ho, hb, hkeep, hshared⟩
      · obtain ⟨k, hk, x, hx, hold, hnew, hshared⟩ := hall r hr
        rw [hblocks, Nat.add_assoc, Nat.add_comm 1 k] at hx
        obtain ⟨hid, hholders⟩ := hothers x (List.mem_of_getElem? hx) (hne_later k x hx)
        rw [hid] at hold
        rw [hholders r.1 hold] at hshared
        exact ⟨k + 1, Nat.succ_lt_succ hk, x, hx, hold, hnew, hshared⟩
    have hrestIds : ∀ k < cs.length, ∀ x d, t.blocks[i + (k + 1)]? = some x → s.ids x = some d →
        if 1 < holders s.ids D d then ∃ d', s'.ids x = some d' ∧ (d, d') ∈ cows else s'.ids x = some d := by
      intro k hk x d hx hd
      obtain ⟨hid, hholders⟩ := hothers x (List.mem_of_getElem? hx) (hne_later k x hx)
      rw [← hholders d hd]
      refine hwritten k hk x d ?_ (hid.trans hd)
      rw [hblocks, Nat.add_assoc, Nat.add_comm 1 k]
      exact hx
    rcases hcases with ⟨hle, rfl, hfree₁, hcows₁⟩ | ⟨hlt, hfree₁, hcows₁⟩
    · refine ⟨cows, by rw [hcows, hcows₁], by rw [← hfree₁, hfree], fun k hk x d hx hd => ?_,
        fun r hr => hfirst r (Or.inr hr)⟩
      cases k with
      | zero =>
        rw [Nat.add_zero, ho] at hx
        cases hx
        rw [hb] at hd
        cases hd
        rw [if_neg (Nat.not_lt.mpr hle)]
        exact hkeep
      | succ k => exact hrestIds k (Nat.lt_of_succ_lt_succ hk) x d hx hd
    · refine ⟨(b, b') :: cows, ?_, ?_, fun k hk x d hx hd => ?_, fun r hr => ?_⟩
      · rw [hcows, hcows₁, List.append_assoc]
        rfl
      · rw [hfree₁, hfree]
        rfl
      · cases k with
        | zero =>
          rw [Nat.add_zero, ho] at hx
          cases hx
          rw [hb] at hd
          cases hd
          rw [if_pos hlt]
          exact ⟨b', hkeep, List.mem_cons_self⟩
        | succ k =>
          have hrec := hrestIds k (Nat.lt_of_succ_lt_succ hk) x d hx hd
          split_ifs at hrec ⊢ with hshared
          · obtain ⟨d', hd', hmem'⟩ := hrec
            exact ⟨d', hd', List.mem_cons_of_mem _ hmem'⟩
          · exact hrec
      · rcases List.mem_cons.mp hr with rfl | hr
        · exact hfirst _ (Or.inl ⟨rfl, hlt⟩)
        · exact hfirst r (Or.inr hr)

/-- The blocks that the chunks are written to. -/
theorem written_iff (hn : 0 < n) : ∀ {chunks : List (List TokenId)} {len : ℕ}, ChunksFit n len chunks → ∀ k,
    (∃ j < chunks.length, k = len / n + j) ↔ ∃ p, len ≤ p ∧ p < len + chunks.flatten.length ∧ p / n = k
  | [], len, _, k => by
    constructor
    · rintro ⟨j, hj, -⟩
      exact absurd hj (Nat.not_lt_zero j)
    · rintro ⟨p, hle, hlt, -⟩
      exact absurd hlt (Nat.not_lt.mpr hle)
  | c :: cs, len, ⟨hne, hfit, hfull, hrest⟩, k => by
    have hpos : 0 < c.length := List.length_pos_iff.mpr hne
    have hdiv := Nat.div_add_mod len n
    -- the slots of the first chunk are all in one block
    have hfirst : ∀ p, len ≤ p → p < len + c.length → p / n = len / n := by
      intro p hle hlt
      have hup : len + c.length ≤ n * (len / n + 1) := by
        rw [Nat.mul_add, Nat.mul_one]
        omega
      apply Nat.le_antisymm
      · exact Nat.le_of_lt_succ (Nat.div_lt_of_lt_mul (hlt.trans_le hup))
      · exact Nat.div_le_div_right hle
    have hlater : (∃ j < cs.length, k = len / n + 1 + j) ↔
        ∃ p, len + c.length ≤ p ∧ p < len + c.length + cs.flatten.length ∧ p / n = k := by
      rw [← written_iff hn hrest k]
      refine exists_congr fun j => and_congr_right fun hj => ?_
      have hcs : cs ≠ [] := List.length_pos_iff.mp ((Nat.zero_le j).trans_lt hj)
      rw [div_of_full hn (hfull hcs)]
    rw [List.flatten_cons, List.length_append, List.length_cons]
    constructor
    · rintro ⟨j, hj, rfl⟩
      cases j with
      | zero => exact ⟨len, le_refl _, by omega, rfl⟩
      | succ j =>
        obtain ⟨p, hle, hlt, hp⟩ := hlater.mp ⟨j, Nat.lt_of_succ_lt_succ hj, by omega⟩
        exact ⟨p, by omega, by omega, hp⟩
    · rintro ⟨p, hle, hlt, rfl⟩
      rcases Nat.lt_or_ge p (len + c.length) with hin | hout
      · exact ⟨0, Nat.succ_pos _, hfirst p hle hin⟩
      · obtain ⟨j, hj, hk⟩ := hlater.mpr ⟨p, hout, by omega, rfl⟩
        exact ⟨j + 1, Nat.succ_lt_succ hj, by omega⟩

end Copies

/-! ## What is claimed -/

variable {n : ℕ}

/-- The allocator and the tables over it. -/
abbrev NaiveTables : Type := Tables (NaiveBlockAllocator NaiveBlock)

/-- Calls on the tables over a new allocator. -/
def runTables (pos : 0 < n) (blockIds : List BlockId) (calls : List TableCall) : Except Exn NaiveTables := do
  let s ← NaiveBlockAllocator.init NaiveBlock.new n blockIds
  calls.foldlM (Tables.step (naiveAllocator n pos)) ⟨s, []⟩

/-- The tables hold the tokens that were appended to them, and the ids that no table has are the free ones. A
table that was freed keeps its number of full slots. -/
structure TablesHold (all : List BlockId) (w : NaiveTables) : Prop where
  tokens : ∀ t ∈ w.tables, (t.table.blocks.flatMap fun o => (w.alloc.block o).tokenIds) = t.tokens
  blockIds : ∀ t ∈ w.tables, (t.table.blocks.map fun o => (w.alloc.block o).blockId) = t.table.blockIds.map some
  numFullSlots : ∀ t ∈ w.tables, t.table.blocks ≠ [] → t.table.numFullSlots = t.tokens.length
  free_nodup : w.alloc.freeBlockIndices.Nodup
  free_iff : ∀ b, b ∈ w.alloc.freeBlockIndices ↔ b ∈ all ∧ ∀ t ∈ w.tables, b ∉ t.table.blockIds

/-- A call leaves the other tables as they are, with their blocks. -/
def OthersKept (w w' : NaiveTables) (c : TableCall) : Prop :=
  ∀ (j : ℕ) (t : Tracked), c.target ≠ some j → w.tables[j]? = some t →
    w'.tables[j]? = some t ∧ ∀ o ∈ t.table.blocks, w'.alloc.block o = w.alloc.block o

/-- An id that another table has, too. -/
def Tables.Shared (w : NaiveTables) (i : ℕ) (b : BlockId) : Prop :=
  ∃ (j : ℕ) (t : Tracked), j ≠ i ∧ w.tables[j]? = some t ∧ b ∈ t.table.blockIds

/-- An append to `len` slots from `start` on writes to the block with index `k`. -/
def Written (n start len k : ℕ) : Prop := ∃ p, start ≤ p ∧ p < start + len ∧ p / n = k

/-- **The copies** of an append: one for each block that is written to and shared, to an id that was free. The
other ids of the table stay. -/
def Copied (n : ℕ) (w w' : NaiveTables) (i len : ℕ) : Prop :=
  ∃ t t' cows, w.tables[i]? = some t ∧ w'.tables[i]? = some t' ∧
    w'.alloc.copyOnWrites = w.alloc.copyOnWrites ++ cows ∧ cows.Nodup ∧
    (∀ k b, t.table.blockIds[k]? = some b → Written n t.table.numFullSlots len k → w.Shared i b →
      ∃ b', t'.table.blockIds[k]? = some b' ∧ b' ∈ w.alloc.freeBlockIndices ∧ (b, b') ∈ cows) ∧
    (∀ k b, t.table.blockIds[k]? = some b → ¬ (Written n t.table.numFullSlots len k ∧ w.Shared i b) →
      t'.table.blockIds[k]? = some b) ∧
    ∀ r ∈ cows, ∃ k, t.table.blockIds[k]? = some r.1 ∧ t'.table.blockIds[k]? = some r.2 ∧
      Written n t.table.numFullSlots len k ∧ w.Shared i r.1

/-! ## The proofs -/

section Proofs

open NaiveBlockAllocator BlockTable

variable {pos : 0 < n} {all : List BlockId} {w w' : NaiveTables} {i : ℕ} {t : Tracked} {b : BlockId}

/-- The ids of a table are those of its blocks. -/
theorem TableOk.getElem?_blockIds {σ : Type} {A : Allocator σ} {s : σ} {t : BlockTable} {tokens : List TokenId}
    (h : TableOk A s t tokens) (k : ℕ) (b : BlockId) : t.blockIds[k]? = some b ↔
      ∃ o, t.blocks[k]? = some o ∧ (A.block s o).blockId = some b := by
  have hk := congrArg (fun l => l[k]?) h.blockIds
  simp only [List.getElem?_map] at hk
  constructor
  · intro hb
    rw [hb, Option.map_some, Option.map_eq_some_iff] at hk
    exact hk
  · rintro ⟨o, ho, hb⟩
    rw [ho, Option.map_some, hb, eq_comm, Option.map_eq_some_iff] at hk
    obtain ⟨b', hb', heq⟩ := hk
    rw [hb', heq]

theorem TableOk.mem_blockIds {σ : Type} {A : Allocator σ} {s : σ} {t : BlockTable} {tokens : List TokenId}
    (h : TableOk A s t tokens) (b : BlockId) : b ∈ t.blockIds ↔ ∃ o ∈ t.blocks, (A.block s o).blockId = some b := by
  rw [List.mem_iff_getElem?]
  constructor
  · rintro ⟨k, hk⟩
    obtain ⟨o, ho, hb⟩ := (h.getElem?_blockIds k b).mp hk
    exact ⟨o, List.mem_of_getElem? ho, hb⟩
  · rintro ⟨o, ho, hb⟩
    obtain ⟨k, hk⟩ := List.mem_iff_getElem?.mp ho
    exact ⟨k, (h.getElem?_blockIds k b).mpr ⟨o, hk, hb⟩⟩

/-- **The state of the tables**. -/
theorem tablesHold (h : w.Ok (naiveAllocator n pos) (NaiveInv n all [])) : TablesHold all w := by
  have hok : ∀ t ∈ w.tables, TableOk (naiveAllocator n pos) w.alloc t.table t.tokens := by
    intro t ht
    obtain ⟨i, hi⟩ := List.mem_iff_getElem?.mp ht
    exact h.table i t hi
  refine ⟨fun t ht => (hok t ht).holds.flatMap_tokenIds, fun t ht => (hok t ht).blockIds,
    fun t ht => (hok t ht).numFullSlots, h.inv.free_nodup, fun b => ?_⟩
  -- an id is held by no block if it is in no table
  have hzero : holders w.alloc.ids w.used b = 0 ↔ ∀ t ∈ w.tables, b ∉ t.table.blockIds := by
    rw [← not_iff_not, ← ne_eq, ← Nat.pos_iff_ne_zero, holders_pos]
    push Not
    constructor
    · rintro ⟨o, ho, hid⟩
      obtain ⟨i, t, hi, hot⟩ := Tables.mem_used.mp ho
      have ht := List.mem_of_getElem? hi
      exact ⟨t, ht, ((hok t ht).mem_blockIds b).mpr ⟨o, hot, hid⟩⟩
    · rintro ⟨t, ht, hb⟩
      obtain ⟨o, ho, hid⟩ := ((hok t ht).mem_blockIds b).mp hb
      obtain ⟨i, hi⟩ := List.mem_iff_getElem?.mp ht
      exact ⟨o, Tables.Ok.subset hi o ho, hid⟩
  rw [h.inv.free_iff, h.inv.counted b, List.count_nil, Nat.add_zero, ← hzero]
  split_ifs with hall
  · rw [Option.some.injEq, and_iff_right hall]
  · exact iff_of_false id fun hand => hall hand.1

/-- An id of a table is held twice if another table has it. -/
theorem one_lt_holders_iff (h : w.Ok (naiveAllocator n pos) (NaiveInv n all [])) (ht : w.tables[i]? = some t)
    (hb : b ∈ t.table.blockIds) : 1 < holders w.alloc.ids w.used b ↔ w.Shared i b := by
  have hok := h.table i t ht
  obtain ⟨x, hx, hxb⟩ := (hok.mem_blockIds b).mp hb
  -- within a table the ids are distinct
  have hother : ∀ y ∈ w.used, w.alloc.ids y = some b → y ≠ x → w.Shared i b := by
    intro y hy hyb hne
    obtain ⟨j, u, hj, hyu⟩ := Tables.mem_used.mp hy
    refine ⟨j, u, ?_, hj, ((h.table j u hj).mem_blockIds b).mpr ⟨y, hyu, hyb⟩⟩
    rintro rfl
    rw [ht] at hj
    cases hj
    exact hne (hok.holds.distinct trivial y hyu x hx (hyb.trans hxb.symm))
  rw [one_lt_holders]
  constructor
  · rintro ⟨y, hy, z, hz, hyb, hzb, hne⟩
    rcases eq_or_ne y x with rfl | hyx
    · exact hother z hz hzb hne.symm
    · exact hother y hy hyb hyx
  · rintro ⟨j, u, hne, hj, hbu⟩
    obtain ⟨y, hy, hyb⟩ := ((h.table j u hj).mem_blockIds b).mp hbu
    refine ⟨x, Tables.Ok.subset ht x hx, y, Tables.Ok.subset hj y hy, hxb, hyb, ?_⟩
    rintro rfl
    exact h.disjoint j i u t hj ht hne x hy hx

/-- New blocks that hold other ids do not count. -/
theorem holders_append {ref ref' : PoolId → Option BlockId} {D : Finset PoolId} {new : List PoolId}
    (hsame : ∀ x ∈ D, ref' x = ref x) (hother : ∀ x ∈ new, ref' x ≠ some b) :
    holders ref' (D ∪ new.toFinset) b = holders ref D b := by
  have heq : ((D ∪ new.toFinset).filter fun x => ref' x = some b) = D.filter fun x => ref x = some b := by
    ext x
    simp only [Finset.mem_filter, Finset.mem_union, List.mem_toFinset]
    constructor
    · rintro ⟨hx | hx, hb⟩
      · exact ⟨hx, (hsame x hx).symm.trans hb⟩
      · exact absurd hb (hother x hx)
    · rintro ⟨hx, hb⟩
      exact ⟨Or.inl hx, (hsame x hx).trans hb⟩
  rw [holders, heq, holders]

/-- The blocks that are made sure of take the first free ids. The others have the ids and the holders that they
had. -/
theorem ensureNumEmptySlots_ids {s s' : NaiveBlockAllocator NaiveBlock} {D : Finset PoolId} {t t' : BlockTable}
    {tokens : List TokenId} {k : ℕ} {extraHash : Option ℤ} (hi : NaiveInv n all [] s D)
    (ht : TableOk (naiveAllocator n pos) s t tokens) (hsub : ∀ x ∈ t.blocks, x ∈ D)
    (h : Returns (t.ensureNumEmptySlots (naiveAllocator n pos) k extraHash) s t' s') :
    ∃ new ids, t'.blocks = t.blocks ++ new ∧ s.freeBlockIndices = ids ++ s'.freeBlockIndices ∧
      s'.copyOnWrites = s.copyOnWrites ∧ t'.numFullSlots = t.numFullSlots ∧
      NaiveInv n all [] s' (D ∪ new.toFinset) ∧ (∀ x ∈ D, s'.ids x = s.ids x) ∧ ChainHolds True n s'.block t'.blocks tokens ∧
      (t'.blocks.map fun o => (s'.block o).blockId) = t'.blockIds.map some ∧
      (∀ x ∈ new, ∀ b, s'.ids x = some b → b ∈ s.freeBlockIndices) ∧
      ∀ x ∈ D, ∀ b, s.ids x = some b → holders s'.ids (D ∪ new.toFinset) b = holders s.ids D b := by
  obtain ⟨new, hblocks, hnew, hnum, hi', hframe, hh', hids'⟩ :=
    ensureNumEmptySlots_spec NaiveInv.lawful hi ht hsub h
  obtain ⟨ids, hfree, hcows, hblockIds⟩ : ∃ ids, s.freeBlockIndices = ids ++ s'.freeBlockIndices ∧
      s'.copyOnWrites = s.copyOnWrites ∧ t'.blockIds = t.blockIds ++ ids := by
    simp only [ensureNumEmptySlots, returns_bind, returns_fromExcept] at h
    obtain ⟨-, s₁, ⟨-, rfl⟩, h⟩ := h
    split_ifs at h with henough
    · obtain ⟨rfl, rfl⟩ := returns_pure.mp h
      exact ⟨[], rfl, rfl, (List.append_nil _).symm⟩
    · exact appendBlocks_free _ hi h
  have hold : ∀ x ∈ D, s'.ids x = s.ids x := fun x hx => congrArg NaiveBlock.blockId (hframe x hx)
  have hnewids : ∀ x ∈ new, ∀ b, s'.ids x = some b → b ∈ s.freeBlockIndices := by
    intro x hx b hb
    rw [hblocks, hblockIds, List.map_append, List.map_append] at hids'
    have hlen : t.blocks.length = t.blockIds.length := by
      have hlen := congrArg List.length ht.blockIds
      rwa [List.length_map, List.length_map] at hlen
    have htail := (List.append_inj hids' (by rw [List.length_map, List.length_map, hlen])).2
    have hmem : some b ∈ ids.map some := by
      rw [← htail, ← hb]
      exact List.mem_map_of_mem (f := fun o => s'.ids o) hx
    obtain ⟨b', hb', heq⟩ := List.mem_map.mp hmem
    cases heq
    rw [hfree]
    exact List.mem_append_left _ hb'
  refine ⟨new, ids, hblocks, hfree, hcows, hnum, hi', hold, hh', hids', hnewids, fun x hx b hb => ?_⟩
  exact holders_append hold fun y hy hyb => hi.ne_of_free (hnewids y hy b hyb) hx hb

/-- **The ids of an append**: a block that is written to moves to a free id if its own is shared. -/
theorem appendTokenIds_cows {s s' : NaiveBlockAllocator NaiveBlock} {D : Finset PoolId} {t t' : BlockTable}
    {tokens tokenIds : List TokenId} {numLookaheadSlots : ℕ} {extraHash : Option ℤ} (hi : NaiveInv n all [] s D)
    (ht : TableOk (naiveAllocator n pos) s t tokens) (hsub : ∀ x ∈ t.blocks, x ∈ D)
    (h : Returns (t.appendTokenIds (naiveAllocator n pos) tokenIds numLookaheadSlots extraHash) s t' s') :
    ∃ new cows, t'.blocks = t.blocks ++ new ∧ s'.copyOnWrites = s.copyOnWrites ++ cows ∧
      (∀ r ∈ cows, r.2 ∈ s.freeBlockIndices) ∧ cows.Nodup ∧
      (∀ k o b, t.blocks[k]? = some o → s.ids o = some b →
        (Written n t.numFullSlots tokenIds.length k ∧ 1 < holders s.ids D b →
          ∃ b', s'.ids o = some b' ∧ (b, b') ∈ cows) ∧
        (¬ (Written n t.numFullSlots tokenIds.length k ∧ 1 < holders s.ids D b) → s'.ids o = some b)) ∧
      ∀ r ∈ cows, ∃ k o, t.blocks[k]? = some o ∧ s.ids o = some r.1 ∧ s'.ids o = some r.2 ∧
        Written n t.numFullSlots tokenIds.length k ∧ 1 < holders s.ids D r.1 := by
  simp only [appendTokenIds, returns_bind, returns_fromExcept, returns_pure] at h
  obtain ⟨u, s₁, ⟨hassert, rfl⟩, t₁, s₂, hensure, t₂, s₃, hchunks, rfl, rfl⟩ := h
  obtain ⟨new, ids, hblocks, hfree, hcows₂, hnum, hi₂, hold, hh₂, hids₂, hnewids, hholders⟩ :=
    ensureNumEmptySlots_ids hi ht hsub hensure
  have hsub₂ : ∀ x ∈ t₁.blocks, x ∈ D ∪ new.toFinset := by
    intro x hx
    rw [hblocks] at hx
    rcases List.mem_append.mp hx with hx | hx
    · exact Finset.mem_union_left _ (hsub x hx)
    · exact Finset.mem_union_right _ (List.mem_toFinset.mpr hx)
  -- then the chunks
  have hfit := chunksFit_chunkTokenBlocks (A := naiveAllocator n pos) t₁ tokenIds
  rw [hnum, ht.numFullSlots (assert_eq_ok.mp hassert)] at hfit hchunks
  rw [ht.numFullSlots (assert_eq_ok.mp hassert)]
  obtain ⟨hblocks₃, -, -, -, -, hother⟩ :=
    appendChunks_spec NaiveInv.lawful _ hi₂ hh₂ hids₂ hsub₂ hfit (fun _ => rfl) hchunks
  obtain ⟨cows, hcows, hfree₃, hwritten, hall⟩ :=
    appendChunks_cows _ hi₂ hh₂ hids₂ hsub₂ hfit (fun _ => rfl) hchunks
  have hindex : ∀ k, _ ↔ Written n tokens.length _ k := written_iff pos hfit
  rw [flatten_chunkTokenBlocks] at hindex
  have hnodup : (cows.map (·.2)).Nodup := by
    have hnodup := hi.free_nodup
    rw [hfree, hfree₃] at hnodup
    exact (List.nodup_append.mp (List.nodup_append.mp hnodup).2.1).1
  have hget : ∀ (k : ℕ) (o : PoolId), t.blocks[k]? = some o → t₁.blocks[k]? = some o := by
    intro k o ho
    rw [hblocks, List.getElem?_append_left (List.getElem?_eq_some_iff.mp ho).1]
    exact ho
  have hinj : ∀ (k k' : ℕ) (o : PoolId), t.blocks[k]? = some o → t₁.blocks[k']? = some o → k = k' :=
    fun k k' o hk hk' =>
      (List.getElem?_inj (List.getElem?_eq_some_iff.mp (hget k o hk)).1 hh₂.nodup).mp ((hget k o hk).trans hk'.symm)
  refine ⟨new, cows, hblocks₃.trans hblocks, ?_, fun r hr => ?_, hnodup.of_map, fun k o b ho hb => ⟨?_, ?_⟩,
    fun r hr => ?_⟩
  · rw [hcows, hcows₂]
  · rw [hfree, hfree₃]
    exact List.mem_append_right _ (List.mem_append_left _ (List.mem_map_of_mem hr))
  · rintro ⟨hw, hshared⟩
    obtain ⟨j, hj, rfl⟩ := (hindex k).mpr hw
    have hoD := hsub o (List.mem_of_getElem? ho)
    have hrule := hwritten j hj o b (hget _ o ho) ((hold o hoD).trans hb)
    rwa [hholders o hoD b hb, if_pos hshared] at hrule
  · intro hnot
    have hoD := hsub o (List.mem_of_getElem? ho)
    have hb₂ := (hold o hoD).trans hb
    by_cases hw : Written n tokens.length tokenIds.length k
    · obtain ⟨j, hj, rfl⟩ := (hindex k).mpr hw
      have hrule := hwritten j hj o b (hget _ o ho) hb₂
      rwa [hholders o hoD b hb, if_neg fun hshared => hnot ⟨hw, hshared⟩] at hrule
    · have hsame : s'.block o = s₂.block o := by
        refine hother o (Finset.mem_union_left _ hoD) fun j hj heq => hw ((hindex k).mp ⟨j, hj, ?_⟩)
        exact hinj k _ o ho heq
      exact (congrArg NaiveBlock.blockId hsame).trans hb₂
  · obtain ⟨j, hj, o, ho, hb, hb', hshared⟩ := hall r hr
    have hmem := List.mem_of_getElem? ho
    rw [hblocks] at hmem
    rcases List.mem_append.mp hmem with hot | hon
    · obtain ⟨k, hk⟩ := List.mem_iff_getElem?.mp hot
      have hoD := hsub o hot
      rw [hold o hoD] at hb
      rw [hholders o hoD r.1 hb] at hshared
      exact ⟨k, o, hk, hb, hb', (hindex k).mp ⟨j, hj, hinj k _ o hk ho⟩, hshared⟩
    · -- the id of a new block is not shared
      exfalso
      obtain ⟨y, hy, z, hz, hyb, hzb, hyz⟩ := one_lt_holders.mp hshared
      have hfresh : ∀ x ∈ D ∪ new.toFinset, s₂.ids x = some r.1 → x ∈ t₁.blocks := by
        intro x hx hxb
        rw [hblocks]
        rcases Finset.mem_union.mp hx with hx | hx
        · exact absurd ((hold x hx).symm.trans hxb) (hi.ne_of_free (hnewids o hon _ hb) hx)
        · exact List.mem_append_right _ (List.mem_toFinset.mp hx)
      exact hyz (hh₂.distinct trivial y (hfresh y hy hyb) z (hfresh z hz hzb) (hyb.trans hzb.symm))

/-- **The copies of an append**. -/
theorem append_copied (h : w.Ok (naiveAllocator n pos) (NaiveInv n all [])) {tokenIds : List TokenId}
    {numLookaheadSlots : ℕ} {extraHash : Option ℤ}
    (hstep : w.step (naiveAllocator n pos) (.appendTokenIds i tokenIds numLookaheadSlots extraHash) = .ok w') :
    Copied n w w' i tokenIds.length := by
  have hok' := (Tables.step_spec NaiveInv.lawful NaiveInv.freeLawful h hstep).1
  obtain ⟨t, ht, hstep⟩ := bind_eq_ok.mp hstep
  obtain ⟨⟨table, s'⟩, hret, hstep⟩ := bind_eq_ok.mp hstep
  cases hstep
  rw [Tables.get_eq_ok] at ht
  have hok := h.table i t ht
  have ht' := Tables.getElem?_set_self ht ⟨table, t.tokens ++ tokenIds⟩
  have htable := hok'.table i _ ht'
  obtain ⟨new, cows, hblocks, hcows, hfree, hnodup, hrule, hall⟩ :=
    appendTokenIds_cows h.inv hok (Tables.Ok.subset ht) (exec_eq_ok.mp hret)
  -- an id of the table, before the append and after it
  have hnew : ∀ (k : ℕ) (o : PoolId) (b : BlockId), t.table.blocks[k]? = some o → s'.ids o = some b →
      table.blockIds[k]? = some b := by
    intro k o b ho hb
    refine (htable.getElem?_blockIds k b).mpr ⟨o, ?_, hb⟩
    show table.blocks[k]? = _
    rw [hblocks, List.getElem?_append_left (List.getElem?_eq_some_iff.mp ho).1]
    exact ho
  refine ⟨t, _, cows, ht, ht', hcows, hnodup, fun k b hk hw hshared => ?_, fun k b hk hnot => ?_, fun r hr => ?_⟩
  · obtain ⟨o, ho, hb⟩ := (hok.getElem?_blockIds k b).mp hk
    obtain ⟨b', hb', hmem⟩ :=
      (hrule k o b ho hb).1 ⟨hw, (one_lt_holders_iff h ht (List.mem_of_getElem? hk)).mpr hshared⟩
    exact ⟨b', hnew k o b' ho hb', hfree _ hmem, hmem⟩
  · obtain ⟨o, ho, hb⟩ := (hok.getElem?_blockIds k b).mp hk
    refine hnew k o b ho ((hrule k o b ho hb).2 ?_)
    rintro ⟨hw, hlt⟩
    exact hnot ⟨hw, (one_lt_holders_iff h ht (List.mem_of_getElem? hk)).mp hlt⟩
  · obtain ⟨k, o, ho, hb, hb', hw, hlt⟩ := hall r hr
    have hk := (hok.getElem?_blockIds k r.1).mpr ⟨o, ho, hb⟩
    exact ⟨k, hk, hnew k o r.2 ho hb', hw, (one_lt_holders_iff h ht (List.mem_of_getElem? hk)).mp hlt⟩

end Proofs

/-- **Copy-on-write isolates forked tables**: in every state that calls lead to, and for every call that follows. -/
theorem copy_on_write_isolates (pos : 0 < n) {blockIds : List BlockId} {calls : List TableCall} {w : NaiveTables}
    (hrun : runTables pos blockIds calls = .ok w) :
    TablesHold blockIds w ∧ ∀ c w', w.step (naiveAllocator n pos) c = .ok w' → OthersKept w w' c ∧
      ∀ i tokenIds numLookaheadSlots extraHash,
        c = .appendTokenIds i tokenIds numLookaheadSlots extraHash → Copied n w w' i tokenIds.length := by
  obtain ⟨s, hinit, hrun⟩ := bind_eq_ok.mp hrun
  have hok := Tables.ok_run NaiveInv.lawful NaiveInv.freeLawful (Tables.ok_init (naiveInv_init hinit)) hrun
  refine ⟨tablesHold hok, fun c w' hstep => ⟨?_, ?_⟩⟩
  · exact (Tables.step_spec NaiveInv.lawful NaiveInv.freeLawful hok hstep).2
  · rintro i tokenIds numLookaheadSlots extraHash rfl
    exact append_copied hok hstep

/-- Of two forked blocks, the second one is copied when the fork gets a token. -/
theorem copy_on_write_isolates_fork : ∃ w w',
    runTables Nat.zero_lt_two [0, 1, 2] [.new, .allocate 0 [10, 11, 12] none, .fork 0] = .ok w ∧
    w.step (naiveAllocator 2 Nat.zero_lt_two) (.appendTokenIds 1 [13] 0 none) = .ok w' ∧
    w'.alloc.copyOnWrites = [(1, 2)] ∧ TablesHold [0, 1, 2] w ∧ Copied 2 w w' 1 1 := by
  have hall : (do
      let w ← runTables Nat.zero_lt_two [0, 1, 2] [.new, .allocate 0 [10, 11, 12] none, .fork 0]
      let w' ← w.step (naiveAllocator 2 Nat.zero_lt_two) (.appendTokenIds 1 [13] 0 none)
      .ok w'.alloc.copyOnWrites) = .ok [(1, 2)] := by decide +kernel
  obtain ⟨w, hw, h⟩ := bind_eq_ok.mp hall
  obtain ⟨w', hw', h⟩ := bind_eq_ok.mp h
  obtain ⟨hold, hnext⟩ := copy_on_write_isolates Nat.zero_lt_two hw
  exact ⟨w, w', hw, hw', Except.ok.inj h, hold, (hnext _ w' hw').2 1 [13] 0 none rfl⟩

/-- A table that was freed has no tokens, and keeps its number of full slots. -/
theorem freed_table_keeps_slots : ∃ w,
    runTables Nat.zero_lt_two [0, 1, 2] [.new, .allocate 0 [10] none, .free 0] = .ok w ∧
    ∃ t ∈ w.tables, (t.table.blocks.flatMap fun o => (w.alloc.block o).tokenIds) = [] ∧
      t.table.numFullSlots = 1 := by
  have hall : (do
      let w ← runTables Nat.zero_lt_two [0, 1, 2] [.new, .allocate 0 [10] none, .free 0]
      .ok (w.tables.map Tracked.table)) = .ok [⟨[], [], 1⟩] := by decide +kernel
  obtain ⟨w, hw, h⟩ := bind_eq_ok.mp hall
  obtain ⟨t, ht, htable⟩ := List.mem_map.mp ((Except.ok.inj h).symm ▸ List.mem_singleton_self _)
  exact ⟨w, hw, t, ht, by rw [htable]; rfl, by rw [htable]⟩

end SpaceServe
