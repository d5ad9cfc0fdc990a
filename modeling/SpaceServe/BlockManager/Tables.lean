import SpaceServe.BlockManager.BlockTable

/-!
# Many tables over one allocator

Calls on any number of block tables that share an allocator, in any order. Each table is kept with the tokens
that were appended to it: what it was allocated with, or what its parent had when it was forked, and what it was
given since.

* `Tables`, `TableCall`, `Tables.step`: the runs;
* `Tables.Ok`: the tables hold their tokens in blocks of their own; `Ok.call`, `Ok.fork`;
* **`ok_step`**: every call that returns keeps that; `step_others`: and leaves the other tables as they are.
-/

set_option autoImplicit false

namespace SpaceServe

open Py

variable {σ : Type}

/-- A table, with the tokens that were appended to it. -/
structure Tracked where
  table : BlockTable
  tokens : List TokenId

/-- An allocator, with the tables over it. -/
structure Tables (σ : Type) where
  alloc : σ
  tables : List Tracked

/-- The calls. A table that is made, or forked, gets the next number. -/
inductive TableCall
  | new
  | allocate (i : ℕ) (tokenIds : List TokenId) (extraHash : Option ℤ)
  | appendTokenIds (i : ℕ) (tokenIds : List TokenId) (numLookaheadSlots : ℕ) (extraHash : Option ℤ)
  | fork (i : ℕ)
  | free (i : ℕ)

namespace TableCall

/-- The table that is called. -/
def target : TableCall → Option ℕ
  | new => none
  | allocate i _ _ => some i
  | appendTokenIds i _ _ _ => some i
  | fork i => some i
  | free i => some i

end TableCall

namespace Tables

variable (A : Allocator σ)

/-- The table with a number. -/
def get (w : Tables σ) (i : ℕ) : Except Exn Tracked := ofOption (.indexError "") w.tables[i]?

/-- A call. -/
def step (w : Tables σ) : TableCall → Except Exn (Tables σ)
  | .new => .ok { w with tables := w.tables ++ [⟨.init, []⟩] }
  | .allocate i tokenIds extraHash => do
    let t ← w.get i
    let (table, alloc) ← (t.table.allocate A tokenIds extraHash).exec w.alloc
    .ok ⟨alloc, w.tables.set i ⟨table, tokenIds⟩⟩
  | .appendTokenIds i tokenIds numLookaheadSlots extraHash => do
    let t ← w.get i
    let (table, alloc) ← (t.table.appendTokenIds A tokenIds numLookaheadSlots extraHash).exec w.alloc
    .ok ⟨alloc, w.tables.set i ⟨table, t.tokens ++ tokenIds⟩⟩
  | .fork i => do
    let t ← w.get i
    let (table, alloc) ← (t.table.fork A).exec w.alloc
    .ok ⟨alloc, w.tables ++ [⟨table, t.tokens⟩]⟩
  | .free i => do
    let t ← w.get i
    let (table, alloc) ← (t.table.free A).exec w.alloc
    .ok ⟨alloc, w.tables.set i ⟨table, []⟩⟩

/-- The blocks of all tables. -/
def used (w : Tables σ) : Finset PoolId := (w.tables.flatMap (·.table.blocks)).toFinset

variable {A} {Inv : σ → Finset PoolId → Prop} {w w' : Tables σ} {i j : ℕ} {t t' : Tracked} {s' : σ}

theorem get_eq_ok : w.get i = .ok t ↔ w.tables[i]? = some t := ofOption_eq_ok

theorem mem_used {x : PoolId} : x ∈ w.used ↔
    ∃ (i : ℕ) (t : Tracked), w.tables[i]? = some t ∧ x ∈ t.table.blocks := by
  rw [used, List.mem_toFinset, List.mem_flatMap]
  constructor
  · rintro ⟨t, ht, hx⟩
    obtain ⟨i, hi⟩ := List.mem_iff_getElem?.mp ht
    exact ⟨i, t, hi, hx⟩
  · rintro ⟨i, t, hi, hx⟩
    exact ⟨t, List.mem_of_getElem? hi, hx⟩

/-- The tables hold their tokens, in blocks of their own. -/
structure Ok (A : Allocator σ) (Inv : σ → Finset PoolId → Prop) (w : Tables σ) : Prop where
  inv : Inv w.alloc w.used
  table : ∀ (i : ℕ) (t : Tracked), w.tables[i]? = some t → TableOk A w.alloc t.table t.tokens
  disjoint : ∀ (i j : ℕ) (t t' : Tracked), w.tables[i]? = some t → w.tables[j]? = some t' → i ≠ j →
    ∀ x ∈ t.table.blocks, x ∉ t'.table.blocks

theorem Ok.subset (ht : w.tables[i]? = some t) : ∀ x ∈ t.table.blocks, x ∈ w.used := fun _ hx =>
  mem_used.mpr ⟨i, t, ht, hx⟩

theorem getElem?_set_self (ht : w.tables[i]? = some t) (t' : Tracked) : (w.tables.set i t')[i]? = some t' :=
  List.getElem?_set_self (List.getElem?_eq_some_iff.mp ht).1

/-- The blocks, after a table got others. -/
theorem used_set (h : w.Ok A Inv) (ht : w.tables[i]? = some t) (alloc : σ) (t' : Tracked) :
    (⟨alloc, w.tables.set i t'⟩ : Tables σ).used =
      (w.used \ t.table.blocks.toFinset) ∪ t'.table.blocks.toFinset := by
  ext x
  rw [mem_used, Finset.mem_union, Finset.mem_sdiff, mem_used, List.mem_toFinset, List.mem_toFinset]
  constructor
  · rintro ⟨j, u, hj, hx⟩
    rcases eq_or_ne i j with rfl | hne
    · change (w.tables.set i t')[i]? = _ at hj
      rw [getElem?_set_self ht] at hj
      cases hj
      exact Or.inr hx
    · change (w.tables.set i t')[j]? = _ at hj
      rw [List.getElem?_set_ne hne] at hj
      exact Or.inl ⟨⟨j, u, hj, hx⟩, h.disjoint j i u t hj ht hne.symm x hx⟩
  · rintro (⟨⟨j, u, hj, hx⟩, hnot⟩ | hx)
    · have hne : i ≠ j := by
        rintro rfl
        rw [ht] at hj
        cases hj
        exact hnot hx
      refine ⟨j, u, ?_, hx⟩
      show (w.tables.set i t')[j]? = _
      rw [List.getElem?_set_ne hne]
      exact hj
    · exact ⟨i, t', getElem?_set_self ht t', hx⟩

/-- **A call on one table**, which keeps its blocks. -/
theorem Ok.call (h : w.Ok A Inv) (ht : w.tables[i]? = some t)
    (hkept : BlockTable.Kept A Inv w.alloc s' w.used t.table t'.table t'.tokens)
    (hsub : ∀ x ∈ t.table.blocks, x ∈ t'.table.blocks) : (⟨s', w.tables.set i t'⟩ : Tables σ).Ok A Inv where
  inv := by
    rw [used_set h ht]
    have hset : (w.used \ t.table.blocks.toFinset) ∪ t'.table.blocks.toFinset =
        w.used ∪ t'.table.blocks.toFinset := by
      ext x
      simp only [Finset.mem_union, Finset.mem_sdiff, List.mem_toFinset]
      have hx := hsub x
      tauto
    rw [hset]
    exact hkept.inv
  table j u hj := by
    change (w.tables.set i t')[j]? = _ at hj
    rcases eq_or_ne i j with rfl | hne
    · rw [getElem?_set_self ht] at hj
      cases hj
      exact hkept.table
    · rw [List.getElem?_set_ne hne] at hj
      have hu := h.table j u hj
      have hframe : ∀ x ∈ u.table.blocks, A.block s' x = A.block w.alloc x := fun x hx =>
        hkept.frame x (Ok.subset hj x hx) (h.disjoint j i u t hj ht hne.symm x hx)
      refine ⟨hu.holds.congr hframe, ?_, hu.numFullSlots⟩
      rw [← hu.blockIds]
      exact List.map_congr_left fun x hx => by rw [hframe x hx]
  disjoint j k u v hj hk hne x hx := by
    change (w.tables.set i t')[j]? = _ at hj
    change (w.tables.set i t')[k]? = _ at hk
    -- the blocks of the table are old ones of its own, or new
    have hown : ∀ (l : ℕ) (y : Tracked), i ≠ l → w.tables[l]? = some y → ∀ x ∈ t'.table.blocks, x ∉ y.table.blocks := by
      intro l y hl hy x hx hxy
      rcases hkept.new x hx with hold | hnew
      · exact h.disjoint i l t y ht hy hl x hold hxy
      · exact hnew (Ok.subset hy x hxy)
    rcases eq_or_ne i j with rfl | hij
    · rw [getElem?_set_self ht] at hj
      cases hj
      rw [List.getElem?_set_ne hne] at hk
      exact hown k v hne hk x hx
    · rw [List.getElem?_set_ne hij] at hj
      rcases eq_or_ne i k with rfl | hik
      · rw [getElem?_set_self ht] at hk
        cases hk
        exact fun hxt => hown j u hij hj x hxt hx
      · rw [List.getElem?_set_ne hik] at hk
        exact h.disjoint j k u v hj hk hne x hx

/-- A new table at the end. -/
theorem getElem?_concat (ts : List Tracked) (t : Tracked) (i : ℕ) {u : Tracked} (h : (ts ++ [t])[i]? = some u) :
    ts[i]? = some u ∨ i = ts.length ∧ u = t := by
  rcases Nat.lt_trichotomy i ts.length with hlt | rfl | hgt
  · rw [List.getElem?_append_left hlt] at h
    exact Or.inl h
  · rw [List.getElem?_concat_length] at h
    exact Or.inr ⟨rfl, (Option.some.inj h).symm⟩
  · rw [List.getElem?_eq_none (by rw [List.length_append, List.length_singleton]; omega)] at h
    cases h

/-- **A call that makes a table**. -/
theorem Ok.fork (h : w.Ok A Inv)
    (hkept : BlockTable.Kept A Inv w.alloc s' w.used .init t'.table t'.tokens) :
    (⟨s', w.tables ++ [t']⟩ : Tables σ).Ok A Inv where
  inv := by
    have hset : (⟨s', w.tables ++ [t']⟩ : Tables σ).used = w.used ∪ t'.table.blocks.toFinset := by
      rw [used, used, List.flatMap_append, List.flatMap_singleton, List.toFinset_append]
    rw [hset]
    exact hkept.inv
  table j u hj := by
    rcases getElem?_concat w.tables _ j hj with hj | ⟨-, rfl⟩
    · have hu := h.table j u hj
      have hframe : ∀ x ∈ u.table.blocks, A.block s' x = A.block w.alloc x := fun x hx =>
        hkept.frame x (Ok.subset hj x hx) List.not_mem_nil
      refine ⟨hu.holds.congr hframe, ?_, hu.numFullSlots⟩
      rw [← hu.blockIds]
      exact List.map_congr_left fun x hx => by rw [hframe x hx]
    · exact hkept.table
  disjoint j k u v hj hk hne x hx := by
    have hnew : ∀ x ∈ t'.table.blocks, x ∉ w.used := fun x hx =>
      (hkept.new x hx).resolve_left List.not_mem_nil
    rcases getElem?_concat w.tables _ j hj with hj' | ⟨rfl, rfl⟩ <;>
      rcases getElem?_concat w.tables _ k hk with hk' | ⟨rfl, rfl⟩
    · exact h.disjoint j k u v hj' hk' hne x hx
    · exact fun hxt => hnew x hxt (Ok.subset hj' x hx)
    · exact fun hxv => hnew x hx (Ok.subset hk' x hxv)
    · exact absurd rfl hne

/-- What `free` of a table leaves: the other blocks as they were. Their predecessors are none of the freed
blocks. -/
def FreeLawful (A : Allocator σ) (Inv : σ → Finset PoolId → Prop) : Prop :=
  ∀ {s s' : σ} {D : Finset PoolId} {blocks : List PoolId} {tokens : List TokenId} {u : PUnit}, Inv s D →
    ChainHolds A.ownIds A.blockSize (A.block s) blocks tokens → (∀ x ∈ blocks, x ∈ D) →
    (∀ x ∈ D, x ∉ blocks → ∀ p, (A.block s x).prevBlock = some p → p ∈ D ∧ p ∉ blocks) →
    Returns (blocks.forM fun o => A.free o) s u s' →
    Inv s' (D \ blocks.toFinset) ∧ ∀ x ∈ D, x ∉ blocks → A.block s' x = A.block s x

/-- The block before one of a table is of that table too. -/
theorem Ok.prev_mem (h : w.Ok A Inv) (ht : w.tables[i]? = some t) {x p : PoolId} (hx : x ∈ t.table.blocks)
    (hp : (A.block w.alloc x).prevBlock = some p) : p ∈ t.table.blocks := by
  obtain ⟨k, hk⟩ := List.mem_iff_getElem?.mp hx
  rw [(h.table i t ht).holds.prev k x hk] at hp
  split_ifs at hp
  exact List.mem_of_getElem? hp

/-- **A call that frees a table**. -/
theorem Ok.free (h : w.Ok A Inv) (hfree : FreeLawful A Inv) (ht : w.tables[i]? = some t) {u : PUnit}
    (hret : Returns (t.table.blocks.forM fun o => A.free o) w.alloc u s') (n : ℕ) :
    (⟨s', w.tables.set i ⟨⟨[], [], n⟩, []⟩⟩ : Tables σ).Ok A Inv ∧
      ∀ x ∈ w.used, x ∉ t.table.blocks → A.block s' x = A.block w.alloc x := by
  have hclosed : ∀ x ∈ w.used, x ∉ t.table.blocks → ∀ p, (A.block w.alloc x).prevBlock = some p →
      p ∈ w.used ∧ p ∉ t.table.blocks := by
    intro x hx hnot p hp
    obtain ⟨j, v, hj, hxv⟩ := mem_used.mp hx
    have hpv := h.prev_mem hj hxv hp
    have hne : j ≠ i := by
      rintro rfl
      rw [ht] at hj
      cases hj
      exact hnot hxv
    exact ⟨Ok.subset hj p hpv, h.disjoint j i v t hj ht hne p hpv⟩
  obtain ⟨hinv, hframe⟩ := hfree h.inv (h.table i t ht).holds (Ok.subset ht) hclosed hret
  refine ⟨⟨?_, fun j v hj => ?_, fun j k v v' hj hk hne x hx => ?_⟩, hframe⟩
  · rw [used_set h ht]
    simpa using hinv
  · change (w.tables.set i _)[j]? = _ at hj
    rcases eq_or_ne i j with rfl | hij
    · rw [getElem?_set_self ht] at hj
      cases hj
      exact ⟨.nil _ _ _, rfl, fun hne => absurd rfl hne⟩
    · rw [List.getElem?_set_ne hij] at hj
      have hv := h.table j v hj
      have hframe' : ∀ x ∈ v.table.blocks, A.block s' x = A.block w.alloc x := fun x hx =>
        hframe x (Ok.subset hj x hx) (h.disjoint j i v t hj ht hij.symm x hx)
      refine ⟨hv.holds.congr hframe', ?_, hv.numFullSlots⟩
      rw [← hv.blockIds]
      exact List.map_congr_left fun x hx => by rw [hframe' x hx]
  · change (w.tables.set i _)[j]? = _ at hj
    change (w.tables.set i _)[k]? = _ at hk
    rcases eq_or_ne i j with rfl | hij
    · rw [getElem?_set_self ht] at hj
      cases hj
      cases hx
    · rw [List.getElem?_set_ne hij] at hj
      rcases eq_or_ne i k with rfl | hik
      · rw [getElem?_set_self ht] at hk
        cases hk
        exact List.not_mem_nil
      · rw [List.getElem?_set_ne hik] at hk
        exact h.disjoint j k v v' hj hk hne x hx

/-- A call, and the blocks of the other tables. -/
theorem step_spec (hA : Lawful A Inv) (hfree : FreeLawful A Inv) (h : w.Ok A Inv) {c : TableCall}
    (hstep : w.step A c = .ok w') : w'.Ok A Inv ∧ ∀ (j : ℕ) (t : Tracked), c.target ≠ some j → w.tables[j]? = some t →
      w'.tables[j]? = some t ∧ ∀ x ∈ t.table.blocks, A.block w'.alloc x = A.block w.alloc x := by
  -- the blocks of another table are none of those of the table that is called
  have hother : ∀ {i : ℕ} {t : Tracked} {s' : σ}, w.tables[i]? = some t →
      (∀ x ∈ w.used, x ∉ t.table.blocks → A.block s' x = A.block w.alloc x) →
      ∀ (j : ℕ) (u : Tracked), some i ≠ some j → w.tables[j]? = some u → ∀ x ∈ u.table.blocks,
        A.block s' x = A.block w.alloc x := by
    intro i t s' ht hframe j u hne hj x hx
    exact hframe x (Ok.subset hj x hx) (h.disjoint j i u t hj ht (fun heq => hne (by rw [heq])) x hx)
  have hset : ∀ {i : ℕ} {t' : Tracked} (j : ℕ) (u : Tracked), some i ≠ some j → w.tables[j]? = some u →
      (w.tables.set i t')[j]? = some u := by
    intro i t' j u hne hj
    rw [List.getElem?_set_ne fun heq => hne (by rw [heq])]
    exact hj
  have happend : ∀ (t' : Tracked) (j : ℕ) (u : Tracked), w.tables[j]? = some u → (w.tables ++ [t'])[j]? = some u := by
    intro t' j u hj
    rw [List.getElem?_append_left (List.getElem?_eq_some_iff.mp hj).1]
    exact hj
  cases c with
  | new =>
    cases hstep
    have hkept : BlockTable.Kept A Inv w.alloc w.alloc w.used .init .init [] := by
      refine ⟨⟨.nil _ _ _, rfl, fun hne => absurd rfl hne⟩, ?_, fun x hx => absurd hx List.not_mem_nil,
        fun _ _ _ => rfl⟩
      simpa [BlockTable.init] using h.inv
    exact ⟨h.fork hkept, fun j u _ hj => ⟨happend _ j u hj, fun _ _ => rfl⟩⟩
  | allocate i tokenIds extraHash =>
    obtain ⟨t, ht, hstep⟩ := bind_eq_ok.mp hstep
    obtain ⟨⟨table, s'⟩, hret, hstep⟩ := bind_eq_ok.mp hstep
    cases hstep
    rw [get_eq_ok] at ht
    obtain ⟨hempty, -, hkept⟩ := BlockTable.allocate_spec hA h.inv (exec_eq_ok.mp hret)
    refine ⟨h.call ht hkept fun x hx => ?_, fun j u hne hj => ⟨hset j u hne hj, hother ht hkept.frame j u hne hj⟩⟩
    rw [hempty] at hx
    cases hx
  | appendTokenIds i tokenIds numLookaheadSlots extraHash =>
    obtain ⟨t, ht, hstep⟩ := bind_eq_ok.mp hstep
    obtain ⟨⟨table, s'⟩, hret, hstep⟩ := bind_eq_ok.mp hstep
    cases hstep
    rw [get_eq_ok] at ht
    obtain ⟨hsub, hkept⟩ :=
      BlockTable.appendTokenIds_spec hA h.inv (h.table i t ht) (Ok.subset ht) (exec_eq_ok.mp hret)
    exact ⟨h.call ht hkept hsub, fun j u hne hj => ⟨hset j u hne hj, hother ht hkept.frame j u hne hj⟩⟩
  | fork i =>
    obtain ⟨t, ht, hstep⟩ := bind_eq_ok.mp hstep
    obtain ⟨⟨table, s'⟩, hret, hstep⟩ := bind_eq_ok.mp hstep
    cases hstep
    rw [get_eq_ok] at ht
    obtain ⟨-, -, hkept⟩ := BlockTable.fork_spec hA h.inv (h.table i t ht) (Ok.subset ht) (exec_eq_ok.mp hret)
    exact ⟨h.fork hkept, fun j u _ hj => ⟨happend _ j u hj, fun x hx =>
      hkept.frame x (Ok.subset hj x hx) List.not_mem_nil⟩⟩
  | free i =>
    obtain ⟨t, ht, hstep⟩ := bind_eq_ok.mp hstep
    obtain ⟨⟨table, s'⟩, hret, hstep⟩ := bind_eq_ok.mp hstep
    cases hstep
    rw [get_eq_ok] at ht
    rw [exec_eq_ok] at hret
    simp only [BlockTable.free, returns_bind, returns_pure] at hret
    obtain ⟨u, s₁, hall, rfl, rfl⟩ := hret
    obtain ⟨hok, hframe⟩ := h.free hfree ht hall t.table.numFullSlots
    exact ⟨hok, fun j u hne hj => ⟨hset j u hne hj, hother ht hframe j u hne hj⟩⟩

/-- **A run** of calls that return. -/
theorem ok_run (hA : Lawful A Inv) (hfree : FreeLawful A Inv) {calls : List TableCall} (h : w.Ok A Inv)
    (hrun : calls.foldlM (Tables.step A) w = .ok w') : w'.Ok A Inv :=
  foldlM_invariant (P := Tables.Ok A Inv) (fun _ _ _ _ hw hs => (step_spec hA hfree hw hs).1) h hrun

theorem ok_init {s : σ} (h : Inv s ∅) : (⟨s, []⟩ : Tables σ).Ok A Inv where
  inv := h
  table _ _ ht := by cases ht
  disjoint _ _ _ _ ht := by cases ht

end Tables

end SpaceServe
