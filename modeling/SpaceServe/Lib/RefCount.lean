import Mathlib.Data.Finset.Card
import Mathlib.Data.Finset.Insert
import SpaceServe.Lib.Dict

/-!
# Reference counts

Objects refer to keys, several to one. A table of counts is right when the count of every key is the number of
objects that refer to it, with the references that are held outside of the objects.

* `holders`: how many objects refer to a key; `holders_update`, `holders_insert`;
* `Counted`: the counts are right;
* **`Counted.incr`**, **`Counted.decr`**, **`Counted.release`**, **`Counted.acquire`**, **`Counted.new`**,
  `Counted.shrink`: how it is kept.
-/

set_option autoImplicit false

namespace Py

variable {O K : Type} [DecidableEq K]

/-! ## Holders -/

/-- The number of objects that refer to a key. -/
def holders (ref : O → Option K) (D : Finset O) (k : K) : ℕ := (D.filter fun o => ref o = some k).card

section Holders

variable {ref ref' : O → Option K} {D D' : Finset O} {o : O} {k : K}

theorem holders_congr (h : ∀ o ∈ D, ref o = ref' o) : holders ref D k = holders ref' D k := by
  have heq : (D.filter fun o => ref o = some k) = D.filter fun o => ref' o = some k :=
    Finset.filter_congr fun o ho => by rw [h o ho]
  rw [holders, heq, holders]

theorem holders_pos : 0 < holders ref D k ↔ ∃ o ∈ D, ref o = some k := by
  rw [holders, Finset.card_pos]
  constructor
  · rintro ⟨o, ho⟩
    exact ⟨o, Finset.mem_filter.mp ho⟩
  · rintro ⟨o, ho, hk⟩
    exact ⟨o, Finset.mem_filter.mpr ⟨ho, hk⟩⟩

/-- Several objects refer to a key. -/
theorem one_lt_holders : 1 < holders ref D k ↔
    ∃ o ∈ D, ∃ o' ∈ D, ref o = some k ∧ ref o' = some k ∧ o ≠ o' := by
  rw [holders, Finset.one_lt_card]
  constructor
  · rintro ⟨o, ho, o', ho', hne⟩
    rw [Finset.mem_filter] at ho ho'
    exact ⟨o, ho.1, o', ho'.1, ho.2, ho'.2, hne⟩
  · rintro ⟨o, ho, o', ho', hk, hk', hne⟩
    exact ⟨o, Finset.mem_filter.mpr ⟨ho, hk⟩, o', Finset.mem_filter.mpr ⟨ho', hk'⟩, hne⟩

theorem holders_insert [DecidableEq O] (ho : o ∉ D) :
    holders ref (insert o D) k = holders ref D k + if ref o = some k then 1 else 0 := by
  rw [holders, Finset.filter_insert]
  split_ifs with hk
  · rw [Finset.card_insert_of_notMem fun hmem => ho (Finset.mem_filter.mp hmem).1]
    rfl
  · rfl

/-- The reference of one object was changed. -/
theorem holders_update [DecidableEq O] (ho : o ∈ D) (x : Option K) :
    holders (Function.update ref o x) D k + (if ref o = some k then 1 else 0) =
      holders ref D k + if x = some k then 1 else 0 := by
  have hrest : holders (Function.update ref o x) (D.erase o) k = holders ref (D.erase o) k :=
    holders_congr fun o' ho' => Function.update_of_ne (Finset.ne_of_mem_erase ho') x ref
  rw [← Finset.insert_erase ho, holders_insert (Finset.notMem_erase o D),
    holders_insert (Finset.notMem_erase o D), hrest, Function.update_self]
  omega

theorem holders_shrink (hsub : D' ⊆ D) (hnone : ∀ o ∈ D, o ∉ D' → ref o = none) :
    holders ref D' k = holders ref D k := by
  have heq : (D'.filter fun o => ref o = some k) = D.filter fun o => ref o = some k := by
    ext o
    simp only [Finset.mem_filter]
    refine ⟨fun h => ⟨hsub h.1, h.2⟩, fun h => ⟨?_, h.2⟩⟩
    by_contra hmem
    rw [hnone o h.1 hmem] at h
    cases h.2
  rw [holders, heq, holders]

end Holders

/-! ## Counts -/

/-- The counts of the keys are right; `held` lists the references outside of the objects. -/
def Counted (count : Dict K ℕ) (keys : List K) (ref : O → Option K) (D : Finset O) (held : List K) : Prop :=
  ∀ k, count.get? k = if k ∈ keys then some (holders ref D k + held.count k) else none

namespace Counted

variable {count : Dict K ℕ} {keys : List K} {ref ref' : O → Option K} {D D' : Finset O} {held : List K} {o : O}
  {k : K} {n : ℕ}

theorem mem_of_get? (h : Counted count keys ref D held) (hk : count.get? k = some n) :
    k ∈ keys ∧ n = holders ref D k + held.count k := by
  rw [h k] at hk
  split_ifs at hk with hmem
  exact ⟨hmem, (Option.some.inj hk).symm⟩

theorem get?_of_mem (h : Counted count keys ref D held) (hk : k ∈ keys) :
    count.get? k = some (holders ref D k + held.count k) := by rw [h k, if_pos hk]

theorem congr (h : Counted count keys ref D held) (href : ∀ o ∈ D, ref o = ref' o) :
    Counted count keys ref' D held := fun k => by rw [h k, holders_congr href]

/-- A reference is taken. -/
theorem incr (h : Counted count keys ref D held) (hk : count.get? k = some n) :
    Counted (count.set k (n + 1)) keys ref D (k :: held) := by
  obtain ⟨hmem, hn⟩ := h.mem_of_get? hk
  intro k'
  rw [Dict.get?_set]
  by_cases heq : k' = k
  · rw [if_pos heq, heq, if_pos hmem, List.count_cons_self, hn]
    rfl
  · rw [if_neg heq, h k', List.count_cons_of_ne (Ne.symm heq)]

/-- A reference that is held is given back. -/
theorem decr (h : Counted count keys ref D (k :: held)) (hk : count.get? k = some (n + 1)) :
    Counted (count.set k n) keys ref D held := by
  obtain ⟨hmem, hn⟩ := h.mem_of_get? hk
  intro k'
  rw [Dict.get?_set]
  by_cases heq : k' = k
  · rw [List.count_cons_self] at hn
    rw [if_pos heq, heq, if_pos hmem]
    congr 1
    omega
  · rw [if_neg heq, h k', List.count_cons_of_ne (Ne.symm heq)]

/-- The reference of an object is taken from it. -/
theorem release [DecidableEq O] (h : Counted count keys ref D held) (ho : o ∈ D) (hk : ref o = some k) :
    Counted count keys (Function.update ref o none) D (k :: held) := by
  intro k'
  have hup : holders (Function.update ref o none) D k' + _ = _ := holders_update ho none
  rw [h k', List.count_cons]
  refine if_congr Iff.rfl (congrArg some ?_) rfl
  rw [hk] at hup
  simp only [Option.some.injEq, reduceCtorEq, if_false, beq_iff_eq] at hup ⊢
  omega

/-- A reference that is held is given to an object without one. -/
theorem acquire [DecidableEq O] (h : Counted count keys ref D (k :: held)) (ho : o ∈ D) (hnone : ref o = none) :
    Counted count keys (Function.update ref o (some k)) D held := by
  intro k'
  have hup : holders (Function.update ref o (some k)) D k' + _ = _ := holders_update ho (some k)
  rw [h k', List.count_cons]
  refine if_congr Iff.rfl (congrArg some ?_) rfl
  rw [hnone] at hup
  simp only [Option.some.injEq, reduceCtorEq, if_false, beq_iff_eq] at hup ⊢
  omega

/-- A reference that is held is given to a new object. -/
theorem new [DecidableEq O] (h : Counted count keys ref D (k :: held)) (ho : o ∉ D)
    (href : ∀ o' ∈ D, ref' o' = ref o') (hk : ref' o = some k) : Counted count keys ref' (insert o D) held := by
  intro k'
  rw [h k', holders_insert ho, holders_congr href, hk, List.count_cons]
  refine if_congr Iff.rfl (congrArg some ?_) rfl
  simp only [Option.some.injEq, beq_iff_eq]
  omega

/-- A new object without a reference. -/
theorem new_none [DecidableEq O] (h : Counted count keys ref D held) (ho : o ∉ D)
    (href : ∀ o' ∈ D, ref' o' = ref o')
    (hk : ref' o = none) : Counted count keys ref' (insert o D) held := by
  intro k'
  rw [h k', holders_insert ho, holders_congr href, hk, if_neg (nofun : ¬ (none : Option K) = some k'),
    Nat.add_zero]

/-- Objects without a reference are dropped. -/
theorem shrink (h : Counted count keys ref D held) (hsub : D' ⊆ D)
    (hnone : ∀ o ∈ D, o ∉ D' → ref o = none) : Counted count keys ref D' held := fun k => by
  rw [h k, holders_shrink hsub hnone]

end Counted

end Py
