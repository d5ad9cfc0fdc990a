import Mathlib.Data.List.Infix
import Mathlib.Tactic.Common

/-!
# Substrings

Where a text holds another one. `str.find` gives the first place from a start on, and a negative start
counts from the end of the text.

* `OccursAt`: a place; `infix_iff_occursAt`; `OccursAt.of_append`, `occursAt_take`: parts of a text;
* `findFrom`, `find`: **`findFrom_eq_some_iff`**, `findFrom_eq_none_iff`, `findFrom_eq_zero`.
-/

set_option autoImplicit false

namespace Py

variable {α : Type}

/-- `sub` stands at position `i` of the text. -/
def OccursAt (sub text : List α) (i : ℕ) : Prop := sub <+: text.drop i ∧ i ≤ text.length

instance [DecidableEq α] (sub text : List α) (i : ℕ) : Decidable (OccursAt sub text i) :=
  inferInstanceAs (Decidable (_ ∧ _))

variable {sub text rest : List α} {i n : ℕ}

theorem occursAt_iff : OccursAt sub text i ↔ ∃ before after, text = before ++ sub ++ after ∧
    before.length = i := by
  constructor
  · rintro ⟨⟨after, h⟩, hi⟩
    refine ⟨text.take i, after, ?_, List.length_take_of_le hi⟩
    rw [List.append_assoc, h, List.take_append_drop]
  · rintro ⟨before, after, rfl, rfl⟩
    refine ⟨⟨after, ?_⟩, ?_⟩
    · rw [List.append_assoc, List.drop_left]
    · simp only [List.length_append]
      omega

/-- **A substring** stands somewhere. -/
theorem infix_iff_occursAt : sub <:+: text ↔ ∃ i, OccursAt sub text i := by
  constructor
  · rintro ⟨before, after, h⟩
    exact ⟨_, occursAt_iff.mpr ⟨before, after, h.symm, rfl⟩⟩
  · rintro ⟨i, h⟩
    obtain ⟨before, after, h, -⟩ := occursAt_iff.mp h
    exact ⟨before, after, h.symm⟩

theorem OccursAt.add_le (h : OccursAt sub text i) : i + sub.length ≤ text.length := by
  obtain ⟨before, after, rfl, rfl⟩ := occursAt_iff.mp h
  simp only [List.length_append]
  omega

theorem OccursAt.append (h : OccursAt sub text i) : OccursAt sub (text ++ rest) i := by
  obtain ⟨before, after, rfl, rfl⟩ := occursAt_iff.mp h
  refine occursAt_iff.mpr ⟨before, after ++ rest, ?_, rfl⟩
  rw [List.append_assoc _ after]

/-- What ends before the new text was there already. -/
theorem OccursAt.of_append (h : OccursAt sub (text ++ rest) i) (hle : i + sub.length ≤ text.length) :
    OccursAt sub text i := by
  refine ⟨?_, by omega⟩
  have hsub : sub <+: text.drop i ++ rest := by
    rw [← List.drop_append_of_le_length (by omega)]
    exact h.1
  apply List.prefix_of_prefix_length_le hsub (List.prefix_append _ _)
  rw [List.length_drop]
  omega

/-- A place in a shortened text is one that ends before the cut. -/
theorem occursAt_take (hn : n ≤ text.length) :
    OccursAt sub (text.take n) i ↔ OccursAt sub text i ∧ i + sub.length ≤ n := by
  have hlen : (text.take n).length = n := List.length_take_of_le hn
  constructor
  · intro h
    have hle := h.add_le
    rw [hlen] at hle
    refine ⟨?_, hle⟩
    rw [← List.take_append_drop n text]
    exact h.append
  · rintro ⟨h, hle⟩
    rw [← List.take_append_drop n text] at h
    exact h.of_append (hlen.symm ▸ hle)

variable [DecidableEq α]

/-- The first place from `start` on. -/
def findFrom (text sub : List α) (start : ℕ) : Option ℕ :=
  (List.range (text.length + 1)).find? fun i => start ≤ i ∧ OccursAt sub text i

/-- `text.find(sub, start)`, `none` for `-1`. -/
def find (text sub : List α) (start : ℤ) : Option ℕ :=
  findFrom text sub (if start < 0 then start + text.length else start).toNat

variable {start : ℕ}

/-- **The first place.** -/
theorem findFrom_eq_some_iff : findFrom text sub start = some i ↔
    start ≤ i ∧ OccursAt sub text i ∧ ∀ j, start ≤ j → OccursAt sub text j → i ≤ j := by
  rw [findFrom, List.find?_range_eq_some]
  simp only [decide_eq_true_eq, List.mem_range, Bool.not_eq_true', decide_eq_false_iff_not]
  constructor
  · rintro ⟨⟨hstart, hi⟩, -, hbefore⟩
    refine ⟨hstart, hi, fun j hj hocc => ?_⟩
    by_contra hlt
    exact hbefore j (by omega) ⟨hj, hocc⟩
  · rintro ⟨hstart, hi, hfirst⟩
    refine ⟨⟨hstart, hi⟩, ?_, ?_⟩
    · have := hi.2
      omega
    · rintro j hlt ⟨hj, hocc⟩
      have := hfirst j hj hocc
      omega

theorem findFrom_eq_none_iff : findFrom text sub start = none ↔
    ∀ j, start ≤ j → ¬ OccursAt sub text j := by
  rw [findFrom, List.find?_eq_none]
  simp only [List.mem_range, decide_eq_true_eq, not_and]
  constructor
  · intro h j hj hocc
    exact h j (Nat.lt_succ_of_le hocc.2) hj hocc
  · intro h j _ hj
    exact h j hj

/-- Where nothing stands before `start`, the search may begin there. -/
theorem findFrom_eq_zero (h : ∀ j, OccursAt sub text j → start ≤ j) :
    findFrom text sub start = findFrom text sub 0 := by
  cases hfind : findFrom text sub 0 with
  | none =>
    rw [findFrom_eq_none_iff] at hfind ⊢
    intro j _
    exact hfind j (Nat.zero_le j)
  | some i =>
    rw [findFrom_eq_some_iff] at hfind ⊢
    obtain ⟨-, hi, hfirst⟩ := hfind
    exact ⟨h i hi, hi, fun j _ => hfirst j (Nat.zero_le j)⟩

theorem findFrom_isSome_iff : (findFrom text sub 0).isSome ↔ sub <:+: text := by
  rw [infix_iff_occursAt, ← not_iff_not, Bool.not_eq_true, Option.isSome_eq_false_iff,
    Option.isNone_iff_eq_none, findFrom_eq_none_iff]
  simp

end Py
