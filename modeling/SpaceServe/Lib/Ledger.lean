import Mathlib.Tactic.Common

/-!
# Batches of notices

Notices are collected in a pending list, which is sent and emptied as a whole from time to time. A
note of each notice records how many batches had been sent before it was collected. The books are
right when batch `k` holds exactly the notices noted with `k`, in order, and so does the pending
list for the next batch.

* `stamped`: the notices noted with a number;
* `Booked`: the books are right; `Booked.collect`, `Booked.send`.
-/

set_option autoImplicit false

namespace Py

variable {α : Type}

/-- The notices noted with `k`. -/
def stamped (notes : List (α × ℕ)) (k : ℕ) : List α :=
  (notes.filter fun note => decide (note.2 = k)).map Prod.fst

/-- Every batch that was sent, and the pending one, holds the notices noted with its number. -/
def Booked (sent : List (List α)) (pending : List α) (notes : List (α × ℕ)) : Prop :=
  ∀ k, stamped notes k = ((sent ++ [pending])[k]?).getD []

theorem stamped_append (notes notes' : List (α × ℕ)) (k : ℕ) :
    stamped (notes ++ notes') k = stamped notes k ++ stamped notes' k := by
  rw [stamped, List.filter_append, List.map_append]
  rfl

theorem stamped_map (l : List α) (n k : ℕ) :
    stamped (l.map fun a => (a, n)) k = if n = k then l else [] := by
  induction l with
  | nil => simp [stamped]
  | cons a l ih =>
    unfold stamped at ih ⊢
    split_ifs at ih ⊢ with h <;> simp_all

namespace Booked

theorem nil : Booked ([] : List (List α)) [] [] := by
  intro k
  cases k <;> rfl

variable {sent : List (List α)} {pending : List α} {notes : List (α × ℕ)}

/-- Notices are collected. -/
theorem collect (h : Booked sent pending notes) (l : List α) :
    Booked sent (pending ++ l) (notes ++ l.map fun a => (a, sent.length)) := by
  intro k
  rw [stamped_append, stamped_map, h k]
  split_ifs with hk
  · subst hk
    rw [List.getElem?_concat_length, List.getElem?_concat_length]
    rfl
  · rw [List.append_nil]
    obtain hlt | hlt := Nat.lt_or_gt_of_ne hk
    · rw [List.getElem?_eq_none (by simp; omega), List.getElem?_eq_none (by simp; omega)]
    · rw [List.getElem?_append_left hlt, List.getElem?_append_left hlt]

/-- The pending notices are sent. -/
theorem send (h : Booked sent pending notes) : Booked (sent ++ [pending]) [] notes := by
  intro k
  rw [h k]
  by_cases hk : k < (sent ++ [pending]).length
  · exact congrArg (fun o => o.getD []) (List.getElem?_append_left hk).symm
  · rw [List.getElem?_eq_none (by omega)]
    obtain hk | hk := Nat.lt_or_ge (sent ++ [pending]).length k
    · rw [List.getElem?_eq_none (by rw [List.length_append, List.length_singleton]; omega)]
    · rw [Nat.le_antisymm hk (by omega), List.getElem?_concat_length]
      rfl

/-- What a batch holds. -/
theorem batch (h : Booked sent pending notes) {k : ℕ} {l : List α} (hl : sent[k]? = some l) :
    l = stamped notes k := by
  have hk := (List.getElem?_eq_some_iff.mp hl).1
  rw [h k, List.getElem?_append_left hk, hl]
  rfl

end Booked

end Py
