import Mathlib.Algebra.BigOperators.Group.List.Lemmas
import Mathlib.Algebra.Module.BigOperators
import Mathlib.Algebra.Order.Field.Basic
import Mathlib.Analysis.SpecialFunctions.Log.Basic
import Mathlib.Tactic.FieldSimp
import Mathlib.Tactic.Ring
import Mathlib.Tactic.Positivity

/-!
# Means weighted by exponentials

The mean of values whose weights are the exponentials of their scores. The mean over a list in two parts
is put together from the means of the parts and the logarithms of the sums of their weights.

* `Exponential`: an exponential and its logarithm; `Exponential.real`;
* `partition`, `mean`, `logSumExp`;
* `share_sub`: shares do not change when a number is subtracted from all scores;
* **`mean_append`**: the mean over two parts.
-/

set_option autoImplicit false

/-- An exponential function, with its logarithm on positive numbers. -/
structure Exponential (F : Type) [Field F] [LinearOrder F] where
  exp : F → F
  log : F → F
  exp_pos : ∀ x, 0 < exp x
  exp_add : ∀ x y, exp (x + y) = exp x * exp y
  exp_log : ∀ x, 0 < x → exp (log x) = x

namespace Exponential

/-- The real exponential. -/
noncomputable def real : Exponential ℝ where
  exp := Real.exp
  log := Real.log
  exp_pos := Real.exp_pos
  exp_add := Real.exp_add
  exp_log _ := Real.exp_log

variable {F V : Type} [Field F] [LinearOrder F] (E : Exponential F)

/-- The share of `a` in the weights of `a` and `b`. -/
def share (a b : F) : F := E.exp a / (E.exp a + E.exp b)

/-- The sum of the weights. -/
def partition (xs : List (F × V)) : F := (xs.map fun x => E.exp x.1).sum

/-- The logarithm of the sum of the weights. -/
def logSumExp (xs : List (F × V)) : F := E.log (E.partition xs)

/-- The weighted mean. -/
def mean [AddCommGroup V] [Module F V] (xs : List (F × V)) : V :=
  (E.partition xs)⁻¹ • (xs.map fun x => E.exp x.1 • x.2).sum

variable {E}

theorem exp_sub (x y : F) : E.exp (x - y) = E.exp x / E.exp y := by
  rw [eq_div_iff (ne_of_gt (E.exp_pos y)), ← E.exp_add, sub_add_cancel]

theorem partition_append (xs ys : List (F × V)) :
    E.partition (xs ++ ys) = E.partition xs + E.partition ys := by
  simp only [partition, List.map_append, List.sum_append]

variable [IsStrictOrderedRing F]

theorem partition_pos {xs : List (F × V)} (h : xs ≠ []) : 0 < E.partition xs := by
  refine List.sum_pos _ (fun x hx => ?_) (by simpa using h)
  obtain ⟨y, -, rfl⟩ := List.mem_map.mp hx
  exact E.exp_pos y.1

theorem exp_logSumExp {xs : List (F × V)} (h : xs ≠ []) : E.exp (E.logSumExp xs) = E.partition xs :=
  E.exp_log _ (partition_pos h)

/-- Shares do not change when a number is subtracted from both scores. -/
theorem share_sub (a b m : F) : E.share (a - m) (b - m) = E.share a b := by
  have hm : E.exp m ≠ 0 := ne_of_gt (E.exp_pos m)
  have hab : E.exp a + E.exp b ≠ 0 := ne_of_gt (add_pos (E.exp_pos a) (E.exp_pos b))
  rw [share, share, exp_sub, exp_sub]
  field_simp

variable [AddCommGroup V] [Module F V]

/-- **The mean over two parts**: each has the share of its weights. -/
theorem mean_append {xs ys : List (F × V)} (hx : xs ≠ []) (hy : ys ≠ []) :
    E.share (E.logSumExp xs) (E.logSumExp ys) • E.mean xs +
      E.share (E.logSumExp ys) (E.logSumExp xs) • E.mean ys = E.mean (xs ++ ys) := by
  have hX : E.partition xs ≠ 0 := ne_of_gt (partition_pos hx)
  have hY : E.partition ys ≠ 0 := ne_of_gt (partition_pos hy)
  simp only [share, exp_logSumExp hx, exp_logSumExp hy, mean, smul_smul]
  rw [partition_append, List.map_append, List.sum_append, smul_add, add_comm (E.partition ys)]
  congr 2
  · field_simp
  · field_simp

end Exponential
