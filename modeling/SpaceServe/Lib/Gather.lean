import Mathlib.Data.List.Perm.Basic
import Mathlib.Data.List.Range
import Mathlib.Data.List.Sort

/-!
# Gathering and scattering along a permutation

The entries of a list in the order of a list of places, and the way back.

* `gather`, `scatter`;
* **`getElem?_scatter`**: what is scattered stands in the place it was gathered from;
* `scatter_gather`: gathering and scattering along a permutation changes nothing;
* `getElem_le_iff_of_sorted`: an entry of a sorted list by the number of larger ones.
-/

set_option autoImplicit false

variable {α : Type} {src : List α} {idx : List ℕ}

/-- The entries at the places `idx`; `d` stands for those that are not there. -/
def gather (row : List α) (d : α) (idx : List ℕ) : List α := idx.map fun t => row.getD t d

/-- `out[idx[j]] = src[j]` for every `j`, from `out = src` on. -/
def scatter (src : List α) (idx : List ℕ) : List α :=
  (idx.zip src).foldl (fun out x => out.set x.1 x.2) src

theorem length_gather (row : List α) (d : α) (idx : List ℕ) : (gather row d idx).length = idx.length :=
  List.length_map _

theorem length_foldl_set : ∀ (xs : List (ℕ × α)) (out : List α),
    (xs.foldl (fun out x => out.set x.1 x.2) out).length = out.length
  | [], _ => rfl
  | x :: xs, out => by rw [List.foldl_cons, length_foldl_set xs, List.length_set]

theorem length_scatter (src : List α) (idx : List ℕ) : (scatter src idx).length = src.length :=
  length_foldl_set _ _

/-- Places that are not written keep their entries. -/
theorem getElem?_foldl_set_ne {t : ℕ} : ∀ {xs : List (ℕ × α)} (out : List α), t ∉ xs.map Prod.fst →
    (xs.foldl (fun out x => out.set x.1 x.2) out)[t]? = out[t]?
  | [], _, _ => rfl
  | x :: xs, out, h => by
    rw [List.map_cons, List.mem_cons, not_or] at h
    rw [List.foldl_cons, getElem?_foldl_set_ne _ h.2, List.getElem?_set_ne fun he => h.1 he.symm]

/-- A place that is written once has what was written. -/
theorem getElem?_foldl_set {t : ℕ} {a : α} : ∀ {xs : List (ℕ × α)} (out : List α),
    (xs.map Prod.fst).Nodup → (t, a) ∈ xs → t < out.length →
      (xs.foldl (fun out x => out.set x.1 x.2) out)[t]? = some a
  | x :: xs, out, hnd, hmem, hlt => by
    rw [List.map_cons, List.nodup_cons] at hnd
    rw [List.foldl_cons]
    obtain rfl | hmem := List.mem_cons.mp hmem
    · rw [getElem?_foldl_set_ne _ hnd.1, List.getElem?_set_self hlt]
    · exact getElem?_foldl_set _ hnd.2 hmem (by rwa [List.length_set])

/-- **What is scattered** stands in the place it belongs to. -/
theorem getElem?_scatter (hperm : idx.Perm (List.range src.length)) {j t : ℕ} (hj : idx[j]? = some t) :
    (scatter src idx)[t]? = src[j]? := by
  have hlen : idx.length = src.length := by rw [hperm.length_eq, List.length_range]
  have hlt : j < src.length := hlen ▸ (List.getElem?_eq_some_iff.mp hj).1
  have hmap : (idx.zip src).map Prod.fst = idx := List.map_fst_zip (Nat.le_of_eq hlen)
  have hpair : (t, src[j]) ∈ idx.zip src := by
    refine List.mem_of_getElem? (i := j) ?_
    rw [List.zip_eq_zipWith, List.getElem?_zipWith, hj, List.getElem?_eq_getElem hlt]
  rw [List.getElem?_eq_getElem hlt]
  refine getElem?_foldl_set _ (hmap.symm ▸ hperm.nodup_iff.mpr List.nodup_range) hpair ?_
  exact List.mem_range.mp (hperm.mem_iff.mp (List.mem_of_getElem? hj))

/-- Every place of a permutation is somewhere in it. -/
theorem exists_place {n : ℕ} (hperm : idx.Perm (List.range n)) {t : ℕ} (ht : t < n) :
    ∃ j : ℕ, idx[j]? = some t :=
  List.mem_iff_getElem?.mp (hperm.mem_iff.mpr (List.mem_range.mpr ht))

/-- Gathering along a permutation reorders. -/
theorem gather_perm {row : List α} (d : α) (hperm : idx.Perm (List.range row.length)) :
    (gather row d idx).Perm row := by
  refine (hperm.map _).trans (List.Perm.of_eq ?_)
  refine List.ext_getElem? fun t => ?_
  rw [List.getElem?_map]
  by_cases ht : t < row.length
  · rw [List.getElem?_range ht, Option.map_some, List.getD_eq_getElem?_getD,
      List.getElem?_eq_getElem ht, Option.getD_some]
  · rw [List.getElem?_eq_none (by simpa using ht), List.getElem?_eq_none (Nat.le_of_not_lt ht)]
    rfl

theorem scatter_gather {row : List α} (d : α) (hperm : idx.Perm (List.range row.length)) :
    scatter (gather row d idx) idx = row := by
  have hlen : (gather row d idx).length = row.length := (gather_perm d hperm).length_eq
  refine List.ext_getElem? fun t => ?_
  by_cases ht : t < row.length
  · obtain ⟨j, hj⟩ := exists_place hperm ht
    rw [getElem?_scatter (hlen.symm ▸ hperm) hj, gather, List.getElem?_map, hj, Option.map_some,
      List.getD_eq_getElem?_getD, List.getElem?_eq_getElem ht, Option.getD_some]
  · rw [List.getElem?_eq_none (by rw [length_scatter, hlen]; exact Nat.le_of_not_lt ht),
      List.getElem?_eq_none (Nat.le_of_not_lt ht)]

/-- **An entry of a sorted list** is at least as large as the one at place `j` iff fewer entries than those
behind are larger. -/
theorem getElem_le_iff_of_sorted [LinearOrder α] {l : List α} (hs : l.Pairwise (· ≤ ·)) {j : ℕ}
    (hj : j < l.length) (x : α) : l[j] ≤ x ↔ (l.filter (x < ·)).length < l.length - j := by
  have hsplit : l.filter (x < ·) = (l.take j).filter (x < ·) ++ (l.drop j).filter (x < ·) := by
    rw [← List.filter_append, List.take_append_drop]
  have hdrop : (l.drop j).length = l.length - j := List.length_drop
  have hcons : l.drop j = l[j] :: l.drop (j + 1) := List.drop_eq_getElem_cons hj
  constructor
  · intro hle
    have hnone : (l.take j).filter (x < ·) = [] := by
      refine List.filter_eq_nil_iff.mpr fun y hy => ?_
      obtain ⟨i, hi, rfl⟩ := List.mem_iff_getElem.mp hy
      rw [List.length_take] at hi
      have hyj : l[i] ≤ l[j] := hs.rel_get_of_lt (a := ⟨i, by omega⟩) (b := ⟨j, hj⟩) (by simp; omega)
      rw [List.getElem_take, decide_eq_true_eq]
      exact not_lt.mpr (hyj.trans hle)
    rw [hsplit, hnone, List.nil_append, hcons, List.filter_cons_of_neg (by simpa using hle)]
    refine Nat.lt_of_le_of_lt (List.length_filter_le _ _) ?_
    rw [List.length_drop]
    omega
  · intro hlt
    by_contra hle
    have hall : (l.drop j).filter (x < ·) = l.drop j := by
      refine List.filter_eq_self.mpr fun y hy => decide_eq_true ?_
      obtain ⟨i, hi, rfl⟩ := List.mem_iff_getElem.mp hy
      rw [List.getElem_drop]
      rw [List.length_drop] at hi
      refine lt_of_lt_of_le (not_le.mp hle) ?_
      obtain rfl | hpos := Nat.eq_zero_or_pos i
      · exact le_refl _
      · exact hs.rel_get_of_lt (a := ⟨j, hj⟩) (b := ⟨j + i, by omega⟩) (by simp; omega)
    rw [hsplit, hall, List.length_append, hdrop] at hlt
    omega
