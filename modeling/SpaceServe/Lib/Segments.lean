import Mathlib.Algebra.BigOperators.Group.List.Basic
import Mathlib.Algebra.GroupWithZero.Nat
import Mathlib.Tactic.Common

/-!
# Lists in segments

A list that is put together from segments of given lengths: entry `j` of segment `i` stands behind the
entries of the segments before it. `np.repeat` and `np.cumsum` compute with such lists without going
through their segments.

* `offset`: where a segment begins; `exists_offset`, `offset_inj`: every position is in one segment;
* `getElem?_flatten_offset`, `getElem?_flatMap_range`, `exists_segment`: the entries of a list of
  segments; `ext_offset`;
* `npRepeat`, `npCumsum`: **`npRepeat_offset`**, **`getElem?_npCumsum`**.
-/

set_option autoImplicit false

namespace Py

variable {α : Type}

/-- Where segment `i` begins. -/
def offset (lengths : List ℕ) (i : ℕ) : ℕ := (lengths.take i).sum

@[simp] theorem offset_zero (lengths : List ℕ) : offset lengths 0 = 0 := rfl

@[simp] theorem offset_cons_succ (n : ℕ) (lengths : List ℕ) (i : ℕ) :
    offset (n :: lengths) (i + 1) = n + offset lengths i := by
  rw [offset, List.take_succ_cons, List.sum_cons]
  rfl

/-- Segments end where the next one begins. -/
theorem offset_succ {lengths : List ℕ} {i n : ℕ} (h : lengths[i]? = some n) :
    offset lengths (i + 1) = offset lengths i + n := by
  induction lengths generalizing i with
  | nil => cases h
  | cons m lengths ih =>
    cases i with
    | zero =>
      obtain rfl := Option.some.inj h
      simp
    | succ i =>
      rw [offset_cons_succ, offset_cons_succ, ih h, Nat.add_assoc]

theorem offset_mono (lengths : List ℕ) {i j : ℕ} (h : i ≤ j) : offset lengths i ≤ offset lengths j := by
  rw [offset, offset, ← List.take_append_drop i (lengths.take j), List.sum_append, List.take_take,
    Nat.min_eq_left h]
  exact Nat.le_add_right _ _

theorem offset_le_sum (lengths : List ℕ) (i : ℕ) : offset lengths i ≤ lengths.sum := by
  conv_rhs => rw [← List.take_append_drop i lengths, List.sum_append]
  exact Nat.le_add_right _ _

/-- A position inside a segment is a position of the list. -/
theorem offset_add_lt {lengths : List ℕ} {i n j : ℕ} (h : lengths[i]? = some n) (hj : j < n) :
    offset lengths i + j < lengths.sum := by
  have := offset_le_sum lengths (i + 1)
  rw [offset_succ h] at this
  omega

/-- Every position is inside a segment. -/
theorem exists_offset : ∀ {lengths : List ℕ} {k : ℕ}, k < lengths.sum →
    ∃ i n j, lengths[i]? = some n ∧ j < n ∧ k = offset lengths i + j
  | [], k, h => absurd h (Nat.not_lt_zero k)
  | m :: lengths, k, h => by
    rw [List.sum_cons] at h
    by_cases hk : k < m
    · exact ⟨0, m, k, rfl, hk, by simp⟩
    · obtain ⟨i, n, j, hi, hj, he⟩ := exists_offset (show k - m < lengths.sum by omega)
      exact ⟨i + 1, n, j, hi, hj, by rw [offset_cons_succ]; omega⟩

/-- It is inside one segment only. -/
theorem offset_inj {lengths : List ℕ} {i i' n n' j j' : ℕ} (hi : lengths[i]? = some n)
    (hi' : lengths[i']? = some n') (hj : j < n) (hj' : j' < n')
    (h : offset lengths i + j = offset lengths i' + j') : i = i' ∧ j = j' := by
  have hle : ∀ {a b m : ℕ}, lengths[a]? = some m → a < b → offset lengths a + m ≤ offset lengths b := by
    intro a b m ha hab
    rw [← offset_succ ha]
    exact offset_mono lengths hab
  obtain hlt | rfl | hlt := Nat.lt_trichotomy i i'
  · have := hle hi hlt
    omega
  · exact ⟨rfl, by omega⟩
  · have := hle hi' hlt
    omega

/-- **The entries of a list of segments.** -/
theorem getElem?_flatten_offset {ls : List (List α)} {l : List α} {i j : ℕ} (hi : ls[i]? = some l)
    (hj : j < l.length) : ls.flatten[offset (ls.map List.length) i + j]? = l[j]? := by
  induction ls generalizing i with
  | nil => cases hi
  | cons l₀ ls ih =>
    cases i with
    | zero =>
      obtain rfl := Option.some.inj hi
      rw [List.map_cons, offset_zero, Nat.zero_add, List.flatten_cons, List.getElem?_append_left hj]
    | succ i =>
      rw [List.map_cons, offset_cons_succ, List.flatten_cons,
        List.getElem?_append_right (by omega), ← ih hi]
      congr 1
      omega

theorem map_length_range {f : ℕ → List α} {ns : List ℕ}
    (hf : ∀ (i n : ℕ), ns[i]? = some n → (f i).length = n) :
    ((List.range ns.length).map f).map List.length = ns := by
  apply List.ext_getElem (by simp)
  intro i h₁ h₂
  simp only [List.getElem_map, List.getElem_range]
  exact hf i _ (List.getElem?_eq_getElem h₂)

/-- **The entries of segments that are made one by one.** -/
theorem getElem?_flatMap_range {f : ℕ → List α} {ns : List ℕ}
    (hf : ∀ (i n : ℕ), ns[i]? = some n → (f i).length = n) {i n j : ℕ} (hi : ns[i]? = some n) (hj : j < n) :
    ((List.range ns.length).flatMap f)[offset ns i + j]? = (f i)[j]? := by
  have hlt := (List.getElem?_eq_some_iff.mp hi).1
  have hseg : ((List.range ns.length).map f)[i]? = some (f i) := by
    rw [List.getElem?_map, List.getElem?_range hlt, Option.map_some]
  have hget := getElem?_flatten_offset hseg (j := j) (by rw [hf i n hi]; exact hj)
  rw [map_length_range hf] at hget
  rw [List.flatMap_def, hget]

theorem length_flatMap_range {f : ℕ → List α} {ns : List ℕ}
    (hf : ∀ (i n : ℕ), ns[i]? = some n → (f i).length = n) :
    ((List.range ns.length).flatMap f).length = ns.sum := by
  rw [List.flatMap_def, List.length_flatten, map_length_range hf]

/-- Two lists in segments are equal if their entries in all segments are. -/
theorem ext_offset {ns : List ℕ} {l l' : List α} (h : l.length = ns.sum) (h' : l'.length = ns.sum)
    (heq : ∀ (i n j : ℕ), ns[i]? = some n → j < n → l[offset ns i + j]? = l'[offset ns i + j]?) : l = l' := by
  apply List.ext_getElem?
  intro k
  by_cases hk : k < ns.sum
  · obtain ⟨i, n, j, hi, hj, rfl⟩ := exists_offset hk
    exact heq i n j hi hj
  · rw [List.getElem?_eq_none (by omega), List.getElem?_eq_none (by omega)]

/-! ## Repetitions and sums -/

/-- Lists in segments of the same lengths are aligned: a position is in one segment of all of them, and
at one place there. -/
theorem exists_segment {σ : Type} {n : σ → ℕ} : ∀ {l : List σ} {k : ℕ}, k < (l.map n).sum →
    ∃ s ∈ l, ∃ j < n s, ∀ {γ : Type} (g : σ → List γ), (∀ s ∈ l, (g s).length = n s) →
      (l.flatMap g)[k]? = (g s)[j]?
  | [], k, h => absurd h (Nat.not_lt_zero k)
  | s :: l, k, h => by
    rw [List.map_cons, List.sum_cons] at h
    by_cases hk : k < n s
    · refine ⟨s, List.mem_cons_self, k, hk, fun g hg => ?_⟩
      rw [List.flatMap_cons, List.getElem?_append_left]
      rwa [hg s List.mem_cons_self]
    · obtain ⟨s', hs', j, hj, hsame⟩ := exists_segment (n := n) (l := l) (k := k - n s) (by omega)
      refine ⟨s', List.mem_cons_of_mem s hs', j, hj, fun g hg => ?_⟩
      have hlen := hg s List.mem_cons_self
      rw [List.flatMap_cons, List.getElem?_append_right (by omega), hlen,
        hsame g fun t ht => hg t (List.mem_cons_of_mem s ht)]

/-- `np.repeat`. -/
def npRepeat (a : List α) (repeats : List ℕ) : List α :=
  (List.zipWith (fun x n => List.replicate n x) a repeats).flatten

/-- `np.cumsum`, from `acc` on. -/
def npCumsumFrom (acc : ℕ) : List ℕ → List ℕ
  | [] => []
  | n :: ns => (acc + n) :: npCumsumFrom (acc + n) ns

/-- `np.cumsum`. -/
def npCumsum (ns : List ℕ) : List ℕ := npCumsumFrom 0 ns

theorem map_length_replicate : ∀ {a : List α} {repeats : List ℕ}, a.length = repeats.length →
    (List.zipWith (fun x n => List.replicate n x) a repeats).map List.length = repeats
  | [], [], _ => rfl
  | x :: a, n :: repeats, h => by
    rw [List.zipWith_cons_cons, List.map_cons, List.length_replicate,
      map_length_replicate (Nat.succ.inj h)]

/-- **A repeated entry** stands in its segment. -/
theorem npRepeat_offset {a : List α} {repeats : List ℕ} (h : a.length = repeats.length) {i n j : ℕ}
    {x : α} (hx : a[i]? = some x) (hn : repeats[i]? = some n) (hj : j < n) :
    (npRepeat a repeats)[offset repeats i + j]? = some x := by
  have hseg : (List.zipWith (fun x n => List.replicate n x) a repeats)[i]? =
      some (List.replicate n x) := by
    rw [List.getElem?_zipWith, hx, hn]
  have hget := getElem?_flatten_offset hseg (j := j) (by rw [List.length_replicate]; exact hj)
  rw [map_length_replicate h] at hget
  rw [npRepeat, hget, List.getElem?_replicate, if_pos hj]

theorem length_npRepeat {a : List α} {repeats : List ℕ} (h : a.length = repeats.length) :
    (npRepeat a repeats).length = repeats.sum := by
  rw [npRepeat, List.length_flatten, map_length_replicate h]

theorem getElem?_npCumsumFrom {ns : List ℕ} {i n acc : ℕ} (h : ns[i]? = some n) :
    (npCumsumFrom acc ns)[i]? = some (acc + offset ns (i + 1)) := by
  induction ns generalizing i acc with
  | nil => cases h
  | cons m ns ih =>
    cases i with
    | zero => simp [npCumsumFrom]
    | succ i =>
      rw [npCumsumFrom, List.getElem?_cons_succ, ih h, offset_cons_succ, Nat.add_assoc]

/-- **A sum** ends its segment. -/
theorem getElem?_npCumsum {ns : List ℕ} {i n : ℕ} (h : ns[i]? = some n) :
    (npCumsum ns)[i]? = some (offset ns i + n) := by
  rw [npCumsum, getElem?_npCumsumFrom h, Nat.zero_add, offset_succ h]

theorem length_npCumsum (ns : List ℕ) : (npCumsum ns).length = ns.length := by
  have hfrom : ∀ (ns : List ℕ) (acc : ℕ), (npCumsumFrom acc ns).length = ns.length := by
    intro ns
    induction ns with
    | nil => exact fun _ => rfl
    | cons n ns ih => exact fun acc => congrArg Nat.succ (ih (acc + n))
  exact hfrom ns 0

/-- The sums from zero on are where the segments begin. -/
theorem map_offset_range (ns : List ℕ) : (List.range (ns.length + 1)).map (offset ns) = 0 :: npCumsum ns := by
  refine List.ext_getElem? fun i => ?_
  cases i with
  | zero => simp
  | succ i =>
    rw [List.getElem?_cons_succ, List.getElem?_map]
    by_cases hi : i < ns.length
    · rw [List.getElem?_range (Nat.succ_lt_succ hi), getElem?_npCumsum (List.getElem?_eq_getElem hi),
        Option.map_some, offset_succ (List.getElem?_eq_getElem hi)]
    · rw [List.getElem?_eq_none (by rw [List.length_range]; omega),
        List.getElem?_eq_none (by rw [length_npCumsum]; omega)]
      rfl

end Py
