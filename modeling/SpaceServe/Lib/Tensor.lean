import Mathlib.Algebra.BigOperators.Group.List.Basic
import Mathlib.Tactic.Common
import Mathlib.Tactic.Ring
import SpaceServe.Request

/-!
# Tensors

A tensor is its shape with its elements, the last index running fastest. The operations are those on the
first dimension, and slices along any one.

* `blocks`: a list cut into blocks of one length; `flatten_blocks`;
* `Tensor`, `rows?`, `sliceDim`, `unsqueeze0`, `stack`, `concat`, `split?`: the operations;
* `rows?_stack`, `stack_rows?`, `sliceDim_zero`, `sliceDim_full`, `splitFrom_cover`: how they go together.
-/

set_option autoImplicit false

namespace Torch

open SpaceServe

variable {α : Type}

/-! ## Blocks -/

/-- The `n` blocks of length `p` of a list. -/
def blocks (p : ℕ) : (n : ℕ) → (l : List α) → l.length = n * p → List {b : List α // b.length = p}
  | 0, _, _ => []
  | n + 1, l, h =>
    ⟨l.take p, by rw [List.length_take, h, Nat.succ_mul]; omega⟩ ::
      blocks p n (l.drop p) (by rw [List.length_drop, h, Nat.succ_mul]; omega)

theorem length_blocks (p : ℕ) : ∀ (n : ℕ) (l : List α) (h : l.length = n * p), (blocks p n l h).length = n
  | 0, _, _ => rfl
  | n + 1, l, h => by rw [blocks, List.length_cons, length_blocks]

theorem flatten_blocks (p : ℕ) : ∀ (n : ℕ) (l : List α) (h : l.length = n * p),
    ((blocks p n l h).map (·.1)).flatten = l
  | 0, l, h => by
    rw [Nat.zero_mul] at h
    exact (List.eq_nil_of_length_eq_zero h).symm
  | n + 1, l, h => by
    rw [blocks, List.map_cons, List.flatten_cons, flatten_blocks]
    exact List.take_append_drop p l

/-! ## The operations -/

/-- `torch.Tensor`. -/
structure Tensor (α : Type) where
  shape : List ℕ
  data : List α
  length_data : data.length = shape.prod
deriving DecidableEq

namespace Tensor

theorem ext_of {t u : Tensor α} (hshape : t.shape = u.shape) (hdata : t.data = u.data) : t = u := by
  cases t
  cases u
  cases hshape
  cases hdata
  rfl

/-- The tensors that iteration over the first dimension gives; none for a tensor without dimensions. -/
def rows? (t : Tensor α) : Option (List (Tensor α)) :=
  match t with
  | ⟨[], _, _⟩ => none
  | ⟨n :: rest, data, h⟩ => some ((blocks rest.prod n data (by rw [h, List.prod_cons])).map fun b =>
      ⟨rest, b.1, b.2⟩)

theorem prod_split (shape : List ℕ) {dim : ℕ} (h : dim < shape.length) :
    shape.prod = (shape.take dim).prod * (shape[dim] * (shape.drop (dim + 1)).prod) := by
  rw [← List.prod_cons, ← List.drop_eq_getElem_cons h, ← List.prod_append, List.take_append_drop]

theorem length_slice_blocks {n p start stop : ℕ} (bs : List {b : List α // b.length = n * p}) :
    (bs.flatMap fun b => slice b.1 (start * p) (stop * p)).length =
      bs.length * ((min stop n - start) * p) := by
  induction bs with
  | nil => simp
  | cons b bs ih =>
    have hone : (slice b.1 (start * p) (stop * p)).length = (min stop n - start) * p := by
      rw [length_slice, b.2, ← Nat.sub_mul, ← Nat.sub_mul, Nat.mul_min_mul_right]
      congr 1
      omega
    rw [List.flatMap_cons, List.length_append, hone, ih, List.length_cons, Nat.succ_mul, Nat.add_comm]

/-- `t[(slice(None),) * dim + (slice(start, stop),)]`. A slice is cut where the tensor ends. -/
def sliceDim (t : Tensor α) (dim start stop : ℕ) (h : dim < t.shape.length) : Tensor α where
  shape := t.shape.take dim ++ (min stop t.shape[dim] - start) :: t.shape.drop (dim + 1)
  data := (blocks (t.shape[dim] * (t.shape.drop (dim + 1)).prod) (t.shape.take dim).prod t.data
    (by rw [t.length_data]; exact prod_split t.shape h)).flatMap fun b =>
      slice b.1 (start * (t.shape.drop (dim + 1)).prod) (stop * (t.shape.drop (dim + 1)).prod)
  length_data := by
    rw [length_slice_blocks, length_blocks, List.prod_append, List.prod_cons]

/-- `t.unsqueeze(0)`. -/
def unsqueeze0 (t : Tensor α) : Tensor α where
  shape := 1 :: t.shape
  data := t.data
  length_data := by rw [t.length_data, List.prod_cons, Nat.one_mul]

/-- `torch.stack`, for tensors of one shape. -/
def stack (ts : List (Tensor α)) (shape : List ℕ) (h : ∀ t ∈ ts, t.shape = shape) : Tensor α where
  shape := ts.length :: shape
  data := (ts.map (·.data)).flatten
  length_data := by
    rw [List.prod_cons]
    induction ts with
    | nil => simp
    | cons t ts ih =>
      have ht := h t List.mem_cons_self
      rw [List.map_cons, List.flatten_cons, List.length_append, t.length_data, ht,
        ih fun u hu => h u (List.mem_cons_of_mem _ hu), List.length_cons, Nat.succ_mul, Nat.add_comm]

/-- `torch.concat`, for tensors that differ in their first dimension only. -/
def concat (ts : List (Tensor α)) (rest : List ℕ)
    (h : ∀ t ∈ ts, t.shape = t.shape.headD 0 :: rest) : Tensor α where
  shape := (ts.map fun t => t.shape.headD 0).sum :: rest
  data := (ts.map (·.data)).flatten
  length_data := by
    rw [List.prod_cons]
    induction ts with
    | nil => simp
    | cons t ts ih =>
      have ht := congrArg List.prod (h t List.mem_cons_self)
      rw [List.prod_cons] at ht
      rw [List.map_cons, List.flatten_cons, List.length_append, t.length_data, ht,
        ih fun u hu => h u (List.mem_cons_of_mem _ hu), List.map_cons, List.sum_cons, Nat.add_mul]

/-- The slices of the given sizes along the first dimension, from `start` on. -/
def splitFrom (t : Tensor α) (h : 0 < t.shape.length) : ℕ → List ℕ → List (Tensor α)
  | _, [] => []
  | start, size :: sizes => t.sliceDim 0 start (start + size) h :: splitFrom t h (start + size) sizes

/-- `t.split(sizes)`, which wants the sizes to sum up to the first dimension. -/
def split? (t : Tensor α) (sizes : List ℕ) : Option (List (Tensor α)) :=
  if h : 0 < t.shape.length then
    if sizes.sum = t.shape[0] then some (t.splitFrom h 0 sizes) else none
  else none

/-! ## How they go together -/

theorem rows?_stack (ts : List (Tensor α)) (shape : List ℕ) (h : ∀ t ∈ ts, t.shape = shape) :
    (stack ts shape h).rows? = some ts := by
  have hblocks : ∀ (l : List α) (hl : l.length = ts.length * shape.prod),
      l = (ts.map (·.data)).flatten → (blocks shape.prod ts.length l hl).map
        (fun b => (⟨shape, b.1, b.2⟩ : Tensor α)) = ts := by
    intro l hl heq
    induction ts generalizing l with
    | nil => rfl
    | cons t ts ih =>
      have ht : t.data.length = shape.prod := by rw [t.length_data, h t List.mem_cons_self]
      rw [List.map_cons, List.flatten_cons] at heq
      simp only [List.length_cons, blocks, List.map_cons]
      congr 1
      · refine ext_of (h t List.mem_cons_self).symm ?_
        simp only
        rw [heq, ← ht, List.take_left]
      · refine ih (fun u hu => h u (List.mem_cons_of_mem _ hu)) _ _ ?_
        rw [heq, ← ht, List.drop_left]
  simp only [rows?, stack]
  exact congrArg some (hblocks _ _ rfl)

theorem rows?_unsqueeze0 (t : Tensor α) : t.unsqueeze0.rows? = some [t] := by
  have hlen : t.data.take t.shape.prod = t.data := List.take_of_length_le (Nat.le_of_eq t.length_data)
  simp only [rows?, unsqueeze0, blocks, List.map_cons, List.map_nil, hlen]

theorem shape_of_mem_rows? {t : Tensor α} {ts : List (Tensor α)} {n : ℕ} {rest : List ℕ}
    (hshape : t.shape = n :: rest) (hrows : t.rows? = some ts) :
    ts.length = n ∧ (∀ u ∈ ts, u.shape = rest) ∧ (ts.map (·.data)).flatten = t.data := by
  obtain ⟨shape, data, h⟩ := t
  cases hshape
  cases hrows
  refine ⟨by rw [List.length_map, length_blocks], ?_, ?_⟩
  · intro u hu
    obtain ⟨b, -, rfl⟩ := List.mem_map.mp hu
    rfl
  · rw [List.map_map]
    exact flatten_blocks _ _ _ _

/-- Stacking the rows of a tensor. -/
theorem stack_rows? {t : Tensor α} {ts : List (Tensor α)} {n : ℕ} {rest : List ℕ}
    (hshape : t.shape = n :: rest) (hrows : t.rows? = some ts) (h : ∀ u ∈ ts, u.shape = rest) :
    stack ts rest h = t := by
  obtain ⟨hlen, -, hdata⟩ := shape_of_mem_rows? hshape hrows
  refine ext_of ?_ hdata
  rw [hshape, ← hlen]
  rfl

/-- A slice along the first dimension. -/
theorem sliceDim_zero {t : Tensor α} {n : ℕ} {rest : List ℕ} (hshape : t.shape = n :: rest)
    (start stop : ℕ) (h : 0 < t.shape.length) :
    (t.sliceDim 0 start stop h).shape = (min stop n - start) :: rest ∧
      (t.sliceDim 0 start stop h).data = slice t.data (start * rest.prod) (stop * rest.prod) := by
  obtain ⟨shape, data, hd⟩ := t
  cases hshape
  have hlen : data.take (n * rest.prod) = data :=
    List.take_of_length_le (Nat.le_of_eq (by rw [hd, List.prod_cons]))
  refine ⟨rfl, ?_⟩
  simp [sliceDim, blocks, hlen]

/-- A slice that is everything. -/
theorem sliceDim_full {t : Tensor α} {dim : ℕ} (h : dim < t.shape.length) :
    t.sliceDim dim 0 t.shape[dim] h = t := by
  refine ext_of ?_ ?_
  · simp only [sliceDim, Nat.min_self, Nat.sub_zero]
    rw [← List.drop_eq_getElem_cons h, List.take_append_drop]
  · have hslice : ∀ bs : List {b : List α // b.length = t.shape[dim] * (t.shape.drop (dim + 1)).prod},
        (bs.flatMap fun b => slice b.1 (0 * (t.shape.drop (dim + 1)).prod)
          (t.shape[dim] * (t.shape.drop (dim + 1)).prod)) = (bs.map (·.1)).flatten := by
      intro bs
      rw [List.flatMap_def]
      congr 1
      apply List.map_congr_left
      intro b _
      rw [slice, Nat.zero_mul, List.drop_zero, Nat.sub_zero, List.take_of_length_le (Nat.le_of_eq b.2)]
    simp only [sliceDim]
    rw [hslice, flatten_blocks]

theorem getElem?_splitFrom (t : Tensor α) (h : 0 < t.shape.length) : ∀ (sizes : List ℕ) (start i : ℕ),
    (t.splitFrom h start sizes)[i]? = if i < sizes.length then
      some (t.sliceDim 0 (start + (sizes.take i).sum) (start + (sizes.take (i + 1)).sum) h) else none
  | [], _, _ => rfl
  | size :: sizes, start, 0 => by simp [splitFrom]
  | size :: sizes, start, i + 1 => by
    rw [splitFrom, List.getElem?_cons_succ, getElem?_splitFrom t h sizes]
    simp only [List.take_succ_cons, List.sum_cons, List.length_cons, Nat.add_lt_add_iff_right, Nat.add_assoc]

theorem length_splitFrom (t : Tensor α) (h : 0 < t.shape.length) : ∀ (sizes : List ℕ) (start : ℕ),
    (t.splitFrom h start sizes).length = sizes.length
  | [], _ => rfl
  | size :: sizes, start => by rw [splitFrom, List.length_cons, List.length_cons, length_splitFrom]

/-- Slices that reach the end of a tensor make up what follows their start. -/
theorem splitFrom_cover {t : Tensor α} {n : ℕ} {rest : List ℕ} (hshape : t.shape = n :: rest)
    (h : 0 < t.shape.length) : ∀ (sizes : List ℕ) (start : ℕ), n ≤ start + sizes.sum →
      (∀ u ∈ t.splitFrom h start sizes, u.shape = u.shape.headD 0 :: rest) ∧
      ((t.splitFrom h start sizes).map fun u => u.shape.headD 0).sum = n - start ∧
      ((t.splitFrom h start sizes).map (·.data)).flatten = t.data.drop (start * rest.prod)
  | [], start, hn => by
    rw [List.sum_nil, Nat.add_zero] at hn
    refine ⟨fun u hu => absurd hu List.not_mem_nil, (Nat.sub_eq_zero_of_le hn).symm, ?_⟩
    rw [List.drop_eq_nil_of_le]
    · rfl
    · rw [t.length_data, hshape, List.prod_cons]
      exact Nat.mul_le_mul_right _ hn
  | size :: sizes, start, hn => by
    rw [List.sum_cons, ← Nat.add_assoc] at hn
    obtain ⟨hshapes, hsum, hdata⟩ := splitFrom_cover hshape h sizes (start + size) hn
    obtain ⟨hfirst, hslice⟩ := sliceDim_zero hshape start (start + size) h
    refine ⟨fun u hu => ?_, ?_, ?_⟩
    · rcases List.mem_cons.mp hu with rfl | hu
      · rw [hfirst]
        rfl
      · exact hshapes u hu
    · rw [splitFrom, List.map_cons, List.sum_cons, hsum, hfirst, List.headD_cons]
      omega
    · rw [splitFrom, List.map_cons, List.flatten_cons, hslice, hdata, slice, ← Nat.sub_mul,
        Nat.add_sub_cancel_left, Nat.add_mul, ← List.drop_drop, List.take_append_drop]

end Tensor

end Torch
