import Mathlib.Data.List.Dedup
import SpaceServe.Lib.Exec
import SpaceServe.Lib.Tensor

/-!
# Fields of multi-modal keyword arguments

`MultiModalFieldConfig` of `vllm/multimodal/inputs.py`. A field says which part of a keyword argument
belongs to which item, and how the parts of several items are merged.

* `NestedTensors`, `ItemSlice`, `Field`, `MultiModalFieldElem`, `Field.buildElems`,
  `Field.reduceData`, `MultiModalFieldConfig`: the model;
* `reduceBatched_split`, `reduceFlat_concat`, `slices_concat`, `concat_slices`: merging what was split, and
  splitting what was merged;
* **`build_elems_reduce_data`**.
-/

set_option autoImplicit false

namespace SpaceServe.MultiModal

open Py Torch

variable {α : Type}

/-! ## The model -/

/-- `NestedTensors`: tensors, and lists of them. -/
inductive NestedTensors (α : Type)
  | tensor (t : Tensor α)
  | list (l : List (NestedTensors α))

namespace NestedTensors

/-- Iteration. -/
def iter : NestedTensors α → Except Exn (List (NestedTensors α))
  | tensor t => (ofOption (.typeError "iteration over a 0-d tensor") t.rows?).map (·.map tensor)
  | list l => .ok l

/-- The tensor, if it is one. -/
def tensor? : NestedTensors α → Option (Tensor α)
  | tensor t => some t
  | list _ => none

end NestedTensors

/-- The index `(slice(None),) * dim + (slice(start, stop),)`, as `flat_from_sizes` makes it. -/
structure ItemSlice where
  dim : ℕ
  start : ℕ
  stop : ℕ
deriving DecidableEq

/-- `data[s]`. -/
def NestedTensors.getItem (s : ItemSlice) : NestedTensors α → Except Exn (NestedTensors α)
  | tensor t =>
    if h : s.dim < t.shape.length then .ok (tensor (t.sliceDim s.dim s.start s.stop h))
    else .error (.indexError s!"too many indices for tensor of dimension {t.shape.length}")
  | list _ => .error (.typeError "list indices must be integers or slices, not tuple")

/-- `MultiModalBatchedField`, `MultiModalFlatField`, `MultiModalSharedField`. -/
inductive Field
  | batched
  | flat (slices : List ItemSlice) (dim : ℕ)
  | shared (batchSize : ℕ)
deriving DecidableEq

/-- The classes of fields. -/
inductive FieldType
  | MultiModalBatchedField
  | MultiModalFlatField
  | MultiModalSharedField
deriving DecidableEq, Repr

/-- `type(field)`. -/
def Field.type : Field → FieldType
  | batched => .MultiModalBatchedField
  | flat _ _ => .MultiModalFlatField
  | shared _ => .MultiModalSharedField

/-- How a class is shown. -/
def FieldType.name : FieldType → String
  | MultiModalBatchedField => "<class 'vllm.multimodal.inputs.MultiModalBatchedField'>"
  | MultiModalFlatField => "<class 'vllm.multimodal.inputs.MultiModalFlatField'>"
  | MultiModalSharedField => "<class 'vllm.multimodal.inputs.MultiModalSharedField'>"

/-- `MultiModalFieldElem`. -/
structure MultiModalFieldElem (α : Type) where
  modality : String
  key : String
  data : NestedTensors α
  field : Field

/-- The data of the elements of `build_elems`, in the three classes. -/
def Field.parts (field : Field) (data : NestedTensors α) : Except Exn (List (NestedTensors α)) :=
  match field with
  | batched => data.iter
  | flat slices _ => slices.mapM fun s => data.getItem s
  | shared batchSize => .ok (List.replicate batchSize data)

/-- `build_elems`. -/
def Field.buildElems (field : Field) (modality key : String) (data : NestedTensors α) :
    Except Exn (List (MultiModalFieldElem α)) := do
  let parts ← field.parts data
  .ok (parts.map fun part => ⟨modality, key, part, field⟩)

/-- The tensors of a batch, if there are some and nothing else. -/
def tensorsOf (batch : List (NestedTensors α)) : Option (List (Tensor α)) :=
  if batch = [] then none else batch.mapM (·.tensor?)

/-- `MultiModalBatchedField._reduce_data`. -/
def reduceBatched (batch : List (NestedTensors α)) : NestedTensors α :=
  match tensorsOf batch with
  | some [t] => .tensor t.unsqueeze0
  | some (t :: ts) =>
    if h : ∀ u ∈ t :: ts, u.shape = t.shape then .tensor (.stack (t :: ts) t.shape h) else .list batch
  | _ => .list batch

/-- `[e for elem in batch for e in elem]`. -/
def flattenBatch (batch : List (NestedTensors α)) : Except Exn (NestedTensors α) := do
  let parts ← batch.mapM (·.iter)
  .ok (.list parts.flatten)

/-- `torch.concat(batch)` where the shapes agree but for the first dimension. -/
def concatBatch (t : Tensor α) (ts : List (Tensor α)) : Except Exn (NestedTensors α) :=
  if h : ∀ u ∈ t :: ts, u.shape = u.shape.headD 0 :: t.shape.tail then
    .ok (.tensor (.concat (t :: ts) t.shape.tail h))
  else
    let position := (t :: ts).findIdx (·.shape = [])
    .error (.runtimeError s!"zero-dimensional tensor (at position {position}) cannot be concatenated")

/-- `MultiModalFlatField._reduce_data`. -/
def reduceFlat (batch : List (NestedTensors α)) : Except Exn (NestedTensors α) :=
  match tensorsOf batch with
  | some [t] => .ok (.tensor t)
  | some (t :: ts) =>
    if ∀ u ∈ t :: ts, u.shape.tail = t.shape.tail then concatBatch t ts else flattenBatch batch
  | _ => flattenBatch batch

/-- `MultiModalSharedField._reduce_data`. -/
def reduceShared (batch : List (NestedTensors α)) : Except Exn (NestedTensors α) :=
  ofOption (.indexError "list index out of range") batch.head?

/-- `_reduce_data`, in the three classes. -/
def Field.reduceBatch (field : Field) (batch : List (NestedTensors α)) : Except Exn (NestedTensors α) :=
  match field with
  | batched => .ok (reduceBatched batch)
  | flat _ _ => reduceFlat batch
  | shared _ => reduceShared batch

/-- `reduce_data`. -/
def Field.reduceData (field : Field) (elems : List (MultiModalFieldElem α)) :
    Except Exn (NestedTensors α) :=
  let fieldTypes := elems.map (·.field.type)
  if 1 < fieldTypes.dedup.length then
    .error (.valueError ("Cannot merge different field_types=[" ++
      ", ".intercalate (fieldTypes.map (·.name)) ++ "]"))
  else field.reduceBatch (elems.map (·.data))

/-- `MultiModalFieldConfig`. -/
structure MultiModalFieldConfig where
  field : Field
  modality : String

namespace MultiModalFieldConfig

/-- `batched`. -/
def batched (modality : String) : MultiModalFieldConfig := ⟨.batched, modality⟩

/-- `flat`. -/
def flat (modality : String) (slices : List ItemSlice) (dim : ℕ) : MultiModalFieldConfig :=
  ⟨.flat slices dim, modality⟩

/-- The slices of `flat_from_sizes`, from `start` on. -/
def slicesFrom (dim : ℕ) : ℕ → List ℕ → List ItemSlice
  | _, [] => []
  | start, size :: sizes => ⟨dim, start, start + size⟩ :: slicesFrom dim (start + size) sizes

/-- `flat_from_sizes`, for a list of sizes. -/
def flatFromSizes (modality : String) (sizePerItem : List ℕ) (dim : ℕ) : MultiModalFieldConfig :=
  flat modality (slicesFrom dim 0 sizePerItem) dim

/-- `shared`. -/
def shared (modality : String) (batchSize : ℕ) : MultiModalFieldConfig := ⟨.shared batchSize, modality⟩

/-- `build_elems`. -/
def buildElems (config : MultiModalFieldConfig) (key : String) (batch : NestedTensors α) :
    Except Exn (List (MultiModalFieldElem α)) :=
  config.field.buildElems config.modality key batch

end MultiModalFieldConfig

/-! ## Batches of tensors -/

variable {t : Tensor α} {ts : List (Tensor α)} {rest : List ℕ} {batch : List (NestedTensors α)}

theorem mapM_tensor? (ts : List (Tensor α)) :
    (ts.map NestedTensors.tensor).mapM (·.tensor?) = some ts := by
  induction ts with
  | nil => rfl
  | cons t ts ih => rw [List.map_cons, List.mapM_cons, ih]; rfl

theorem tensorsOf_map (hne : ts ≠ []) : tensorsOf (ts.map NestedTensors.tensor) = some ts := by
  rw [tensorsOf, if_neg fun h => hne (List.map_eq_nil_iff.mp h), mapM_tensor?]

/-- The tensors of a batch are all of it. -/
theorem eq_map_of_tensorsOf (h : tensorsOf batch = some ts) : batch = ts.map NestedTensors.tensor := by
  rw [tensorsOf] at h
  split_ifs at h with hne
  clear hne
  induction batch generalizing ts with
  | nil =>
    cases h
    rfl
  | cons x batch ih =>
    rw [List.mapM_cons] at h
    cases x with
    | list l => cases h
    | tensor t =>
      cases hb : batch.mapM (·.tensor?) with
      | none =>
        rw [hb] at h
        cases h
      | some us =>
        rw [hb] at h
        cases h
        rw [List.map_cons, ← ih hb]

/-! ## Batched fields -/

/-- Tensors of one shape are stacked. -/
theorem reduceBatched_stack (hne : ts ≠ []) (h : ∀ u ∈ ts, u.shape = rest) :
    reduceBatched (ts.map NestedTensors.tensor) = .tensor (.stack ts rest h) := by
  rw [reduceBatched, tensorsOf_map hne]
  match ts, hne with
  | [t], _ =>
    refine congrArg NestedTensors.tensor (Tensor.ext_of ?_ ?_)
    · exact congrArg (List.cons 1) (h t List.mem_cons_self)
    · exact (List.append_nil t.data).symm
  | t :: u :: us, _ =>
    have ht := h t List.mem_cons_self
    subst ht
    exact dif_pos h

/-- **A merged batch**, split into its rows, is what it was. -/
theorem reduceBatched_iter (hne : batch ≠ []) : (reduceBatched batch).iter = .ok batch := by
  cases hts : tensorsOf batch with
  | none =>
    rw [reduceBatched, hts]
    rfl
  | some ts =>
    have hbatch := eq_map_of_tensorsOf hts
    have hts' : ts ≠ [] := fun h => hne (by rw [hbatch, h]; rfl)
    by_cases hsame : ∃ rest, ∀ u ∈ ts, u.shape = rest
    · obtain ⟨rest, h⟩ := hsame
      rw [hbatch, reduceBatched_stack hts' h, NestedTensors.iter, Tensor.rows?_stack]
      rfl
    · rw [reduceBatched, hts]
      match ts, hts' with
      | [t], _ => exact absurd ⟨t.shape, fun u hu => by rw [List.mem_singleton.mp hu]⟩ hsame
      | t :: u :: us, _ =>
        have hnot : ¬ ∀ v ∈ t :: u :: us, v.shape = t.shape := fun h => hsame ⟨t.shape, h⟩
        simp only [dif_neg hnot]
        rfl

/-! ## Flat fields -/

/-- Tensors with the same shape but for the first dimension are concatenated. -/
theorem reduceFlat_concat (hne : ts ≠ []) (h : ∀ u ∈ ts, u.shape = u.shape.headD 0 :: rest) :
    reduceFlat (ts.map NestedTensors.tensor) = .ok (.tensor (.concat ts rest h)) := by
  rw [reduceFlat, tensorsOf_map hne]
  match ts, hne with
  | [t], _ =>
    refine congrArg (fun u => Except.ok (NestedTensors.tensor u)) (Tensor.ext_of ?_ ?_)
    · rw [h t List.mem_cons_self]
      simp [Tensor.concat]
    · exact (List.append_nil t.data).symm
  | t :: u :: us, _ =>
    have htail : ∀ v ∈ t :: u :: us, v.shape.tail = rest := fun v hv => by
      rw [h v hv]
      rfl
    have ht := htail t List.mem_cons_self
    subst ht
    simp only [if_pos htail, concatBatch, dif_pos h]

/-- Tensors of other shapes are listed by rows. -/
theorem reduceFlat_list {rows : List (List (Tensor α))} (hne : ts ≠ [])
    (hdiff : ∃ t ∈ ts, ∃ u ∈ ts, t.shape.tail ≠ u.shape.tail) (hrows : ts.mapM Tensor.rows? = some rows) :
    reduceFlat (ts.map NestedTensors.tensor) = .ok (.list (rows.flatten.map NestedTensors.tensor)) := by
  have hiter : ∀ (ts : List (Tensor α)) (rows : List (List (Tensor α))),
      ts.mapM Tensor.rows? = some rows →
      (ts.map NestedTensors.tensor).mapM (·.iter) = Except.ok (rows.map (·.map NestedTensors.tensor)) := by
    intro ts
    induction ts with
    | nil =>
      intro rows h
      cases h
      rfl
    | cons t ts ih =>
      intro rows h
      rw [List.mapM_cons] at h
      cases ht : t.rows? with
      | none =>
        rw [ht] at h
        cases h
      | some r =>
        cases hts : ts.mapM Tensor.rows? with
        | none =>
          rw [ht, hts] at h
          cases h
        | some rs =>
          rw [ht, hts] at h
          cases h
          rw [List.map_cons, List.mapM_cons, ih rs hts, NestedTensors.iter, ht]
          rfl
  rw [reduceFlat, tensorsOf_map hne]
  obtain ⟨a, ha, b, hb, hab⟩ := hdiff
  match ts, hne with
  | [t], _ =>
    rw [List.mem_singleton.mp ha, List.mem_singleton.mp hb] at hab
    exact absurd rfl hab
  | t :: u :: us, _ =>
    have hnot : ¬ ∀ v ∈ t :: u :: us, v.shape.tail = t.shape.tail := fun h => hab ((h a ha).trans (h b hb).symm)
    simp only [if_neg hnot, flattenBatch, hiter _ _ hrows, ok_bind, List.map_flatten]

/-- The slices of a tensor along its first dimension, from `start` on. -/
theorem slices_concat {n : ℕ} (hshape : t.shape = n :: rest) : ∀ (sizes : List ℕ) (start : ℕ),
    start + sizes.sum = n → ∃ us : List (Tensor α),
      (MultiModalFieldConfig.slicesFrom 0 start sizes).mapM (fun s => (NestedTensors.tensor t).getItem s) =
        Except.ok (us.map NestedTensors.tensor) ∧
      us.map (·.shape) = sizes.map (· :: rest) ∧
      (us.map (·.data)).flatten = t.data.drop (start * rest.prod)
  | [], start, hsum => by
    refine ⟨[], rfl, rfl, ?_⟩
    rw [List.sum_nil, Nat.add_zero] at hsum
    rw [List.drop_eq_nil_of_le]
    · rfl
    · rw [t.length_data, hshape, List.prod_cons, hsum]
  | size :: sizes, start, hsum => by
    rw [List.sum_cons, ← Nat.add_assoc] at hsum
    have hdim : 0 < t.shape.length := by rw [hshape]; exact Nat.succ_pos _
    obtain ⟨us, hus, hshapes, hdata⟩ := slices_concat hshape sizes (start + size) hsum
    obtain ⟨hfirst, hslice⟩ := Tensor.sliceDim_zero hshape start (start + size) hdim
    refine ⟨t.sliceDim 0 start (start + size) hdim :: us, ?_, ?_, ?_⟩
    · have hget : (NestedTensors.tensor t).getItem ⟨0, start, start + size⟩ =
          .ok (.tensor (t.sliceDim 0 start (start + size) hdim)) := dif_pos hdim
      rw [MultiModalFieldConfig.slicesFrom, List.mapM_cons, hget, hus]
      rfl
    · have hmin : min (start + size) n - start = size := by omega
      rw [List.map_cons, List.map_cons, hfirst, hshapes, hmin]
    · rw [List.map_cons, List.flatten_cons, hslice, hdata, slice, ← Nat.sub_mul, Nat.add_sub_cancel_left,
        Nat.add_mul, ← List.drop_drop, List.take_append_drop]

/-- The slices of a tensor that begins with given tensors at `start`. -/
theorem concat_slices {n : ℕ} (hshape : t.shape = n :: rest) : ∀ (us : List (Tensor α)) (start : ℕ),
    (∀ u ∈ us, u.shape = u.shape.headD 0 :: rest) → start + (us.map fun u => u.shape.headD 0).sum ≤ n →
    (us.map (·.data)).flatten <+: t.data.drop (start * rest.prod) →
    (MultiModalFieldConfig.slicesFrom 0 start (us.map fun u => u.shape.headD 0)).mapM
      (fun s => (NestedTensors.tensor t).getItem s) = Except.ok (us.map NestedTensors.tensor)
  | [], _, _, _, _ => rfl
  | u :: us, start, hus, hsum, hpre => by
    rw [List.map_cons, List.sum_cons, ← Nat.add_assoc] at hsum
    have hdim : 0 < t.shape.length := by rw [hshape]; exact Nat.succ_pos _
    have hu := hus u List.mem_cons_self
    have hlen : u.data.length = u.shape.headD 0 * rest.prod := by
      rw [u.length_data, hu, List.prod_cons]
      rfl
    obtain ⟨hfirst, hslice⟩ := Tensor.sliceDim_zero hshape start (start + u.shape.headD 0) hdim
    obtain ⟨l, hl⟩ := hpre
    rw [List.map_cons, List.flatten_cons, List.append_assoc] at hl
    have hone : t.sliceDim 0 start (start + u.shape.headD 0) hdim = u := by
      refine Tensor.ext_of ?_ ?_
      · have hmin : min (start + u.shape.headD 0) n - start = u.shape.headD 0 := by omega
        rw [hfirst, hmin]
        exact hu.symm
      · rw [hslice, slice, ← Nat.sub_mul, Nat.add_sub_cancel_left, ← hl, ← hlen, List.take_left]
    have hrest : (us.map (·.data)).flatten <+: t.data.drop ((start + u.shape.headD 0) * rest.prod) := by
      rw [Nat.add_mul, ← List.drop_drop, ← hl, ← hlen, List.drop_left]
      exact List.prefix_append _ _
    have ih := concat_slices hshape us (start + u.shape.headD 0)
      (fun v hv => hus v (List.mem_cons_of_mem _ hv)) hsum hrest
    have hget : (NestedTensors.tensor t).getItem ⟨0, start, start + u.shape.headD 0⟩ =
        .ok (.tensor (t.sliceDim 0 start (start + u.shape.headD 0) hdim)) := dif_pos hdim
    rw [List.map_cons, MultiModalFieldConfig.slicesFrom, List.mapM_cons, hget, hone, ih]
    rfl

/-! ## Building and reducing -/

/-- `reduce_data(build_elems(data))` is `data`. -/
def RoundTrips (config : MultiModalFieldConfig) (key : String) (data : NestedTensors α) : Prop :=
  ∃ elems, config.buildElems key data = .ok elems ∧ ∃ first, elems.head? = some first ∧
    first.field.reduceData elems = .ok data

/-- What `from_items` merges elements to. -/
def MergesTo (elems : List (MultiModalFieldElem α)) (merged : NestedTensors α) : Prop :=
  ∃ first, elems.head? = some first ∧ first.field.reduceData elems = .ok merged

/-- What the merged data are split into are the data of the elements. -/
def SplitsInto (config : MultiModalFieldConfig) (key : String) (merged : NestedTensors α)
    (elems : List (MultiModalFieldElem α)) : Prop :=
  ∃ parts, config.buildElems key merged = .ok parts ∧ parts.map (·.data) = elems.map (·.data)

/-- A field with a tensor of matching shape; along other dimensions than the first, one item. -/
inductive Fits : MultiModalFieldConfig → NestedTensors α → Prop
  | batched (modality : String) {t : Tensor α} {n : ℕ} {rest : List ℕ} : t.shape = (n + 1) :: rest →
      Fits (.batched modality) (.tensor t)
  | flat (modality : String) {t : Tensor α} {sizes : List ℕ} {dim : ℕ} (h : dim < t.shape.length) :
      sizes ≠ [] → sizes.sum = t.shape[dim] → dim = 0 ∨ sizes.length = 1 →
      Fits (.flatFromSizes modality sizes dim) (.tensor t)
  | shared (modality : String) (data : NestedTensors α) {batchSize : ℕ} : 0 < batchSize →
      Fits (.shared modality batchSize) data

/-- Data that can be merged, with the field that splits them again. -/
inductive Mergeable : List (NestedTensors α) → MultiModalFieldConfig → Prop
  | batched (modality : String) {batch : List (NestedTensors α)} : batch ≠ [] →
      Mergeable batch (.batched modality)
  | flat (modality : String) {ts : List (Tensor α)} {rest : List ℕ} : ts ≠ [] →
      (∀ u ∈ ts, u.shape = u.shape.headD 0 :: rest) →
      Mergeable (ts.map .tensor) (.flatFromSizes modality (ts.map fun u => u.shape.headD 0) 0)
  | shared (modality : String) (data : NestedTensors α) {batchSize : ℕ} : 0 < batchSize →
      Mergeable (List.replicate batchSize data) (.shared modality batchSize)

variable {config : MultiModalFieldConfig} {data : NestedTensors α} {elems : List (MultiModalFieldElem α)}

/-- Elements of one type are merged by their data. -/
theorem reduceData_of_type {field : Field} (h : ∀ e ∈ elems, e.field.type = field.type) :
    field.reduceData elems = field.reduceBatch (elems.map (·.data)) := by
  have htypes : elems.map (·.field.type) = List.replicate elems.length field.type := by
    rw [List.eq_replicate_iff]
    refine ⟨List.length_map _, fun x hx => ?_⟩
    obtain ⟨e, he, rfl⟩ := List.mem_map.mp hx
    exact h e he
  have hone : ¬ 1 < (elems.map (·.field.type)).dedup.length := by
    rw [htypes]
    cases elems.length with
    | zero => exact Nat.not_lt_zero 1
    | succ n =>
      rw [List.replicate_dedup (Nat.succ_ne_zero n)]
      exact Nat.lt_irrefl 1
  exact if_neg hone

theorem reduceBatch_congr {field field' : Field} (h : field.type = field'.type)
    (batch : List (NestedTensors α)) : field.reduceBatch batch = field'.reduceBatch batch := by
  cases field <;> cases field' <;> first | rfl | cases h

/-- What elements of one type are merged to. -/
theorem mergesTo_of_type (field : Field) (hne : elems ≠ [])
    (h : ∀ e ∈ elems, e.field.type = field.type) {merged : NestedTensors α}
    (hmerged : field.reduceBatch (elems.map (·.data)) = .ok merged) : MergesTo elems merged := by
  obtain ⟨first, rest, rfl⟩ := List.exists_cons_of_ne_nil hne
  have hfirst := h first List.mem_cons_self
  refine ⟨first, rfl, ?_⟩
  rw [reduceData_of_type fun e he => (h e he).trans hfirst.symm, reduceBatch_congr hfirst, hmerged]

theorem buildElems_eq (key : String) {parts : List (NestedTensors α)}
    (hparts : config.field.parts data = .ok parts) : config.buildElems key data =
      .ok (parts.map fun part => ⟨config.modality, key, part, config.field⟩) := by
  rw [MultiModalFieldConfig.buildElems, Field.buildElems, hparts]
  rfl

/-- A field that merges what it splits. -/
theorem roundTrips_of_parts (key : String) (parts : List (NestedTensors α)) (hne : parts ≠ [])
    (hparts : config.field.parts data = .ok parts) (hreduce : config.field.reduceBatch parts = .ok data) :
    RoundTrips config key data := by
  refine ⟨_, buildElems_eq key hparts, ?_⟩
  apply mergesTo_of_type config.field
  · exact fun h => hne (List.map_eq_nil_iff.mp h)
  · intro e he
    obtain ⟨part, -, rfl⟩ := List.mem_map.mp he
    rfl
  · rw [List.map_map]
    exact (congrArg config.field.reduceBatch (List.map_id parts)).trans hreduce

/-- **The round trip**: what was built from data is merged to them. -/
theorem Fits.roundTrips (h : Fits config data) (key : String) : RoundTrips config key data := by
  cases h with
  | @batched modality t n rest hshape =>
    obtain ⟨us, hrows⟩ : ∃ us, t.rows? = some us := by
      obtain ⟨shape, tdata, hdata⟩ := t
      cases hshape
      exact ⟨_, rfl⟩
    obtain ⟨hlen, hshapes, -⟩ := Tensor.shape_of_mem_rows? hshape hrows
    have hne : us ≠ [] := fun h => by rw [h] at hlen; cases hlen
    apply roundTrips_of_parts key (us.map .tensor)
    · exact fun h => hne (List.map_eq_nil_iff.mp h)
    · show NestedTensors.iter (.tensor t) = _
      rw [NestedTensors.iter, hrows]
      rfl
    · show Except.ok (reduceBatched _) = _
      rw [reduceBatched_stack hne hshapes, Tensor.stack_rows? hshape hrows]
  | @flat modality t sizes dim hdim hne hsum hcase =>
    rcases hcase with rfl | hone
    · obtain ⟨n, rest, hshape⟩ : ∃ n rest, t.shape = n :: rest :=
        List.exists_cons_of_ne_nil (List.ne_nil_of_length_pos hdim)
      have htotal : 0 + sizes.sum = n := by
        rw [Nat.zero_add, hsum]
        simp [hshape]
      obtain ⟨us, hparts, hshapes, hdata⟩ := slices_concat hshape sizes 0 htotal
      have hus : us ≠ [] := by
        rintro rfl
        exact hne (List.map_eq_nil_iff.mp hshapes.symm)
      have hheads : us.map (fun u => u.shape.headD 0) = sizes := by
        have := congrArg (List.map fun sh : List ℕ => sh.headD 0) hshapes
        simpa [Function.comp_def] using this
      have hall : ∀ u ∈ us, u.shape = u.shape.headD 0 :: rest := by
        intro u hu
        have hmem : u.shape ∈ sizes.map (· :: rest) := hshapes ▸ List.mem_map_of_mem hu
        obtain ⟨s, -, hs⟩ := List.mem_map.mp hmem
        rw [← hs]
        rfl
      refine roundTrips_of_parts key _ (fun h => hus (List.map_eq_nil_iff.mp h)) hparts ?_
      show reduceFlat _ = _
      rw [reduceFlat_concat hus hall]
      refine congrArg (fun u => Except.ok (NestedTensors.tensor u)) (Tensor.ext_of ?_ ?_)
      · rw [hshape, ← htotal, Nat.zero_add, ← hheads]
        rfl
      · rw [Nat.zero_mul, List.drop_zero] at hdata
        exact hdata
    · obtain ⟨size, rfl⟩ := List.length_eq_one_iff.mp hone
      rw [List.sum_singleton] at hsum
      subst hsum
      apply roundTrips_of_parts key [.tensor t] (List.cons_ne_nil _ _)
      · show [ItemSlice.mk dim 0 (0 + t.shape[dim])].mapM _ = _
        have hget : (NestedTensors.tensor t).getItem ⟨dim, 0, 0 + t.shape[dim]⟩ = .ok (.tensor t) := by
          rw [NestedTensors.getItem, dif_pos hdim]
          simp only [Nat.zero_add, Tensor.sliceDim_full]
        rw [List.mapM_cons, hget]
        rfl
      · rfl
  | shared modality data hpos =>
    refine roundTrips_of_parts key _ ?_ rfl ?_
    · exact fun h => hpos.ne' ((List.replicate_eq_nil_iff data).mp h)
    · show reduceShared _ = _
      obtain ⟨n, rfl⟩ := Nat.exists_eq_succ_of_ne_zero hpos.ne'
      rfl

/-- **Merging** data of several requests, and splitting what comes out. -/
theorem Mergeable.splits {batch : List (NestedTensors α)} (h : Mergeable batch config) :
    batch ≠ [] ∧ ∃ merged, config.field.reduceBatch batch = .ok merged ∧
      config.field.parts merged = .ok batch := by
  cases h with
  | batched modality hne => exact ⟨hne, _, rfl, reduceBatched_iter hne⟩
  | @flat modality ts rest hne hall =>
    refine ⟨fun h => hne (List.map_eq_nil_iff.mp h), _, reduceFlat_concat hne hall, ?_⟩
    refine concat_slices rfl ts 0 hall ?_ ?_
    · rw [Nat.zero_add]
    · rw [Nat.zero_mul, List.drop_zero]
      exact List.prefix_rfl
  | @shared modality data n hpos =>
    obtain ⟨n, rfl⟩ := Nat.exists_eq_succ_of_ne_zero hpos.ne'
    exact ⟨fun h => List.cons_ne_nil _ _ h, data, rfl, rfl⟩

/-- **`build_elems` and `reduce_data`.** What a field builds from the data of one request is reduced to
them, and mergeable data of several requests are split again into themselves; flat data of other shapes are
listed by rows, and shared data are those of the first element. -/
theorem build_elems_reduce_data (key : String) :
    (∀ (config : MultiModalFieldConfig) (data : NestedTensors α), Fits config data →
      RoundTrips config key data) ∧
    (∀ (config : MultiModalFieldConfig) (elems : List (MultiModalFieldElem α)),
      (∀ e ∈ elems, e.field.type = config.field.type) → Mergeable (elems.map (·.data)) config →
      ∃ merged, MergesTo elems merged ∧ SplitsInto config key merged elems) ∧
    (∀ (elems : List (MultiModalFieldElem α)) (ts : List (Tensor α)) (rows : List (List (Tensor α))),
      (∀ e ∈ elems, e.field.type = .MultiModalFlatField) → elems.map (·.data) = ts.map .tensor →
      (∃ t ∈ ts, ∃ u ∈ ts, t.shape.tail ≠ u.shape.tail) → ts.mapM Tensor.rows? = some rows →
      MergesTo elems (.list (rows.flatten.map .tensor))) ∧
    ∀ (first : MultiModalFieldElem α) (elems : List (MultiModalFieldElem α)),
      (∀ e ∈ first :: elems, e.field.type = .MultiModalSharedField) → MergesTo (first :: elems) first.data := by
  refine ⟨fun config data h => h.roundTrips key, fun config elems htype h => ?_,
    fun elems ts rows htype hdata hdiff hrows => ?_, fun first elems htype => ?_⟩
  · obtain ⟨hne, merged, hmerged, hparts⟩ := h.splits
    refine ⟨merged, mergesTo_of_type config.field (fun h => hne (by rw [h]; rfl)) htype hmerged, _,
      buildElems_eq key hparts, ?_⟩
    rw [List.map_map]
    exact List.map_id _
  · have hne : elems ≠ [] := by
      rintro rfl
      obtain ⟨t, ht, -⟩ := hdiff
      rw [List.map_eq_nil_iff.mp hdata.symm] at ht
      cases ht
    have hts : ts ≠ [] := fun h => hne (List.map_eq_nil_iff.mp (by rw [hdata, h]; rfl))
    refine mergesTo_of_type (.flat [] 0) hne htype ?_
    rw [hdata]
    exact reduceFlat_list hts hdiff hrows
  · exact mergesTo_of_type (.shared 0) (List.cons_ne_nil _ _) htype rfl

/-- Three rows as two items, of one row and of two. -/
theorem build_elems_reduce_data_rows :
    RoundTrips (.flatFromSizes "image" [1, 2] 0) "image_embeds"
      (.tensor ⟨[3, 2], [1, 2, 3, 4, 5, 6], rfl⟩ : NestedTensors ℕ) := by
  have hdim : 0 < (⟨[3, 2], [1, 2, 3, 4, 5, 6], rfl⟩ : Tensor ℕ).shape.length := by decide
  exact (build_elems_reduce_data "image_embeds").1 _ _
    (.flat "image" hdim (List.cons_ne_nil _ _) rfl (Or.inl rfl))

/-- A row of shared data, and a matrix with flat data. -/
def sharedElem (x : ℕ) : MultiModalFieldElem ℕ := ⟨"image", "k", .tensor ⟨[1], [x], rfl⟩, .shared 1⟩

def flatElem (n : ℕ) : MultiModalFieldElem ℕ :=
  ⟨"image", "k", .tensor ⟨[1, n], List.replicate n 0, by simp⟩, .flat [⟨0, 0, 1⟩] 0⟩

/-- Shared data that differ are lost, rows of different lengths cannot be split by their sizes, and two
columns are merged to two rows. -/
theorem merging_not_inverse :
    (¬ ∃ merged, MergesTo [sharedElem 1, sharedElem 2] merged ∧
      SplitsInto (.shared "image" 2) "k" merged [sharedElem 1, sharedElem 2]) ∧
    (¬ ∃ merged, MergesTo [flatElem 1, flatElem 2] merged ∧
      SplitsInto (.flatFromSizes "image" [1, 1] 0) "k" merged [flatElem 1, flatElem 2]) ∧
    ¬ RoundTrips (.flatFromSizes "image" [1, 1] 1) "k" (.tensor ⟨[1, 2], [5, 6], rfl⟩ : NestedTensors ℕ) := by
  refine ⟨?_, ?_, ?_⟩
  · rintro ⟨merged, ⟨first, hfirst, hmerged⟩, parts, hparts, hdata⟩
    cases hfirst
    have hfirst : (sharedElem 1).field.reduceData [sharedElem 1, sharedElem 2] = .ok (sharedElem 1).data :=
      rfl
    rw [hfirst] at hmerged
    cases hmerged
    have hsplit : (MultiModalFieldConfig.shared "image" 2).buildElems "k" (sharedElem 1).data =
        .ok (List.replicate 2 ⟨"image", "k", (sharedElem 1).data, .shared 2⟩) := rfl
    rw [hsplit] at hparts
    cases hparts
    simp [sharedElem] at hdata
    exact absurd (congrArg Tensor.data hdata) (by decide)
  · rintro ⟨merged, ⟨first, hfirst, hmerged⟩, parts, hparts, -⟩
    cases hfirst
    have hlist : (flatElem 1).field.reduceData [flatElem 1, flatElem 2] =
        .ok (.list [.tensor ⟨[1], [0], rfl⟩, .tensor ⟨[2], [0, 0], rfl⟩]) := rfl
    rw [hlist] at hmerged
    cases hmerged
    cases hparts
  · rintro ⟨elems, helems, first, hfirst, hmerged⟩
    have hcolumns : (MultiModalFieldConfig.flatFromSizes "image" [1, 1] 1).buildElems "k"
        (.tensor ⟨[1, 2], [5, 6], rfl⟩ : NestedTensors ℕ) =
        .ok [⟨"image", "k", .tensor ⟨[1, 1], [5], rfl⟩, .flat [⟨1, 0, 1⟩, ⟨1, 1, 2⟩] 1⟩,
          ⟨"image", "k", .tensor ⟨[1, 1], [6], rfl⟩, .flat [⟨1, 0, 1⟩, ⟨1, 1, 2⟩] 1⟩] := rfl
    rw [hcolumns] at helems
    cases helems
    cases hfirst
    have hrows : Field.reduceData (.flat [⟨1, 0, 1⟩, ⟨1, 1, 2⟩] 1)
        [⟨"image", "k", .tensor ⟨[1, 1], [5], rfl⟩, .flat [⟨1, 0, 1⟩, ⟨1, 1, 2⟩] 1⟩,
          ⟨"image", "k", .tensor ⟨[1, 1], [6], rfl⟩, .flat [⟨1, 0, 1⟩, ⟨1, 1, 2⟩] 1⟩] =
        .ok (.tensor ⟨[2, 1], [5, 6], rfl⟩ : NestedTensors ℕ) := rfl
    rw [hrows] at hmerged
    cases hmerged

end SpaceServe.MultiModal
