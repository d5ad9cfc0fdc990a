import Mathlib.Algebra.Order.BigOperators.Group.List
import SpaceServe.MultiModal.Kwargs

/-!
# Precomputed embeddings of Qwen2-VL

`vllm/model_executor/models/qwen2_vl.py`. Embeddings of several images or videos come as one matrix, with a grid
of patches for each item. Four places cut the matrix into items: the parser, the fields, the replacement of
the prompt, and the model itself. The first two count patches, the others tokens, of which there are
`merge_size ** 2` times fewer.

* `Scalar`, `Qwen2VLEmbeddingItems`, `getMmFieldsConfig`, `getReplacementQwen2vl`, `processVisionInput`: the
  model;
* `Grid`, `Embeddings`: the inputs; `rows`: the rows of an item;
* `get_spec`, `kwargs_spec`: what the parser and the fields give;
* **`split_per_item_iff`**.
-/

set_option autoImplicit false

namespace SpaceServe.MultiModal

open Py Torch SpaceServe.MultiModal.MultiModalKwargs

/-! ## The model -/

/-- An element of an integer tensor, or of another one. -/
inductive Scalar (β : Type)
  | int (n : ℕ)
  | float (x : β)
deriving DecidableEq

variable {β : Type}

/-- The integer, if it is one. -/
def Scalar.int? : Scalar β → Option ℕ
  | int n => some n
  | float _ => none

/-- `grid_thw.prod(-1)`, for an integer tensor of two dimensions. -/
def prodLast (gridThw : Tensor (Scalar β)) : Except Exn (List ℕ) := do
  let rows ← ofOption (.indexError "Dimension out of range") gridThw.rows?
  rows.mapM fun row => do
    let ns ← ofOption (.typeError "not an integer tensor") (row.data.mapM (·.int?))
    .ok ns.prod

/-- `cumsum`. -/
def cumsum : ℕ → List ℕ → List ℕ
  | _, [] => []
  | acc, x :: xs => (acc + x) :: cumsum (acc + x) xs

/-- `Qwen2VLEmbeddingItems`. -/
structure Qwen2VLEmbeddingItems (β : Type) where
  data : Dict String (Tensor (Scalar β))
  modality : String
  slices : List (ℕ × ℕ)

/-- `v != s`, for a tensor `v`. A tensor is no string. -/
def tensorNeStr (_ : Tensor (Scalar β)) (_ : String) : Bool := true

/-- `v[start:stop]`. -/
def sliceRows (v : Tensor (Scalar β)) (s : ℕ × ℕ) : Except Exn (Tensor (Scalar β)) :=
  if h : 0 < v.shape.length then .ok (v.sliceDim 0 s.1 s.2 h)
  else .error (.indexError "slice() cannot be applied to a 0-dim tensor.")

namespace Qwen2VLEmbeddingItems

/-- `__init__`. -/
def init (data : Dict String (Tensor (Scalar β))) (modality : String) :
    Except Exn (Qwen2VLEmbeddingItems β) := do
  let gridThw ← ofOption .keyError (data.get? (modality ++ "_grid_thw"))
  let sizes ← prodLast gridThw
  let sliceIdxs := 0 :: cumsum 0 sizes
  let count ← ofOption (.typeError "len() of a 0-d tensor") gridThw.shape.head?
  let slices ← (List.range count).mapM fun i => do
    let start ← ofOption (.indexError "list index out of range") sliceIdxs[i]?
    let stop ← ofOption (.indexError "list index out of range") sliceIdxs[i + 1]?
    .ok (start, stop)
  .ok ⟨data, modality, slices⟩

/-- `get`. -/
def get (items : Qwen2VLEmbeddingItems β) (index : ℕ) : Except Exn (Dict String (Tensor (Scalar β))) :=
  items.data.mapValuesM fun _ v =>
    if tensorNeStr v (items.modality ++ "_grid_thw") = true then do
      let s ← ofOption (.indexError "list index out of range") items.slices[index]?
      sliceRows v s
    else .ok v

/-- `get_passthrough_data`. -/
def getPassthroughData (items : Qwen2VLEmbeddingItems β) : Dict String (NestedTensors (Scalar β)) :=
  items.data.mapValues fun _ v => .tensor v

end Qwen2VLEmbeddingItems

/-- The sizes of the grids under a key, none if there are no grids. -/
def gridSizes (hfInputs : Dict String (NestedTensors (Scalar β))) (key : String) : Except Exn (List ℕ) :=
  match hfInputs.get? key with
  | none => .ok []
  | some (.tensor gridThw) => prodLast gridThw
  | some (.list _) => .error (.attributeError "'list' object has no attribute 'prod'")

/-- `_get_mm_fields_config`. -/
def getMmFieldsConfig (hfInputs : Dict String (NestedTensors (Scalar β))) :
    Except Exn (Dict String MultiModalFieldConfig) := do
  let imageGridSizes ← gridSizes hfInputs "image_grid_thw"
  let videoGridSizes ← gridSizes hfInputs "video_grid_thw"
  .ok (Dict.ofPairs [
    ("pixel_values", .flatFromSizes "image" imageGridSizes 0),
    ("image_embeds", .flatFromSizes "image" imageGridSizes 0),
    ("image_grid_thw", .batched "image"),
    ("pixel_values_videos", .flatFromSizes "video" videoGridSizes 0),
    ("video_embeds", .flatFromSizes "video" videoGridSizes 0),
    ("video_grid_thw", .batched "video")])

/-- The keyword arguments for data that pass the HF processor by, with the outputs of the HF processor on the
text. -/
def passthroughKwargs (hfOutputs : Dict String (NestedTensors (Scalar β)))
    (items : Qwen2VLEmbeddingItems β) : Except Exn (MultiModalKwargs (Scalar β)) := do
  let processedData := hfOutputs.update items.getPassthroughData
  let config ← getMmFieldsConfig processedData
  MultiModalKwargs.fromHfInputs processedData config

/-- `get_replacement_qwen2vl`. -/
def getReplacementQwen2vl (outMmKwargs : MultiModalKwargs (Scalar β)) (mergeSize placeholder itemIdx : ℕ)
    (modality : String) : Except Exn (List ℕ) := do
  let grids ← ofOption .keyError (outMmKwargs.data.get? (modality ++ "_grid_thw"))
  let rows ← grids.iter
  let gridThw ← ofOption (.indexError "index out of range") rows[itemIdx]?
  let gridThw ← ofOption (.assertionError "") gridThw.tensor?
  let ns ← ofOption (.typeError "not an integer tensor") (gridThw.data.mapM (·.int?))
  .ok (List.replicate (ns.prod / mergeSize ^ 2) placeholder)

/-- `_validate_and_reshape_mm_tensor`, for a tensor. -/
def validateAndReshapeMmTensor (mmInput : Tensor (Scalar β)) (name : String) :
    Except Exn (NestedTensors (Scalar β)) := do
  if mmInput.shape.length = 2 then .ok (.tensor mmInput)
  else if mmInput.shape.length ≠ 3 then
    .error (.valueError (name ++ " should be 2D or batched 3D tensor. Got ndim: " ++
      toString mmInput.shape.length ++ " (shape=torch.Size([" ++
      ", ".intercalate (mmInput.shape.map toString) ++ "]))"))
  else
    match mmInput.rows? with
    | some (t :: ts) => concatBatch t ts
    | _ => .error (.runtimeError "torch.cat(): expected a non-empty list of Tensors")

/-- `_process_image_input` and `_process_video_input` on embeddings, up to the conversion to the dtype of the
model. -/
def processVisionInput (mergeSize : ℕ) (embeds gridThw : Tensor (Scalar β)) :
    Except Exn (List (Tensor (Scalar β))) := do
  assert (gridThw.shape.length = 2) ""
  let sizes ← prodLast gridThw
  ofOption (.runtimeError "split_with_sizes expects split_sizes to sum exactly to the size of the dimension")
    (embeds.split? (sizes.map fun size => size / mergeSize / mergeSize))

/-- The embeddings of a batch, parsed and split. -/
def visionEmbeddings (mergeSize : ℕ) (embeds gridThw : Tensor (Scalar β)) (name : String) :
    Except Exn (List (Tensor (Scalar β))) := do
  let embeds ← validateAndReshapeMmTensor embeds (name ++ " embeds")
  let gridThw ← validateAndReshapeMmTensor gridThw (name ++ " grid_thw")
  let embeds ← ofOption (.valueError ("Incorrect type of " ++ name ++ " embeddings.")) embeds.tensor?
  let gridThw ← ofOption (.typeError "not a tensor") gridThw.tensor?
  processVisionInput mergeSize embeds gridThw

/-! ## The inputs -/

/-- The two kinds of inputs. -/
inductive Vision
  | image
  | video
deriving DecidableEq

/-- `modality`. -/
def Vision.name : Vision → String
  | image => "image"
  | video => "video"

/-- A grid of patches: frames, rows and columns. -/
structure Grid where
  t : ℕ
  h : ℕ
  w : ℕ
deriving DecidableEq

namespace Grid

/-- The patches of a grid. -/
def patches (g : Grid) : ℕ := g.t * g.h * g.w

/-- A row of `grid_thw`. -/
def row (g : Grid) : Tensor (Scalar β) := ⟨[3], [.int g.t, .int g.h, .int g.w], rfl⟩

/-- `grid_thw`. -/
def tensor (grids : List Grid) : Tensor (Scalar β) :=
  .stack (grids.map row) [3] fun u hu => by
    obtain ⟨g, -, rfl⟩ := List.mem_map.mp hu
    rfl

end Grid

/-- The keys of the fields. -/
def visionKeys : List String :=
  ["pixel_values", "image_embeds", "image_grid_thw", "pixel_values_videos", "video_embeds", "video_grid_thw"]

/-- Embeddings of images or videos whose grids can be merged: a matrix with a row for every merged patch. The
outputs of the HF processor on the text hold none of the fields. -/
structure Embeddings (β : Type) where
  vision : Vision
  mergeSize : ℕ
  pos : 0 < mergeSize
  grids : List Grid
  dvd : ∀ g ∈ grids, mergeSize ∣ g.h ∧ mergeSize ∣ g.w
  hidden : ℕ
  embeds : Tensor (Scalar β)
  shape : embeds.shape = [(grids.map fun g => g.patches / mergeSize ^ 2).sum, hidden]
  hfOutputs : Dict String (NestedTensors (Scalar β))
  textOnly : ∀ key ∈ visionKeys, hfOutputs.get? key = none

namespace Embeddings

variable (b : Embeddings β)

/-- `t_i * h_i * w_i`. -/
def patches : List ℕ := b.grids.map Grid.patches

/-- `p_i`. -/
def tokens : List ℕ := b.grids.map fun g => g.patches / b.mergeSize ^ 2

/-- The key of the matrix, and that of the grids. -/
def embedsKey : String := b.vision.name ++ "_embeds"

def gridKey : String := b.vision.name ++ "_grid_thw"

/-- What the user passes. -/
def data : Dict String (Tensor (Scalar β)) :=
  (Dict.empty.set b.embedsKey b.embeds).set b.gridKey (Grid.tensor b.grids)

theorem ndim_pos : 0 < b.embeds.shape.length := by
  rw [b.shape]
  exact Nat.succ_pos _

/-- The rows of an item: after those of the items before it, as many as it has tokens. -/
def rows (i : ℕ) : Tensor (Scalar β) :=
  b.embeds.sliceDim 0 (b.tokens.take i).sum (b.tokens.take (i + 1)).sum b.ndim_pos

/-- What a count of patches makes of an item. -/
def patchRows (i : ℕ) : Tensor (Scalar β) :=
  b.embeds.sliceDim 0 (b.patches.take i).sum (b.patches.take (i + 1)).sum b.ndim_pos

/-- The slices of the parser. -/
def items : Qwen2VLEmbeddingItems β :=
  ⟨b.data, b.vision.name, (List.range b.grids.length).map fun i =>
    ((b.patches.take i).sum, (b.patches.take (i + 1)).sum)⟩

end Embeddings

/-! ## Grids -/

theorem ndim_grid_pos (grids : List Grid) : 0 < (Grid.tensor grids : Tensor (Scalar β)).shape.length :=
  Nat.succ_pos _

theorem rows?_grid (grids : List Grid) :
    (Grid.tensor grids : Tensor (Scalar β)).rows? = some (grids.map Grid.row) := Tensor.rows?_stack _ _ _

theorem ints_row (g : Grid) : (g.row : Tensor (Scalar β)).data.mapM (·.int?) = some [g.t, g.h, g.w] := rfl

theorem prod_row (g : Grid) : [g.t, g.h, g.w].prod = g.patches := by
  simp [Grid.patches, Nat.mul_assoc]

theorem prodLast_grid (grids : List Grid) :
    prodLast (Grid.tensor grids : Tensor (Scalar β)) = .ok (grids.map Grid.patches) := by
  rw [prodLast, rows?_grid, ofOption_some, ok_bind]
  induction grids with
  | nil => rfl
  | cons g grids ih =>
    rw [List.map_cons, List.mapM_cons, ints_row, ofOption_some, ok_bind, prod_row, ok_bind, ih]
    rfl

theorem getElem?_cumsum : ∀ (l : List ℕ) (acc i : ℕ), i ≤ l.length →
    (acc :: cumsum acc l)[i]? = some (acc + (l.take i).sum)
  | _, acc, 0, _ => by simp
  | [], _, i + 1, h => absurd h (Nat.not_succ_le_zero i)
  | x :: xs, acc, i + 1, h => by
    rw [List.getElem?_cons_succ, cumsum, getElem?_cumsum xs (acc + x) i (Nat.le_of_succ_le_succ h)]
    simp [Nat.add_assoc]

/-- A slice of a concatenation of lists of one length. -/
theorem slice_flatten {γ : Type} {c : ℕ} : ∀ {ls : List (List γ)} (a n : ℕ), (∀ l ∈ ls, l.length = c) →
    slice ls.flatten (a * c) (n * c) = (slice ls a n).flatten
  | ls, a, n, h => by
    have htake : ∀ (ls : List (List γ)) (k : ℕ), (∀ l ∈ ls, l.length = c) →
        ls.flatten.take (k * c) = (ls.take k).flatten := by
      intro ls
      induction ls with
      | nil => exact fun k _ => by simp
      | cons l ls ih =>
        intro k hl
        cases k with
        | zero => simp
        | succ k =>
          have hlen := hl l List.mem_cons_self
          rw [List.flatten_cons, List.take_succ_cons, List.flatten_cons, Nat.succ_mul, Nat.add_comm,
            ← hlen, List.take_length_add_append, hlen, ih k fun l' h' => hl l' (List.mem_cons_of_mem _ h')]
    have hdrop : ∀ (ls : List (List γ)) (k : ℕ), (∀ l ∈ ls, l.length = c) →
        ls.flatten.drop (k * c) = (ls.drop k).flatten := by
      intro ls
      induction ls with
      | nil => exact fun k _ => by simp
      | cons l ls ih =>
        intro k hl
        cases k with
        | zero => simp
        | succ k =>
          have hlen := hl l List.mem_cons_self
          rw [List.flatten_cons, List.drop_succ_cons, Nat.succ_mul, Nat.add_comm, ← hlen,
            List.drop_length_add_append, hlen, ih k fun l' h' => hl l' (List.mem_cons_of_mem _ h')]
    rw [slice, slice, hdrop ls a h, ← Nat.sub_mul, htake _ _ fun l hl => h l (List.mem_of_mem_drop hl)]

/-! ## The parser -/

namespace Embeddings

variable (b : Embeddings β)

theorem embedsKey_ne : b.embedsKey ≠ b.gridKey := by
  rw [embedsKey, gridKey, ne_eq, String.append_right_inj]
  decide

theorem get?_data (key : String) : b.data.get? key =
    if key = b.gridKey then some (Grid.tensor b.grids)
    else if key = b.embedsKey then some b.embeds else none := by
  rw [data, Dict.get?_set, Dict.get?_set, Dict.get?_empty]

/-- **The parser** counts patches. -/
theorem init_spec : Qwen2VLEmbeddingItems.init b.data b.vision.name = .ok b.items := by
  have hgrid : b.data.get? (b.vision.name ++ "_grid_thw") = some (Grid.tensor b.grids) := by
    rw [b.get?_data]
    exact if_pos rfl
  have hcount : (Grid.tensor b.grids : Tensor (Scalar β)).shape.head? = some b.grids.length := by
    show some (b.grids.map Grid.row).length = _
    rw [List.length_map]
  have hslices : ((List.range b.grids.length).mapM fun i => do
      let start ← ofOption (.indexError "list index out of range")
        (0 :: cumsum 0 (b.grids.map Grid.patches))[i]?
      let stop ← ofOption (.indexError "list index out of range")
        (0 :: cumsum 0 (b.grids.map Grid.patches))[i + 1]?
      .ok (start, stop)) = Except.ok b.items.slices := by
    refine mapM_eq_ok_map fun i hi => ?_
    rw [← patches]
    have hlt : i < b.patches.length := by
      rw [patches, List.length_map]
      exact List.mem_range.mp hi
    rw [getElem?_cumsum b.patches 0 i hlt.le, getElem?_cumsum b.patches 0 (i + 1) hlt]
    simp
  rw [Qwen2VLEmbeddingItems.init, hgrid, ofOption_some, ok_bind, prodLast_grid, ok_bind, hcount, ofOption_some,
    ok_bind, hslices]
  rfl

/-- The rows of the grids that are cut out for an item. -/
def patchGrids (i : ℕ) : Tensor (Scalar β) :=
  (Grid.tensor b.grids).sliceDim 0 (b.patches.take i).sum (b.patches.take (i + 1)).sum (ndim_grid_pos _)

/-- **An item of the parsed data** is cut out of the matrix and of the grids alike. -/
theorem get_spec {i : ℕ} (hi : i < b.grids.length) : ∃ d, b.items.get i = .ok d ∧
    d.get? b.embedsKey = some (b.patchRows i) ∧ d.get? b.gridKey = some (b.patchGrids i) := by
  let cut : String → Tensor (Scalar β) → Tensor (Scalar β) := fun _ v =>
    if h : 0 < v.shape.length then v.sliceDim 0 (b.patches.take i).sum (b.patches.take (i + 1)).sum h else v
  have hslice : b.items.slices[i]? = some ((b.patches.take i).sum, (b.patches.take (i + 1)).sum) := by
    rw [items, List.getElem?_map, List.getElem?_range hi]
    rfl
  have hget : b.items.get i = .ok (b.data.mapValues cut) := by
    refine Dict.mapValuesM_eq_ok fun p hp => ?_
    have hp' := (Dict.mem_entries _ p.1 p.2).mp hp
    have hdim : 0 < p.2.shape.length := by
      change b.data.get? p.1 = _ at hp'
      rw [b.get?_data] at hp'
      split_ifs at hp'
      · rw [← Option.some.inj hp']
        exact ndim_grid_pos _
      · rw [← Option.some.inj hp']
        exact b.ndim_pos
    rw [if_pos (by rfl), hslice, ofOption_some, ok_bind, sliceRows, dif_pos hdim]
    exact congrArg Except.ok (dif_pos hdim).symm
  refine ⟨_, hget, ?_, ?_⟩
  · rw [Dict.get?_mapValues, b.get?_data, if_neg b.embedsKey_ne, if_pos rfl]
    exact congrArg some (dif_pos b.ndim_pos)
  · rw [Dict.get?_mapValues, b.get?_data, if_pos rfl]
    exact congrArg some (dif_pos (ndim_grid_pos _))

/-! ## The fields -/

/-- The outputs on the text, with what was passed. -/
def processed : Dict String (NestedTensors (Scalar β)) := b.hfOutputs.update b.items.getPassthroughData

theorem get?_processed {key : String} (hkey : key ∈ visionKeys) : b.processed.get? key =
    if key = b.gridKey then some (.tensor (Grid.tensor b.grids))
    else if key = b.embedsKey then some (.tensor b.embeds) else none := by
  have hdata : b.items.getPassthroughData.get? key = (b.data.get? key).map .tensor := Dict.get?_mapValues _ _ _
  rw [processed, Dict.get?_update, b.textOnly key hkey, Option.or_none, hdata, b.get?_data]
  split_ifs <;> rfl

/-- The sizes of the grids of a kind. -/
def sizesOf (v : Vision) : List ℕ := if v = b.vision then b.patches else []

theorem gridSizes_processed (v : Vision) :
    gridSizes b.processed (v.name ++ "_grid_thw") = .ok (b.sizesOf v) := by
  have hmem : v.name ++ "_grid_thw" ∈ visionKeys := by cases v <;> decide
  have hembeds : v.name ++ "_grid_thw" ≠ b.embedsKey := by
    rw [embedsKey]
    cases v <;> cases b.vision <;> decide
  rw [gridSizes, b.get?_processed hmem, if_neg hembeds, sizesOf]
  by_cases hv : v = b.vision
  · rw [if_pos hv, if_pos (by rw [gridKey, hv])]
    exact prodLast_grid _
  · rw [if_neg hv, if_neg]
    rw [gridKey]
    revert hv
    cases v <;> cases b.vision <;> decide

/-- The configuration of the fields. -/
def config : Dict String MultiModalFieldConfig :=
  Dict.ofPairs [
    ("pixel_values", .flatFromSizes "image" (b.sizesOf .image) 0),
    ("image_embeds", .flatFromSizes "image" (b.sizesOf .image) 0),
    ("image_grid_thw", .batched "image"),
    ("pixel_values_videos", .flatFromSizes "video" (b.sizesOf .video) 0),
    ("video_embeds", .flatFromSizes "video" (b.sizesOf .video) 0),
    ("video_grid_thw", .batched "video")]

theorem config_spec : getMmFieldsConfig b.processed = .ok b.config := by
  have himage := b.gridSizes_processed .image
  have hvideo := b.gridSizes_processed .video
  change gridSizes b.processed "image_grid_thw" = _ at himage
  change gridSizes b.processed "video_grid_thw" = _ at hvideo
  rw [getMmFieldsConfig, himage, ok_bind, hvideo]
  rfl

theorem keys_config : b.config.keys = visionKeys := by
  rw [Dict.keys, config, Dict.entries_ofPairs]
  · rfl
  · show visionKeys.Nodup
    decide

theorem config_embeds : b.config.get? b.embedsKey = some (.flatFromSizes b.vision.name b.patches 0) := by
  have hsize : b.sizesOf b.vision = b.patches := if_pos rfl
  rw [← hsize, config, embedsKey]
  cases b.vision <;> rfl

theorem config_grid : b.config.get? b.gridKey = some (.batched b.vision.name) := by
  rw [config, gridKey]
  cases b.vision <;> rfl

/-- The parts of each field. -/
def parts (key : String) : List (NestedTensors (Scalar β)) :=
  if key = b.gridKey then b.grids.map fun g => .tensor g.row
  else if key = b.embedsKey then (b.embeds.splitFrom b.ndim_pos 0 b.patches).map .tensor else []

theorem parts_embeds :
    b.parts b.embedsKey = (b.embeds.splitFrom b.ndim_pos 0 b.patches).map .tensor := by
  rw [parts, if_neg b.embedsKey_ne, if_pos rfl]

theorem parts_grid : b.parts b.gridKey = b.grids.map fun g => .tensor g.row := if_pos rfl

theorem slicesFrom_getItem (t : Tensor (Scalar β)) (h : 0 < t.shape.length) : ∀ (sizes : List ℕ) (start : ℕ),
    (MultiModalFieldConfig.slicesFrom 0 start sizes).mapM (fun s => (NestedTensors.tensor t).getItem s) =
      Except.ok ((t.splitFrom h start sizes).map .tensor)
  | [], _ => rfl
  | size :: sizes, start => by
    have hone : (NestedTensors.tensor t).getItem ⟨0, start, start + size⟩ =
        .ok (.tensor (t.sliceDim 0 start (start + size) h)) := dif_pos h
    rw [MultiModalFieldConfig.slicesFrom, List.mapM_cons, hone, ok_bind, slicesFrom_getItem t h sizes]
    rfl

/-- **The parts** of the matrix and of the grids; the other fields have none. -/
theorem hasParts {key : String} {c : MultiModalFieldConfig} (hc : b.config.get? key = some c) :
    HasParts b.processed key c (b.parts key) ∧
      (b.parts key ≠ [] → c.modality = b.vision.name ∧ (b.parts key).length = b.grids.length) := by
  have hmem : key ∈ visionKeys := by
    rw [← b.keys_config]
    exact Dict.mem_keys_of_get? hc
  rw [HasParts, b.get?_processed hmem]
  by_cases hgrid : key = b.gridKey
  · rw [hgrid, b.config_grid] at hc
    cases hc
    rw [if_pos hgrid, hgrid, parts_grid]
    refine ⟨?_, fun _ => ⟨rfl, List.length_map _⟩⟩
    show (NestedTensors.tensor (Grid.tensor b.grids)).iter = _
    rw [NestedTensors.iter, rows?_grid, ofOption_some]
    exact congrArg Except.ok List.map_map
  · rw [if_neg hgrid]
    by_cases hembeds : key = b.embedsKey
    · rw [hembeds, b.config_embeds] at hc
      cases hc
      rw [if_pos hembeds, hembeds, parts_embeds]
      refine ⟨slicesFrom_getItem b.embeds b.ndim_pos b.patches 0, fun _ => ⟨rfl, ?_⟩⟩
      rw [List.length_map, Tensor.length_splitFrom, patches, List.length_map]
    · have hnil : b.parts key = [] := by rw [parts, if_neg hgrid, if_neg hembeds]
      rw [if_neg hembeds, hnil]
      exact ⟨rfl, fun h => absurd rfl h⟩

/-- The items of the fields. -/
theorem items_spec : ∃ items, itemsOfHfInputs b.processed b.config = .ok items ∧
    (∀ item ∈ items, item.modality = .ok b.vision.name) ∧
    items = (List.range b.grids.length).map (itemAt b.parts b.config b.vision.name) := by
  have hget : ∀ p ∈ b.config.entries, b.config.get? p.1 = some p.2 := fun p hp =>
    (Dict.mem_entries _ p.1 p.2).mp hp
  obtain ⟨items, hitems, hmod, hfilter⟩ := itemsOfHfInputs_spec (n := fun _ => b.grids.length)
    (fun p hp => (b.hasParts (hget p hp)).1) (fun p hp hne => ((b.hasParts (hget p hp)).2 hne).2)
  have hall : ∀ item ∈ items, item.modality = .ok b.vision.name := by
    intro item hitem
    obtain ⟨m, hm⟩ := hmod item hitem
    have hmem : item ∈ items.filter fun item => item.modality = .ok m :=
      List.mem_filter.mpr ⟨hitem, decide_eq_true hm⟩
    have hne : fieldsOf b.parts b.config m ≠ [] := by
      intro hnil
      rw [hfilter, if_pos hnil] at hmem
      cases hmem
    obtain ⟨p, hp⟩ := List.exists_mem_of_ne_nil _ hne
    rw [fieldsOf, List.mem_filter, Bool.and_eq_true] at hp
    have hp' := ((b.hasParts (hget p hp.1)).2 (by simpa using hp.2.1)).1
    rw [hm, ← hp', of_decide_eq_true hp.2.2]
  have hself : (items.filter fun item => item.modality = .ok b.vision.name) = items :=
    List.filter_eq_self.mpr fun item hitem => decide_eq_true (hall item hitem)
  refine ⟨items, hitems, hall, ?_⟩
  rw [← hself, hfilter]
  split_ifs with hnil
  · have hgrids : b.grids = [] := by
      by_contra hne
      have hmem : (b.gridKey, MultiModalFieldConfig.batched b.vision.name) ∈
          fieldsOf b.parts b.config b.vision.name := by
        rw [fieldsOf, List.mem_filter]
        refine ⟨(Dict.mem_entries _ _ _).mpr b.config_grid, ?_⟩
        rw [parts_grid]
        cases hg : b.grids with
        | nil => exact absurd hg hne
        | cons g grids => simp [MultiModalFieldConfig.batched]
      rw [hnil] at hmem
      cases hmem
    rw [hgrids]
    rfl
  · rfl

theorem filterMap_range {γ : Type} (l : List γ) : (List.range l.length).filterMap (l[·]?) = l := by
  induction l with
  | nil => rfl
  | cons x l ih =>
    rw [List.length_cons, List.range_succ_eq_map, List.filterMap_cons, List.filterMap_map]
    simpa [Function.comp_def] using ih

/-- The elements of all items under a key are those of its field. -/
theorem elemsAt_items (key : String) :
    elemsAt key ((List.range b.grids.length).map (itemAt b.parts b.config b.vision.name)) =
      match b.config.get? key with
      | some c => elemsOfParts key c (b.parts key)
      | none => [] := by
  rw [elemsAt, List.filterMap_map]
  simp only [Function.comp_def, get?_itemAt]
  cases hc : b.config.get? key with
  | none => simp
  | some c =>
    simp only [Option.bind_some]
    by_cases hnil : b.parts key = []
    · simp [hnil, elemsOfParts]
    · obtain ⟨hm, hlen⟩ := (b.hasParts hc).2 hnil
      simp only [hm, if_true]
      have hlen' : b.grids.length = (elemsOfParts key c (b.parts key)).length := by
        rw [elemsOfParts, List.length_map, hlen]
      rw [hlen', filterMap_range]

/-- There are as many patches as rows at least. -/
theorem sum_tokens_le : b.tokens.sum ≤ b.patches.sum := by
  rw [tokens, patches]
  exact List.sum_le_sum fun g _ => Nat.div_le_self _ _

/-- **The fields** are merged to what was passed. -/
theorem mergesTo_field {key : String} {c : MultiModalFieldConfig} (hc : b.config.get? key = some c)
    (hne : b.parts key ≠ []) : MergesTo (elemsOfParts key c (b.parts key))
      (if key = b.gridKey then .tensor (Grid.tensor b.grids) else .tensor b.embeds) := by
  have hne' : elemsOfParts key c (b.parts key) ≠ [] := fun h => hne (List.map_eq_nil_iff.mp h)
  have htype : ∀ e ∈ elemsOfParts key c (b.parts key), e.field.type = c.field.type := by
    intro e he
    obtain ⟨part, -, rfl⟩ := List.mem_map.mp he
    rfl
  have hdata : (elemsOfParts key c (b.parts key)).map (·.data) = b.parts key := by
    rw [elemsOfParts, List.map_map]
    exact List.map_id _
  apply mergesTo_of_type c.field hne' htype
  rw [hdata]
  by_cases hgrid : key = b.gridKey
  · rw [hgrid, b.config_grid] at hc
    cases hc
    rw [if_pos hgrid, hgrid, parts_grid]
    rw [hgrid, parts_grid] at hne
    have hrows : b.grids.map Grid.row ≠ ([] : List (Tensor (Scalar β))) := by
      intro h
      rw [List.map_eq_nil_iff] at h
      exact hne (by rw [h]; rfl)
    show Except.ok (reduceBatched (b.grids.map (NestedTensors.tensor ∘ Grid.row))) = _
    rw [← List.map_map]
    exact congrArg Except.ok (reduceBatched_stack hrows _)
  · have hembeds : key = b.embedsKey := by
      by_contra h
      exact hne (by rw [parts, if_neg hgrid, if_neg h])
    rw [hembeds, b.config_embeds] at hc
    cases hc
    rw [if_neg hgrid, hembeds, parts_embeds]
    rw [hembeds, parts_embeds] at hne
    have hcover : b.tokens.sum ≤ 0 + b.patches.sum := by
      rw [Nat.zero_add]
      exact b.sum_tokens_le
    obtain ⟨hshapes, hsum, hflat⟩ := Tensor.splitFrom_cover b.shape b.ndim_pos b.patches 0 hcover
    show reduceFlat _ = _
    rw [reduceFlat_concat (fun h => hne (by rw [h]; rfl)) hshapes]
    refine congrArg (fun u => Except.ok (NestedTensors.tensor u)) (Tensor.ext_of ?_ ?_)
    · show _ :: _ = _
      rw [hsum, b.shape]
      rfl
    · show List.flatten _ = _
      rw [hflat, Nat.zero_mul, List.drop_zero]

/-- **The keyword arguments**: an item is cut out of the matrix by patches, and has its row of the grids; all
items together are merged to what was passed. -/
theorem kwargs_spec : ∃ kwargs, passthroughKwargs b.hfOutputs b.items = .ok kwargs ∧
    (kwargs.itemsOf b.vision.name).length = b.grids.length ∧
    (∀ i g, b.grids[i]? = some g → ∃ item, kwargs.getItem b.vision.name i = .ok item ∧
      (item.get? b.embedsKey).map (·.data) = some (.tensor (b.patchRows i)) ∧
      (item.get? b.gridKey).map (·.data) = some (.tensor g.row)) ∧
    (b.grids ≠ [] → kwargs.data.get? b.embedsKey = some (.tensor b.embeds) ∧
      kwargs.data.get? b.gridKey = some (.tensor (Grid.tensor b.grids))) := by
  obtain ⟨items, hitems, hmod, rfl⟩ := b.items_spec
  have hmerged : ∀ key, elemsAt key ((List.range b.grids.length).map
      (itemAt b.parts b.config b.vision.name)) ≠ [] →
      MergesTo (elemsAt key ((List.range b.grids.length).map (itemAt b.parts b.config b.vision.name)))
        (if key = b.gridKey then .tensor (Grid.tensor b.grids) else .tensor b.embeds) := by
    intro key hne
    rw [b.elemsAt_items] at hne ⊢
    cases hc : b.config.get? key with
    | none =>
      rw [hc] at hne
      exact absurd rfl hne
    | some c =>
      rw [hc] at hne
      exact b.mergesTo_field hc fun h => hne (by rw [h]; rfl)
  obtain ⟨kwargs, hfrom, hof, hdata⟩ := fromItems_spec (fun item hitem => ⟨_, hmod item hitem⟩) hmerged
  have hof' : kwargs.itemsOf b.vision.name =
      (List.range b.grids.length).map (itemAt b.parts b.config b.vision.name) := by
    rw [hof]
    exact List.filter_eq_self.mpr fun item hitem => decide_eq_true (hmod item hitem)
  refine ⟨kwargs, ?_, ?_, ?_, ?_⟩
  · show (do
      let config ← getMmFieldsConfig b.processed
      fromHfInputs b.processed config) = _
    rw [b.config_spec, ok_bind, fromHfInputs, hitems, ok_bind, hfrom]
  · rw [hof', List.length_map, List.length_range]
  · intro i g hg
    have hlt := (List.getElem?_eq_some_iff.mp hg).1
    refine ⟨itemAt b.parts b.config b.vision.name i, getItem_eq_ok ?_, ?_, ?_⟩
    · rw [hof', List.getElem?_map, List.getElem?_range hlt]
      rfl
    · have hlt' : i < b.patches.length := by
        rw [patches, List.length_map]
        exact hlt
      have hm : (MultiModalFieldConfig.flatFromSizes b.vision.name b.patches 0).modality = b.vision.name := rfl
      rw [get?_itemAt, b.config_embeds, Option.bind_some, if_pos hm, getElem?_elemsOfParts, parts_embeds,
        List.getElem?_map, Tensor.getElem?_splitFrom, if_pos hlt', Nat.zero_add, Nat.zero_add]
      rfl
    · have hm : (MultiModalFieldConfig.batched b.vision.name).modality = b.vision.name := rfl
      rw [get?_itemAt, b.config_grid, Option.bind_some, if_pos hm, getElem?_elemsOfParts, parts_grid,
        List.getElem?_map, hg]
      rfl
  · intro hne
    have hembeds : elemsAt b.embedsKey ((List.range b.grids.length).map
        (itemAt b.parts b.config b.vision.name)) ≠ [] := by
      rw [b.elemsAt_items, b.config_embeds]
      show elemsOfParts _ _ _ ≠ []
      rw [elemsOfParts, parts_embeds]
      intro h
      have hlen := congrArg List.length h
      rw [List.length_map, List.length_map, Tensor.length_splitFrom, patches, List.length_map] at hlen
      exact hne (List.eq_nil_of_length_eq_zero hlen)
    have hgrids : elemsAt b.gridKey ((List.range b.grids.length).map
        (itemAt b.parts b.config b.vision.name)) ≠ [] := by
      rw [b.elemsAt_items, b.config_grid]
      show elemsOfParts _ _ _ ≠ []
      rw [elemsOfParts, parts_grid]
      intro h
      have hlen := congrArg List.length h
      rw [List.length_map, List.length_map] at hlen
      exact hne (List.eq_nil_of_length_eq_zero hlen)
    rw [hdata, hdata, if_neg hembeds, if_neg hgrids, if_neg b.embedsKey_ne, if_pos rfl]
    exact ⟨rfl, rfl⟩

/-! ## Rows by patches and by tokens -/

/-- A slice does not reach beyond the end. -/
theorem sliceDim_min {t : Tensor (Scalar β)} {n : ℕ} {rest : List ℕ} (hshape : t.shape = n :: rest)
    (start stop : ℕ) (h : 0 < t.shape.length) :
    t.sliceDim 0 start (min stop n) h = t.sliceDim 0 start stop h := by
  obtain ⟨hs, hd⟩ := Tensor.sliceDim_zero hshape start (min stop n) h
  obtain ⟨hs', hd'⟩ := Tensor.sliceDim_zero hshape start stop h
  refine Tensor.ext_of ?_ ?_
  · rw [hs, hs', min_assoc, min_self]
  · rw [hd, hd', slice, slice]
    have hlen : (t.data.drop (start * rest.prod)).length = (n - start) * rest.prod := by
      rw [List.length_drop, t.length_data, hshape, List.prod_cons, Nat.sub_mul]
    rcases Nat.le_total stop n with hle | hle
    · rw [Nat.min_eq_left hle]
    · rw [Nat.min_eq_right hle, ← Nat.sub_mul, ← Nat.sub_mul, List.take_of_length_le hlen.le,
        List.take_of_length_le]
      rw [hlen]
      exact Nat.mul_le_mul_right _ (Nat.sub_le_sub_right hle start)

theorem sq_dvd_patches {g : Grid} (hg : g ∈ b.grids) : b.mergeSize ^ 2 ∣ g.patches := by
  obtain ⟨hh, hw⟩ := b.dvd g hg
  rw [Grid.patches, Nat.mul_assoc, pow_two]
  exact (Nat.mul_dvd_mul hh hw).mul_left g.t

theorem tokens_pos {g : Grid} (hg : g ∈ b.grids) (hne : g.patches ≠ 0) : 0 < g.patches / b.mergeSize ^ 2 :=
  Nat.div_pos (Nat.le_of_dvd (Nat.pos_of_ne_zero hne) (b.sq_dvd_patches hg)) (pow_pos b.pos 2)

theorem tokens_of_one (hm : b.mergeSize = 1) : b.tokens = b.patches := by
  rw [tokens, patches]
  refine List.map_congr_left fun g _ => ?_
  rw [hm, one_pow, Nat.div_one]

/-- Counting patches is right where a patch is a token, and for a single item. -/
theorem patchRows_eq (h : b.mergeSize = 1 ∨ b.grids.length ≤ 1) {i : ℕ} (hi : i < b.grids.length) :
    b.patchRows i = b.rows i := by
  rcases h with hm | hone
  · rw [patchRows, rows, b.tokens_of_one hm]
  · obtain ⟨g, hg⟩ : ∃ g, b.grids = [g] := List.length_eq_one_iff.mp (by omega)
    have hi0 : i = 0 := by
      rw [hg] at hi
      exact Nat.lt_one_iff.mp hi
    have hsum : (b.grids.map fun g => g.patches / b.mergeSize ^ 2).sum = g.patches / b.mergeSize ^ 2 := by
      rw [hg]
      simp
    have hshape := b.shape
    rw [hsum] at hshape
    have hle : g.patches / b.mergeSize ^ 2 ≤ g.patches := Nat.div_le_self _ _
    subst hi0
    have hpatch : (b.patches.take 1).sum = g.patches := by
      rw [patches, hg]
      simp
    have htoken : (b.tokens.take 1).sum = g.patches / b.mergeSize ^ 2 := by
      rw [tokens, hg]
      simp
    show b.embeds.sliceDim 0 0 (b.patches.take 1).sum b.ndim_pos = b.embeds.sliceDim 0 0 (b.tokens.take 1).sum
      b.ndim_pos
    rw [hpatch, htoken, ← sliceDim_min hshape 0 g.patches, Nat.min_eq_right hle]

/-- Otherwise the first item gets rows of others. -/
theorem patchRows_zero_ne (hpos : ∀ g ∈ b.grids, g.patches ≠ 0) (hm : b.mergeSize ≠ 1)
    (hmany : 1 < b.grids.length) : b.patchRows 0 ≠ b.rows 0 := by
  intro heq
  obtain ⟨g, g', grids, hg⟩ : ∃ g g' grids, b.grids = g :: g' :: grids := by
    cases h : b.grids with
    | nil =>
      rw [h] at hmany
      cases hmany
    | cons g rest =>
      cases rest with
      | nil =>
        rw [h] at hmany
        exact absurd hmany (Nat.lt_irrefl 1)
      | cons g' grids => exact ⟨g, g', grids, rfl⟩
  have hmem : g ∈ b.grids := by rw [hg]; exact List.mem_cons_self
  have hmem' : g' ∈ b.grids := by rw [hg]; exact List.mem_cons_of_mem _ List.mem_cons_self
  have hp := b.tokens_pos hmem (hpos g hmem)
  have hp' := b.tokens_pos hmem' (hpos g' hmem')
  have hlt : g.patches / b.mergeSize ^ 2 < g.patches := by
    refine Nat.div_lt_self (Nat.pos_of_ne_zero (hpos g hmem)) ?_
    exact Nat.one_lt_pow two_ne_zero (lt_of_le_of_ne b.pos (Ne.symm hm))
  have hshapes := congrArg (fun t : Tensor (Scalar β) => t.shape.headD 0) heq
  have hfirst := (Tensor.sliceDim_zero b.shape (b.patches.take 0).sum (b.patches.take 1).sum b.ndim_pos).1
  have hfirst' := (Tensor.sliceDim_zero b.shape (b.tokens.take 0).sum (b.tokens.take 1).sum b.ndim_pos).1
  simp only [patchRows, rows, Nat.zero_add, hfirst, hfirst', List.headD_cons] at hshapes
  have hpatch : (b.patches.take 1).sum = g.patches := by
    rw [patches, hg]
    simp
  have htoken : (b.tokens.take 1).sum = g.patches / b.mergeSize ^ 2 := by
    rw [tokens, hg]
    simp
  rw [hpatch, htoken, hg] at hshapes
  simp only [List.take_zero, List.sum_nil, Nat.sub_zero, List.map_cons, List.sum_cons] at hshapes
  omega

/-! ## What is claimed -/

/-- An item holds its rows of the matrix, and its row of the grids. -/
def HoldsItem (i : ℕ) (g : Grid) (embeds gridThw : Tensor (Scalar β)) : Prop :=
  embeds = b.rows i ∧ gridThw.data = (g.row : Tensor (Scalar β)).data

/-- So do the items of the parsed data. -/
def ParsedPerItem : Prop :=
  ∃ items, Qwen2VLEmbeddingItems.init b.data b.vision.name = .ok items ∧ ∀ i g, b.grids[i]? = some g →
    ∃ d embeds gridThw, items.get i = .ok d ∧ d.get? b.embedsKey = some embeds ∧
      d.get? b.gridKey = some gridThw ∧ b.HoldsItem i g embeds gridThw

/-- Those of the keyword arguments. -/
def KwargsPerItem : Prop :=
  ∃ items kwargs, Qwen2VLEmbeddingItems.init b.data b.vision.name = .ok items ∧
    passthroughKwargs b.hfOutputs items = .ok kwargs ∧
    (kwargs.itemsOf b.vision.name).length = b.grids.length ∧ ∀ i g, b.grids[i]? = some g →
    ∃ item embeds gridThw, kwargs.getItem b.vision.name i = .ok item ∧
      (item.get? b.embedsKey).map (·.data) = some (.tensor embeds) ∧
      (item.get? b.gridKey).map (·.data) = some (.tensor gridThw) ∧ b.HoldsItem i g embeds gridThw

/-- The replacement of an item has a placeholder for each of its tokens. -/
def ReplacedPerItem (placeholder : ℕ) : Prop :=
  ∃ items kwargs, Qwen2VLEmbeddingItems.init b.data b.vision.name = .ok items ∧
    passthroughKwargs b.hfOutputs items = .ok kwargs ∧ ∀ i g, b.grids[i]? = some g →
    getReplacementQwen2vl kwargs b.mergeSize placeholder i b.vision.name =
      .ok (List.replicate (g.patches / b.mergeSize ^ 2) placeholder)

/-- The model splits the data of all items into their rows, also those of a batch of one request. -/
def SplitPerItem : Prop :=
  ∃ items kwargs, Qwen2VLEmbeddingItems.init b.data b.vision.name = .ok items ∧
    passthroughKwargs b.hfOutputs items = .ok kwargs ∧ (b.grids ≠ [] → ∃ embeds gridThw,
      kwargs.data.get? b.embedsKey = some (.tensor embeds) ∧
      kwargs.data.get? b.gridKey = some (.tensor gridThw) ∧
      visionEmbeddings b.mergeSize embeds gridThw b.vision.name =
        .ok ((List.range b.grids.length).map b.rows) ∧
      visionEmbeddings b.mergeSize embeds.unsqueeze0 gridThw.unsqueeze0 b.vision.name =
        .ok ((List.range b.grids.length).map b.rows))

/-- Items with different embeddings are hashed from different data. -/
def HashedApart : Prop :=
  ∀ items i j d d', Qwen2VLEmbeddingItems.init b.data b.vision.name = .ok items → i < b.grids.length →
    j < b.grids.length → items.get i = .ok d → items.get j = .ok d' → b.rows i ≠ b.rows j → d ≠ d'

/-- All grids but the last are of one patch, and the last is not empty. -/
def UnitGrids : Prop :=
  ∀ i g, b.grids[i]? = some g → g.patches ≠ 0 ∧ (i + 1 < b.grids.length → g.patches = 1)

/-! ## What holds of all inputs -/

theorem replacedPerItem (placeholder : ℕ) : b.ReplacedPerItem placeholder := by
  obtain ⟨kwargs, hk, -, -, hdata⟩ := b.kwargs_spec
  refine ⟨b.items, kwargs, b.init_spec, hk, fun i g hg => ?_⟩
  have hne : b.grids ≠ [] := by
    rintro h
    rw [h] at hg
    cases hg
  have hgrid : kwargs.data.get? (b.vision.name ++ "_grid_thw") = some (.tensor (Grid.tensor b.grids)) :=
    (hdata hne).2
  have hrow : ((b.grids.map Grid.row).map NestedTensors.tensor)[i]? =
      some (.tensor (g.row : Tensor (Scalar β))) := by
    rw [List.getElem?_map, List.getElem?_map, hg]
    rfl
  rw [getReplacementQwen2vl, hgrid, ofOption_some, ok_bind, NestedTensors.iter, rows?_grid, ofOption_some]
  show (do
    let gridThw ← ofOption _ ((b.grids.map Grid.row).map NestedTensors.tensor)[i]?
    _) = _
  rw [hrow, ofOption_some, ok_bind, NestedTensors.tensor?, ofOption_some, ok_bind, ints_row, ofOption_some,
    ok_bind, prod_row]

theorem split?_tokens : b.embeds.split? (b.patches.map fun size => size / b.mergeSize / b.mergeSize) =
    some ((List.range b.grids.length).map b.rows) := by
  have hsizes : (b.patches.map fun size => size / b.mergeSize / b.mergeSize) = b.tokens := by
    rw [patches, tokens, List.map_map]
    refine List.map_congr_left fun g _ => ?_
    rw [pow_two, ← Nat.div_div_eq_div_mul]
    rfl
  have hdim := b.ndim_pos
  have hfirst : b.embeds.shape[0] = b.tokens.sum := by
    simp only [b.shape, tokens, List.getElem_cons_zero]
  have hlen : b.tokens.length = b.grids.length := by rw [tokens, List.length_map]
  rw [hsizes, Tensor.split?, dif_pos b.ndim_pos, if_pos hfirst.symm]
  congr 1
  refine List.ext_getElem? fun i => ?_
  rw [Tensor.getElem?_splitFrom, hlen, List.getElem?_map]
  split_ifs with hi
  · rw [List.getElem?_range hi, Nat.zero_add, Nat.zero_add]
    rfl
  · rw [List.getElem?_eq_none (by rw [List.length_range]; exact Nat.le_of_not_lt hi)]
    rfl

theorem processVisionInput_spec : processVisionInput b.mergeSize b.embeds (Grid.tensor b.grids) =
    .ok ((List.range b.grids.length).map b.rows) := by
  have hdim : (Grid.tensor b.grids : Tensor (Scalar β)).shape.length = 2 := rfl
  have hsplit := b.split?_tokens
  rw [patches] at hsplit
  rw [processVisionInput, assert_of hdim, ok_bind, prodLast_grid, ok_bind, hsplit, ofOption_some]

/-- A matrix stays what it is, also in a batch of one. -/
theorem validate_matrix {t : Tensor (Scalar β)} {n k : ℕ} (h : t.shape = [n, k]) (name : String) :
    validateAndReshapeMmTensor t name = .ok (.tensor t) ∧
      validateAndReshapeMmTensor t.unsqueeze0 name = .ok (.tensor t) := by
  have hlen : t.shape.length = 2 := by rw [h]; rfl
  constructor
  · rw [validateAndReshapeMmTensor, if_pos hlen]
  · have hlen' : t.unsqueeze0.shape.length = 3 := congrArg (· + 1) hlen
    have hone : ∀ u ∈ [t], u.shape = u.shape.headD 0 :: t.shape.tail := by
      intro u hu
      rw [List.mem_singleton.mp hu, h]
      rfl
    rw [validateAndReshapeMmTensor, if_neg (by rw [hlen']; decide), if_neg (by rw [hlen']; decide),
      Tensor.rows?_unsqueeze0]
    show concatBatch t [] = _
    rw [concatBatch, dif_pos hone]
    refine congrArg (fun u => Except.ok (NestedTensors.tensor u)) (Tensor.ext_of ?_ ?_)
    · show [t.shape.headD 0].sum :: t.shape.tail = t.shape
      simp [h]
    · exact List.append_nil _

theorem splitPerItem : b.SplitPerItem := by
  obtain ⟨kwargs, hk, -, -, hdata⟩ := b.kwargs_spec
  refine ⟨b.items, kwargs, b.init_spec, hk, fun hne => ?_⟩
  have hgrid : (Grid.tensor b.grids : Tensor (Scalar β)).shape =
      [(b.grids.map (Grid.row : Grid → Tensor (Scalar β))).length, 3] := rfl
  refine ⟨b.embeds, Grid.tensor b.grids, (hdata hne).1, (hdata hne).2, ?_, ?_⟩
  · rw [visionEmbeddings, (validate_matrix b.shape _).1, ok_bind, (validate_matrix hgrid _).1, ok_bind]
    exact b.processVisionInput_spec
  · rw [visionEmbeddings, (validate_matrix b.shape _).2, ok_bind, (validate_matrix hgrid _).2, ok_bind]
    exact b.processVisionInput_spec

/-! ## When items are split as claimed -/

theorem kwargsPerItem_iff_rows : b.KwargsPerItem ↔ ∀ i < b.grids.length, b.patchRows i = b.rows i := by
  obtain ⟨kwargs, hk, hlen, hitems, -⟩ := b.kwargs_spec
  constructor
  · rintro ⟨items, kwargs', hinit, hk', -, hall⟩ i hi
    rw [b.init_spec] at hinit
    cases hinit
    rw [hk] at hk'
    cases hk'
    obtain ⟨item, embeds, gridThw, hget, hembeds, -, hrows, -⟩ := hall i _ (List.getElem?_eq_getElem hi)
    obtain ⟨item', hget', hembeds', -⟩ := hitems i _ (List.getElem?_eq_getElem hi)
    rw [hget] at hget'
    cases hget'
    rw [hembeds] at hembeds'
    cases hembeds'
    exact hrows
  · intro h
    refine ⟨b.items, kwargs, b.init_spec, hk, hlen, fun i g hg => ?_⟩
    obtain ⟨item, hget, hembeds, hgrid⟩ := hitems i g hg
    exact ⟨item, _, _, hget, hembeds, hgrid, h i (List.getElem?_eq_some_iff.mp hg).1, rfl⟩

/-- **The keyword arguments** are right for a single item, or without merging. -/
theorem kwargsPerItem_iff (hpos : ∀ g ∈ b.grids, g.patches ≠ 0) :
    b.KwargsPerItem ↔ b.mergeSize = 1 ∨ b.grids.length ≤ 1 := by
  rw [b.kwargsPerItem_iff_rows]
  constructor
  · intro h
    by_contra hnot
    rw [not_or, not_le] at hnot
    exact b.patchRows_zero_ne hpos hnot.1 hnot.2 (h 0 (Nat.lt_of_succ_lt hnot.2))
  · exact fun h i hi => b.patchRows_eq h hi

theorem parsedPerItem_iff_rows : b.ParsedPerItem ↔ ∀ i g, b.grids[i]? = some g →
    b.HoldsItem i g (b.patchRows i) (b.patchGrids i) := by
  constructor
  · rintro ⟨items, hinit, hall⟩ i g hg
    rw [b.init_spec] at hinit
    cases hinit
    obtain ⟨d, embeds, gridThw, hget, hembeds, hgrid, hholds⟩ := hall i g hg
    obtain ⟨d', hget', hembeds', hgrid'⟩ := b.get_spec (List.getElem?_eq_some_iff.mp hg).1
    rw [hget] at hget'
    cases hget'
    rw [hembeds] at hembeds'
    cases hembeds'
    rw [hgrid] at hgrid'
    cases hgrid'
    exact hholds
  · intro h
    refine ⟨b.items, b.init_spec, fun i g hg => ?_⟩
    obtain ⟨d, hget, hembeds, hgrid⟩ := b.get_spec (List.getElem?_eq_some_iff.mp hg).1
    exact ⟨d, _, _, hget, hembeds, hgrid, h i g hg⟩

/-- The rows of the grids that are cut out. -/
theorem data_patchGrids (i : ℕ) : (b.patchGrids i).data = (slice ((b.grids.map Grid.row).map
    (Tensor.data (α := Scalar β))) (b.patches.take i).sum (b.patches.take (i + 1)).sum).flatten := by
  have hshape : (Grid.tensor b.grids : Tensor (Scalar β)).shape =
      [(b.grids.map (Grid.row : Grid → Tensor (Scalar β))).length, 3] := rfl
  rw [patchGrids, (Tensor.sliceDim_zero hshape _ _ _).2]
  refine slice_flatten (c := [3].prod) _ _ fun l hl => ?_
  obtain ⟨u, hu, rfl⟩ := List.mem_map.mp hl
  obtain ⟨g, -, rfl⟩ := List.mem_map.mp hu
  rfl

theorem sum_take_patches {i : ℕ} {g : Grid} (hg : b.grids[i]? = some g) :
    (b.patches.take (i + 1)).sum = (b.patches.take i).sum + g.patches := by
  have hsize : b.patches[i]? = some g.patches := by
    rw [patches, List.getElem?_map, hg]
    rfl
  rw [List.take_add_one, hsize, List.sum_append]
  simp

theorem sum_take_of_unitGrids (hunit : b.UnitGrids) {i : ℕ} (hi : i < b.grids.length) :
    (b.patches.take i).sum = i := by
  induction i with
  | zero => rfl
  | succ i ih =>
    have hlt := Nat.lt_of_succ_lt hi
    have hg := List.getElem?_eq_getElem hlt
    rw [b.sum_take_patches hg, ih hlt, (hunit i _ hg).2 hi]

/-- The slices of the grids are single rows exactly for grids of one patch. -/
theorem unitGrids_iff : b.UnitGrids ↔ ∀ i < b.grids.length,
    min (b.patches.take (i + 1)).sum b.grids.length - (b.patches.take i).sum = 1 := by
  constructor
  · intro hunit i hi
    have hg := List.getElem?_eq_getElem hi
    obtain ⟨hne, hone⟩ := hunit i _ hg
    rw [b.sum_take_patches hg, b.sum_take_of_unitGrids hunit hi]
    rcases Nat.lt_or_ge (i + 1) b.grids.length with hlt | hge
    · have hlast := hone hlt
      omega
    · omega
  · intro hrow
    have hstart : ∀ i, i < b.grids.length → (b.patches.take i).sum = i := by
      intro i
      induction i with
      | zero => exact fun _ => rfl
      | succ i ih =>
        intro hi
        have hlt := Nat.lt_of_succ_lt hi
        have hprev := hrow i hlt
        rw [ih hlt] at hprev
        omega
    intro i g hg
    have hi := (List.getElem?_eq_some_iff.mp hg).1
    have hthis := hrow i hi
    rw [b.sum_take_patches hg, hstart i hi] at hthis
    constructor <;> omega

/-- A slice of one element. -/
theorem slice_one {γ : Type} {l : List γ} {x : γ} {start stop : ℕ} (hx : l[start]? = some x)
    (h : min stop l.length - start = 1) : slice l start stop = [x] := by
  obtain ⟨hlt, rfl⟩ := List.getElem?_eq_some_iff.mp hx
  rw [slice, List.drop_eq_getElem_cons hlt]
  obtain ⟨k, hk⟩ : ∃ k, stop - start = k + 1 := ⟨stop - start - 1, by omega⟩
  rw [hk, List.take_succ_cons]
  congr 1
  rw [List.take_eq_nil_iff, List.drop_eq_nil_iff]
  omega

/-- Where no item but the last has several patches, merging changes nothing. -/
theorem mergeSize_of_unitGrids (hunit : b.UnitGrids) : b.mergeSize = 1 ∨ b.grids.length ≤ 1 := by
  by_contra hnot
  rw [not_or, not_le] at hnot
  have hlt := Nat.lt_of_succ_lt hnot.2
  have hg := List.getElem?_eq_getElem hlt
  have hone := (hunit 0 _ hg).2 hnot.2
  have hh : b.grids[0].h = 1 := by
    rw [Grid.patches] at hone
    exact Nat.eq_one_of_mul_eq_one_left (Nat.eq_one_of_mul_eq_one_right hone)
  have hdvd := (b.dvd _ (List.mem_of_getElem? hg)).1
  rw [hh] at hdvd
  exact hnot.1 (Nat.dvd_one.mp hdvd)

/-- **The parsed data** are right for grids of one patch only. -/
theorem parsedPerItem_iff : b.ParsedPerItem ↔ b.UnitGrids := by
  have hshape : (Grid.tensor b.grids : Tensor (Scalar β)).shape = [b.grids.length, 3] := by
    show [(b.grids.map Grid.row).length, 3] = _
    rw [List.length_map]
  rw [b.parsedPerItem_iff_rows]
  constructor
  · intro h
    rw [b.unitGrids_iff]
    intro i hi
    have hdata := congrArg List.length (h i _ (List.getElem?_eq_getElem hi)).2
    have hlen : (b.patchGrids i).data.length =
        (min (b.patches.take (i + 1)).sum b.grids.length - (b.patches.take i).sum) * 3 := by
      rw [Tensor.length_data, patchGrids, (Tensor.sliceDim_zero hshape _ _ _).1]
      simp
    rw [hlen] at hdata
    exact Nat.eq_of_mul_eq_mul_right (Nat.succ_pos 2) (hdata.trans (Nat.one_mul 3).symm)
  · intro hunit i g hg
    have hi := (List.getElem?_eq_some_iff.mp hg).1
    have hone := b.unitGrids_iff.mp hunit i hi
    refine ⟨b.patchRows_eq (b.mergeSize_of_unitGrids hunit) hi, ?_⟩
    have hrow : ((b.grids.map Grid.row).map (Tensor.data (α := Scalar β)))[(b.patches.take i).sum]? =
        some (g.row : Tensor (Scalar β)).data := by
      rw [b.sum_take_of_unitGrids hunit hi, List.getElem?_map, List.getElem?_map, hg]
      rfl
    rw [b.data_patchGrids, slice_one hrow (by rw [List.length_map, List.length_map]; exact hone)]
    exact List.append_nil _

theorem hashedApart (h : b.ParsedPerItem) : b.HashedApart := by
  obtain ⟨items, hinit, hall⟩ := h
  intro items' i j d d' hinit' hi hj hd hd' hne heq
  rw [hinit] at hinit'
  cases hinit'
  obtain ⟨e, embeds, -, he, hembeds, -, hrows, -⟩ := hall i _ (List.getElem?_eq_getElem hi)
  obtain ⟨e', embeds', -, he', hembeds', -, hrows', -⟩ := hall j _ (List.getElem?_eq_getElem hj)
  rw [hd] at he
  rw [hd'] at he'
  cases he
  cases he'
  rw [heq, hembeds'] at hembeds
  exact hne (hrows.symm.trans ((Option.some.inj hembeds).symm.trans hrows'))

/-- **Embeddings are split per item** exactly if every grid but the last is of one patch, and the last has one
at least. The replacements and the split of a batch are right always; the keyword arguments are for a single
item, or without merging. -/
theorem split_per_item_iff (placeholder : ℕ) :
    (b.ParsedPerItem ∧ b.KwargsPerItem ∧ b.ReplacedPerItem placeholder ∧ b.SplitPerItem ∧ b.HashedApart ↔
      b.UnitGrids) ∧
    b.ReplacedPerItem placeholder ∧ b.SplitPerItem ∧
    ((∀ g ∈ b.grids, g.patches ≠ 0) → (b.KwargsPerItem ↔ b.mergeSize = 1 ∨ b.grids.length ≤ 1)) := by
  refine ⟨⟨fun h => b.parsedPerItem_iff.mp h.1, fun hunit => ?_⟩, b.replacedPerItem placeholder, b.splitPerItem,
    b.kwargsPerItem_iff⟩
  have hparsed := b.parsedPerItem_iff.mpr hunit
  have hkwargs : b.KwargsPerItem := b.kwargsPerItem_iff_rows.mpr fun i hi =>
    b.patchRows_eq (b.mergeSize_of_unitGrids hunit) hi
  exact ⟨hparsed, hkwargs, b.replacedPerItem placeholder, b.splitPerItem, b.hashedApart hparsed⟩

/-- Three images of two by two patches, which are merged to one row each. -/
def threeImages : Embeddings ℕ where
  vision := .image
  mergeSize := 2
  pos := Nat.succ_pos 1
  grids := [⟨1, 2, 2⟩, ⟨1, 2, 2⟩, ⟨1, 2, 2⟩]
  dvd := by decide
  hidden := 1
  embeds := ⟨[3, 1], [.float 10, .float 11, .float 12], rfl⟩
  shape := rfl
  hfOutputs := Dict.empty
  textOnly := fun _ _ => rfl

/-- The first of them gets all rows, and the others none: these two are hashed from the same data. -/
theorem three_images_not_split : ¬ (threeImages.ParsedPerItem ∧ threeImages.KwargsPerItem ∧
    threeImages.ReplacedPerItem 7 ∧ threeImages.SplitPerItem ∧ threeImages.HashedApart) ∧
    ¬ threeImages.KwargsPerItem ∧
    ∃ items d, Qwen2VLEmbeddingItems.init threeImages.data "image" = .ok items ∧ items.get 1 = .ok d ∧
      items.get 2 = .ok d ∧ threeImages.rows 1 ≠ threeImages.rows 2 := by
  have hkwargs : ¬ threeImages.KwargsPerItem := by
    rw [threeImages.kwargsPerItem_iff (by decide)]
    decide
  refine ⟨fun h => hkwargs h.2.1, hkwargs, threeImages.items, _, threeImages.init_spec, rfl, rfl, ?_⟩
  decide

end Embeddings

end SpaceServe.MultiModal
