import Mathlib.Algebra.Order.Floor.Defs
import Mathlib.Data.Rat.Floor
import SpaceServe.Lib.Segments
import SpaceServe.Request

/-!
# Positions for multimodal rotary embeddings

`MRotaryEmbedding` of `vllm/model_executor/layers/rotary_embedding.py`. A prompt is cut into segments of
text and the placeholders of images and videos; a token of text has one position, a placeholder one for
each of time, height and width. Times are products of floats, taken as exact rationals here.

* `MRopeColumn`, `getInputPositionsTensor`, `getNextInputPositionsTensor`;
* `Segment`, `Segment.column`: the positions a segment should get; `visionColumns_eq`;
* `layout`: segments one behind the other; **`layout_at`**;
* `nextBase`, `maxOf_append`: the maximum of the last segment is that of all.
-/

set_option autoImplicit false

namespace SpaceServe

open Py

/-- A column of a tensor of positions: time, height and width. -/
structure MRopeColumn where
  t : ℤ
  h : ℤ
  w : ℤ
deriving DecidableEq

namespace MRopeColumn

/-- The position of a token of text. -/
def text (q : ℤ) : MRopeColumn := ⟨q, q, q⟩

/-- The largest entry of a column. -/
def maxEntry (c : MRopeColumn) : ℤ := max c.t (max c.h c.w)

@[simp] theorem maxEntry_text (q : ℤ) : (text q).maxEntry = q := by simp [text, maxEntry]

end MRopeColumn

/-- `max()` of a tensor, `none` for an empty one. -/
def maxOf (cols : List MRopeColumn) : Option ℤ := (cols.map MRopeColumn.maxEntry).max?

/-- What the functions read of `hf_config`. -/
structure MRopeConfig where
  imageTokenId : TokenId
  videoTokenId : TokenId
  visionStartTokenId : TokenId
  spatialMergeSize : ℕ
  tokensPerSecond : ℚ := 1
  spatialMergeSize_pos : 0 < spatialMergeSize

/-- A row of `image_grid_thw` or `video_grid_thw`. -/
structure GridTHW where
  t : ℕ
  h : ℕ
  w : ℕ
deriving DecidableEq

/-- `.long()`. -/
def truncate (q : ℚ) : ℤ := if 0 ≤ q then ⌊q⌋ else ⌈q⌉

/-- The place that a bound of a slice stands for. -/
def sliceBound (n : ℕ) (i : ℤ) : ℕ := if i < 0 then (n + i).toNat else min i.toNat n

/-- `a[:, start:stop]`, with `none` for a bound that is not given. -/
def sliceColumns (cols : List MRopeColumn) (start : ℤ) (stop : Option ℤ) : List MRopeColumn :=
  (cols.take (stop.elim cols.length (sliceBound cols.length))).drop (sliceBound cols.length start)

/-- `l.index(x, start)`. -/
def indexFrom (l : List TokenId) (x : TokenId) (start : ℕ) : Except Exn ℕ :=
  if x ∈ l.drop start then .ok (start + (l.drop start).idxOf x)
  else .error (.valueError (toString x ++ " is not in list"))

/-- `torch.arange(n)` in three rows, from `base` on. -/
def textColumns (n : ℕ) (base : ℤ) : List MRopeColumn :=
  (List.range n).map fun k : ℕ => MRopeColumn.text (k + base)

namespace MRopeConfig

variable (cfg : MRopeConfig)

/-- The tokens behind the vision starts, in a list that ends at `n`. -/
def visionTokens (n : ℕ) : List TokenId → Except Exn (List TokenId)
  | [] => .ok []
  | x :: rest => do
    let found ← visionTokens n rest
    if x = cfg.visionStartTokenId then
      match rest with
      | [] => .error (.indexError ("index " ++ toString n ++
          " is out of bounds for dimension 0 with size " ++ toString n))
      | y :: _ => .ok (y :: found)
    else .ok found

/-- The number of tokens of a grid after merging. -/
def gridTokens (g : GridTHW) : ℕ := g.t * (g.h / cfg.spatialMergeSize) * (g.w / cfg.spatialMergeSize)

/-- `torch.stack([t_index, h_index, w_index]) + base`. -/
def visionColumns (g : GridTHW) (secondPerGridT : ℚ) (base : ℤ) : List MRopeColumn :=
  let llmGridH := g.h / cfg.spatialMergeSize
  let llmGridW := g.w / cfg.spatialMergeSize
  let tIndex := (List.range g.t).flatMap fun a : ℕ => (List.range (llmGridH * llmGridW)).map fun _ =>
    truncate ((a : ℚ) * secondPerGridT * cfg.tokensPerSecond)
  let hIndex := (List.range g.t).flatMap fun _ => (List.range llmGridH).flatMap fun b : ℕ =>
    (List.range llmGridW).map fun _ => (b : ℤ)
  let wIndex := (List.range g.t).flatMap fun _ => (List.range llmGridH).flatMap fun _ =>
    (List.range llmGridW).map fun c : ℕ => (c : ℤ)
  List.zipWith (fun a bc => ⟨a + base, bc.1 + base, bc.2 + base⟩) tIndex (hIndex.zip wIndex)

/-- The variables of the loop of `get_input_positions_tensor`. -/
structure Scan where
  st : ℕ
  imageIndex : ℕ
  videoIndex : ℕ
  remainImages : ℕ
  remainVideos : ℕ
  llmPosIdsList : List (List MRopeColumn)

/-- `max()` of no entries. -/
def emptyMaxError : Exn :=
  .runtimeError ("max(): Expected reduction dim to be specified for input.numel() == 0. " ++
    "Specify the reduction dim with the 'dim' argument.")

/-- `llm_pos_ids_list[-1].max() + 1 if len(llm_pos_ids_list) > 0 else 0`. -/
def stIdx (llmPosIdsList : List (List MRopeColumn)) : Except Exn ℤ :=
  match llmPosIdsList.getLast? with
  | none => .ok 0
  | some cols => do
    let m ← ofOption emptyMaxError (maxOf cols)
    .ok (m + 1)

variable (inputTokens : List TokenId) (imageGridThw videoGridThw : List GridTHW)
  (secondPerGridTs : Option (List ℚ))

/-- `ed_image` and `ed_video`: where the next item of a modality begins. -/
def nextIndex (tokenId : TokenId) (remain st : ℕ) : Except Exn ℕ :=
  if tokenId ∈ inputTokens ∧ 0 < remain then indexFrom inputTokens tokenId st
  else .ok (inputTokens.length + 1)

/-- `video_second_per_grid_t` of a video. -/
def videoSecondPerGridT (videoIndex : ℕ) : Except Exn ℚ :=
  match secondPerGridTs with
  | none => .ok 1
  | some seconds => ofOption (.indexError "list index out of range") seconds[videoIndex]?

/-- The item that the next round is about: its grid, its seconds, where it begins, and the counters. -/
def nextItem (s : Scan) : Except Exn (GridTHW × ℚ × ℕ × Scan) := do
  let edImage ← nextIndex inputTokens cfg.imageTokenId s.remainImages s.st
  let edVideo ← nextIndex inputTokens cfg.videoTokenId s.remainVideos s.st
  if edImage < edVideo then do
    let g ← ofOption (.indexError "list index out of range") imageGridThw[s.imageIndex]?
    .ok (g, 0, edImage,
      { s with imageIndex := s.imageIndex + 1, remainImages := s.remainImages - 1 })
  else do
    let g ← ofOption (.indexError "list index out of range") videoGridThw[s.videoIndex]?
    let second ← videoSecondPerGridT secondPerGridTs s.videoIndex
    .ok (g, second, edVideo,
      { s with videoIndex := s.videoIndex + 1, remainVideos := s.remainVideos - 1 })

/-- A round of the loop. -/
def scanItem (s : Scan) : Except Exn Scan := do
  let (g, second, ed, s) ← cfg.nextItem inputTokens imageGridThw videoGridThw secondPerGridTs s
  let textLen := ed - s.st
  let stIdx ← stIdx s.llmPosIdsList
  .ok { s with
    llmPosIdsList := s.llmPosIdsList ++
      [textColumns textLen stIdx, cfg.visionColumns g second (textLen + stIdx)]
    st := ed + cfg.gridTokens g }

/-- The text behind the last item. -/
def lastText (s : Scan) : Except Exn (List (List MRopeColumn)) :=
  if s.st < inputTokens.length then do
    let stIdx ← stIdx s.llmPosIdsList
    .ok (s.llmPosIdsList ++ [textColumns (inputTokens.length - s.st) stIdx])
  else .ok s.llmPosIdsList

/-- `get_input_positions_tensor`. -/
def getInputPositionsTensor (contextLen : ℤ) (seqLen : Option ℤ) :
    Except Exn (List MRopeColumn × ℤ) := do
  let visionTokens ← cfg.visionTokens inputTokens.length inputTokens
  let imageNums := visionTokens.count cfg.imageTokenId
  let videoNums := visionTokens.count cfg.videoTokenId
  let s ← (List.range (imageNums + videoNums)).foldlM
    (fun s _ => cfg.scanItem inputTokens imageGridThw videoGridThw secondPerGridTs s)
    ⟨0, 0, 0, imageNums, videoNums, []⟩
  let llmPosIdsList ← lastText inputTokens s
  if llmPosIdsList = [] then
    .error (.runtimeError "torch.cat(): expected a non-empty list of Tensors")
  else
    let llmPositions := llmPosIdsList.flatten
    let m ← ofOption emptyMaxError (maxOf llmPositions)
    .ok (sliceColumns llmPositions contextLen seqLen, m + 1 - inputTokens.length)

end MRopeConfig

/-- `get_next_input_positions_tensor`, from `context_len` to a `seq_len` that is not below it. -/
def getNextInputPositionsTensor (mropePositionDelta contextLen seqLen : ℤ) : List MRopeColumn :=
  (List.range (seqLen - contextLen).toNat).map fun k : ℕ =>
    MRopeColumn.text (mropePositionDelta + contextLen + k)

/-! ## Segments -/

/-- A segment of a prompt: text, or the placeholders of an item. -/
inductive Segment
  | text (n : ℕ)
  | vision (t h w : ℕ) (rate : ℚ)

namespace Segment

/-- The number of tokens of a segment. -/
def length : Segment → ℕ
  | text n => n
  | vision t h w _ => t * h * w

/-- The positions of token `k` of a segment that starts at `base`. -/
def column (base : ℤ) : Segment → ℕ → MRopeColumn
  | text _, k => MRopeColumn.text (base + k)
  | vision _ h w rate, k => ⟨base + truncate ((k / (h * w) : ℕ) * rate), base + (k / w % h : ℕ),
      base + (k % w : ℕ)⟩

/-- The positions of a segment that starts at `base`. -/
def columns (base : ℤ) (seg : Segment) : List MRopeColumn := (List.range seg.length).map (seg.column base)

theorem length_columns (base : ℤ) (seg : Segment) : (seg.columns base).length = seg.length := by
  rw [columns, List.length_map, List.length_range]

end Segment

/-- One behind the largest entry, zero when there is none. -/
def nextBase (cols : List MRopeColumn) : ℤ := (maxOf cols).elim 0 (· + 1)

/-- The positions of segments that follow `cols`: each begins behind all earlier positions. -/
def layout (cols : List MRopeColumn) : List Segment → List MRopeColumn
  | [] => cols
  | seg :: segs => layout (cols ++ seg.columns (nextBase cols)) segs

theorem layout_append (cols : List MRopeColumn) (segs segs' : List Segment) :
    layout cols (segs ++ segs') = layout (layout cols segs) segs' := by
  induction segs generalizing cols with
  | nil => rfl
  | cons seg segs ih => exact ih _

/-- Segments only add positions. -/
theorem prefix_layout (cols : List MRopeColumn) (segs : List Segment) : cols <+: layout cols segs := by
  induction segs generalizing cols with
  | nil => exact List.prefix_refl cols
  | cons seg segs ih => exact (List.prefix_append _ _).trans (ih _)

theorem length_layout (cols : List MRopeColumn) (segs : List Segment) :
    (layout cols segs).length = cols.length + (segs.map Segment.length).sum := by
  induction segs generalizing cols with
  | nil => simp [layout]
  | cons seg segs ih =>
    rw [layout, ih, List.length_append, Segment.length_columns, List.map_cons, List.sum_cons,
      Nat.add_assoc]

/-- **The positions of a layout**: token `k` of a segment gets the position that the segment gives it
from behind all earlier positions. -/
theorem layout_at {segs : List Segment} {j k : ℕ} {seg : Segment} (cols : List MRopeColumn)
    (hj : segs[j]? = some seg) (hk : k < seg.length) :
    (layout cols segs)[cols.length + offset (segs.map Segment.length) j + k]? =
      some (seg.column (nextBase ((layout cols segs).take
        (cols.length + offset (segs.map Segment.length) j))) k) := by
  induction segs generalizing cols j with
  | nil => cases hj
  | cons seg₀ segs ih =>
    cases j with
    | zero =>
      obtain rfl := Option.some.inj hj
      have hpre := prefix_layout (cols ++ seg₀.columns (nextBase cols)) segs
      have htake : (layout cols (seg₀ :: segs)).take cols.length = cols := by
        obtain ⟨rest, hrest⟩ := hpre
        rw [layout, ← hrest, List.append_assoc, List.take_left]
      rw [offset_zero, Nat.add_zero, htake, layout]
      have hlen : cols.length + k < (cols ++ seg₀.columns (nextBase cols)).length := by
        rw [List.length_append, Segment.length_columns]
        omega
      rw [List.prefix_iff_getElem?.mp hpre _ hlen, List.getElem_append_right (Nat.le_add_right _ _)]
      simp [Segment.columns]
    | succ j =>
      have hoff : cols.length + offset ((seg₀ :: segs).map Segment.length) (j + 1) =
          (cols ++ seg₀.columns (nextBase cols)).length + offset (segs.map Segment.length) j := by
        rw [List.map_cons, offset_cons_succ, List.length_append, Segment.length_columns, Nat.add_assoc]
      rw [hoff, layout]
      exact ih _ hj

/-! ## The positions of one segment -/

/-- Two nested ranges in one. -/
theorem flatMap_range_map {α : Type} (n m : ℕ) (f : ℕ → ℕ → α) :
    (List.range n).flatMap (fun a => (List.range m).map (f a)) =
      (List.range (n * m)).map fun k => f (k / m) (k % m) := by
  induction n with
  | zero => simp
  | succ n ih =>
    rw [List.range_succ, List.flatMap_append, ih, Nat.succ_mul, List.range_add, List.map_append,
      List.map_map, List.flatMap_singleton]
    refine congrArg _ (List.map_congr_left fun k hk => ?_)
    rw [List.mem_range] at hk
    have hm : 0 < m := Nat.lt_of_le_of_lt (Nat.zero_le k) hk
    rw [Function.comp_apply, Nat.add_comm, Nat.add_mul_div_right _ _ hm, Nat.add_mul_mod_self_right,
      Nat.div_eq_of_lt hk, Nat.mod_eq_of_lt hk, Nat.zero_add]

theorem textColumns_eq (n : ℕ) (base : ℤ) : textColumns n base = (Segment.text n).columns base := by
  refine List.map_congr_left fun k _ => ?_
  rw [Segment.column, add_comm]

/-- **The stacked indices** are the coordinates in row-major order. -/
theorem MRopeConfig.visionColumns_eq (cfg : MRopeConfig) (g : GridTHW) (second : ℚ) (base : ℤ) :
    cfg.visionColumns g second base = (Segment.vision g.t (g.h / cfg.spatialMergeSize)
      (g.w / cfg.spatialMergeSize) (second * cfg.tokensPerSecond)).columns base := by
  unfold MRopeConfig.visionColumns
  simp only [flatMap_range_map, List.zip_eq_zipWith, List.zipWith_map, List.zipWith_self,
    Segment.columns, Segment.length, Nat.mul_assoc]
  refine List.map_congr_left fun k _ => ?_
  rw [Segment.column, Nat.mul_comm (g.h / _), Nat.mod_mul_right_div_self, Nat.mod_mul_right_mod, mul_assoc]
  simp only [add_comm]

/-! ## Behind the largest entry -/

theorem maxOf_eq {cols : List MRopeColumn} {m : ℤ} (hle : ∀ c ∈ cols, c.maxEntry ≤ m)
    (hmem : ∃ c ∈ cols, c.maxEntry = m) : maxOf cols = some m := by
  rw [maxOf, List.max?_eq_some_iff]
  obtain ⟨c, hc, rfl⟩ := hmem
  refine ⟨List.mem_map_of_mem hc, fun x hx => ?_⟩
  obtain ⟨c', hc', rfl⟩ := List.mem_map.mp hx
  exact hle c' hc'

theorem exists_maxOf {cols : List MRopeColumn} (hne : cols ≠ []) : ∃ m, maxOf cols = some m ∧
    (∀ c ∈ cols, c.maxEntry ≤ m) ∧ ∃ c ∈ cols, c.maxEntry = m := by
  obtain ⟨m, hm⟩ : ∃ m, maxOf cols = some m := by
    rw [← Option.isSome_iff_exists, maxOf, List.isSome_max?_iff]
    simpa using hne
  have hmax := hm
  rw [maxOf, List.max?_eq_some_iff] at hmax
  obtain ⟨c, hc, hcm⟩ := List.mem_map.mp hmax.1
  exact ⟨m, hm, fun c' hc' => hmax.2 _ (List.mem_map_of_mem hc'), c, hc, hcm⟩

/-- All entries are below the next base. -/
theorem lt_nextBase {cols : List MRopeColumn} {c : MRopeColumn} (hc : c ∈ cols) :
    c.maxEntry < nextBase cols := by
  obtain ⟨m, hm, hle, -⟩ := exists_maxOf (List.ne_nil_of_mem hc)
  rw [nextBase, hm]
  exact Int.lt_add_one_of_le (hle c hc)

/-- **Later segments decide**: when the entries of `cols'` are not below those of `cols`, the maximum is
that of `cols'`. -/
theorem maxOf_append {cols cols' : List MRopeColumn} (hne : cols' ≠ [])
    (hle : ∀ c ∈ cols', nextBase cols ≤ c.maxEntry) : maxOf (cols ++ cols') = maxOf cols' := by
  obtain ⟨m, hm, hle', c, hc, rfl⟩ := exists_maxOf hne
  rw [hm]
  refine maxOf_eq (fun c' hc' => ?_) ⟨c, List.mem_append_right _ hc, rfl⟩
  obtain hc' | hc' := List.mem_append.mp hc'
  · exact le_of_lt (lt_of_lt_of_le (lt_nextBase hc') (hle c hc))
  · exact hle' c' hc'

theorem truncate_nonneg {q : ℚ} (h : 0 ≤ q) : 0 ≤ truncate q := by
  rw [truncate, if_pos h]
  exact Int.floor_nonneg.mpr h

/-- Entries are not below the base. -/
theorem Segment.le_column {seg : Segment} (hrate : ∀ t h w rate, seg = .vision t h w rate → 0 ≤ rate)
    (base : ℤ) (k : ℕ) : base ≤ (seg.column base k).maxEntry := by
  cases seg with
  | text n =>
    rw [Segment.column, MRopeColumn.maxEntry_text]
    omega
  | vision t h w rate =>
    have hq := truncate_nonneg (mul_nonneg (Nat.cast_nonneg (k / (h * w))) (hrate t h w rate rfl))
    exact le_max_of_le_left (by simpa [Segment.column] using hq)

/-- **The next base after a segment** is behind the largest entry of this segment. -/
theorem nextBase_append_columns (seg : Segment)
    (hrate : ∀ t h w rate, seg = .vision t h w rate → 0 ≤ rate) (hpos : 0 < seg.length)
    (cols : List MRopeColumn) :
    maxOf (cols ++ seg.columns (nextBase cols)) = maxOf (seg.columns (nextBase cols)) := by
  refine maxOf_append ?_ fun c hc => ?_
  · rw [← List.length_pos_iff, Segment.length_columns]
    exact hpos
  · obtain ⟨k, -, rfl⟩ := List.mem_map.mp hc
    exact Segment.le_column hrate _ k

/-- After text the next base is behind the text. -/
theorem nextBase_append_text {n : ℕ} (hn : 0 < n) (cols : List MRopeColumn) :
    nextBase (cols ++ (Segment.text n).columns (nextBase cols)) = n + nextBase cols := by
  have hmax : maxOf ((Segment.text n).columns (nextBase cols)) = some (n + nextBase cols - 1) := by
    refine maxOf_eq (fun c hc => ?_) ⟨MRopeColumn.text (nextBase cols + (n - 1 : ℕ)), ?_, ?_⟩
    · obtain ⟨k, hk, rfl⟩ := List.mem_map.mp hc
      rw [List.mem_range, Segment.length] at hk
      rw [Segment.column, MRopeColumn.maxEntry_text]
      omega
    · exact List.mem_map.mpr ⟨n - 1, List.mem_range.mpr (Nat.sub_lt hn Nat.one_pos), rfl⟩
    · rw [MRopeColumn.maxEntry_text]
      omega
  rw [nextBase, nextBase_append_columns (.text n) (fun _ _ _ _ h => by cases h) hn, hmax]
  exact sub_add_cancel _ _

end SpaceServe
