import SpaceServe.Worker.Rotary

/-!
# The positions of a prompt with images and videos

`get_input_positions_tensor` looks for the next image and the next video separately and takes the maximum
of the last segment only. For prompts in which every vision start is followed by the placeholders of its
item the segments come out in order, each behind the maximum of all earlier ones.

* `PromptBlock`, `promptTokens`, `WellFormedPrompt`: well-formed prompts and their segments;
* `visionTokens_prompt`, `nextIndex_item`: what the searches find;
* `ScanInv`, `ScanInv.scanItem`, `ScanInv.loop`: a round of the loop and the loop;
* **`mrope_positions_complete`**.
-/

set_option autoImplicit false

namespace SpaceServe

open Py

/-! ## Well-formed prompts -/

inductive VisionKind
  | image
  | video
deriving DecidableEq

/-- An image or a video of a prompt with the text before it, and the `second_per_grid_t` of a video. -/
structure PromptBlock where
  text : List TokenId
  kind : VisionKind
  grid : GridTHW
  second : ℚ

section

variable (cfg : MRopeConfig) (given : Bool) (kind : VisionKind) (blocks : List PromptBlock)
  (tail : List TokenId)

/-- The token of a placeholder. -/
def MRopeConfig.placeholder : VisionKind → TokenId
  | .image => cfg.imageTokenId
  | .video => cfg.videoTokenId

/-- Text, a vision start and the placeholders. -/
def PromptBlock.tokens (b : PromptBlock) : List TokenId :=
  b.text ++ cfg.visionStartTokenId :: List.replicate (cfg.gridTokens b.grid) (cfg.placeholder b.kind)

/-- The tokens of a prompt. -/
def promptTokens : List TokenId := blocks.flatMap (PromptBlock.tokens cfg) ++ tail

/-- The items of one modality in prompt order. -/
def ofKind : List PromptBlock := blocks.filter fun b => decide (b.kind = kind)

/-- `second_per_grid_ts`, when it is given. -/
def secondsOf : Option (List ℚ) := if given = true then some ((ofKind .video blocks).map (·.second)) else none

/-- The positions in time of consecutive frames are this far apart. -/
def PromptBlock.rate (b : PromptBlock) : ℚ :=
  match b.kind with
  | .image => 0
  | .video => (if given = true then b.second else 1) * cfg.tokensPerSecond

/-- The segments of a block. -/
def PromptBlock.segments (b : PromptBlock) : List Segment :=
  [.text (b.text.length + 1), .vision b.grid.t (b.grid.h / cfg.spatialMergeSize)
    (b.grid.w / cfg.spatialMergeSize) (b.rate cfg given)]

/-- The segments of a prompt. -/
def promptSegments : List Segment :=
  blocks.flatMap (PromptBlock.segments cfg given) ++ [.text tail.length]

/-- A token that is neither a vision start nor a placeholder. -/
def MRopeConfig.IsText (x : TokenId) : Prop :=
  x ≠ cfg.visionStartTokenId ∧ ∀ kind, x ≠ cfg.placeholder kind

/-- A prompt without other vision starts and placeholders, whose items have tokens. -/
structure WellFormedPrompt : Prop where
  distinct : cfg.imageTokenId ≠ cfg.videoTokenId
  start : ∀ kind, cfg.visionStartTokenId ≠ cfg.placeholder kind
  text : ∀ b ∈ blocks, ∀ x ∈ b.text, cfg.IsText x
  tail : ∀ x ∈ tail, cfg.IsText x
  grid : ∀ b ∈ blocks, 0 < b.grid.t ∧ 0 < b.grid.h / cfg.spatialMergeSize ∧
    0 < b.grid.w / cfg.spatialMergeSize
  rate : ∀ b ∈ blocks, 0 ≤ b.rate cfg given

end

variable {cfg : MRopeConfig} {given : Bool} {blocks : List PromptBlock} {tail : List TokenId}

theorem WellFormedPrompt.gridTokens_pos (h : WellFormedPrompt cfg given blocks tail) {b : PromptBlock}
    (hb : b ∈ blocks) : 0 < cfg.gridTokens b.grid := by
  obtain ⟨h1, h2, h3⟩ := h.grid b hb
  exact Nat.mul_pos (Nat.mul_pos h1 h2) h3

theorem WellFormedPrompt.placeholder_inj (h : WellFormedPrompt cfg given blocks tail)
    {kind kind' : VisionKind} (he : cfg.placeholder kind = cfg.placeholder kind') : kind = kind' := by
  cases kind <;> cases kind'
  · rfl
  · exact absurd he h.distinct
  · exact absurd he.symm h.distinct
  · rfl

theorem WellFormedPrompt.mono {blocks' : List PromptBlock} (h : WellFormedPrompt cfg given blocks tail)
    (hsub : ∀ b ∈ blocks', b ∈ blocks) : WellFormedPrompt cfg given blocks' tail :=
  ⟨h.distinct, h.start, fun b hb => h.text b (hsub b hb), h.tail, fun b hb => h.grid b (hsub b hb),
    fun b hb => h.rate b (hsub b hb)⟩

theorem PromptBlock.length_tokens (b : PromptBlock) :
    (b.tokens cfg).length = b.text.length + 1 + cfg.gridTokens b.grid := by
  rw [PromptBlock.tokens, List.length_append, List.length_cons, List.length_replicate]
  omega

theorem promptTokens_cons (b : PromptBlock) :
    promptTokens cfg (b :: blocks) tail = b.tokens cfg ++ promptTokens cfg blocks tail := by
  rw [promptTokens, List.flatMap_cons, List.append_assoc]
  rfl

theorem length_promptSegments :
    ((promptSegments cfg given blocks tail).map Segment.length).sum =
      (promptTokens cfg blocks tail).length := by
  induction blocks with
  | nil => simp [promptSegments, promptTokens, Segment.length]
  | cons b blocks ih =>
    rw [promptTokens_cons, List.length_append, ← ih, PromptBlock.length_tokens, promptSegments,
      List.flatMap_cons, List.append_assoc, List.map_append, List.sum_append]
    simp [PromptBlock.segments, Segment.length, MRopeConfig.gridTokens, promptSegments]

/-! ## The tokens behind the vision starts -/

theorem visionTokens_append {n : ℕ} {l rest : List TokenId} (hl : ∀ x ∈ l, x ≠ cfg.visionStartTokenId) :
    cfg.visionTokens n (l ++ rest) = cfg.visionTokens n rest := by
  induction l with
  | nil => rfl
  | cons x l ih =>
    have hx := hl x List.mem_cons_self
    rw [List.cons_append, MRopeConfig.visionTokens, ih fun y hy => hl y (List.mem_cons_of_mem _ hy)]
    simp only [if_neg hx]
    exact bind_pure _

/-- **The tokens behind the vision starts** of a prompt are those of its items. -/
theorem visionTokens_prompt {n : ℕ} (h : WellFormedPrompt cfg given blocks tail) :
    cfg.visionTokens n (promptTokens cfg blocks tail) =
      .ok (blocks.map fun b => cfg.placeholder b.kind) := by
  induction blocks with
  | nil =>
    rw [promptTokens, List.flatMap_nil, List.nil_append, ← List.append_nil tail,
      visionTokens_append fun x hx => (h.tail x hx).1]
    rfl
  | cons b blocks ih =>
    obtain ⟨m, hm⟩ := Nat.exists_eq_succ_of_ne_zero (h.gridTokens_pos List.mem_cons_self).ne'
    rw [promptTokens_cons, PromptBlock.tokens, List.append_assoc,
      visionTokens_append fun x hx => (h.text b List.mem_cons_self x hx).1, hm, List.replicate_succ,
      List.cons_append, List.cons_append, MRopeConfig.visionTokens, ← List.cons_append,
      ← List.replicate_succ, visionTokens_append, ih (h.mono fun _ => List.mem_cons_of_mem _), ok_bind, if_pos rfl]
    · rfl
    · intro x hx
      rw [List.eq_of_mem_replicate hx]
      exact (h.start b.kind).symm

/-! ## The loop -/

/-- The next occurrence of a token that is not in `pre`. -/
theorem indexFrom_append {l pre rest : List TokenId} {x : TokenId} (hpre : x ∉ pre) (hx : x ∈ rest) :
    indexFrom (l ++ (pre ++ rest)) x l.length = .ok (l.length + (pre.length + rest.idxOf x)) := by
  rw [indexFrom, List.drop_left, if_pos (List.mem_append_right _ hx), List.idxOf_append_of_notMem hpre]

/-- What the loop has reached after `done` when `todo` and `tail` remain. -/
structure ScanInv (cfg : MRopeConfig) (given : Bool) (done todo : List PromptBlock)
    (s : MRopeConfig.Scan) : Prop where
  st : s.st = (promptTokens cfg done []).length
  imageIndex : s.imageIndex = (ofKind .image done).length
  videoIndex : s.videoIndex = (ofKind .video done).length
  remainImages : s.remainImages = (ofKind .image todo).length
  remainVideos : s.remainVideos = (ofKind .video todo).length
  cols : s.llmPosIdsList.flatten = layout [] (done.flatMap (PromptBlock.segments cfg given))
  last : MRopeConfig.stIdx s.llmPosIdsList = .ok (nextBase s.llmPosIdsList.flatten)

variable {done todo : List PromptBlock} {b : PromptBlock} {s : MRopeConfig.Scan}

theorem ofKind_cons_of_eq {kind : VisionKind} (hk : kind = b.kind) :
    ofKind kind (b :: todo) = b :: ofKind kind todo :=
  List.filter_cons_of_pos (by simp [hk])

theorem ofKind_cons_of_ne {kind : VisionKind} (hk : kind ≠ b.kind) :
    ofKind kind (b :: todo) = ofKind kind todo :=
  List.filter_cons_of_neg (by simpa using hk.symm)

theorem promptTokens_append :
    promptTokens cfg (done ++ b :: todo) tail =
      promptTokens cfg done [] ++ (b.tokens cfg ++ promptTokens cfg todo tail) := by
  simp [promptTokens]

theorem placeholder_mem_prompt (h : WellFormedPrompt cfg given blocks tail) {kind : VisionKind}
    (hpos : 0 < (ofKind kind blocks).length) : cfg.placeholder kind ∈ promptTokens cfg blocks tail := by
  obtain ⟨b, hb⟩ := List.exists_mem_of_length_pos hpos
  obtain ⟨hb, hk⟩ := List.mem_filter.mp hb
  have hgrid := h.gridTokens_pos hb
  refine List.mem_append_left _ (List.mem_flatMap.mpr ⟨b, hb, ?_⟩)
  refine List.mem_append_right _ (List.mem_cons_of_mem _ (List.mem_replicate.mpr ⟨hgrid.ne', ?_⟩))
  rw [of_decide_eq_true hk]

/-- Where the loop finds the next item of a modality: at the next item of the prompt if it is of this
modality, behind it if not. -/
theorem indexFrom_item (h : WellFormedPrompt cfg given (done ++ b :: todo) tail) (kind : VisionKind)
    (hpos : 0 < (ofKind kind (b :: todo)).length) :
    ∃ ed, indexFrom (promptTokens cfg (done ++ b :: todo) tail) (cfg.placeholder kind)
      (promptTokens cfg done []).length = .ok ed ∧
      (kind = b.kind → ed = (promptTokens cfg done []).length + (b.text.length + 1)) ∧
      (kind ≠ b.kind → (promptTokens cfg done []).length + (b.text.length + 1) < ed) := by
  have hb : b ∈ done ++ b :: todo := List.mem_append_right _ List.mem_cons_self
  have hgrid := h.gridTokens_pos hb
  have hpre : cfg.placeholder kind ∉ b.text ++ [cfg.visionStartTokenId] := by
    intro hm
    obtain hm | hm := List.mem_append.mp hm
    · exact (h.text b hb _ hm).2 kind rfl
    · exact h.start kind (List.mem_singleton.mp hm).symm
  by_cases hk : kind = b.kind
  · subst hk
    have hrest : promptTokens cfg (done ++ b :: todo) tail = promptTokens cfg done [] ++
        ((b.text ++ [cfg.visionStartTokenId]) ++ (List.replicate (cfg.gridTokens b.grid)
          (cfg.placeholder b.kind) ++ promptTokens cfg todo tail)) := by
      rw [promptTokens_append, PromptBlock.tokens]
      simp
    obtain ⟨m, hm⟩ := Nat.exists_eq_succ_of_ne_zero hgrid.ne'
    rw [hm, List.replicate_succ, List.cons_append] at hrest
    rw [hrest, indexFrom_append hpre List.mem_cons_self, List.idxOf_cons_self]
    exact ⟨_, rfl, fun _ => by simp, fun hne => absurd rfl hne⟩
  · have hrest : promptTokens cfg (done ++ b :: todo) tail = promptTokens cfg done [] ++
        (b.tokens cfg ++ promptTokens cfg todo tail) := promptTokens_append
    have hnot : cfg.placeholder kind ∉ b.tokens cfg := by
      rw [PromptBlock.tokens, ← List.singleton_append, ← List.append_assoc, List.mem_append]
      rintro (hm | hm)
      · exact hpre hm
      · exact hk (h.placeholder_inj (List.eq_of_mem_replicate hm))
    have htodo : WellFormedPrompt cfg given todo tail :=
      h.mono fun _ hx => List.mem_append_right _ (List.mem_cons_of_mem _ hx)
    have hmem : cfg.placeholder kind ∈ promptTokens cfg todo tail := by
      refine placeholder_mem_prompt htodo ?_
      rwa [ofKind_cons_of_ne hk] at hpos
    rw [hrest, indexFrom_append hnot hmem]
    refine ⟨_, rfl, fun he => absurd he hk, fun _ => ?_⟩
    rw [PromptBlock.length_tokens]
    omega

theorem nextIndex_item (h : WellFormedPrompt cfg given (done ++ b :: todo) tail) (kind : VisionKind) :
    ∃ ed, MRopeConfig.nextIndex (promptTokens cfg (done ++ b :: todo) tail) (cfg.placeholder kind)
        (ofKind kind (b :: todo)).length (promptTokens cfg done []).length = .ok ed ∧
      (kind = b.kind → ed = (promptTokens cfg done []).length + (b.text.length + 1)) ∧
      (kind ≠ b.kind → (promptTokens cfg done []).length + (b.text.length + 1) < ed) := by
  rw [MRopeConfig.nextIndex]
  by_cases hpos : 0 < (ofKind kind (b :: todo)).length
  · have hmem : cfg.placeholder kind ∈ promptTokens cfg (done ++ b :: todo) tail := by
      refine placeholder_mem_prompt h (Nat.lt_of_lt_of_le hpos ?_)
      rw [ofKind, ofKind, List.filter_append, List.length_append]
      exact Nat.le_add_left _ _
    rw [if_pos ⟨hmem, hpos⟩]
    exact indexFrom_item h kind hpos
  · rw [if_neg fun hc => hpos hc.2]
    refine ⟨_, rfl, fun hk => absurd ?_ hpos, fun _ => ?_⟩
    · rw [ofKind_cons_of_eq hk]
      exact Nat.succ_pos _
    · rw [promptTokens_append, List.length_append, List.length_append, PromptBlock.length_tokens]
      omega

/-- The seconds that the loop uses for an item. -/
def PromptBlock.seconds (given : Bool) (b : PromptBlock) : ℚ :=
  match b.kind with
  | .image => 0
  | .video => if given = true then b.second else 1

variable (cfg) in
theorem PromptBlock.seconds_mul (b : PromptBlock) :
    b.seconds given * cfg.tokensPerSecond = b.rate cfg given := by
  unfold PromptBlock.seconds PromptBlock.rate
  cases b.kind with
  | image => exact zero_mul _
  | video => rfl

/-- The counters after an item. -/
def MRopeConfig.Scan.counted (s : MRopeConfig.Scan) : VisionKind → MRopeConfig.Scan
  | .image => { s with imageIndex := s.imageIndex + 1, remainImages := s.remainImages - 1 }
  | .video => { s with videoIndex := s.videoIndex + 1, remainVideos := s.remainVideos - 1 }

theorem ofKind_getElem? (kind : VisionKind) (hk : kind = b.kind) :
    (ofKind kind (done ++ b :: todo))[(ofKind kind done).length]? = some b := by
  have happ : ofKind kind (done ++ b :: todo) = ofKind kind done ++ b :: ofKind kind todo := by
    rw [← ofKind_cons_of_eq hk]
    exact List.filter_append _ _
  rw [happ, List.getElem?_append_right (Nat.le_refl _), Nat.sub_self]
  rfl

/-- **The next round is about the next item.** -/
theorem ScanInv.nextItem (h : ScanInv cfg given done (b :: todo) s)
    (hwf : WellFormedPrompt cfg given (done ++ b :: todo) tail) :
    cfg.nextItem (promptTokens cfg (done ++ b :: todo) tail)
      ((ofKind .image (done ++ b :: todo)).map (·.grid)) ((ofKind .video (done ++ b :: todo)).map (·.grid))
      (secondsOf given (done ++ b :: todo)) s =
        .ok (b.grid, b.seconds given, s.st + (b.text.length + 1), s.counted b.kind) := by
  obtain ⟨edImage, himage, heq, hlt⟩ := nextIndex_item hwf .image
  obtain ⟨edVideo, hvideo, heq', hlt'⟩ := nextIndex_item hwf .video
  rw [← h.st] at himage hvideo heq hlt heq' hlt'
  rw [← h.remainImages] at himage
  rw [← h.remainVideos] at hvideo
  unfold MRopeConfig.nextItem
  simp only [MRopeConfig.placeholder] at himage hvideo
  rw [himage, ok_bind, hvideo, ok_bind]
  cases hk : b.kind with
  | image =>
    rw [hk] at heq hlt'
    have hlt' := hlt' (by decide)
    obtain rfl := heq rfl
    rw [if_pos hlt', h.imageIndex, List.getElem?_map, ofKind_getElem? .image hk.symm, Option.map_some,
      ofOption_some, ok_bind, PromptBlock.seconds, hk, MRopeConfig.Scan.counted, h.imageIndex]
  | video =>
    rw [hk] at hlt heq'
    have hlt := hlt (by decide)
    obtain rfl := heq' rfl
    rw [if_neg (by omega), h.videoIndex, List.getElem?_map, ofKind_getElem? .video hk.symm,
      Option.map_some, ofOption_some, ok_bind, PromptBlock.seconds, hk, MRopeConfig.Scan.counted,
      h.videoIndex]
    cases given with
    | false => rfl
    | true =>
      rw [secondsOf, if_pos rfl, MRopeConfig.videoSecondPerGridT]
      simp only [List.getElem?_map, ofKind_getElem? .video hk.symm, Option.map_some, ofOption_some,
        ok_bind, if_true]

theorem ScanInv.counted (h : ScanInv cfg given done (b :: todo) s) :
    (s.counted b.kind).imageIndex = (ofKind .image (done ++ [b])).length ∧
    (s.counted b.kind).videoIndex = (ofKind .video (done ++ [b])).length ∧
    (s.counted b.kind).remainImages = (ofKind .image todo).length ∧
    (s.counted b.kind).remainVideos = (ofKind .video todo).length := by
  have himage := h.remainImages
  have hvideo := h.remainVideos
  have happ : ∀ kind, ofKind kind (done ++ [b]) = ofKind kind done ++ ofKind kind [b] :=
    fun kind => List.filter_append _ _
  simp only [happ, List.length_append, ← h.imageIndex, ← h.videoIndex]
  cases hk : b.kind with
  | image =>
    rw [ofKind_cons_of_eq hk.symm] at himage
    rw [ofKind_cons_of_ne (by rw [hk]; decide)] at hvideo
    rw [ofKind_cons_of_eq hk.symm, ofKind_cons_of_ne (show VisionKind.video ≠ b.kind by rw [hk]; decide)]
    refine ⟨rfl, rfl, ?_, hvideo⟩
    rw [MRopeConfig.Scan.counted, himage]
    exact Nat.add_sub_cancel _ 1
  | video =>
    rw [ofKind_cons_of_ne (by rw [hk]; decide)] at himage
    rw [ofKind_cons_of_eq hk.symm] at hvideo
    rw [ofKind_cons_of_ne (show VisionKind.image ≠ b.kind by rw [hk]; decide), ofKind_cons_of_eq hk.symm]
    refine ⟨rfl, rfl, himage, ?_⟩
    rw [MRopeConfig.Scan.counted, hvideo]
    exact Nat.add_sub_cancel _ 1

@[simp] theorem counted_llmPosIdsList (kind : VisionKind) :
    (s.counted kind).llmPosIdsList = s.llmPosIdsList := by cases kind <;> rfl

@[simp] theorem counted_st (kind : VisionKind) : (s.counted kind).st = s.st := by cases kind <;> rfl

/-- The maximum of the last segment is enough when it is the maximum of all. -/
theorem stIdx_append {l : List (List MRopeColumn)} {cols cols' : List MRopeColumn} (hne : cols' ≠ [])
    (hmax : maxOf (l ++ [cols, cols']).flatten = maxOf cols') :
    MRopeConfig.stIdx (l ++ [cols, cols']) = .ok (nextBase (l ++ [cols, cols']).flatten) := by
  obtain ⟨m, hm, -⟩ := exists_maxOf hne
  rw [nextBase, hmax, hm, MRopeConfig.stIdx, List.getLast?_append_of_ne_nil _ (by simp)]
  simp only [List.getLast?_cons_cons, List.getLast?_singleton, hm, ofOption_some, ok_bind,
    Option.elim_some]

/-- **A round of the loop** lays out the next block. -/
theorem ScanInv.scanItem (h : ScanInv cfg given done (b :: todo) s)
    (hwf : WellFormedPrompt cfg given (done ++ b :: todo) tail) :
    ∃ s', cfg.scanItem (promptTokens cfg (done ++ b :: todo) tail)
      ((ofKind .image (done ++ b :: todo)).map (·.grid)) ((ofKind .video (done ++ b :: todo)).map (·.grid))
      (secondsOf given (done ++ b :: todo)) s = .ok s' ∧ ScanInv cfg given (done ++ [b]) todo s' := by
  have hb : b ∈ done ++ b :: todo := List.mem_append_right _ List.mem_cons_self
  have hlast := h.last
  generalize hcols : s.llmPosIdsList.flatten = cols at hlast
  obtain ⟨h1, h2, h3, h4⟩ := h.counted
  rw [MRopeConfig.scanItem, h.nextItem hwf, ok_bind]
  simp only [counted_llmPosIdsList, counted_st, hlast, ok_bind, Nat.add_sub_cancel_left]
  have htext := nextBase_append_text (Nat.succ_pos b.text.length) cols
  rw [textColumns_eq, MRopeConfig.visionColumns_eq, b.seconds_mul cfg, ← htext]
  have hmax := nextBase_append_columns (.vision b.grid.t (b.grid.h / cfg.spatialMergeSize)
    (b.grid.w / cfg.spatialMergeSize) (b.rate cfg given))
    (fun _ _ _ _ he => by cases he; exact hwf.rate b hb) (hwf.gridTokens_pos hb)
    (cols ++ (Segment.text (b.text.length + 1)).columns (nextBase cols))
  refine ⟨_, rfl, ?_, h1, h2, h3, h4, ?_, ?_⟩
  · rw [h.st, promptTokens, promptTokens, List.flatMap_append, List.append_nil, List.append_nil,
      List.length_append, List.flatMap_singleton, PromptBlock.length_tokens, Nat.add_assoc]
  · rw [List.flatten_append, hcols, List.flatMap_append, layout_append, ← h.cols, hcols]
    simp [PromptBlock.segments, layout]
  · refine stIdx_append ?_ ?_
    · rw [← List.length_pos_iff, Segment.length_columns]
      exact hwf.gridTokens_pos hb
    · rw [List.flatten_append, hcols, ← hmax]
      simp

/-- **The loop** lays out all blocks. -/
theorem ScanInv.loop : ∀ {todo done : List PromptBlock} {s : MRopeConfig.Scan} {l : List ℕ},
    ScanInv cfg given done todo s → WellFormedPrompt cfg given (done ++ todo) tail →
    l.length = todo.length → ∃ s', l.foldlM (fun s _ => cfg.scanItem
      (promptTokens cfg (done ++ todo) tail) ((ofKind .image (done ++ todo)).map (·.grid))
      ((ofKind .video (done ++ todo)).map (·.grid)) (secondsOf given (done ++ todo)) s) s = .ok s' ∧
      ScanInv cfg given (done ++ todo) [] s'
  | [], done, s, [], h, _, _ => ⟨s, rfl, by rwa [List.append_nil]⟩
  | b :: todo, done, s, i :: l, h, hwf, hlen => by
    obtain ⟨s₁, h₁, hinv₁⟩ := h.scanItem hwf
    have happ : done ++ b :: todo = (done ++ [b]) ++ todo := by simp
    rw [happ] at hwf h₁ ⊢
    obtain ⟨s', hs', hinv'⟩ := hinv₁.loop hwf (Nat.succ.inj hlen)
    refine ⟨s', ?_, hinv'⟩
    rw [List.foldlM_cons, h₁, ok_bind]
    exact hs'

/-! ## The positions of a prompt -/

/-- Every segment has its positions, from behind all earlier ones. -/
structure MRopeLayout (segs : List Segment) (cols : List MRopeColumn) : Prop where
  length : cols.length = (segs.map Segment.length).sum
  column : ∀ (j k : ℕ) seg, segs[j]? = some seg → k < seg.length →
    cols[offset (segs.map Segment.length) j + k]? = some (seg.column
      (nextBase (cols.take (offset (segs.map Segment.length) j))) k)

theorem layout_mropeLayout (segs : List Segment) : MRopeLayout segs (layout [] segs) := by
  refine ⟨by rw [length_layout, List.length_nil, Nat.zero_add], fun j k seg hj hk => ?_⟩
  have hat := layout_at [] hj hk
  rwa [List.length_nil, Nat.zero_add] at hat

theorem ofKind_length (blocks : List PromptBlock) :
    (ofKind .image blocks).length + (ofKind .video blocks).length = blocks.length := by
  induction blocks with
  | nil => rfl
  | cons b blocks ih =>
    cases hk : b.kind with
    | image =>
      rw [ofKind_cons_of_eq hk.symm, ofKind_cons_of_ne (show VisionKind.video ≠ b.kind by rw [hk]; decide)]
      simp only [List.length_cons]
      omega
    | video =>
      rw [ofKind_cons_of_ne (show VisionKind.image ≠ b.kind by rw [hk]; decide), ofKind_cons_of_eq hk.symm]
      simp only [List.length_cons]
      omega

theorem count_placeholder (h : WellFormedPrompt cfg given blocks tail) (kind : VisionKind) :
    (blocks.map fun b => cfg.placeholder b.kind).count (cfg.placeholder kind) =
      (ofKind kind blocks).length := by
  rw [List.count, List.countP_map, List.countP_eq_length_filter, ofKind]
  refine congrArg List.length (List.filter_congr fun b _ => ?_)
  rw [Function.comp_apply, Bool.eq_iff_iff, beq_iff_eq, decide_eq_true_eq]
  exact ⟨fun he => h.placeholder_inj he, fun he => by rw [he]⟩

variable (tail) in
/-- After the loop the text that is left is laid out. -/
theorem ScanInv.finish (h : ScanInv cfg given blocks [] s) :
    ∃ l, MRopeConfig.lastText (promptTokens cfg blocks tail) s = .ok l ∧
      l.flatten = layout [] (promptSegments cfg given blocks tail) := by
  have hlen : (promptTokens cfg blocks tail).length = s.st + tail.length := by
    rw [h.st]
    simp [promptTokens]
  rw [promptSegments, layout_append, ← h.cols, MRopeConfig.lastText, hlen, Nat.add_sub_cancel_left,
    h.last, ok_bind]
  split_ifs with hst
  · refine ⟨_, rfl, ?_⟩
    rw [List.flatten_append, textColumns_eq]
    simp [layout]
  · have hnil : tail = [] := List.length_eq_zero_iff.mp (by omega)
    refine ⟨_, rfl, ?_⟩
    subst hnil
    simp [layout, Segment.columns, Segment.length]

/-- **The positions of a prompt are complete and monotone.** For every well-formed prompt
`get_input_positions_tensor` returns one column for each token; text counts up, the placeholders of an
item have their coordinates in row-major order, every segment begins behind the largest entry of all
earlier ones, and so does the token that follows the prompt. -/
theorem mrope_positions_complete (h : WellFormedPrompt cfg given blocks tail)
    (hne : promptTokens cfg blocks tail ≠ []) :
    ∃ cols delta, cfg.getInputPositionsTensor (promptTokens cfg blocks tail)
        ((ofKind .image blocks).map (·.grid)) ((ofKind .video blocks).map (·.grid))
        (secondsOf given blocks) 0 none = .ok (cols, delta) ∧
      cols.length = (promptTokens cfg blocks tail).length ∧
      MRopeLayout (promptSegments cfg given blocks tail) cols ∧
      (promptTokens cfg blocks tail).length + delta = nextBase cols ∧
      getNextInputPositionsTensor delta (promptTokens cfg blocks tail).length
        ((promptTokens cfg blocks tail).length + 1) = [MRopeColumn.text (nextBase cols)] := by
  have hstart : ScanInv cfg given [] blocks ⟨0, 0, 0, (ofKind .image blocks).length,
      (ofKind .video blocks).length, []⟩ := ⟨rfl, rfl, rfl, rfl, rfl, rfl, rfl⟩
  have hrounds : (List.range ((ofKind .image blocks).length + (ofKind .video blocks).length)).length =
      blocks.length := by rw [List.length_range, ofKind_length]
  obtain ⟨s, hs, hinv⟩ := hstart.loop h hrounds
  obtain ⟨l, hl, hflat⟩ := hinv.finish tail
  rw [List.nil_append] at hl hs hflat
  have himages : (blocks.map fun b => cfg.placeholder b.kind).count cfg.imageTokenId =
      (ofKind .image blocks).length := count_placeholder h .image
  have hvideos : (blocks.map fun b => cfg.placeholder b.kind).count cfg.videoTokenId =
      (ofKind .video blocks).length := count_placeholder h .video
  have hlayout := layout_mropeLayout (promptSegments cfg given blocks tail)
  have hlen := hlayout.length
  rw [length_promptSegments] at hlen
  have hcols : layout [] (promptSegments cfg given blocks tail) ≠ [] := by
    rw [← List.length_pos_iff, hlen]
    exact List.length_pos_iff.mpr hne
  obtain ⟨m, hm, -⟩ := exists_maxOf hcols
  have hbase : nextBase (layout [] (promptSegments cfg given blocks tail)) = m + 1 := by
    rw [nextBase, hm]
    rfl
  refine ⟨_, m + 1 - (promptTokens cfg blocks tail).length, ?_, hlen, hlayout, ?_, ?_⟩
  · have hnil : l ≠ [] := by
      rintro rfl
      exact hcols hflat.symm
    unfold MRopeConfig.getInputPositionsTensor
    rw [visionTokens_prompt h, ok_bind]
    simp only [himages, hvideos, hs, ok_bind, hl, if_neg hnil, hflat, hm, ofOption_some]
    simp [sliceColumns, sliceBound]
  · rw [hbase]
    omega
  · rw [hbase, getNextInputPositionsTensor]
    simp

/-- Vision starts, images and videos with merged patches of two by two. -/
def smallConfig : MRopeConfig where
  imageTokenId := 5
  videoTokenId := 6
  visionStartTokenId := 4
  spatialMergeSize := 2
  tokensPerSecond := 2
  spatialMergeSize_pos := Nat.two_pos

/-- An image of four tokens and a video of two frames. -/
def imageAndVideo : List PromptBlock :=
  [⟨[1, 2], .image, ⟨1, 4, 4⟩, 0⟩, ⟨[3], .video, ⟨2, 2, 4⟩, 1 / 2⟩]

theorem imageAndVideo_wellFormed : WellFormedPrompt smallConfig true imageAndVideo [9] := by
  have hall : ∀ x ∈ [1, 2, 3, 9], smallConfig.IsText x := by
    intro x hx
    refine ⟨?_, fun kind => ?_⟩
    · rintro rfl
      exact absurd hx (by decide)
    · rintro rfl
      cases kind <;> exact absurd hx (by decide)
  refine ⟨by decide, fun kind => by cases kind <;> decide, fun b hb x hx => hall x ?_,
    fun x hx => hall x ?_, fun b hb => ?_, fun b hb => ?_⟩
  · simp only [imageAndVideo, List.mem_cons, List.not_mem_nil, or_false] at hb
    obtain rfl | rfl := hb <;> simp at hx ⊢ <;> tauto
  · simp [List.mem_singleton.mp hx]
  · simp only [imageAndVideo, List.mem_cons, List.not_mem_nil, or_false] at hb
    obtain rfl | rfl := hb <;> decide
  · simp only [imageAndVideo, List.mem_cons, List.not_mem_nil, or_false] at hb
    obtain rfl | rfl := hb <;> norm_num [PromptBlock.rate, smallConfig]

theorem mrope_positions_complete_image_and_video : ∃ cols,
    smallConfig.getInputPositionsTensor [1, 2, 4, 5, 5, 5, 5, 3, 4, 6, 6, 6, 6, 9] [⟨1, 4, 4⟩]
      [⟨2, 2, 4⟩] (some [1 / 2]) 0 none = .ok (cols, -4) ∧
    cols = [⟨0, 0, 0⟩, ⟨1, 1, 1⟩, ⟨2, 2, 2⟩, ⟨3, 3, 3⟩, ⟨3, 3, 4⟩, ⟨3, 4, 3⟩, ⟨3, 4, 4⟩, ⟨5, 5, 5⟩,
      ⟨6, 6, 6⟩, ⟨7, 7, 7⟩, ⟨7, 7, 8⟩, ⟨8, 7, 7⟩, ⟨8, 7, 8⟩, ⟨9, 9, 9⟩] ∧
    MRopeLayout (promptSegments smallConfig true imageAndVideo [9]) cols ∧
    getNextInputPositionsTensor (-4) 14 15 = [⟨10, 10, 10⟩] := by
  obtain ⟨cols, delta, hok, -, hlayout, hbase, hnext⟩ :=
    mrope_positions_complete imageAndVideo_wellFormed (by decide)
  have hrun : (smallConfig.getInputPositionsTensor (promptTokens smallConfig imageAndVideo [9])
      ((ofKind .image imageAndVideo).map (·.grid)) ((ofKind .video imageAndVideo).map (·.grid))
      (secondsOf true imageAndVideo) 0 none).toOption = some ([⟨0, 0, 0⟩, ⟨1, 1, 1⟩, ⟨2, 2, 2⟩,
        ⟨3, 3, 3⟩, ⟨3, 3, 4⟩, ⟨3, 4, 3⟩, ⟨3, 4, 4⟩, ⟨5, 5, 5⟩, ⟨6, 6, 6⟩, ⟨7, 7, 7⟩, ⟨7, 7, 8⟩,
        ⟨8, 7, 7⟩, ⟨8, 7, 8⟩, ⟨9, 9, 9⟩], -4) := by
    decide +kernel
  rw [hok] at hrun
  obtain ⟨rfl, rfl⟩ := Prod.mk.inj (Option.some.inj hrun)
  exact ⟨_, hok, rfl, hlayout, hnext⟩

end SpaceServe
