import Mathlib.Data.List.Count
import SpaceServe.Lib.Sort
import SpaceServe.Engine.Metadata

/-!
# Prompt replacements

The functions of `vllm/multimodal/processing.py` that put placeholder tokens into a prompt and find them
there. A target in the prompt is replaced by the full replacement of the next item of its modality; the
search goes through the prompt from left to right and looks for the full replacement of the next item.

* `iterTokenMatches`, `PromptReplacement`, `findTokenMatches`, `resolveMatches`, `replaceTokenMatches`,
  `iterPlaceholders`, `findMmPlaceholders`: the model;
* `TargetModality`, `Targets`, `expand`: prompts in which every target is one token, and what they become;
* `iterTokenMatches_single`, `sortedMatches`, `resolveMatches_targets`: the matches in the order of the
  prompt;
* **`replaceTokenMatches_targets`**: every target is replaced by the full replacement of its item.
-/

set_option autoImplicit false

namespace SpaceServe

open Py

variable {α : Type} [DecidableEq α]

/-! ## The model -/

/-- `_TokenMatch`. -/
structure TokenMatch where
  startIdx : ℕ
  endIdx : ℕ
deriving DecidableEq

/-- The loop of `iter_token_matches`, for at most `fuel` rounds. -/
def iterMatchesLoop (seq matchIds : List α) : ℕ → ℕ → List TokenMatch
  | 0, _ => []
  | fuel + 1, startIdx =>
    if startIdx + matchIds.length < seq.length + 1 then
      let endIdx := startIdx + matchIds.length
      if slice seq startIdx endIdx = matchIds then
        -- Exclude overlapping matches
        ⟨startIdx, endIdx⟩ :: iterMatchesLoop seq matchIds fuel endIdx
      else iterMatchesLoop seq matchIds fuel (startIdx + 1)
    else []

/-- `iter_token_matches`. Every round goes on by one place at least. -/
def iterTokenMatches (tokenIds matchIds : List α) : List TokenMatch :=
  if matchIds.length = 0 then [] else iterMatchesLoop tokenIds matchIds (tokenIds.length + 1) 0

/-- `PromptReplacementDetails`, as token ids. -/
structure PromptReplacementDetails where
  full : List TokenId
  features : List TokenId
deriving DecidableEq

/-- `PromptReplacement`, as token ids; what it is bound to is the tokenizer of the model. -/
structure PromptReplacement where
  modality : String
  target : List TokenId
  replacement : ℕ → PromptReplacementDetails

/-- `_PromptReplacementMatch`. -/
structure PromptReplacementMatch where
  promptRepl : PromptReplacement
  startIdx : ℕ
  endIdx : ℕ

/-- `modality`. -/
def PromptReplacementMatch.modality (m : PromptReplacementMatch) : String := m.promptRepl.modality

/-- `PlaceholderFeaturesInfo`. -/
structure PlaceholderFeaturesInfo where
  modality : String
  itemIdx : ℕ
  startIdx : ℕ
  tokens : List TokenId
deriving DecidableEq

/-- `to_range`. -/
def PlaceholderFeaturesInfo.toRange (info : PlaceholderFeaturesInfo) : PlaceholderRange :=
  ⟨info.startIdx, info.tokens.length⟩

/-- `find_token_matches`. -/
def findTokenMatches (prompt : List TokenId) (promptRepls : List PromptReplacement) :
    List PromptReplacementMatch :=
  promptRepls.flatMap fun promptRepl =>
    (iterTokenMatches prompt promptRepl.target).map fun m => ⟨promptRepl, m.startIdx, m.endIdx⟩

/-- One index of a match in `seen_matches`. The text of the error also shows both matches and the
prompt. -/
def markIdx (m : PromptReplacementMatch) (seenMatches : List (Option PromptReplacementMatch)) (idx : ℕ) :
    Except Exn (List (Option PromptReplacementMatch)) :=
  match seenMatches[idx]? with
  | none => .error (.indexError "list index out of range")
  | some (some _) => .error (.valueError s!"Found overlapping matches at index={idx}")
  | some none => .ok (seenMatches.set idx (some m))

/-- All indices of a match in `seen_matches`. -/
def markMatch (seenMatches : List (Option PromptReplacementMatch)) (m : PromptReplacementMatch) :
    Except Exn (List (Option PromptReplacementMatch)) :=
  (List.range' m.startIdx (m.endIdx - m.startIdx)).foldlM (markIdx m) seenMatches

/-- `_resolve_matches`. -/
def resolveMatches (prompt : List α) (mmMatches : Dict String (List PromptReplacementMatch)) :
    Except Exn (List PromptReplacementMatch) := do
  let allMatches := mmMatches.values.flatten
  let _ ← allMatches.foldlM markMatch (List.replicate prompt.length none)
  .ok (sortedBy (·.startIdx) allMatches)

/-- The variables of the loop of `_replace_matches`. -/
structure ReplaceState (α : Type) where
  outSeqs : List (List α)
  prevEndIdx : ℕ
  nextIdxByModality : Dict String ℕ

/-- `d[modality]` for a counter that starts at `0`. -/
def countOf (d : Dict String ℕ) (modality : String) : ℕ := (d.get? modality).getD 0

variable (prompt : List α) (mmItemCounts : Dict String ℕ)

/-- One round of the loop of `_replace_matches`. -/
def replaceRound (replSeq : PromptReplacementDetails → List α) (st : ReplaceState α)
    (m : PromptReplacementMatch) : ReplaceState α :=
  let itemIdx := countOf st.nextIdxByModality m.modality
  if countOf mmItemCounts m.modality ≤ itemIdx then st
  else
    { outSeqs := st.outSeqs ++
        [slice prompt st.prevEndIdx m.startIdx ++ replSeq (m.promptRepl.replacement itemIdx)]
      prevEndIdx := m.endIdx
      nextIdxByModality := st.nextIdxByModality.set m.modality (itemIdx + 1) }

/-- `_replace_matches`, for token ids and for texts. -/
def replaceMatches (mmMatches : Dict String (List PromptReplacementMatch))
    (replSeq : PromptReplacementDetails → List α) : Except Exn (List (List α)) := do
  let resolved ← resolveMatches prompt mmMatches
  let st := resolved.foldl (replaceRound prompt mmItemCounts replSeq) ⟨[], 0, .empty⟩
  .ok (st.outSeqs ++ [prompt.drop st.prevEndIdx])

/-- `replace_token_matches`. -/
def replaceTokenMatches (prompt : List TokenId)
    (mmMatches : Dict String (List PromptReplacementMatch)) (mmItemCounts : Dict String ℕ) :
    Except Exn (List TokenId) :=
  if mmMatches.entries = [] then .ok prompt
  else do
    let tokenIdSeqs ← replaceMatches prompt mmItemCounts mmMatches (·.full)
    .ok tokenIdSeqs.flatten

/-- The innermost loop body of `_iter_placeholders`: the placeholder at `start_idx` with the end of the
full replacement, if that stands there. -/
def matchReplacement (prompt : List TokenId) (modality : String) (itemIdx startIdx : ℕ)
    (replInfo : PromptReplacement) : Except Exn (Option (PlaceholderFeaturesInfo × ℕ)) :=
  let replacement := replInfo.replacement itemIdx
  let replTokensFull := replacement.full
  let endIdxFull := startIdx + replTokensFull.length
  if replTokensFull.length = 0 ∨ prompt.length < endIdxFull then .ok none
  else if slice prompt startIdx endIdxFull = replTokensFull then
    let replTokensFeat := replacement.features
    match (iterTokenMatches replTokensFull replTokensFeat).head? with
    | some m => .ok (some (⟨modality, itemIdx, startIdx + m.startIdx, replTokensFeat⟩, endIdxFull))
    | none => .error (.assertionError
        s!"repl_tokens_feat={replTokensFeat} should be a subsequence of repl_tokens_full={replTokensFull}")
  else .ok none

/-- The loop over the replacements of a modality. -/
def matchModality (prompt : List TokenId) (mmItemCounts itemIdxByModality : Dict String ℕ) (startIdx : ℕ)
    (p : String × List PromptReplacement) : Except Exn (Option (PlaceholderFeaturesInfo × ℕ)) :=
  let itemIdx := countOf itemIdxByModality p.1
  if countOf mmItemCounts p.1 ≤ itemIdx then .ok none
  else p.2.findSomeM? (matchReplacement prompt p.1 itemIdx startIdx)

/-- The loop of `_iter_placeholders`, for at most `fuel` rounds. -/
def iterPlaceholdersLoop (mmPromptRepls : Dict String (List PromptReplacement)) (prompt : List TokenId)
    (mmItemCounts : Dict String ℕ) : ℕ → ℕ → Dict String ℕ → Except Exn (List PlaceholderFeaturesInfo)
  | 0, startIdx, _ => if startIdx < prompt.length then .error .diverges else .ok []
  | fuel + 1, startIdx, itemIdxByModality =>
    if startIdx < prompt.length then do
      match ← mmPromptRepls.entries.findSomeM?
          (matchModality prompt mmItemCounts itemIdxByModality startIdx) with
      | some (info, endIdxFull) =>
        -- Exclude overlapping matches
        let rest ← iterPlaceholdersLoop mmPromptRepls prompt mmItemCounts fuel endIdxFull
          (itemIdxByModality.set info.modality (countOf itemIdxByModality info.modality + 1))
        .ok (info :: rest)
      | none =>
        iterPlaceholdersLoop mmPromptRepls prompt mmItemCounts fuel (startIdx + 1) itemIdxByModality
    else .ok []

/-- `_iter_placeholders`. Every round goes on by one place at least. -/
def iterPlaceholders (mmPromptRepls : Dict String (List PromptReplacement)) (prompt : List TokenId)
    (mmItemCounts : Dict String ℕ) : Except Exn (List PlaceholderFeaturesInfo) :=
  iterPlaceholdersLoop mmPromptRepls prompt mmItemCounts prompt.length 0 .empty

/-- `find_mm_placeholders`. -/
def findMmPlaceholders (mmPromptRepls : Dict String (List PromptReplacement)) (prompt : List TokenId)
    (mmItemCounts : Dict String ℕ) : Except Exn (Dict String (List PlaceholderFeaturesInfo)) := do
  let infos ← iterPlaceholders mmPromptRepls prompt mmItemCounts
  .ok (fullGroupby (·.modality) infos)

/-! ## Targets of one token -/

/-- A modality whose target is one token: item `j` becomes `size j` copies of it between `pre j` and
`post j`. -/
structure TargetModality where
  name : String
  target : TokenId
  pre : ℕ → List TokenId
  size : ℕ → ℕ
  post : ℕ → List TokenId

namespace TargetModality

variable (m : TargetModality)

/-- The tokens of an item's features. -/
def features (j : ℕ) : List TokenId := List.replicate (m.size j) m.target

/-- The full replacement of an item. -/
def full (j : ℕ) : List TokenId := m.pre j ++ m.features j ++ m.post j

/-- The replacement of the modality. -/
def repl : PromptReplacement := ⟨m.name, [m.target], fun j => ⟨m.full j, m.features j⟩⟩

end TargetModality

/-- Modalities with different targets, for a prompt: no target occurs around the features of an item. -/
structure Targets (ms : List TargetModality) (prompt : List TokenId) : Prop where
  names : (ms.map (·.name)).Nodup
  targets : (ms.map (·.target)).Nodup
  size_pos : ∀ m ∈ ms, ∀ j < prompt.count m.target, 0 < m.size j
  pre_free : ∀ m ∈ ms, ∀ j < prompt.count m.target, ∀ m' ∈ ms, m'.target ∉ m.pre j
  post_free : ∀ m ∈ ms, ∀ j < prompt.count m.target, ∀ m' ∈ ms, m'.target ∉ m.post j

/-- The modality of a target. -/
def modalityOf (ms : List TargetModality) (x : TokenId) : Option TargetModality :=
  ms.find? (·.target = x)

/-- What becomes of a token behind `before`: a target becomes the full replacement of its next item. -/
def segment (ms : List TargetModality) (before : List TokenId) (x : TokenId) : List TokenId :=
  match modalityOf ms x with
  | some m => m.full (before.count x)
  | none => [x]

/-- What becomes of the rest of a prompt behind `before`. -/
def expandFrom (ms : List TargetModality) : List TokenId → List TokenId → List TokenId
  | _, [] => []
  | before, x :: rest => segment ms before x ++ expandFrom ms (before ++ [x]) rest

/-- The prompt with the full replacement of item `j` in the place of the `j`-th target of its modality. -/
def expand (ms : List TargetModality) (prompt : List TokenId) : List TokenId := expandFrom ms [] prompt

variable {ms : List TargetModality} {before rest tokens : List TokenId} {x : TokenId} {m : TargetModality}

theorem modalityOf_eq_some (hnd : (ms.map (·.target)).Nodup) :
    modalityOf ms x = some m ↔ m ∈ ms ∧ m.target = x := by
  constructor
  · intro h
    exact ⟨List.mem_of_find?_eq_some h, by simpa using List.find?_some h⟩
  · rintro ⟨hm, rfl⟩
    cases h : modalityOf ms m.target with
    | none => simpa using List.find?_eq_none.mp h m hm
    | some m' =>
      have hm' := List.mem_of_find?_eq_some h
      have ht : m'.target = m.target := by simpa using List.find?_some h
      rw [List.inj_on_of_nodup_map hnd hm' hm ht]

theorem modalityOf_eq_none : modalityOf ms x = none ↔ ∀ m ∈ ms, m.target ≠ x := by
  simp [modalityOf]

theorem expandFrom_append (a b : List TokenId) : expandFrom ms before (a ++ b) =
    expandFrom ms before a ++ expandFrom ms (before ++ a) b := by
  induction a generalizing before with
  | nil => simp [expandFrom]
  | cons x a ih => simp [expandFrom, ih]

theorem expand_append (a b : List TokenId) : expand ms (a ++ b) = expand ms a ++ expandFrom ms a b :=
  expandFrom_append a b

/-! ## Matches -/

omit [DecidableEq α] in
theorem slice_one (l : List α) (i : ℕ) (y : α) : slice l i (i + 1) = [y] ↔ l[i]? = some y := by
  rw [slice, Nat.add_sub_cancel_left]
  cases hd : l.drop i with
  | nil =>
    rw [List.getElem?_eq_none (List.drop_eq_nil_iff.mp hd)]
    simp
  | cons z l' =>
    have hz : l[i]? = some z := by
      have := congrArg (·[0]?) hd
      simpa [List.getElem?_drop] using this
    simp [hz]

/-- The places of a token. -/
theorem iterMatchesLoop_single (y : α) (seq : List α) : ∀ (fuel i : ℕ), seq.length < fuel + i →
    iterMatchesLoop seq [y] fuel i =
      ((List.range' i (seq.length - i)).filter fun k => decide (seq[k]? = some y)).map fun k => ⟨k, k + 1⟩
  | 0, i, h => by
    rw [Nat.sub_eq_zero_of_le (by omega)]
    rfl
  | fuel + 1, i, h => by
    rw [iterMatchesLoop, List.length_singleton]
    by_cases hi : i < seq.length
    · have hrange : List.range' i (seq.length - i) =
          i :: List.range' (i + 1) (seq.length - (i + 1)) := by
        rw [show seq.length - i = seq.length - (i + 1) + 1 by omega, List.range'_succ]
      have ih := iterMatchesLoop_single y seq fuel (i + 1) (by omega)
      rw [if_pos (by omega), hrange]
      by_cases hy : seq[i]? = some y
      · rw [if_pos ((slice_one seq i y).mpr hy), List.filter_cons_of_pos (by simpa using hy), ih]
        rfl
      · rw [if_neg (fun h => hy ((slice_one seq i y).mp h)), List.filter_cons_of_neg (by simpa using hy),
          ih]
    · rw [if_neg (by omega), Nat.sub_eq_zero_of_le (by omega)]
      rfl

theorem iterTokenMatches_single (y : α) (seq : List α) : iterTokenMatches seq [y] =
    ((List.range seq.length).filter fun k => decide (seq[k]? = some y)).map fun k => ⟨k, k + 1⟩ := by
  rw [iterTokenMatches, if_neg (by simp), iterMatchesLoop_single y seq _ 0 (by omega),
    List.range_eq_range', Nat.sub_zero]

/-- The matches of all targets in the rest of a prompt, in the order of the prompt. -/
def matchesFrom (ms : List TargetModality) : ℕ → List TokenId → List PromptReplacementMatch
  | _, [] => []
  | i, x :: rest =>
    match modalityOf ms x with
    | some m => ⟨m.repl, i, i + 1⟩ :: matchesFrom ms (i + 1) rest
    | none => matchesFrom ms (i + 1) rest

theorem mem_matchesFrom {p : PromptReplacementMatch} : ∀ {tokens : List TokenId} {i : ℕ},
    p ∈ matchesFrom ms i tokens ↔ ∃ k x m, tokens[k]? = some x ∧ modalityOf ms x = some m ∧
      p = ⟨m.repl, i + k, i + k + 1⟩
  | [], i => by simp [matchesFrom]
  | x :: tokens, i => by
    have hsplit : (∃ k y m, (x :: tokens)[k]? = some y ∧ modalityOf ms y = some m ∧
        p = ⟨m.repl, i + k, i + k + 1⟩) ↔ (∃ m, modalityOf ms x = some m ∧ p = ⟨m.repl, i, i + 1⟩) ∨
        ∃ k y m, tokens[k]? = some y ∧ modalityOf ms y = some m ∧
          p = ⟨m.repl, i + 1 + k, i + 1 + k + 1⟩ := by
      constructor
      · rintro ⟨k, y, m, hk, hm, rfl⟩
        cases k with
        | zero =>
          cases hk
          exact Or.inl ⟨m, hm, rfl⟩
        | succ k => exact Or.inr ⟨k, y, m, hk, hm, by rw [Nat.add_assoc i 1 k, Nat.add_comm 1 k]⟩
      · rintro (⟨m, hm, rfl⟩ | ⟨k, y, m, hk, hm, rfl⟩)
        · exact ⟨0, x, m, rfl, hm, rfl⟩
        · exact ⟨k + 1, y, m, hk, hm, by rw [Nat.add_assoc i 1 k, Nat.add_comm 1 k]⟩
    rw [hsplit, matchesFrom]
    cases hx : modalityOf ms x with
    | none => simp [mem_matchesFrom]
    | some m => simp [mem_matchesFrom]

theorem le_of_mem_matchesFrom {p : PromptReplacementMatch} {i : ℕ} (h : p ∈ matchesFrom ms i tokens) :
    i ≤ p.startIdx := by
  obtain ⟨k, x, m, -, -, rfl⟩ := mem_matchesFrom.mp h
  exact Nat.le_add_right i k

theorem pairwise_matchesFrom : ∀ (tokens : List TokenId) (i : ℕ),
    (matchesFrom ms i tokens).Pairwise fun a b => a.startIdx < b.startIdx
  | [], _ => .nil
  | x :: tokens, i => by
    rw [matchesFrom]
    have ih := pairwise_matchesFrom tokens (i + 1)
    cases modalityOf ms x with
    | none => exact ih
    | some m => exact List.pairwise_cons.mpr ⟨fun b hb => le_of_mem_matchesFrom hb, ih⟩

/-- The matches of each modality. -/
def mmTokenMatches (ms : List TargetModality) (tokens : List TokenId) : List PromptReplacementMatch :=
  ms.flatMap fun m => findTokenMatches tokens [m.repl]

theorem findTokenMatches_target (m : TargetModality) (tokens : List TokenId) :
    findTokenMatches tokens [m.repl] = ((List.range tokens.length).filter fun k =>
      decide (tokens[k]? = some m.target)).map fun k => ⟨m.repl, k, k + 1⟩ := by
  rw [findTokenMatches, List.flatMap_cons, List.flatMap_nil, List.append_nil]
  change (iterTokenMatches tokens [m.target]).map _ = _
  rw [iterTokenMatches_single, List.map_map]
  rfl

theorem mem_mmTokenMatches (hnd : (ms.map (·.target)).Nodup) {p : PromptReplacementMatch} :
    p ∈ mmTokenMatches ms tokens ↔ p ∈ matchesFrom ms 0 tokens := by
  rw [mmTokenMatches, List.mem_flatMap, mem_matchesFrom]
  simp only [findTokenMatches_target, List.mem_map, List.mem_filter, List.mem_range, decide_eq_true_eq,
    Nat.zero_add]
  constructor
  · rintro ⟨m, hm, k, ⟨-, hk⟩, rfl⟩
    exact ⟨k, m.target, m, hk, (modalityOf_eq_some hnd).mpr ⟨hm, rfl⟩, rfl⟩
  · rintro ⟨k, x, m, hk, hx, rfl⟩
    obtain ⟨hm, rfl⟩ := (modalityOf_eq_some hnd).mp hx
    exact ⟨m, hm, k, ⟨(List.getElem?_eq_some_iff.mp hk).1, hk⟩, rfl⟩

theorem nodup_starts (hnd : (ms.map (·.target)).Nodup) (tokens : List TokenId) :
    ((mmTokenMatches ms tokens).map (·.startIdx)).Nodup := by
  rw [mmTokenMatches, List.map_flatMap, List.nodup_flatMap]
  have hmap : ∀ m : TargetModality, (findTokenMatches tokens [m.repl]).map (·.startIdx) =
      (List.range tokens.length).filter fun k => decide (tokens[k]? = some m.target) := by
    intro m
    rw [findTokenMatches_target, List.map_map]
    exact List.map_id _
  refine ⟨fun m _ => ?_, ?_⟩
  · rw [hmap]
    exact List.nodup_range.filter _
  · refine (List.pairwise_map.mp hnd).imp fun {a b} hab => ?_
    simp only [Function.onFun, hmap]
    intro k hka hkb
    simp only [List.mem_filter, decide_eq_true_eq] at hka hkb
    exact hab (Option.some.inj (hka.2.symm.trans hkb.2))

/-- **The matches, sorted**, are those of the prompt in its order. -/
theorem sortedBy_mmTokenMatches (hnd : (ms.map (·.target)).Nodup) {tokens : List TokenId}
    {l : List PromptReplacementMatch} (hl : l.Perm (mmTokenMatches ms tokens)) :
    sortedBy (·.startIdx) l = matchesFrom ms 0 tokens := by
  have hstarts := nodup_starts hnd tokens
  have hsorted : (matchesFrom ms 0 tokens).Pairwise fun a b => a.startIdx ≤ b.startIdx :=
    (pairwise_matchesFrom tokens 0).imp fun h => h.le
  have hnodup : (matchesFrom ms 0 tokens).Nodup :=
    (pairwise_matchesFrom tokens 0).imp fun {a b} (h : a.startIdx < b.startIdx) e => by
      rw [e] at h
      exact lt_irrefl _ h
  have hperm : (mmTokenMatches ms tokens).Perm (matchesFrom ms 0 tokens) :=
    (List.perm_ext_iff_of_nodup (List.Nodup.of_map _ hstarts) hnodup).mpr fun p =>
      mem_mmTokenMatches hnd
  have hanti : ∀ a b, a ∈ sortedBy (·.startIdx) l → b ∈ matchesFrom ms 0 tokens →
      a.startIdx ≤ b.startIdx → b.startIdx ≤ a.startIdx → a = b := by
    intro a b ha hb hab hba
    have ha' := hl.mem_iff.mp (mem_sortedBy.mp ha)
    have hb' := hperm.mem_iff.mpr hb
    exact List.inj_on_of_nodup_map hstarts ha' hb' (le_antisymm hab hba)
  exact List.Perm.eq_of_pairwise hanti (pairwise_sortedBy _ _) hsorted
    ((perm_sortedBy _ _).trans (hl.trans hperm))

/-- Matches of one place each, all different, do not overlap. -/
theorem foldlM_markMatch : ∀ {l : List PromptReplacementMatch}
    {seen : List (Option PromptReplacementMatch)},
    (∀ p ∈ l, p.endIdx = p.startIdx + 1 ∧ seen[p.startIdx]? = some none) →
    (l.map (·.startIdx)).Nodup → ∃ seen', l.foldlM markMatch seen = .ok seen'
  | [], seen, _, _ => ⟨seen, rfl⟩
  | p :: l, seen, h, hnd => by
    obtain ⟨hend, hfree⟩ := h p List.mem_cons_self
    rw [List.map_cons, List.nodup_cons] at hnd
    have hone : markMatch seen p = .ok (seen.set p.startIdx (some p)) := by
      rw [markMatch, hend, Nat.add_sub_cancel_left, List.range'_one, List.foldlM_cons]
      simp only [markIdx, hfree, ok_bind]
      rfl
    rw [List.foldlM_cons, hone, ok_bind]
    refine foldlM_markMatch (fun q hq => ?_) hnd.2
    have hne : p.startIdx ≠ q.startIdx := fun e => hnd.1 (e ▸ List.mem_map_of_mem hq)
    obtain ⟨hqend, hqfree⟩ := h q (List.mem_cons_of_mem _ hq)
    exact ⟨hqend, by rw [List.getElem?_set_ne hne]; exact hqfree⟩

/-- **Resolving** the matches of the targets. -/
theorem resolveMatches_targets (hnd : (ms.map (·.target)).Nodup) {tokens : List TokenId}
    {mmMatches : Dict String (List PromptReplacementMatch)}
    (hmatches : mmMatches.values.flatten.Perm (mmTokenMatches ms tokens)) :
    resolveMatches tokens mmMatches = .ok (matchesFrom ms 0 tokens) := by
  have hmark : ∃ seen, mmMatches.values.flatten.foldlM markMatch
      (List.replicate tokens.length none) = .ok seen := by
    refine foldlM_markMatch (fun p hp => ?_)
      ((hmatches.map _).nodup_iff.mpr (nodup_starts hnd tokens))
    obtain ⟨k, x, m, hk, -, rfl⟩ :=
      mem_matchesFrom.mp ((mem_mmTokenMatches hnd).mp (hmatches.mem_iff.mp hp))
    refine ⟨rfl, ?_⟩
    have hlt := (List.getElem?_eq_some_iff.mp hk).1
    simp only [Nat.zero_add]
    rw [List.getElem?_replicate, if_pos hlt]
  obtain ⟨seen, hseen⟩ := hmark
  rw [resolveMatches]
  simp only [hseen, ok_bind, sortedBy_mmTokenMatches hnd hmatches]

/-! ## Replacing -/

/-- The counters of a loop that is behind `before`. -/
def CountedTo (ms : List TargetModality) (before : List TokenId) (d : Dict String ℕ) : Prop :=
  ∀ m ∈ ms, countOf d m.name = before.count m.target

theorem counted_empty (ms : List TargetModality) : CountedTo ms [] .empty := fun _ _ => rfl

theorem countOf_set (d : Dict String ℕ) (k k' : String) (n : ℕ) :
    countOf (d.set k n) k' = if k' = k then n else countOf d k' := by
  rw [countOf, Dict.get?_set]
  split_ifs <;> rfl

/-- Behind a target its counter is one further. -/
theorem CountedTo.target {d : Dict String ℕ} (h : CountedTo ms before d) (hnames : (ms.map (·.name)).Nodup)
    (htargets : (ms.map (·.target)).Nodup) (hm : m ∈ ms) :
    CountedTo ms (before ++ [m.target]) (d.set m.name (countOf d m.name + 1)) := by
  intro m' hm'
  rw [countOf_set, List.count_append, List.count_singleton]
  by_cases hmm : m' = m
  · subst hmm
    simp [h m' hm]
  · have hname : m'.name ≠ m.name := fun e => hmm (List.inj_on_of_nodup_map hnames hm' hm e)
    have htarget : m.target ≠ m'.target := fun e => hmm (List.inj_on_of_nodup_map htargets hm hm' e).symm
    simp [hname, htarget, h m' hm']

theorem CountedTo.other {d : Dict String ℕ} (h : CountedTo ms before d) (hx : modalityOf ms x = none) :
    CountedTo ms (before ++ [x]) d := by
  intro m hm
  have hne := modalityOf_eq_none.mp hx m hm
  rw [List.count_append, List.count_singleton, h m hm]
  simp [Ne.symm hne]

omit [DecidableEq α] in
theorem slice_concat (done : List α) (y : α) (l : List α) {i : ℕ} (hi : i ≤ done.length) :
    slice (done ++ y :: l) i (done.length + 1) = slice (done ++ y :: l) i done.length ++ [y] := by
  have hlen : (done.drop i).length = done.length - i := List.length_drop
  have hone : done.length + 1 - i = (done.drop i).length + 1 := by omega
  rw [slice, slice, List.drop_append_of_le_length hi, hone, ← hlen, List.take_length_add_append,
    List.take_left]
  rfl

/-- The loop over the matches in the rest of the prompt. -/
theorem replace_loop (hnames : (ms.map (·.name)).Nodup) (htargets : (ms.map (·.target)).Nodup)
    {prompt : List TokenId} {counts : Dict String ℕ}
    (hcounts : ∀ m ∈ ms, countOf counts m.name = prompt.count m.target) :
    ∀ (rest before : List TokenId) (st : ReplaceState TokenId), prompt = before ++ rest →
      st.prevEndIdx ≤ before.length → CountedTo ms before st.nextIdxByModality →
      let st' := (matchesFrom ms before.length rest).foldl (replaceRound prompt counts (·.full)) st
      (st'.outSeqs ++ [prompt.drop st'.prevEndIdx]).flatten =
        st.outSeqs.flatten ++ slice prompt st.prevEndIdx before.length ++ expandFrom ms before rest
  | [], before, st, hp, hle, _ => by
    rw [List.append_nil] at hp
    subst hp
    simp [matchesFrom, expandFrom, slice, List.take_of_length_le]
  | x :: rest, before, st, hp, hle, hc => by
    have hp' : prompt = (before ++ [x]) ++ rest := by rw [hp]; simp
    have hlen : (before ++ [x]).length = before.length + 1 := by simp
    simp only [matchesFrom, expandFrom, segment]
    cases hx : modalityOf ms x with
    | none =>
      have ih := replace_loop hnames htargets hcounts rest _ st hp' (by rw [hlen]; omega) (hc.other hx)
      rw [hlen] at ih
      simp only at ih ⊢
      rw [ih]
      have hslice := slice_concat before x rest hle
      rw [← hp] at hslice
      rw [hslice]
      simp only [List.append_assoc]
    | some m =>
      obtain ⟨hm, rfl⟩ := (modalityOf_eq_some htargets).mp hx
      have hidx := hc m hm
      have hroom : ¬ countOf counts m.name ≤ countOf st.nextIdxByModality m.name := by
        rw [hidx, hcounts m hm, hp, List.count_append, List.count_cons_self]
        omega
      have hround : replaceRound prompt counts (·.full) st ⟨m.repl, before.length, before.length + 1⟩ =
          { outSeqs := st.outSeqs ++
              [slice prompt st.prevEndIdx before.length ++ m.full (before.count m.target)]
            prevEndIdx := before.length + 1
            nextIdxByModality := st.nextIdxByModality.set m.name
              (countOf st.nextIdxByModality m.name + 1) } := by
        rw [← hidx]
        exact if_neg hroom
      rw [List.foldl_cons, hround]
      have ih := replace_loop hnames htargets hcounts rest (before ++ [m.target])
        { outSeqs := st.outSeqs ++
            [slice prompt st.prevEndIdx before.length ++ m.full (before.count m.target)]
          prevEndIdx := before.length + 1
          nextIdxByModality := st.nextIdxByModality.set m.name
            (countOf st.nextIdxByModality m.name + 1) } hp' (by rw [hlen])
        (hc.target hnames htargets hm)
      rw [hlen] at ih
      simp only at ih ⊢
      rw [ih]
      simp [slice]

/-- The matches of all modalities, as `_apply_prompt_replacements` collects them. -/
def mmTokenMatchesOf (mmPromptRepls : Dict String (List PromptReplacement)) (tokenIds : List TokenId) :
    Dict String (List PromptReplacementMatch) :=
  mmPromptRepls.mapValues fun _ promptRepls => findTokenMatches tokenIds promptRepls

/-- The replacements of modalities with one target each. -/
def promptReplsOf (ms : List TargetModality) (hnames : (ms.map (·.name)).Nodup) :
    Dict String (List PromptReplacement) where
  entries := ms.map fun m => (m.name, [m.repl])
  nodup := by rw [List.map_map]; exact hnames

theorem values_mmTokenMatchesOf (hnames : (ms.map (·.name)).Nodup) (tokens : List TokenId) :
    (mmTokenMatchesOf (promptReplsOf ms hnames) tokens).values.flatten = mmTokenMatches ms tokens := by
  rw [mmTokenMatches, List.flatMap_def]
  simp only [mmTokenMatchesOf, Dict.values, Dict.mapValues, promptReplsOf, List.map_map]
  rfl

/-- **Replacing** the targets of a prompt that has as many of them as there are items. -/
theorem replaceTokenMatches_targets (hnames : (ms.map (·.name)).Nodup)
    (htargets : (ms.map (·.target)).Nodup) {prompt : List TokenId} {counts : Dict String ℕ}
    (hcounts : ∀ m ∈ ms, countOf counts m.name = prompt.count m.target)
    {mmMatches : Dict String (List PromptReplacementMatch)}
    (hmatches : mmMatches.values.flatten.Perm (mmTokenMatches ms prompt)) :
    replaceTokenMatches prompt mmMatches counts = .ok (expand ms prompt) := by
  rw [replaceTokenMatches]
  have hloop := replace_loop hnames htargets hcounts prompt [] ⟨[], 0, .empty⟩ rfl (Nat.le_refl 0)
    (counted_empty ms)
  split_ifs with hnil
  · -- without matches nothing is replaced
    have hnone : mmTokenMatches ms prompt = [] := by
      rw [Dict.values, hnil] at hmatches
      exact hmatches.nil_eq.symm
    have hfrom : matchesFrom ms 0 prompt = [] := List.eq_nil_iff_forall_not_mem.mpr fun p hp => by
      rw [← mem_mmTokenMatches htargets, hnone] at hp
      cases hp
    simp only [List.length_nil, hfrom, List.foldl_nil] at hloop
    simpa [expand, slice] using hloop
  · rw [replaceMatches, resolveMatches_targets htargets hmatches]
    simp only [ok_bind]
    simp only [List.length_nil] at hloop
    rw [hloop]
    simp [expand, slice]

end SpaceServe
