import Mathlib.Data.List.DropRight
import SpaceServe.Lib.Substring
import SpaceServe.Engine.Frontend

/-!
# The incremental detokenizer

`IncrementalDetokenizer` of `vllm/v1/engine/detokenizer.py` with `StopChecker.check_stop_strings`. The
text of a request grows with every output. When a stop string shows up, the text is cut there and the
request is finished; until then, text that may still turn out to be part of a stop string is held back.

Texts are lists of characters. The tokenizer's own functions are parameters.

* `Tokenizer`, `detokenizeIncrementally`, `Decoder`: tokens to text;
* `checkStopStrings`, `IncrementalDetokenizer`, `updateFromOutput`, `run`: the model;
* `stopAt`, `kept`: what a text with a stop string is cut to; `checkStopStrings_eq`;
* `Advanced`, `Holding.advance`: what an output does to the text;
* **`delta_texts_add_up`**.
-/

set_option autoImplicit false

namespace SpaceServe

open Py

/-! ## Tokens to text -/

/-- A tokenizer, as far as the functions of `detokenizer_utils` read it. Every id of its vocabulary has a
token: for one that has none `detokenize_incrementally` raises. -/
structure Tokenizer where
  size : ℕ
  isFast : Bool
  allSpecialTokens : List String
  addedVocab : List String
  convertIdsToTokens : List TokenId → Bool → List (Option String)
  convertTokensToString : List String → List Char
  isSome_token : ∀ id < size, ∀ skip, ∀ token ∈ convertIdsToTokens [id] skip, token.isSome = true

/-- The loop of `_convert_tokens_to_string_with_added_encoders`. -/
def subTexts (tokenizer : Tokenizer) (skipSpecialTokens : Bool) (currentSubText : List String) :
    List String → List (List Char)
  | [] =>
    if currentSubText ≠ [] then [tokenizer.convertTokensToString currentSubText] else []
  | token :: rest =>
    if skipSpecialTokens ∧ token ∈ tokenizer.allSpecialTokens then
      subTexts tokenizer skipSpecialTokens currentSubText rest
    else if token ∈ tokenizer.addedVocab then
      (if currentSubText ≠ [] then [tokenizer.convertTokensToString currentSubText] else []) ++
        token.toList :: subTexts tokenizer skipSpecialTokens [] rest
    else subTexts tokenizer skipSpecialTokens (currentSubText ++ [token]) rest

/-- `_convert_tokens_to_string_with_added_encoders`. -/
def convertTokensToStringWithAddedEncoders (tokenizer : Tokenizer) (outputTokens : List String)
    (skipSpecialTokens spacesBetweenSpecialTokens : Bool) : List Char :=
  let texts := subTexts tokenizer skipSpecialTokens [] outputTokens
  if spacesBetweenSpecialTokens then [' '].intercalate texts else texts.flatten

/-- `INITIAL_INCREMENTAL_DETOKENIZATION_OFFSET`. -/
def initialIncrementalDetokenizationOffset : ℕ := 5

/-- `convert_prompt_ids_to_tokens`. -/
def convertPromptIdsToTokens (tokenizer : Tokenizer) (promptIds : List TokenId)
    (skipSpecialTokens : Bool) : List String × ℕ × ℕ :=
  let newTokens := tokenizer.convertIdsToTokens
    (promptIds.rtake (initialIncrementalDetokenizationOffset + 2)) skipSpecialTokens
  let readOffset := newTokens.length
  (newTokens.map (·.getD ""), readOffset - initialIncrementalDetokenizationOffset, readOffset)

/-- `detokenize_incrementally`, with the tokens so far. The ids are never empty, and the last one has a token
if it is below `len(tokenizer)`. -/
def detokenizeIncrementally (tokenizer : Tokenizer) (allInputIds : List TokenId)
    (prevTokens : List String) (prefixOffset readOffset : ℕ)
    (skipSpecialTokens spacesBetweenSpecialTokens : Bool) : List String × List Char × ℕ × ℕ :=
  let newTokenId := allInputIds.getLastD 0
  let newTokens := if newTokenId < tokenizer.size then
    (tokenizer.convertIdsToTokens [newTokenId] skipSpecialTokens).map (·.getD "") else [""]
  let outputTokens := prevTokens ++ newTokens
  let toString := fun tokens => if tokenizer.isFast ∨ tokenizer.addedVocab = [] then
      tokenizer.convertTokensToString tokens
    else convertTokensToStringWithAddedEncoders tokenizer tokens skipSpecialTokens
      spacesBetweenSpecialTokens
  let prefixText := toString (slice outputTokens prefixOffset readOffset)
  let newText := toString (outputTokens.drop prefixOffset)
  if newText.length ≤ prefixText.length ∨ newText.getLast? = some '\uFFFD' then
    (newTokens, [], prefixOffset, readOffset)
  else (newTokens, newText.drop prefixText.length, readOffset, outputTokens.length)

/-- What the detokenizer uses to turn tokens into text. -/
structure Decoder where
  convertPromptIdsToTokens : List TokenId → Bool → List String × ℕ × ℕ
  detokenizeIncrementally : List TokenId → List String → ℕ → ℕ → Bool → Bool →
    List String × List Char × ℕ × ℕ

/-- The functions of `detokenizer_utils`. -/
def Tokenizer.decoder (tokenizer : Tokenizer) : Decoder where
  convertPromptIdsToTokens := SpaceServe.convertPromptIdsToTokens tokenizer
  detokenizeIncrementally := SpaceServe.detokenizeIncrementally tokenizer

/-! ## The model -/

/-- `RequestOutputKind`. -/
inductive RequestOutputKind
  | cumulative
  | delta
  | finalOnly
deriving DecidableEq

/-- The fields of `SamplingParams` that the detokenizer reads. `_verify_args` refuses empty stop
strings. -/
structure TextParams where
  stop : List String
  includeStopStrInOutput : Bool
  skipSpecialTokens : Bool
  spacesBetweenSpecialTokens : Bool
  outputKind : RequestOutputKind
  stop_ne : ∀ s ∈ stop, s ≠ ""

/-- One round of the loop of `check_stop_strings`: where to cut, if the stop string is there. `none`
for `-1`: no truncation required. -/
def checkStopString (outputText : List Char) (newCharCount : ℕ) (includeInOutput : Bool)
    (stopStr : String) : Option (Option ℕ) :=
  let stopStringLen := stopStr.length
  -- Avoid searching already-searched text.
  match find outputText stopStr.toList (-newCharCount - stopStringLen) with
  | none => none
  | some stopIndex =>
    if includeInOutput then
      if stopIndex + stopStringLen ≥ outputText.length then some none
      else some (some (stopIndex + stopStringLen))
    else some (some stopIndex)

/-- `StopChecker.check_stop_strings`. -/
def checkStopStrings (outputText : List Char) (newCharCount : ℕ) (stop : List String)
    (includeInOutput : Bool) : Option (String × Option ℕ) :=
  if newCharCount = 0 ∨ stop = [] then none
  else stop.findSome? fun stopStr =>
    (checkStopString outputText newCharCount includeInOutput stopStr).map (stopStr, ·)

/-- `IncrementalDetokenizer`. -/
structure IncrementalDetokenizer where
  outputText : List Char
  tokens : List String
  tokenIds : List TokenId
  promptLen : ℕ
  stop : List String
  includeStopStrInOutput : Bool
  prefixOffset : ℕ
  readOffset : ℕ
  skipSpecialTokens : Bool
  spacesBetweenSpecialTokens : Bool
  outputKind : RequestOutputKind
  stopBufferLength : ℕ
  lastOutputTextOffset : ℕ

namespace IncrementalDetokenizer

variable (decoder : Decoder)

/-- `from_new_request`. -/
def fromNewRequest (promptTokenIds : List TokenId) (params : TextParams) : IncrementalDetokenizer :=
  let (tokens, prefixOffset, readOffset) :=
    decoder.convertPromptIdsToTokens promptTokenIds params.skipSpecialTokens
  { outputText := []
    tokens := tokens
    tokenIds := promptTokenIds
    promptLen := promptTokenIds.length
    stop := params.stop
    includeStopStrInOutput := params.includeStopStrInOutput
    prefixOffset := prefixOffset
    readOffset := readOffset
    skipSpecialTokens := params.skipSpecialTokens
    spacesBetweenSpecialTokens := params.spacesBetweenSpecialTokens
    outputKind := params.outputKind
    -- Number of chars to hold back when stop strings are to be excluded from streamed output.
    stopBufferLength := if params.stop ≠ [] ∧ ¬ params.includeStopStrInOutput then
      (params.stop.map String.length).foldl max 0 - 1 else 0
    lastOutputTextOffset := 0 }

/-- `output_token_ids`. -/
def outputTokenIds (d : IncrementalDetokenizer) : List TokenId := d.tokenIds.drop d.promptLen

/-- One round of step 1 of `update_from_output`: the text of a token, and the detokenizer with it. -/
def detokenizeToken (d : IncrementalDetokenizer) (newTokenId : TokenId) :
    List Char × IncrementalDetokenizer :=
  let tokenIds := d.tokenIds ++ [newTokenId]
  let (newTokens, newDecodedTokenText, prefixOffset, readOffset) :=
    decoder.detokenizeIncrementally tokenIds d.tokens d.prefixOffset d.readOffset
      d.skipSpecialTokens d.spacesBetweenSpecialTokens
  (newDecodedTokenText,
    { d with
      tokenIds := tokenIds
      tokens := d.tokens ++ newTokens
      prefixOffset := prefixOffset
      readOffset := readOffset
      outputText := d.outputText ++ newDecodedTokenText })

/-- Step 1 of `update_from_output`: the text of the new tokens. -/
def detokenize : List TokenId → IncrementalDetokenizer → List Char × IncrementalDetokenizer
  | [], d => ([], d)
  | newTokenId :: rest, d =>
    let (newDecodedTokenText, d) := d.detokenizeToken decoder newTokenId
    let (decodedText, d) := detokenize rest d
    (newDecodedTokenText ++ decodedText, d)

/-- Step 2 of `update_from_output`: the stop criteria. -/
def evaluateStop (d : IncrementalDetokenizer) (decodedText : List Char) (output : EngineCoreOutput) :
    IncrementalDetokenizer × Option FinishReason × Option (TokenId ⊕ String) :=
  match checkStopStrings d.outputText decodedText.length d.stop d.includeStopStrInOutput with
  | none => (d, output.finishReason, output.stopReason.map Sum.inl)
  | some (stopStr, none) => (d, some .stop, some (.inr stopStr))
  | some (stopStr, some truncateTo) =>
    ({ d with outputText := d.outputText.take truncateTo }, some .stop, some (.inr stopStr))

/-- `_get_next_output_text`. -/
def getNextOutputText (d : IncrementalDetokenizer) (finished delta : Bool) :
    List Char × IncrementalDetokenizer :=
  -- We return the full output text if the sequence is finished.
  let bufferLength := if finished then 0 else d.stopBufferLength
  if ¬ delta then (d.outputText.rdrop bufferLength, d)
  else
    let length := d.outputText.length - bufferLength
    if d.lastOutputTextOffset < length then
      (slice d.outputText d.lastOutputTextOffset length, { d with lastOutputTextOffset := length })
    else ([], d)

/-- Step 3 of `update_from_output`: the result. -/
def makeOutput (d : IncrementalDetokenizer) (newTokenIds : List TokenId)
    (finishReason : Option FinishReason) (stopReason : Option (TokenId ⊕ String)) :
    Option DetokenizerOutput × IncrementalDetokenizer :=
  let finished := finishReason.isSome
  if d.outputKind = .finalOnly ∧ ¬ finished then (none, d)
  else
    let delta := d.outputKind = .delta
    let (outputText, d) := d.getNextOutputText finished delta
    let tokenIds := if delta then newTokenIds else d.outputTokenIds
    (some ⟨String.ofList outputText, tokenIds, finished, finishReason, stopReason⟩, d)

/-- The first two steps of `update_from_output`. -/
def advance (d : IncrementalDetokenizer) (output : EngineCoreOutput) :
    IncrementalDetokenizer × Option FinishReason × Option (TokenId ⊕ String) :=
  let (decodedText, d) := d.detokenize decoder output.newTokenIds
  d.evaluateStop decodedText output

/-- `update_from_output`. -/
def updateFromOutput (d : IncrementalDetokenizer) (output : EngineCoreOutput) :
    Option DetokenizerOutput × IncrementalDetokenizer :=
  let (d, finishReason, stopReason) := d.advance decoder output
  d.makeOutput output.newTokenIds finishReason stopReason

/-- What a request gets: `process_outputs` drops it with the result that finishes it. -/
def run : IncrementalDetokenizer → List EngineCoreOutput →
    List DetokenizerOutput × IncrementalDetokenizer
  | d, [] => ([], d)
  | d, output :: rest =>
    match d.updateFromOutput decoder output with
    | (none, d) => d.run rest
    | (some out, d) =>
      if out.finished then ([out], d)
      else
        let (outs, d) := d.run rest
        (out :: outs, d)

end IncrementalDetokenizer

/-! ## Stop strings -/

/-- No stop string occurs in the text. -/
def Clean (stop : List String) (text : List Char) : Prop := ∀ s ∈ stop, ¬ s.toList <:+: text

/-- The first stop string of the list that occurs in the text, with its first place. -/
def stopAt (stop : List String) (text : List Char) : Option (String × ℕ) :=
  stop.findSome? fun s => (findFrom text s.toList 0).map (s, ·)

/-- The length to which a text is cut. -/
def cutAt (includeInOutput : Bool) (s : String) (i : ℕ) : ℕ :=
  if includeInOutput then i + s.length else i

/-- What is left of a text. -/
def kept (includeInOutput : Bool) (stop : List String) (text : List Char) : List Char :=
  match stopAt stop text with
  | none => text
  | some (s, i) => text.take (cutAt includeInOutput s i)

theorem findSome?_congr {α β : Type} {f g : α → Option β} {l : List α} (h : ∀ a ∈ l, f a = g a) :
    l.findSome? f = l.findSome? g := by
  induction l with
  | nil => rfl
  | cons a l ih =>
    rw [List.findSome?_cons, List.findSome?_cons, h a List.mem_cons_self,
      ih fun b hb => h b (List.mem_cons_of_mem a hb)]

variable {stop : List String} {text old new : List Char} {includeInOutput : Bool} {s : String} {i : ℕ}

theorem stopAt_eq_none_iff : stopAt stop text = none ↔ Clean stop text := by
  rw [stopAt, List.findSome?_eq_none_iff]
  refine forall₂_congr fun s _ => ?_
  rw [Option.map_eq_none_iff, ← findFrom_isSome_iff, Bool.not_eq_true, Option.isSome_eq_false_iff,
    Option.isNone_iff_eq_none]

theorem mem_of_stopAt (h : stopAt stop text = some (s, i)) :
    s ∈ stop ∧ findFrom text s.toList 0 = some i := by
  obtain ⟨s', hmem, h⟩ := List.exists_of_findSome?_eq_some h
  obtain ⟨j, hj, h⟩ := Option.map_eq_some_iff.mp h
  cases h
  exact ⟨hmem, hj⟩

theorem occursAt_of_stopAt (h : stopAt stop text = some (s, i)) : OccursAt s.toList text i :=
  (findFrom_eq_some_iff.mp (mem_of_stopAt h).2).2.1

/-- A stop string that is new reaches into the new text. -/
theorem Clean.lt_of_occursAt (hclean : Clean stop old) (hs : s ∈ stop)
    (hocc : OccursAt s.toList (old ++ new) i) : old.length < i + s.length := by
  by_contra hle
  rw [← String.length_toList] at hle
  exact hclean s hs (infix_iff_occursAt.mpr ⟨i, hocc.of_append (not_lt.mp hle)⟩)

/-- The search begins early enough. -/
theorem Clean.find_eq (hclean : Clean stop old) (hs : s ∈ stop) (hnew : new ≠ []) :
    find (old ++ new) s.toList (-new.length - s.length) = findFrom (old ++ new) s.toList 0 := by
  have hpos : 0 < new.length := List.length_pos_of_ne_nil hnew
  rw [find, if_pos (by omega)]
  apply findFrom_eq_zero
  intro j hj
  have := hclean.lt_of_occursAt hs hj
  rw [List.length_append]
  omega

/-- **The search in the new text** finds what a search in the whole text would. -/
theorem checkStopStrings_eq (hclean : Clean stop old) :
    checkStopStrings (old ++ new) new.length stop includeInOutput =
      (stopAt stop (old ++ new)).map fun p => (p.1,
        if includeInOutput = true ∧ (old ++ new).length ≤ p.2 + p.1.length then none
        else some (cutAt includeInOutput p.1 p.2)) := by
  rw [checkStopStrings]
  split_ifs with hnone
  · have : stopAt stop (old ++ new) = none := by
      rw [stopAt_eq_none_iff]
      obtain h | rfl := hnone
      · rwa [List.eq_nil_of_length_eq_zero h, List.append_nil]
      · intro s hs
        cases hs
    rw [this, Option.map_none]
  · have hnew : new ≠ [] := fun h => hnone (Or.inl (h ▸ rfl))
    have hround : ∀ s ∈ stop, (checkStopString (old ++ new) new.length includeInOutput s).map (s, ·) =
        ((findFrom (old ++ new) s.toList 0).map (s, ·)).map fun p => (p.1,
          if includeInOutput = true ∧ (old ++ new).length ≤ p.2 + p.1.length then none
          else some (cutAt includeInOutput p.1 p.2)) := by
      intro s hs
      rw [checkStopString, hclean.find_eq hs hnew]
      cases findFrom (old ++ new) s.toList 0 with
      | none => rfl
      | some i =>
        cases includeInOutput with
        | false => rfl
        | true =>
          simp only [if_true, true_and, Option.map_some, cutAt, ge_iff_le]
          split_ifs <;> rfl
    rw [stopAt, List.map_findSome?]
    exact findSome?_congr hround

/-- The text of a stop is cut where its stop string begins or ends. -/
theorem length_kept (h : stopAt stop text = some (s, i)) :
    (kept includeInOutput stop text).length = cutAt includeInOutput s i := by
  have hle := (occursAt_of_stopAt h).add_le
  rw [String.length_toList] at hle
  rw [kept, h]
  apply List.length_take_of_le
  cases includeInOutput with
  | false => exact (Nat.le_add_right i _).trans hle
  | true => exact hle

theorem kept_isPrefix (includeInOutput : Bool) (stop : List String) (text : List Char) :
    kept includeInOutput stop text <+: text := by
  rw [kept]
  split
  · exact List.prefix_rfl
  · exact List.take_prefix _ _

namespace IncrementalDetokenizer

/-! ## One output -/

variable (decoder : Decoder)

/-- The detokenizer of a request of another kind. -/
def withKind (d : IncrementalDetokenizer) (kind : RequestOutputKind) (offset : ℕ) :
    IncrementalDetokenizer :=
  { d with outputKind := kind, lastOutputTextOffset := offset }

variable {d d' : IncrementalDetokenizer} {decoder}

theorem detokenize_withKind (kind : RequestOutputKind) (offset : ℕ) :
    ∀ (ids : List TokenId) (d : IncrementalDetokenizer),
      (d.withKind kind offset).detokenize decoder ids =
        ((d.detokenize decoder ids).1, (d.detokenize decoder ids).2.withKind kind offset)
  | [], _ => rfl
  | id :: rest, d => by
    have hround : (d.withKind kind offset).detokenizeToken decoder id =
        ((d.detokenizeToken decoder id).1, (d.detokenizeToken decoder id).2.withKind kind offset) := rfl
    simp only [detokenize, hround, detokenize_withKind kind offset rest]

/-- Neither step asks for the kind of the request. -/
theorem advance_withKind (kind : RequestOutputKind) (offset : ℕ) (output : EngineCoreOutput) :
    (d.withKind kind offset).advance decoder output =
      ((d.advance decoder output).1.withKind kind offset, (d.advance decoder output).2) := by
  rw [advance, detokenize_withKind, advance]
  generalize d.detokenize decoder output.newTokenIds = x
  simp only [evaluateStop, withKind]
  cases checkStopStrings x.2.outputText x.1.length x.2.stop x.2.includeStopStrInOutput with
  | none => rfl
  | some p =>
    obtain ⟨stopStr, truncateTo⟩ := p
    cases truncateTo <;> rfl

variable (decoder) in
/-- The new text is appended, and the parameters stay. -/
theorem detokenize_spec : ∀ (ids : List TokenId) (d : IncrementalDetokenizer),
    (d.detokenize decoder ids).2.outputText = d.outputText ++ (d.detokenize decoder ids).1 ∧
    (d.detokenize decoder ids).2.stop = d.stop ∧
    (d.detokenize decoder ids).2.includeStopStrInOutput = d.includeStopStrInOutput ∧
    (d.detokenize decoder ids).2.stopBufferLength = d.stopBufferLength
  | [], d => ⟨(List.append_nil _).symm, rfl, rfl, rfl⟩
  | id :: rest, d => by
    obtain ⟨htext, hstop, hinc, hbuf⟩ := detokenize_spec rest (d.detokenizeToken decoder id).2
    refine ⟨?_, hstop, hinc, hbuf⟩
    simp only [detokenize, htext, ← List.append_assoc]
    rfl

/-- A detokenizer that goes on: no stop string has come up yet, and enough text is held back for those
that are excluded. -/
structure Holding (d : IncrementalDetokenizer) : Prop where
  clean : Clean d.stop d.outputText
  buffer : d.includeStopStrInOutput = false → ∀ s ∈ d.stop, s.length ≤ d.stopBufferLength + 1

/-- The text with an output's piece: cut at a stop string, which finishes the request. -/
structure Advanced (d : IncrementalDetokenizer) (piece : List Char) (finishReason : Option FinishReason)
    (r : IncrementalDetokenizer × Option FinishReason × Option (TokenId ⊕ String)) : Prop where
  outputText : r.1.outputText = kept d.includeStopStrInOutput d.stop (d.outputText ++ piece)
  finishReason : r.2.1 = if (stopAt d.stop (d.outputText ++ piece)).isSome then some .stop
    else finishReason
  stop : r.1.stop = d.stop
  included : r.1.includeStopStrInOutput = d.includeStopStrInOutput
  buffer : r.1.stopBufferLength = d.stopBufferLength

variable (decoder) in
/-- **An output** adds its piece. -/
theorem Holding.advance (h : d.Holding) (output : EngineCoreOutput) :
    Advanced d (d.detokenize decoder output.newTokenIds).1 output.finishReason
      (d.advance decoder output) := by
  obtain ⟨htext, hstop, hinc, hbuf⟩ := detokenize_spec decoder output.newTokenIds d
  rw [IncrementalDetokenizer.advance]
  generalize d.detokenize decoder output.newTokenIds = x at *
  obtain ⟨piece, d₁⟩ := x
  simp only at htext hstop hinc hbuf ⊢
  simp only [evaluateStop, htext, hstop, hinc, checkStopStrings_eq h.clean]
  cases hat : stopAt d.stop (d.outputText ++ piece) with
  | none =>
    refine ⟨?_, ?_, hstop, hinc, hbuf⟩
    · rw [kept, hat]
      exact htext
    · rw [hat]
      rfl
  | some p =>
    obtain ⟨s, i⟩ := p
    simp only [Option.map_some]
    split_ifs with hend
    · refine ⟨?_, ?_, hstop, hinc, hbuf⟩
      · simp only [htext, kept, hat, cutAt, hend.1, if_true]
        exact (List.take_of_length_le hend.2).symm
      · rw [hat]
        rfl
    · refine ⟨?_, ?_, rfl, rfl, hbuf⟩
      · rw [kept, hat]
      · rw [hat]
        rfl

variable {piece : List Char} {finishReason : Option FinishReason}
  {r : IncrementalDetokenizer × Option FinishReason × Option (TokenId ⊕ String)}

/-- A request that goes on has all its text. -/
theorem Advanced.going (ha : Advanced d piece finishReason r) (h : d.Holding) (hr : r.2.1 = none) :
    r.1.Holding ∧ d.outputText <+: r.1.outputText := by
  have hat : stopAt d.stop (d.outputText ++ piece) = none := by
    rw [ha.finishReason] at hr
    cases hat : stopAt d.stop (d.outputText ++ piece) with
    | none => rfl
    | some p =>
      rw [hat] at hr
      cases hr
  have htext : r.1.outputText = d.outputText ++ piece := by rw [ha.outputText, kept, hat]
  refine ⟨⟨?_, ?_⟩, ?_⟩
  · rw [ha.stop, htext]
    exact stopAt_eq_none_iff.mp hat
  · rw [ha.stop, ha.included, ha.buffer]
    exact h.buffer
  · rw [htext]
    exact List.prefix_append _ _

/-- **No text is taken back**: a stop string cuts off only what was held back. -/
theorem Advanced.shown (ha : Advanced d piece finishReason r) (h : d.Holding) :
    d.outputText.rdrop d.stopBufferLength <+: r.1.outputText := by
  have hold : d.outputText.rdrop d.stopBufferLength <+: d.outputText ++ piece :=
    (List.take_prefix _ _).trans (List.prefix_append _ _)
  rw [ha.outputText]
  cases hat : stopAt d.stop (d.outputText ++ piece) with
  | none => rwa [kept, hat]
  | some p =>
    obtain ⟨s, i⟩ := p
    obtain ⟨hs, -⟩ := mem_of_stopAt hat
    have hlt := h.clean.lt_of_occursAt hs (occursAt_of_stopAt hat)
    apply List.prefix_of_prefix_length_le hold (kept_isPrefix _ _ _)
    rw [length_kept hat, List.rdrop, List.length_take, cutAt]
    split_ifs with hinc
    · omega
    · have := h.buffer (Bool.not_eq_true _ ▸ hinc) s hs
      omega

/-! ## Results -/

/-- The text of a result, in the modes that return all of it. -/
def shownText (d : IncrementalDetokenizer) (finished : Bool) : List Char :=
  d.outputText.rdrop (if finished then 0 else d.stopBufferLength)

/-- What was returned before is the beginning of what is returned now. -/
theorem Advanced.prefix_shownText (ha : Advanced d piece finishReason r) (h : d.Holding) :
    d.shownText false <+: r.1.shownText r.2.1.isSome := by
  cases hr : r.2.1 with
  | some reason =>
    simpa [shownText] using ha.shown h
  | none =>
    obtain ⟨-, htext⟩ := ha.going h hr
    have hlen := htext.length_le
    simp only [shownText, Option.isSome_none, ha.buffer, List.rdrop]
    apply List.prefix_of_prefix_length_le ((List.take_prefix _ _).trans htext) (List.take_prefix _ _)
    simp only [List.length_take]
    omega

/-- The result of an output, in the modes that return all text. -/
def fullResult (decoder : Decoder) (d : IncrementalDetokenizer) (output : EngineCoreOutput) :
    DetokenizerOutput :=
  let r := d.advance decoder output
  ⟨String.ofList (r.1.shownText r.2.1.isSome), r.1.outputTokenIds, r.2.1.isSome, r.2.1, r.2.2⟩

theorem updateFromOutput_cumulative (offset : ℕ) (output : EngineCoreOutput) :
    (d.withKind .cumulative offset).updateFromOutput decoder output =
      (some (d.fullResult decoder output), (d.advance decoder output).1.withKind .cumulative offset) := by
  rw [updateFromOutput, advance_withKind]
  rfl

theorem updateFromOutput_finalOnly (offset : ℕ) (output : EngineCoreOutput) :
    (d.withKind .finalOnly offset).updateFromOutput decoder output =
      (if (d.advance decoder output).2.1.isSome then some (d.fullResult decoder output) else none,
        (d.advance decoder output).1.withKind .finalOnly offset) := by
  rw [updateFromOutput, advance_withKind, fullResult]
  generalize d.advance decoder output = r
  obtain ⟨d', reason, stopReason⟩ := r
  cases reason <;> rfl

theorem length_shownText (d : IncrementalDetokenizer) (finished : Bool) :
    (d.shownText finished).length =
      d.outputText.length - (if finished then 0 else d.stopBufferLength) := by
  rw [shownText, List.rdrop, List.length_take]
  omega

/-- The new part of the text, also when it is empty. -/
theorem getNextOutputText_delta {finished : Bool}
    (hle : d.lastOutputTextOffset ≤ (d.shownText finished).length) :
    d.getNextOutputText finished true = ((d.shownText finished).drop d.lastOutputTextOffset,
      { d with lastOutputTextOffset := (d.shownText finished).length }) := by
  have hlen := d.length_shownText finished
  rw [hlen] at hle ⊢
  simp only [getNextOutputText, not_true_eq_false, if_false]
  by_cases hlt : d.lastOutputTextOffset <
      d.outputText.length - (if finished then 0 else d.stopBufferLength)
  · rw [if_pos hlt, shownText, List.rdrop, slice, List.drop_take]
  · have heq := le_antisymm hle (not_lt.mp hlt)
    rw [if_neg hlt, ← heq, List.drop_of_length_le (hlen.trans heq.symm).le]

theorem updateFromOutput_delta {offset : ℕ} {output : EngineCoreOutput}
    (hr : d.advance decoder output = r) (hle : offset ≤ (r.1.shownText r.2.1.isSome).length) :
    (d.withKind .delta offset).updateFromOutput decoder output =
      (some ⟨String.ofList ((r.1.shownText r.2.1.isSome).drop offset), output.newTokenIds,
          r.2.1.isSome, r.2.1, r.2.2⟩,
        r.1.withKind .delta (r.1.shownText r.2.1.isSome).length) := by
  have hnext := getNextOutputText_delta (d := r.1.withKind .delta offset) hle
  rw [updateFromOutput, advance_withKind, hr]
  simp only [makeOutput]
  rw [if_neg fun hkind => by cases hkind.1]
  simp only [show (r.1.withKind .delta offset).outputKind = .delta from rfl, decide_true, hnext,
    if_true]
  rfl

theorem getNextOutputText_state (d : IncrementalDetokenizer) (finished delta : Bool) :
    ∃ offset, (d.getNextOutputText finished delta).2 = d.withKind d.outputKind offset := by
  simp only [getNextOutputText]
  generalize (if finished = true then 0 else d.stopBufferLength) = bufferLength
  split_ifs
  · exact ⟨_, rfl⟩
  · exact ⟨d.lastOutputTextOffset, rfl⟩
  · exact ⟨d.lastOutputTextOffset, rfl⟩

variable (decoder) in
/-- What `update_from_output` makes of its first two steps, whatever the mode. -/
theorem updateFromOutput_spec (d : IncrementalDetokenizer) (output : EngineCoreOutput) :
    ∃ kind offset, (d.updateFromOutput decoder output).2 =
        (d.advance decoder output).1.withKind kind offset ∧
      ((d.updateFromOutput decoder output).1 = none ∧ (d.advance decoder output).2.1 = none ∨
        ∃ out, (d.updateFromOutput decoder output).1 = some out ∧
          out.finished = (d.advance decoder output).2.1.isSome ∧
          out.finishReason = (d.advance decoder output).2.1) := by
  rw [updateFromOutput]
  generalize d.advance decoder output = r
  obtain ⟨d', reason, stopReason⟩ := r
  simp only [makeOutput]
  by_cases hnone : d'.outputKind = .finalOnly ∧ ¬ reason.isSome = true
  · rw [if_pos hnone]
    refine ⟨d'.outputKind, d'.lastOutputTextOffset, rfl, Or.inl ⟨rfl, ?_⟩⟩
    simpa using hnone.2
  · rw [if_neg hnone]
    obtain ⟨offset, hstate⟩ := d'.getNextOutputText_state reason.isSome (d'.outputKind = .delta)
    exact ⟨d'.outputKind, offset, hstate, Or.inr ⟨_, rfl, rfl, rfl⟩⟩

/-! ## Runs -/

/-- The results of one request in the three modes, from a time on at which `shown` was returned. -/
structure Modes (shown : List Char) (delta cumulative finalOnly : List DetokenizerOutput) : Prop where
  texts : ∀ (n : ℕ) out, cumulative[n]? = some out →
    shown ++ ((delta.take (n + 1)).map (·.outputText.toList)).flatten = out.outputText.toList
  finished : delta.map (·.finished) = cumulative.map (·.finished)
  final : finalOnly = cumulative.getLast?.toList.filter (·.finished)

variable {shown shown' : List Char} {out out' : DetokenizerOutput}
  {delta cumulative finalOnly : List DetokenizerOutput}

theorem Modes.nil : Modes shown [] [] [] := ⟨fun _ _ h => (by cases h), rfl, rfl⟩

/-- A result that finishes the request. -/
theorem Modes.done (hfin : out'.finished = true) (heq : out.finished = out'.finished)
    (htext : shown ++ out.outputText.toList = out'.outputText.toList) :
    Modes shown [out] [out'] [out'] := by
  refine ⟨fun n o h => ?_, ?_, ?_⟩
  · cases n with
    | zero =>
      obtain rfl := Option.some.inj h
      simpa using htext
    | succ n => cases h
  · simp [heq]
  · simp [hfin]

/-- A result with which it goes on. -/
theorem Modes.cons (h : Modes out'.outputText.toList delta cumulative finalOnly)
    (hgoing : out'.finished = false) (heq : out.finished = out'.finished)
    (htext : shown ++ out.outputText.toList = out'.outputText.toList) :
    Modes shown (out :: delta) (out' :: cumulative) finalOnly := by
  refine ⟨fun n o hn => ?_, ?_, ?_⟩
  · rw [List.take_succ_cons, List.map_cons, List.flatten_cons, ← List.append_assoc, htext]
    cases n with
    | zero =>
      obtain rfl := Option.some.inj hn
      simp
    | succ n => exact h.texts n o hn
  · rw [List.map_cons, List.map_cons, heq, h.finished]
  · rw [h.final, List.getLast?_cons]
    cases cumulative.getLast? with
    | none => simp [hgoing]
    | some last => rfl

variable (decoder) in
/-- **The three modes** of one request. -/
theorem Holding.run (offset : ℕ) : ∀ (outputs : List EngineCoreOutput) {d : IncrementalDetokenizer},
    d.Holding → Modes (d.shownText false)
      ((d.withKind .delta (d.shownText false).length).run decoder outputs).1
      ((d.withKind .cumulative offset).run decoder outputs).1
      ((d.withKind .finalOnly offset).run decoder outputs).1
  | [], _, _ => .nil
  | output :: rest, d, h => by
    have ha := h.advance decoder output
    have hpre := ha.prefix_shownText h
    rw [IncrementalDetokenizer.run, IncrementalDetokenizer.run, IncrementalDetokenizer.run,
      updateFromOutput_cumulative, updateFromOutput_finalOnly,
      updateFromOutput_delta rfl hpre.length_le]
    cases hr : (d.advance decoder output).2.1 with
    | some reason =>
      simp only [fullResult, hr, Option.isSome_some, if_true] at hpre ⊢
      refine .done rfl rfl ?_
      simpa only [String.toList_ofList] using List.prefix_iff_eq_append.mp hpre
    | none =>
      obtain ⟨hgoing, -⟩ := ha.going h hr
      have ih := Holding.run offset rest hgoing
      simp only [fullResult, hr, Option.isSome_none, Bool.false_eq_true, if_false] at hpre ⊢
      refine .cons ?_ rfl rfl ?_
      · simpa only [String.toList_ofList] using ih
      · simpa only [String.toList_ofList] using List.prefix_iff_eq_append.mp hpre

theorem le_foldl_max (l : List ℕ) (m : ℕ) : m ≤ l.foldl max m ∧ ∀ n ∈ l, n ≤ l.foldl max m := by
  induction l generalizing m with
  | nil => exact ⟨le_refl m, fun n hn => by cases hn⟩
  | cons a l ih =>
    obtain ⟨hm, hl⟩ := ih (max m a)
    rw [List.foldl_cons]
    refine ⟨(le_max_left m a).trans hm, fun n hn => ?_⟩
    obtain rfl | hn := List.mem_cons.mp hn
    · exact (le_max_right m n).trans hm
    · exact hl n hn

/-- A new request holds enough text back. -/
theorem holding_fromNewRequest (decoder : Decoder) (promptTokenIds : List TokenId)
    (params : TextParams) : (fromNewRequest decoder promptTokenIds params).Holding := by
  constructor
  · intro s hs hinfix
    have hnil : s.toList = [] := List.infix_nil.mp hinfix
    exact params.stop_ne s hs (String.toList_eq_nil_iff.mp hnil)
  · intro hinc s hs
    have hstop : params.stop ≠ [] := List.ne_nil_of_mem hs
    have hlong := (le_foldl_max (params.stop.map String.length) 0).2 s.length (List.mem_map_of_mem hs)
    simp only [fromNewRequest] at hinc ⊢
    rw [if_pos ⟨hstop, by rw [hinc]; exact Bool.false_ne_true⟩]
    omega

/-- The results of a request in one mode. -/
def results (decoder : Decoder) (promptTokenIds : List TokenId) (params : TextParams)
    (outputs : List EngineCoreOutput) (kind : RequestOutputKind) : List DetokenizerOutput :=
  ((fromNewRequest decoder promptTokenIds { params with outputKind := kind }).run decoder outputs).1

theorem modes_results (decoder : Decoder) (promptTokenIds : List TokenId) (params : TextParams)
    (outputs : List EngineCoreOutput) :
    Modes [] (results decoder promptTokenIds params outputs .delta)
      (results decoder promptTokenIds params outputs .cumulative)
      (results decoder promptTokenIds params outputs .finalOnly) := by
  have h := (holding_fromNewRequest decoder promptTokenIds params).run decoder 0 outputs
  have hnil : (fromNewRequest decoder promptTokenIds params).shownText false = [] := List.take_nil
  rwa [hnil] at h

theorem Modes.join (h : Modes [] delta cumulative finalOnly) {n : ℕ} (hn : cumulative[n]? = some out) :
    String.join ((delta.take (n + 1)).map (·.outputText)) = out.outputText := by
  apply String.toList_inj.mp
  rw [String.toList_join, List.flatMap_map, ← h.texts n out hn, List.nil_append, List.flatMap_def]

/-- The last result holds everything. -/
theorem Modes.join_last (h : Modes [] delta cumulative finalOnly)
    (hlast : cumulative.getLast? = some out) :
    String.join (delta.map (·.outputText)) = out.outputText := by
  have hlen : delta.length = cumulative.length := by
    simpa only [List.length_map] using congrArg List.length h.finished
  have hpos : 0 < cumulative.length := List.length_pos_of_ne_nil fun hnil => by
    rw [hnil] at hlast
    cases hlast
  have hn : cumulative[cumulative.length - 1]? = some out := by
    rwa [← List.getLast?_eq_getElem?]
  have := h.join hn
  rwa [List.take_of_length_le (by omega)] at this

/-- **Deltas add up.** In every mode that returns all text, the last result is what the deltas make
together; after every output, the deltas so far are the text that is returned in full; what is returned
in full only grows; and a request that returns its text at the end returns that of the last result. -/
theorem delta_texts_add_up (decoder : Decoder) (promptTokenIds : List TokenId) (params : TextParams)
    (outputs : List EngineCoreOutput) :
    let results := results decoder promptTokenIds params outputs
    (∀ kind out, kind ≠ .delta → (results kind).getLast? = some out →
      String.join ((results .delta).map (·.outputText)) = out.outputText) ∧
    (∀ (n : ℕ) out, (results .cumulative)[n]? = some out →
      String.join (((results .delta).take (n + 1)).map (·.outputText)) = out.outputText) ∧
    (results .cumulative).Pairwise (fun a b => a.outputText.toList <+: b.outputText.toList) ∧
    (results .delta).map (·.finished) = (results .cumulative).map (·.finished) ∧
    results .finalOnly = (results .cumulative).getLast?.toList.filter (·.finished) := by
  have h := modes_results decoder promptTokenIds params outputs
  refine ⟨fun kind out hkind hlast => ?_, fun n out hn => h.join hn, ?_, h.finished, h.final⟩
  · cases kind with
    | delta => exact absurd rfl hkind
    | cumulative => exact h.join_last hlast
    | finalOnly =>
      apply h.join_last
      rw [h.final] at hlast
      have hmem := List.mem_of_mem_filter (List.mem_of_getLast? hlast)
      exact Option.mem_toList.mp hmem
  · rw [List.pairwise_iff_getElem]
    intro i j hi hj hlt
    rw [← h.texts i _ (List.getElem?_eq_getElem hi), ← h.texts j _ (List.getElem?_eq_getElem hj)]
    have hpre : (results decoder promptTokenIds params outputs .delta).take (i + 1) <+:
        (results decoder promptTokenIds params outputs .delta).take (j + 1) :=
      List.take_prefix_take_left (Nat.succ_le_succ hlt.le)
    obtain ⟨rest, htake⟩ := hpre
    rw [← htake, List.map_append, List.flatten_append, List.nil_append, List.nil_append]
    exact List.prefix_append _ _

end IncrementalDetokenizer

end SpaceServe
