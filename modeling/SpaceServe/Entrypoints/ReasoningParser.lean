import Mathlib.Tactic.IntervalCases
import SpaceServe.Lib.Exec
import SpaceServe.Lib.Substring
import SpaceServe.Worker.Rotary

/-!
# Reasoning content

`DeepSeekR1ReasoningParser` of `vllm/entrypoints/openai/reasoning_parsers`. A model answers `<think>`, its
reasoning, `</think>` and then the content. The streaming parser looks for the two markers in the token ids of the
delta and of what came before; the other one looks for them in the whole text.

* `extractReasoningContentStreaming`, `streamed`: the deltas; `extractReasoningContent`: the whole text;
* `find_append`: the first place of a marker in a text that goes on; `extractReasoningContent_eq`;
* `streamed_first`, `streamed_end`, `streamed_noMarkers`: what a delta gives by the markers it has; `Fits`,
  **`streaming_agrees_iff`**.
-/

set_option autoImplicit false

namespace SpaceServe

open Py

/-- Texts. -/
abbrev Text := List Char

/-- `think_start_token`. -/
def thinkStartToken : Text := ['<', 't', 'h', 'i', 'n', 'k', '>']

/-- `think_end_token`. -/
def thinkEndToken : Text := ['<', '/', 't', 'h', 'i', 'n', 'k', '>']

/-- The tokenizer: every token has a text, and the two markers are tokens. -/
structure ThinkTokenizer where
  text : TokenId → Text
  thinkStartTokenId : TokenId
  thinkEndTokenId : TokenId
  text_start : text thinkStartTokenId = thinkStartToken
  text_end : text thinkEndTokenId = thinkEndToken

/-- `DeltaMessage`, with the two fields that the parser sets. -/
structure DeltaMessage where
  reasoningContent : Option Text
  content : Option Text
deriving DecidableEq

namespace ReasoningParser

/-- `text[start:stop]`. -/
def textSlice (text : Text) (start stop : ℤ) : Text :=
  slice text (sliceBound text.length start) (sliceBound text.length stop)

/-- `text.find(sub)`, with `-1`. -/
def textFind (text sub : Text) : ℤ :=
  match find text sub 0 with
  | some i => i
  | none => -1

/-- `content if content else None`. -/
def orNone (text : Text) : Option Text := if text = [] then none else some text

variable (T : ThinkTokenizer)

/-- `extract_reasoning_content_streaming`. It reads nothing of the texts but the delta's. -/
def extractReasoningContentStreaming (deltaText : Text) (previousTokenIds deltaTokenIds : List TokenId) :
    Option DeltaMessage :=
  if deltaTokenIds = [T.thinkStartTokenId] ∨ deltaTokenIds = [T.thinkEndTokenId] then none
  else if T.thinkStartTokenId ∈ previousTokenIds then
    if T.thinkEndTokenId ∈ deltaTokenIds then
      let endIndex := textFind deltaText thinkEndToken
      some {
        reasoningContent := some (textSlice deltaText 0 endIndex)
        content := orNone (textSlice deltaText (endIndex + thinkEndToken.length) deltaText.length) }
    else if T.thinkEndTokenId ∈ previousTokenIds then some ⟨none, some deltaText⟩
    else some ⟨some deltaText, none⟩
  else if T.thinkStartTokenId ∈ deltaTokenIds then
    if T.thinkEndTokenId ∈ deltaTokenIds then
      let startIndex := textFind deltaText thinkStartToken
      let endIndex := textFind deltaText thinkEndToken
      some {
        reasoningContent := some (textSlice deltaText (startIndex + thinkStartToken.length) endIndex)
        content := orNone (textSlice deltaText (endIndex + thinkEndToken.length) deltaText.length) }
    else some ⟨some deltaText, none⟩
  else some ⟨none, some deltaText⟩

/-- The text of some tokens. -/
def textOf (tokenIds : List TokenId) : Text := tokenIds.flatMap T.text

/-- The reasoning and the content that some deltas give together, behind what came before. -/
def streamed (previousTokenIds : List TokenId) : List (List TokenId) → Text × Text
  | [] => ([], [])
  | delta :: deltas =>
    let message := extractReasoningContentStreaming T (textOf T delta) previousTokenIds delta
    let rest := streamed (previousTokenIds ++ delta) deltas
    (((message.bind (·.reasoningContent)).getD []) ++ rest.1, ((message.bind (·.content)).getD []) ++ rest.2)

/-- The groups of `reasoning_regex`: from the first `<think>` behind which there is a `</think>`, up to that one. -/
def reasoningRegex (modelOutput : Text) : Option Text :=
  (List.range (modelOutput.length + 1)).findSome? fun i =>
    if OccursAt thinkStartToken modelOutput i then
      (findFrom modelOutput thinkEndToken (i + thinkStartToken.length)).map
        (slice modelOutput (i + thinkStartToken.length))
    else none

/-- `extract_reasoning_content`. -/
def extractReasoningContent (modelOutput : Text) : Except Exn (Option Text × Option Text) :=
  if find modelOutput thinkStartToken 0 = none ∨ find modelOutput thinkEndToken 0 = none then
    .ok (none, some modelOutput)
  else do
    let reasoningContent ← ofOption (.indexError "list index out of range") (reasoningRegex modelOutput)
    let startIndex := textFind modelOutput thinkStartToken
    if startIndex ≠ -1 then
      let endIndex := startIndex + (thinkStartToken ++ reasoningContent ++ thinkEndToken).length
      let modelOutput := textSlice modelOutput 0 startIndex ++ textSlice modelOutput endIndex modelOutput.length
      .ok (some reasoningContent, orNone modelOutput)
    else .ok (some reasoningContent, some modelOutput)

/-! ## The first place of a marker -/

section Find

variable {text rest sub : Text} {i : ℕ}

theorem find_eq_some_iff : find text sub 0 = some i ↔ OccursAt sub text i ∧ ∀ j, OccursAt sub text j → i ≤ j := by
  rw [find, if_neg (by decide)]
  exact findFrom_eq_some_iff.trans ⟨fun h => ⟨h.2.1, fun j => h.2.2 j (Nat.zero_le j)⟩,
    fun h => ⟨Nat.zero_le i, h.1, fun j _ => h.2 j⟩⟩

/-- A text that goes on has its first place where it was. -/
theorem find_append (h : find text sub 0 = some i) : find (text ++ rest) sub 0 = some i := by
  obtain ⟨hi, hfirst⟩ := find_eq_some_iff.mp h
  refine find_eq_some_iff.mpr ⟨hi.append, fun j hj => ?_⟩
  by_contra hlt
  have hle := hi.add_le
  exact hlt (hfirst j (hj.of_append (by omega)))

theorem exists_find (h : OccursAt sub text i) : ∃ j ≤ i, find text sub 0 = some j := by
  cases hfind : find text sub 0 with
  | some j => exact ⟨j, (find_eq_some_iff.mp hfind).2 i h, rfl⟩
  | none =>
    rw [find, if_neg (by decide)] at hfind
    exact absurd h (findFrom_eq_none_iff.mp hfind i (Nat.zero_le i))

/-- A place in the second part of a text. -/
theorem occursAt_append_right : OccursAt sub (text ++ rest) (text.length + i) ↔ OccursAt sub rest i := by
  rw [OccursAt, OccursAt, List.drop_append, List.drop_eq_nil_of_le (by omega), List.nil_append, List.length_append]
  have hsub : text.length + i - text.length = i := by omega
  rw [hsub]
  exact and_congr_right fun _ => by omega

end Find

theorem textFind_of_some {text sub : Text} {i : ℕ} (h : find text sub 0 = some i) : textFind text sub = i := by
  rw [textFind, h]

theorem sliceBound_natCast {n i : ℕ} (h : i ≤ n) : sliceBound n (i : ℤ) = i := by
  rw [sliceBound, if_neg (by omega), Int.toNat_natCast, Nat.min_eq_left h]

/-- A slice between two places of the text. -/
theorem textSlice_natCast {text : Text} {i j : ℕ} (hi : i ≤ text.length) (hj : j ≤ text.length) :
    textSlice text i j = slice text i j := by
  rw [textSlice, sliceBound_natCast hi, sliceBound_natCast hj]

/-! ## The whole text -/

section Whole

variable {text rest : Text} {f : ℕ}

/-- A closing marker stands behind the opening one. -/
theorem le_of_occursAt (h : OccursAt thinkEndToken (thinkStartToken ++ rest) f) : thinkStartToken.length ≤ f := by
  by_contra hlt
  change ¬ 7 ≤ f at hlt
  have hpre := h.1
  interval_cases f <;> simp [thinkEndToken, thinkStartToken] at hpre

/-- **The whole text** is cut at the first closing marker. -/
theorem extractReasoningContent_eq (hpre : thinkStartToken <+: text) (h : find text thinkEndToken 0 = some f) :
    thinkStartToken.length ≤ f ∧ extractReasoningContent text =
      .ok (some (slice text thinkStartToken.length f), orNone (text.drop (f + thinkEndToken.length))) := by
  obtain ⟨rest, rfl⟩ := hpre
  obtain ⟨hocc, hfirst⟩ := find_eq_some_iff.mp h
  have hle := le_of_occursAt hocc
  have hend := hocc.add_le
  have hstart : find (thinkStartToken ++ rest) thinkStartToken 0 = some 0 :=
    find_eq_some_iff.mpr ⟨⟨List.prefix_append _ _, Nat.zero_le _⟩, fun j _ => Nat.zero_le j⟩
  have hfrom : findFrom (thinkStartToken ++ rest) thinkEndToken thinkStartToken.length = some f :=
    findFrom_eq_some_iff.mpr ⟨hle, hocc, fun j _ hj => hfirst j hj⟩
  have hregex : reasoningRegex (thinkStartToken ++ rest) =
      some (slice (thinkStartToken ++ rest) thinkStartToken.length f) := by
    rw [reasoningRegex, List.range_succ_eq_map, List.findSome?_cons, if_pos, Nat.zero_add, hfrom]
    · rfl
    · exact ⟨List.prefix_append _ _, Nat.zero_le _⟩
  refine ⟨hle, ?_⟩
  have hlen : (thinkStartToken ++ slice (thinkStartToken ++ rest) thinkStartToken.length f ++ thinkEndToken).length =
      f + thinkEndToken.length := by
    rw [List.length_append, List.length_append, length_slice]
    omega
  rw [extractReasoningContent, hstart, h, if_neg (by simp), hregex, ofOption_some, ok_bind, textFind_of_some hstart,
    if_pos (by decide), hlen]
  have hcut : textSlice (thinkStartToken ++ rest) 0 ((0 : ℕ) : ℤ) ++ textSlice (thinkStartToken ++ rest)
      ((0 : ℕ) + ((f + thinkEndToken.length : ℕ) : ℤ)) ((thinkStartToken ++ rest).length : ℤ) =
        (thinkStartToken ++ rest).drop (f + thinkEndToken.length) := by
    rw [← Nat.cast_add, Nat.zero_add]
    rw [textSlice_natCast hend (le_refl _)]
    rw [show textSlice (thinkStartToken ++ rest) 0 ((0 : ℕ) : ℤ) = [] from rfl, List.nil_append, slice]
    rw [List.take_of_length_le]
    rw [List.length_drop]
  simp only [hcut]

end Whole

/-! ## The deltas -/

section Deltas

variable {T : ThinkTokenizer} {previous delta : List TokenId}

theorem start_ne_end (T : ThinkTokenizer) : T.thinkStartTokenId ≠ T.thinkEndTokenId := by
  intro heq
  have htext := T.text_start
  rw [heq, T.text_end] at htext
  exact absurd htext (by decide)

theorem textOf_append (l l' : List TokenId) : textOf T (l ++ l') = textOf T l ++ textOf T l' := List.flatMap_append

theorem orNone_getD (text : Text) : (orNone text).getD [] = text := by
  rw [orNone]
  split_ifs with h
  · exact h.symm
  · rfl

theorem streamed_append : ∀ (deltas deltas' : List (List TokenId)) (previous : List TokenId),
    streamed T previous (deltas ++ deltas') =
      ((streamed T previous deltas).1 ++ (streamed T (previous ++ deltas.flatten) deltas').1,
        (streamed T previous deltas).2 ++ (streamed T (previous ++ deltas.flatten) deltas').2)
  | [], deltas', previous => by simp [streamed]
  | delta :: deltas, deltas', previous => by
    simp only [List.cons_append, streamed, streamed_append deltas deltas', List.flatten_cons, List.append_assoc]

/-- No marker is among the tokens. -/
def NoMarkers (T : ThinkTokenizer) (tokenIds : List TokenId) : Prop :=
  T.thinkStartTokenId ∉ tokenIds ∧ T.thinkEndTokenId ∉ tokenIds

theorem NoMarkers.ne_markers (h : NoMarkers T delta) :
    ¬ (delta = [T.thinkStartTokenId] ∨ delta = [T.thinkEndTokenId]) := by
  rintro (rfl | rfl)
  · exact h.1 (List.mem_singleton_self _)
  · exact h.2 (List.mem_singleton_self _)

/-- Behind the opening marker, deltas without markers are reasoning before the closing one and content after it. -/
theorem streamed_noMarkers : ∀ {deltas : List (List TokenId)} {previous : List TokenId},
    T.thinkStartTokenId ∈ previous → NoMarkers T deltas.flatten → streamed T previous deltas =
      if T.thinkEndTokenId ∈ previous then ([], textOf T deltas.flatten) else (textOf T deltas.flatten, [])
  | [], previous, _, _ => by split_ifs <;> rfl
  | delta :: deltas, previous, hstart, hno => by
    rw [List.flatten_cons] at hno
    have hdelta : NoMarkers T delta :=
      ⟨fun h => hno.1 (List.mem_append_left _ h), fun h => hno.2 (List.mem_append_left _ h)⟩
    have hdeltas : NoMarkers T deltas.flatten :=
      ⟨fun h => hno.1 (List.mem_append_right _ h), fun h => hno.2 (List.mem_append_right _ h)⟩
    have hrest := streamed_noMarkers (List.mem_append_left delta hstart) hdeltas
    have hmem : T.thinkEndTokenId ∈ previous ++ delta ↔ T.thinkEndTokenId ∈ previous := by
      rw [List.mem_append, or_iff_left hdelta.2]
    simp only [hmem] at hrest
    rw [streamed, hrest, extractReasoningContentStreaming, if_neg hdelta.ne_markers, if_pos hstart,
      if_neg hdelta.2, List.flatten_cons, textOf_append]
    split_ifs <;> simp only [Option.bind_some, Option.getD_some, Option.getD_none, List.nil_append]

/-- The delta with the closing marker is cut at the first one in its text. -/
theorem streamed_end {e : ℕ} (hstart : T.thinkStartTokenId ∈ previous) (hend : T.thinkEndTokenId ∈ delta)
    (he : find (textOf T delta) thinkEndToken 0 = some e) : streamed T previous [delta] =
      ((textOf T delta).take e, (textOf T delta).drop (e + thinkEndToken.length)) := by
  have hle := (find_eq_some_iff.mp he).1.add_le
  by_cases hsingle : delta = [T.thinkEndTokenId]
  · -- the marker alone gives no message
    have htext : textOf T delta = thinkEndToken := by
      rw [hsingle, textOf, List.flatMap_singleton, T.text_end]
    rw [htext] at he hle ⊢
    have hzero : e = 0 := by omega
    rw [hzero, Nat.zero_add, List.take_zero, List.drop_length, streamed, streamed, extractReasoningContentStreaming,
      if_pos (Or.inr hsingle)]
    rfl
  · have hne : ¬ (delta = [T.thinkStartTokenId] ∨ delta = [T.thinkEndTokenId]) := by
      rintro (rfl | h)
      · exact start_ne_end T (List.mem_singleton.mp hend).symm
      · exact hsingle h
    have hfront : textSlice (textOf T delta) 0 (e : ℤ) = (textOf T delta).take e := by
      have h0 := textSlice_natCast (Nat.zero_le (textOf T delta).length) (show e ≤ (textOf T delta).length by omega)
      rw [Nat.cast_zero] at h0
      rw [h0, slice, List.drop_zero, Nat.sub_zero]
    have hback : textSlice (textOf T delta) ((e : ℤ) + thinkEndToken.length) ((textOf T delta).length : ℤ) =
        (textOf T delta).drop (e + thinkEndToken.length) := by
      rw [← Nat.cast_add, textSlice_natCast hle (le_refl _), slice, List.take_of_length_le]
      rw [List.length_drop]
    rw [streamed, streamed, extractReasoningContentStreaming, if_neg hne, if_pos hstart, if_pos hend]
    simp only [textFind_of_some he, hfront, hback, Option.bind_some, Option.getD_some, orNone_getD, List.append_nil]

/-- The first delta, with both markers. -/
theorem streamed_both {r : List TokenId} {e : ℕ} (hdelta : delta = T.thinkStartTokenId :: r)
    (hend : T.thinkEndTokenId ∈ r) (he : find (textOf T delta) thinkEndToken 0 = some e) :
    streamed T [] [delta] = (slice (textOf T delta) thinkStartToken.length e,
      (textOf T delta).drop (e + thinkEndToken.length)) := by
  obtain ⟨hocc, -⟩ := find_eq_some_iff.mp he
  have hle := hocc.add_le
  have htext : textOf T delta = thinkStartToken ++ textOf T r := by
    rw [hdelta, textOf, List.flatMap_cons, T.text_start, textOf]
  have hstart : find (textOf T delta) thinkStartToken 0 = some 0 := by
    rw [htext]
    exact find_eq_some_iff.mpr ⟨⟨List.prefix_append _ _, Nat.zero_le _⟩, fun j _ => Nat.zero_le j⟩
  have hne : ¬ (delta = [T.thinkStartTokenId] ∨ delta = [T.thinkEndTokenId]) := by
    rw [hdelta]
    rintro (h | h)
    · rw [(List.cons.inj h).2] at hend
      cases hend
    · exact start_ne_end T (List.cons.inj h).1
  have hfront : textSlice (textOf T delta) (((0 : ℕ) : ℤ) + thinkStartToken.length) (e : ℤ) =
      slice (textOf T delta) thinkStartToken.length e := by
    rw [Nat.cast_zero, zero_add, textSlice_natCast]
    · rw [htext, List.length_append]
      omega
    · omega
  have hback : textSlice (textOf T delta) ((e : ℤ) + thinkEndToken.length) ((textOf T delta).length : ℤ) =
      (textOf T delta).drop (e + thinkEndToken.length) := by
    rw [← Nat.cast_add, textSlice_natCast hle (le_refl _), slice, List.take_of_length_le]
    rw [List.length_drop]
  rw [streamed, streamed, extractReasoningContentStreaming, if_neg hne, if_neg List.not_mem_nil,
    if_pos (by rw [hdelta]; exact List.mem_cons_self),
    if_pos (by rw [hdelta]; exact List.mem_cons_of_mem _ hend)]
  simp only [textFind_of_some hstart, textFind_of_some he, hfront, hback, Option.bind_some, Option.getD_some,
    orNone_getD, List.append_nil]

end Deltas

/-! ## Agreement -/

section Agreement

variable (T : ThinkTokenizer) (deltas : List (List TokenId))

/-- The deltas give together what the whole text gives, `None` counted as empty. -/
def Agrees : Prop :=
  ∃ reasoning content, extractReasoningContent (textOf T deltas.flatten) = .ok (reasoning, content) ∧
    streamed T [] deltas = (reasoning.getD [], content.getD [])

/-- The deltas before the one with the closing marker. -/
def beforeEnd : List (List TokenId) := deltas.takeWhile fun delta => T.thinkEndTokenId ∉ delta

/-- The first delta is the opening marker alone, or has the closing one as well; and no other token's text makes a
`</think>` that starts before the delta with the closing marker. -/
def Fits : Prop :=
  (deltas.head? = some [T.thinkStartTokenId] ∨ T.thinkEndTokenId ∈ deltas.headD []) ∧
    ∀ i < (textOf T (beforeEnd T deltas).flatten).length, ¬ OccursAt thinkEndToken (textOf T deltas.flatten) i

instance : Decidable (Fits T deltas) := inferInstanceAs (Decidable (_ ∧ _))

end Agreement

section Cut

variable {T : ThinkTokenizer} {before after : List (List TokenId)} {delta : List TokenId}

/-- The deltas before the closing marker, the one with it, and those after. -/
theorem exists_cut : ∀ {deltas : List (List TokenId)}, T.thinkEndTokenId ∈ deltas.flatten →
    ∃ before delta after, deltas = before ++ delta :: after ∧ T.thinkEndTokenId ∈ delta ∧
      T.thinkEndTokenId ∉ before.flatten ∧ beforeEnd T deltas = before
  | [], h => absurd h List.not_mem_nil
  | delta :: deltas, h => by
    by_cases hdelta : T.thinkEndTokenId ∈ delta
    · refine ⟨[], delta, deltas, rfl, hdelta, List.not_mem_nil, ?_⟩
      rw [beforeEnd, List.takeWhile_cons_of_neg]
      simpa using hdelta
    · have hrest : T.thinkEndTokenId ∈ deltas.flatten :=
        (List.mem_append.mp (List.flatten_cons ▸ h)).resolve_left hdelta
      obtain ⟨before, delta', after, rfl, hmem, hnot, hbefore⟩ := exists_cut hrest
      refine ⟨delta :: before, delta', after, rfl, hmem, ?_, ?_⟩
      · rw [List.flatten_cons, List.mem_append, not_or]
        exact ⟨hdelta, hnot⟩
      · rw [beforeEnd, List.takeWhile_cons_of_pos (by simpa using hdelta)]
        exact congrArg _ hbefore

/-- The closing marker's token puts the marker into the text. -/
theorem exists_find_end (h : T.thinkEndTokenId ∈ delta) : ∃ e, find (textOf T delta) thinkEndToken 0 = some e := by
  obtain ⟨front, back, rfl⟩ := List.append_of_mem h
  have hocc : OccursAt thinkEndToken (textOf T (front ++ T.thinkEndTokenId :: back)) (textOf T front).length := by
    rw [textOf_append, textOf, textOf, List.flatMap_cons, T.text_end, ← Nat.add_zero (List.length _)]
    exact occursAt_append_right.mpr ⟨List.prefix_append _ _, Nat.zero_le _⟩
  obtain ⟨e, -, he⟩ := exists_find hocc
  exact ⟨e, he⟩

/-- The text is cut where the delta is, unless the marker stands earlier. -/
theorem find_whole {front text rest : Text} {e f : ℕ} (he : find text thinkEndToken 0 = some e)
    (hf : find (front ++ (text ++ rest)) thinkEndToken 0 = some f) : f ≤ front.length + e ∧
      (f = front.length + e ↔ ∀ i < front.length, ¬ OccursAt thinkEndToken (front ++ (text ++ rest)) i) := by
  obtain ⟨hocc, hfirst⟩ := find_eq_some_iff.mp hf
  obtain ⟨hocc', -⟩ := find_eq_some_iff.mp he
  refine ⟨hfirst _ (occursAt_append_right.mpr hocc'.append), fun heq i hi hocci => ?_, fun hno => ?_⟩
  · have hle := hfirst i hocci
    omega
  · by_cases hlt : f < front.length
    · exact absurd hocc (hno f hlt)
    · obtain ⟨k, rfl⟩ : ∃ k, f = front.length + k := ⟨f - front.length, by omega⟩
      have hk := occursAt_append_right.mp hocc
      have hlonger : find (text ++ rest) thinkEndToken 0 = some e := find_append he
      have hek := (find_eq_some_iff.mp hlonger).2 k hk
      have hke := hfirst _ (occursAt_append_right.mpr (find_eq_some_iff.mp hlonger).1)
      omega

/-- The first delta is skipped when it is the opening marker alone, and else it is reasoning with its marker. -/
theorem streamed_first {rest : List TokenId} (hend : T.thinkEndTokenId ∉ rest) :
    streamed T [] [T.thinkStartTokenId :: rest] =
      (if rest = [] then [] else textOf T (T.thinkStartTokenId :: rest), []) := by
  rw [streamed, streamed, extractReasoningContentStreaming]
  by_cases hrest : rest = []
  · rw [if_pos (Or.inl (by rw [hrest])), if_pos hrest]
    simp only [Option.bind_none, Option.getD_none, List.append_nil]
  · have hne : ¬ (T.thinkStartTokenId :: rest = [T.thinkStartTokenId] ∨
        T.thinkStartTokenId :: rest = [T.thinkEndTokenId]) := by
      rintro (h | h)
      · exact hrest (List.cons.inj h).2
      · exact hrest (List.cons.inj h).2
    have hnot : T.thinkEndTokenId ∉ T.thinkStartTokenId :: rest := by
      rw [List.mem_cons, not_or]
      exact ⟨(start_ne_end T).symm, hend⟩
    rw [if_neg hne, if_neg List.not_mem_nil, if_pos List.mem_cons_self, if_neg hnot, if_neg hrest]
    simp only [Option.bind_some, Option.getD_some, Option.getD_none, List.append_nil]

/-- The deltas behind the opening marker. -/
theorem streamed_rest {previous : List TokenId} {e : ℕ} (hstart : T.thinkStartTokenId ∈ previous)
    (hnot : T.thinkEndTokenId ∉ previous) (hbefore : NoMarkers T before.flatten) (hend : T.thinkEndTokenId ∈ delta)
    (he : find (textOf T delta) thinkEndToken 0 = some e) (hafter : NoMarkers T after.flatten) :
    streamed T previous (before ++ delta :: after) = (textOf T before.flatten ++ (textOf T delta).take e,
      (textOf T delta).drop (e + thinkEndToken.length) ++ textOf T after.flatten) := by
  have hstart' : T.thinkStartTokenId ∈ previous ++ before.flatten := List.mem_append_left _ hstart
  have hmem : T.thinkEndTokenId ∈ previous ++ (before ++ [delta]).flatten := by
    rw [List.flatten_append, List.flatten_singleton]
    exact List.mem_append_right _ (List.mem_append_right _ hend)
  rw [List.append_cons, streamed_append, streamed_append,
    streamed_noMarkers hstart hbefore, if_neg hnot, streamed_end hstart' hend he,
    streamed_noMarkers (List.mem_append_left _ hstart) hafter, if_pos hmem]
  simp only [List.nil_append, List.append_nil]

/-- The text begins with the opening marker. -/
theorem textOf_cons_start (rest : List TokenId) :
    textOf T (T.thinkStartTokenId :: rest) = thinkStartToken ++ textOf T rest := by
  rw [textOf, List.flatMap_cons, T.text_start, textOf]

/-- The deltas agree when they give the cut of the whole text. -/
theorem agrees_iff_streamed {deltas : List (List TokenId)} {f : ℕ}
    (hpre : thinkStartToken <+: textOf T deltas.flatten)
    (hf : find (textOf T deltas.flatten) thinkEndToken 0 = some f) :
    Agrees T deltas ↔ streamed T [] deltas =
      (slice (textOf T deltas.flatten) thinkStartToken.length f,
        (textOf T deltas.flatten).drop (f + thinkEndToken.length)) := by
  obtain ⟨-, heq⟩ := extractReasoningContent_eq hpre hf
  constructor
  · rintro ⟨reasoning, content, hwhole, hstream⟩
    rw [heq] at hwhole
    cases hwhole
    rw [hstream, orNone_getD, Option.getD_some]
  · exact fun hstream => ⟨_, _, heq, by rw [hstream, orNone_getD, Option.getD_some]⟩

/-- The first delta has both markers. -/
theorem agrees_both {rest : List TokenId} (hend : T.thinkEndTokenId ∈ rest) (hafter : NoMarkers T after.flatten) :
    Agrees T ((T.thinkStartTokenId :: rest) :: after) := by
  have hmem : T.thinkEndTokenId ∈ T.thinkStartTokenId :: rest := List.mem_cons_of_mem _ hend
  obtain ⟨e, he⟩ := exists_find_end hmem
  have hle := (find_eq_some_iff.mp he).1.add_le
  have htext : textOf T ((T.thinkStartTokenId :: rest) :: after).flatten =
      textOf T (T.thinkStartTokenId :: rest) ++ textOf T after.flatten := by rw [List.flatten_cons, textOf_append]
  have hpre : thinkStartToken <+: textOf T ((T.thinkStartTokenId :: rest) :: after).flatten := by
    rw [htext, textOf_cons_start, List.append_assoc]
    exact List.prefix_append _ _
  have hwhole : find (textOf T (T.thinkStartTokenId :: rest) ++ textOf T after.flatten) thinkEndToken 0 = some e :=
    find_append he
  rw [← htext] at hwhole
  have hsplit : streamed T [] ((T.thinkStartTokenId :: rest) :: after) = _ :=
    streamed_append [T.thinkStartTokenId :: rest] after []
  have hstart : T.thinkStartTokenId ∈ [] ++ [T.thinkStartTokenId :: rest].flatten := by simp
  have hmem' : T.thinkEndTokenId ∈ [] ++ [T.thinkStartTokenId :: rest].flatten := by simpa using hmem
  rw [streamed_both rfl hend he, streamed_noMarkers hstart hafter, if_pos hmem'] at hsplit
  rw [agrees_iff_streamed hpre hwhole, hsplit, htext, List.append_nil, slice_append_of_le (by omega),
    List.drop_append_of_le_length hle]

/-- The cut of the whole text, when it is where the delta is cut. -/
theorem cut_eq (front back : Text) {text : Text} (rest : Text) {e n : ℕ} (hle : e + n ≤ text.length) :
    slice (front ++ back ++ (text ++ rest)) front.length ((front ++ back).length + e) = back ++ text.take e ∧
      (front ++ back ++ (text ++ rest)).drop ((front ++ back).length + e + n) = text.drop (e + n) ++ rest := by
  constructor
  · have hlen : (front ++ back).length + e - front.length = back.length + e := by
      rw [List.length_append]
      omega
    rw [slice, List.append_assoc, List.drop_left, hlen, List.take_length_add_append,
      List.take_append_of_le_length (by omega)]
  · rw [Nat.add_assoc, List.drop_length_add_append, List.drop_append_of_le_length hle]

/-- The first delta has the opening marker and not the closing one. -/
theorem agrees_iff_of_first {rest : List TokenId} (hrest : NoMarkers T rest) (hbefore : NoMarkers T before.flatten)
    (hend : T.thinkEndTokenId ∈ delta) (hafter : NoMarkers T after.flatten) :
    Agrees T ((T.thinkStartTokenId :: rest) :: before ++ delta :: after) ↔ rest = [] ∧
      ∀ i < (textOf T ((T.thinkStartTokenId :: rest) :: before).flatten).length, ¬ OccursAt thinkEndToken
        (textOf T ((T.thinkStartTokenId :: rest) :: before ++ delta :: after).flatten) i := by
  obtain ⟨e, he⟩ := exists_find_end hend
  have hle := (find_eq_some_iff.mp he).1.add_le
  have hfront : textOf T ((T.thinkStartTokenId :: rest) :: before).flatten =
      thinkStartToken ++ (textOf T rest ++ textOf T before.flatten) := by
    rw [List.flatten_cons, List.cons_append, textOf_cons_start, textOf_append]
  have htext : textOf T ((T.thinkStartTokenId :: rest) :: before ++ delta :: after).flatten =
      textOf T ((T.thinkStartTokenId :: rest) :: before).flatten ++ (textOf T delta ++ textOf T after.flatten) := by
    rw [List.flatten_append, textOf_append, List.flatten_cons (l := delta), textOf_append]
  have hpre : thinkStartToken <+: textOf T ((T.thinkStartTokenId :: rest) :: before ++ delta :: after).flatten := by
    rw [htext, hfront, List.append_assoc]
    exact List.prefix_append _ _
  obtain ⟨f, -, hf⟩ := exists_find (occursAt_append_right.mpr (find_eq_some_iff.mp he).1.append)
  obtain ⟨hfe, hiff⟩ := find_whole he hf
  rw [← htext] at hf hiff
  have hlef := (find_eq_some_iff.mp hf).1.add_le
  have hstart := (extractReasoningContent_eq hpre hf).1
  have hrest' : streamed T [T.thinkStartTokenId :: rest].flatten (before ++ delta :: after) = _ :=
    streamed_rest (by simp) (by simpa using ⟨(start_ne_end T).symm, hrest.2⟩) hbefore hend he hafter
  have hsplit : streamed T [] ((T.thinkStartTokenId :: rest) :: before ++ delta :: after) = _ :=
    streamed_append [T.thinkStartTokenId :: rest] (before ++ delta :: after) []
  rw [List.nil_append, hrest', streamed_first hrest.2, List.nil_append] at hsplit
  rw [agrees_iff_streamed hpre hf, hsplit, ← hiff]
  constructor
  · intro hstream
    have hlen := congrArg (fun p => p.1.length) hstream
    simp only [List.length_append, length_slice, List.length_take] at hlen
    rw [hfront] at hfe ⊢
    simp only [List.length_append] at hfe ⊢
    by_cases hnil : rest = []
    · rw [if_pos hnil, List.length_nil] at hlen
      rw [hnil] at hfe ⊢
      refine ⟨rfl, ?_⟩
      change f ≤ thinkStartToken.length + (0 + (textOf T before.flatten).length) + e at hfe
      change f = thinkStartToken.length + (0 + (textOf T before.flatten).length) + e
      omega
    · -- the leaked marker makes the deltas longer
      rw [if_neg hnil, textOf_cons_start, List.length_append] at hlen
      have hpos : 0 < thinkStartToken.length := by decide
      omega
  · rintro ⟨rfl, rfl⟩
    obtain ⟨hslice, hdrop⟩ := cut_eq thinkStartToken
      (textOf T ([] : List TokenId) ++ textOf T before.flatten) (textOf T after.flatten) hle
    rw [if_pos rfl, htext, hfront, hslice, hdrop]
    rfl

/-- How some deltas lie about the two markers. -/
theorem split_markers {reasoning content : List TokenId} (hr : NoMarkers T reasoning) (hc : NoMarkers T content)
    (hend : T.thinkEndTokenId ∈ delta)
    (h : (before ++ delta :: after).flatten = T.thinkStartTokenId :: reasoning ++ T.thinkEndTokenId :: content) :
    ∃ front back, delta = front ++ T.thinkEndTokenId :: back ∧
      before.flatten ++ front = T.thinkStartTokenId :: reasoning ∧ NoMarkers T after.flatten := by
  obtain ⟨front, back, rfl⟩ := List.append_of_mem hend
  have hsplit : T.thinkStartTokenId :: reasoning ++ T.thinkEndTokenId :: content =
      before.flatten ++ front ++ T.thinkEndTokenId :: (back ++ after.flatten) := by
    rw [← h]
    simp
  have hright : T.thinkEndTokenId ∉ T.thinkStartTokenId :: reasoning := by
    rw [List.mem_cons, not_or]
    exact ⟨(start_ne_end T).symm, hr.2⟩
  obtain ⟨hbefore, -, hcontent⟩ := (List.append_cons_inj_of_notMem hright hc.2).mp hsplit
  refine ⟨front, back, rfl, hbefore.symm, ?_⟩
  rw [hcontent] at hc
  exact ⟨fun hm => hc.1 (List.mem_append_right _ hm), fun hm => hc.2 (List.mem_append_right _ hm)⟩

/-- **Streaming agrees** with the whole text exactly when the deltas fit. -/
theorem streaming_agrees_iff (T : ThinkTokenizer) (deltas : List (List TokenId)) (reasoning content : List TokenId)
    (hne : ∀ delta ∈ deltas, delta ≠ []) (hr : NoMarkers T reasoning) (hc : NoMarkers T content)
    (h : deltas.flatten = T.thinkStartTokenId :: reasoning ++ T.thinkEndTokenId :: content) :
    Agrees T deltas ↔ Fits T deltas := by
  have hmem : T.thinkEndTokenId ∈ deltas.flatten := by
    rw [h]
    exact List.mem_append_right _ List.mem_cons_self
  obtain ⟨before, delta, after, rfl, hend, hnot, hbefore⟩ := exists_cut hmem
  obtain ⟨front, back, hdelta, hfront, hafter⟩ := split_markers hr hc hend h
  rw [Fits, hbefore]
  match before with
  | [] =>
    -- the first delta has the closing marker
    rw [List.flatten_nil, List.nil_append] at hfront
    rw [hfront] at hdelta
    rw [hdelta]
    refine iff_of_true (agrees_both ?_ hafter) ⟨Or.inr ?_, fun i hi => absurd hi (Nat.not_lt_zero i)⟩
    · exact List.mem_append_right _ List.mem_cons_self
    · exact List.mem_append_right _ List.mem_cons_self
  | first :: before =>
    obtain ⟨token, rest, rfl⟩ := List.exists_cons_of_ne_nil (hne first List.mem_cons_self)
    rw [List.flatten_cons, List.cons_append, List.cons_append] at hfront
    obtain ⟨rfl, htail⟩ := List.cons.inj hfront
    rw [← htail] at hr
    have hrest : NoMarkers T rest :=
      ⟨fun hm => hr.1 (by simp [hm]), fun hm => hr.2 (by simp [hm])⟩
    have hbefore' : NoMarkers T before.flatten :=
      ⟨fun hm => hr.1 (List.mem_append_left _ (List.mem_append_right _ hm)),
        fun hm => hr.2 (List.mem_append_left _ (List.mem_append_right _ hm))⟩
    have hhead : T.thinkEndTokenId ∉ T.thinkStartTokenId :: rest := by
      rw [List.mem_cons, not_or]
      exact ⟨(start_ne_end T).symm, hrest.2⟩
    rw [agrees_iff_of_first hrest hbefore' hend hafter]
    refine and_congr_left fun _ => ?_
    constructor
    · rintro rfl
      exact Or.inl rfl
    · rintro (hone | hin)
      · exact (List.cons.inj (Option.some.inj hone)).2
      · exact absurd hin hhead

/-- Four tokens: the markers, and a text each. -/
def sampleTokenizer : ThinkTokenizer where
  text token := match token with
    | 0 => thinkStartToken
    | 1 => thinkEndToken
    | 2 => ['a']
    | _ => ['b']
  thinkStartTokenId := 0
  thinkEndTokenId := 1
  text_start := rfl
  text_end := rfl

theorem streaming_agrees_iff_sample : Agrees sampleTokenizer [[0], [2, 1, 3]] :=
  (streaming_agrees_iff sampleTokenizer [[0], [2, 1, 3]] [2] [3] (by decide)
    ⟨by decide, by decide⟩ ⟨by decide, by decide⟩ rfl).mpr (by decide)

/-- A first delta with the opening marker and more is reasoning, marker and all. -/
theorem streaming_leaks_marker : [[0, 2], [1], [3]].flatten =
      sampleTokenizer.thinkStartTokenId :: [2] ++ sampleTokenizer.thinkEndTokenId :: [3] ∧
    streamed sampleTokenizer [] [[0, 2], [1], [3]] = (thinkStartToken ++ ['a'], ['b']) ∧
    extractReasoningContent (textOf sampleTokenizer [[0, 2], [1], [3]].flatten) = .ok (some ['a'], some ['b']) ∧
    ¬ Agrees sampleTokenizer [[0, 2], [1], [3]] := by
  have hwhole : extractReasoningContent (textOf sampleTokenizer [[0, 2], [1], [3]].flatten) =
      .ok (some ['a'], some ['b']) := by decide +kernel
  refine ⟨rfl, by decide +kernel, hwhole, ?_⟩
  rintro ⟨reasoning, content, heq, hstream⟩
  rw [hwhole] at heq
  cases heq
  revert hstream
  decide +kernel

end Cut

end ReasoningParser

end SpaceServe
