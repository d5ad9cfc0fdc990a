import SpaceServe.Engine.Detokenizer

/-!
# Excluded stop strings

With `include_stop_str_in_output` off, the text of a request is cut where a stop string begins. The stop
strings are tried in the order of their list: when several of them turn up in one output, the first of
the list decides, wherever it stands, and the text may keep another one.

* `pieces`, `generated`: the text of the outputs, up to the one that ends the request;
* `run_generated`: the text at the end of a run;
* `EndsAtEarliest`, `ListedInOrder`: **`excluded_stop_strings_iff`**.
-/

set_option autoImplicit false

namespace SpaceServe

open Py

instance (stop : List String) (text : List Char) : Decidable (Clean stop text) :=
  inferInstanceAs (Decidable (∀ _ ∈ _, _))

/-- The text generated until a request ends: with the first output that has a finish reason, or with
which a stop string occurs. -/
def generated (stop : List String) : List Char → List (List Char × Option FinishReason) → List Char
  | text, [] => text
  | text, (piece, finishReason) :: rest =>
    if finishReason.isSome ∨ ¬ Clean stop (text ++ piece) then text ++ piece
    else generated stop (text ++ piece) rest

/-- The text ends at the earliest place of a stop string in what was generated, and the request is
finished with it; no stop string is left in it. -/
structure EndsAtEarliest (stop : List String) (generated : List Char) (results : List DetokenizerOutput)
    (text : List Char) : Prop where
  excluded : Clean stop text
  earliest : ¬ Clean stop generated → text <+: generated ∧
    (∃ s ∈ stop, OccursAt s.toList generated text.length) ∧
    ∀ s ∈ stop, ∀ i, OccursAt s.toList generated i → text.length ≤ i
  finished : ¬ Clean stop generated →
    ∃ out, results.getLast? = some out ∧ out.finishReason = some .stop
  otherwise : Clean stop generated → text = generated

/-- Of the stop strings in the text, the first of the list has the earliest place. -/
def ListedInOrder (stop : List String) (text : List Char) : Prop :=
  ∀ s, stop.find? (fun s => s.toList <:+: text) = some s →
    ∀ s' ∈ stop, ∀ i', OccursAt s'.toList text i' → ∃ i ≤ i', OccursAt s.toList text i

theorem listedInOrder_iff (stop : List String) (text : List Char) : ListedInOrder stop text ↔
    ∀ s ∈ stop, stop.find? (fun s => s.toList <:+: text) = some s → ∀ s' ∈ stop,
      ∀ i' < text.length + 1, OccursAt s'.toList text i' → ∃ i < i' + 1, OccursAt s.toList text i := by
  constructor
  · intro h s _ hs s' hs' i' _ hi'
    obtain ⟨i, hle, hi⟩ := h s hs s' hs' i' hi'
    exact ⟨i, Nat.lt_succ_of_le hle, hi⟩
  · intro h s hs s' hs' i' hi'
    obtain ⟨i, hlt, hi⟩ := h s (List.mem_of_find?_eq_some hs) hs s' hs' i' (Nat.lt_succ_of_le hi'.2) hi'
    exact ⟨i, Nat.le_of_lt_succ hlt, hi⟩

instance (stop : List String) (text : List Char) : Decidable (ListedInOrder stop text) :=
  decidable_of_iff _ (listedInOrder_iff stop text).symm

variable {stop : List String} {text : List Char} {s : String} {i : ℕ}

/-- The first stop string that the text holds is the one that is found. -/
theorem find?_of_stopAt (h : stopAt stop text = some (s, i)) :
    stop.find? (fun s => s.toList <:+: text) = some s := by
  induction stop with
  | nil => cases h
  | cons a stop ih =>
    rw [stopAt, List.findSome?_cons] at h
    rw [List.find?_cons]
    cases hfind : findFrom text a.toList 0 with
    | none =>
      have hnot : ¬ a.toList <:+: text := by
        rw [← findFrom_isSome_iff, hfind]
        exact Bool.false_ne_true
      rw [hfind] at h
      rw [decide_eq_false hnot]
      exact ih h
    | some j =>
      have hinfix : a.toList <:+: text := by
        rw [← findFrom_isSome_iff, hfind]
        rfl
      rw [hfind] at h
      cases h
      rw [decide_eq_true hinfix]

/-- **A text that is cut** ends at the earliest place exactly when the list is in order. -/
theorem kept_earliest_iff (h : stopAt stop text = some (s, i)) :
    (∀ s' ∈ stop, ∀ i', OccursAt s'.toList text i' → i ≤ i') ↔ ListedInOrder stop text := by
  have hs := find?_of_stopAt h
  obtain ⟨-, hocc, hfirst⟩ := findFrom_eq_some_iff.mp (mem_of_stopAt h).2
  constructor
  · intro hearliest s' hs' s'' hs'' i' hi'
    obtain rfl := Option.some.inj (hs.symm.trans hs')
    exact ⟨i, hearliest s'' hs'' i' hi', hocc⟩
  · intro horder s' hs' i' hi'
    obtain ⟨j, hj, hoccj⟩ := horder s hs s' hs' i' hi'
    exact (hfirst j (Nat.zero_le j) hoccj).trans hj

namespace IncrementalDetokenizer

variable (decoder : Decoder)

/-- The text of each output, with its finish reason. -/
def pieces : IncrementalDetokenizer → List EngineCoreOutput → List (List Char × Option FinishReason)
  | _, [] => []
  | d, output :: rest =>
    ((d.detokenize decoder output.newTokenIds).1, output.finishReason) ::
      pieces (d.detokenize decoder output.newTokenIds).2 rest

variable {decoder} {d : IncrementalDetokenizer}

theorem pieces_withKind (kind : RequestOutputKind) (offset : ℕ) :
    ∀ (outputs : List EngineCoreOutput) (d : IncrementalDetokenizer),
      pieces decoder (d.withKind kind offset) outputs = pieces decoder d outputs
  | [], _ => rfl
  | output :: rest, d => by
    simp only [pieces, detokenize_withKind, pieces_withKind kind offset rest]

variable {piece : List Char} {finishReason : Option FinishReason}
  {r : IncrementalDetokenizer × Option FinishReason × Option (TokenId ⊕ String)}

theorem Advanced.stopped (ha : Advanced d piece finishReason r)
    (hnot : ¬ Clean d.stop (d.outputText ++ piece)) : r.2.1 = some .stop := by
  rw [ha.finishReason, if_pos]
  rwa [← Option.ne_none_iff_isSome, Ne, stopAt_eq_none_iff]

/-- When a request is finished. -/
theorem Advanced.isSome_iff (ha : Advanced d piece finishReason r) :
    r.2.1.isSome ↔ finishReason.isSome ∨ ¬ Clean d.stop (d.outputText ++ piece) := by
  by_cases hclean : Clean d.stop (d.outputText ++ piece)
  · rw [ha.finishReason, stopAt_eq_none_iff.mpr hclean]
    simp [hclean]
  · rw [ha.stopped hclean]
    simp [hclean]

/-- Without a stop string, an output only adds its piece. -/
theorem Holding.advance_of_clean (h : d.Holding) {output : EngineCoreOutput}
    (hclean : Clean d.stop (d.outputText ++ (d.detokenize decoder output.newTokenIds).1)) :
    (d.advance decoder output).1 = (d.detokenize decoder output.newTokenIds).2 := by
  obtain ⟨htext, hstop, hinc, -⟩ := detokenize_spec decoder output.newTokenIds d
  simp only [IncrementalDetokenizer.advance, evaluateStop, htext, hstop, checkStopStrings_eq h.clean,
    stopAt_eq_none_iff.mpr hclean, Option.map_none]

variable (decoder) in
/-- **The text at the end of a run** is what was generated, cut at the stop string that was found. -/
theorem Holding.run_generated : ∀ (outputs : List EngineCoreOutput) {d : IncrementalDetokenizer},
    d.Holding →
    (d.run decoder outputs).2.outputText = kept d.includeStopStrInOutput d.stop
      (generated d.stop d.outputText (pieces decoder d outputs)) ∧
    (¬ Clean d.stop (generated d.stop d.outputText (pieces decoder d outputs)) →
      ∃ out, (d.run decoder outputs).1.getLast? = some out ∧ out.finishReason = some .stop)
  | [], d, h => by
    have hat : stopAt d.stop d.outputText = none := stopAt_eq_none_iff.mpr h.clean
    refine ⟨?_, fun hnot => absurd h.clean hnot⟩
    rw [pieces, generated, kept, hat]
    rfl
  | output :: rest, d, h => by
    have ha := h.advance decoder output
    obtain ⟨kind, offset, hstate, hout⟩ := updateFromOutput_spec decoder d output
    rw [pieces, generated, IncrementalDetokenizer.run]
    generalize d.updateFromOutput decoder output = x at *
    obtain ⟨out, d'⟩ := x
    obtain rfl : d' = _ := hstate
    by_cases hend : output.finishReason.isSome = true ∨
        ¬ Clean d.stop (d.outputText ++ (d.detokenize decoder output.newTokenIds).1)
    · have hsome := ha.isSome_iff.mpr hend
      rw [if_pos hend]
      obtain ⟨-, hnone⟩ | ⟨out, rfl, hfin, hreason⟩ := hout
      · rw [hnone] at hsome
        cases hsome
      · rw [hsome] at hfin
        simp only [hfin, if_true]
        refine ⟨ha.outputText, fun hnot => ⟨out, rfl, ?_⟩⟩
        rw [hreason, ha.stopped hnot]
    · have hnone : (d.advance decoder output).2.1 = none := by
        rw [← Option.not_isSome_iff_eq_none, ha.isSome_iff]
        exact hend
      obtain ⟨-, hclean⟩ := not_or.mp hend
      have hstate := h.advance_of_clean (not_not.mp hclean)
      obtain ⟨hgoing, -⟩ := ha.going h hnone
      have ih := Holding.run_generated rest (d := (d.advance decoder output).1.withKind kind offset)
        ⟨hgoing.clean, hgoing.buffer⟩
      have hstop : ((d.advance decoder output).1.withKind kind offset).stop = d.stop := ha.stop
      have hinc : ((d.advance decoder output).1.withKind kind offset).includeStopStrInOutput =
          d.includeStopStrInOutput := ha.included
      have htext : ((d.advance decoder output).1.withKind kind offset).outputText = d.outputText ++
          (d.detokenize decoder output.newTokenIds).1 := by
        rw [withKind, hstate]
        exact (detokenize_spec decoder output.newTokenIds d).1
      rw [hstop, hinc, htext, pieces_withKind, hstate] at ih
      rw [if_neg hend]
      obtain ⟨rfl, -⟩ | ⟨out, rfl, hfin, -⟩ := hout
      · rw [hstate]
        exact ih
      · rw [hnone] at hfin
        simp only [hfin, Option.isSome_none, Bool.false_eq_true, if_false]
        rw [hstate]
        refine ⟨ih.1, fun hnot => ?_⟩
        obtain ⟨last, hlast, hreason⟩ := ih.2 hnot
        exact ⟨last, by rw [List.getLast?_cons, hlast]; rfl, hreason⟩

/-! ## Requests -/

/-- The text generated for a request. -/
def generatedText (decoder : Decoder) (promptTokenIds : List TokenId) (params : TextParams)
    (outputs : List EngineCoreOutput) : List Char :=
  generated params.stop [] (pieces decoder (fromNewRequest decoder promptTokenIds params) outputs)

/-- **Excluded stop strings.** The text of a request ends at the earliest place of a stop string, and
keeps none of them, exactly when of the stop strings in what was generated, the first of the list has
the earliest place. -/
theorem excluded_stop_strings_iff (decoder : Decoder) (promptTokenIds : List TokenId)
    (params : TextParams) (hexcluded : params.includeStopStrInOutput = false)
    (outputs : List EngineCoreOutput) :
    EndsAtEarliest params.stop (generatedText decoder promptTokenIds params outputs)
      ((fromNewRequest decoder promptTokenIds params).run decoder outputs).1
      ((fromNewRequest decoder promptTokenIds params).run decoder outputs).2.outputText ↔
    ListedInOrder params.stop (generatedText decoder promptTokenIds params outputs) := by
  obtain ⟨htext, hfinished⟩ :=
    (holding_fromNewRequest decoder promptTokenIds params).run_generated decoder outputs
  change _ = kept params.includeStopStrInOutput params.stop
    (generatedText decoder promptTokenIds params outputs) at htext
  change (¬ Clean params.stop (generatedText decoder promptTokenIds params outputs) → _) at hfinished
  generalize generatedText decoder promptTokenIds params outputs = text at *
  rw [hexcluded] at htext
  cases hat : stopAt params.stop text with
  | none =>
    have hclean := stopAt_eq_none_iff.mp hat
    rw [kept, hat] at htext
    rw [htext]
    refine ⟨fun _ s hs s' hs' i' hi' => ?_, fun _ => ⟨hclean, fun hnot => absurd hclean hnot,
      fun hnot => absurd hclean hnot, fun _ => rfl⟩⟩
    exact absurd (infix_iff_occursAt.mpr ⟨i', hi'⟩) (hclean s' hs')
  | some p =>
    obtain ⟨s, i⟩ := p
    obtain ⟨hs, -⟩ := mem_of_stopAt hat
    have hocc := occursAt_of_stopAt hat
    have hnot : ¬ Clean params.stop text := fun hclean => hclean s hs (infix_iff_occursAt.mpr ⟨i, hocc⟩)
    have hlen : (kept false params.stop text).length = i := length_kept hat
    rw [htext, ← kept_earliest_iff hat]
    constructor
    · intro h s' hs' i' hi'
      have := (h.earliest hnot).2.2 s' hs' i' hi'
      rwa [hlen] at this
    · intro hearliest
      refine ⟨fun s' hs' hinfix => ?_, fun _ => ⟨kept_isPrefix _ _ _, ⟨s, hs, ?_⟩, ?_⟩, hfinished,
        fun hclean => absurd hclean hnot⟩
      · have hkept : kept false params.stop text = text.take i := by
          rw [kept, hat]
          rfl
        rw [hkept] at hinfix
        obtain ⟨j, hj⟩ := infix_iff_occursAt.mp hinfix
        obtain ⟨hoccj, hend⟩ := (occursAt_take hocc.2).mp hj
        have hle := hearliest s' hs' j hoccj
        have hnil : s'.toList = [] := List.eq_nil_of_length_eq_zero (by omega)
        exact params.stop_ne s' hs' (String.toList_eq_nil_iff.mp hnil)
      · rwa [hlen]
      · rwa [hlen]

/-- A tokenizer with four tokens. -/
def fourTokens : Tokenizer where
  size := 4
  isFast := true
  allSpecialTokens := []
  addedVocab := []
  convertIdsToTokens ids _ := ids.map fun id => ["a", "b", "ab", "c"][id]?
  convertTokensToString tokens := tokens.flatMap String.toList
  isSome_token := by decide

/-- Stop strings that are to be excluded. -/
def stopParams (stop : List String) (h : ∀ s ∈ stop, s ≠ "") : TextParams :=
  ⟨stop, false, true, true, .delta, h⟩

/-- Outputs that hold "c", "ab" and "c". -/
def threeOutputs : List EngineCoreOutput :=
  [⟨"r", [3], false, none, none⟩, ⟨"r", [2], false, none, none⟩, ⟨"r", [3], false, none, none⟩]

theorem excluded_stop_strings_a_b :
    EndsAtEarliest ["a", "b"]
      (generatedText fourTokens.decoder [0] (stopParams ["a", "b"] (by decide)) threeOutputs)
      ((fromNewRequest fourTokens.decoder [0] (stopParams ["a", "b"] (by decide))).run
        fourTokens.decoder threeOutputs).1
      ((fromNewRequest fourTokens.decoder [0] (stopParams ["a", "b"] (by decide))).run
        fourTokens.decoder threeOutputs).2.outputText :=
  (excluded_stop_strings_iff fourTokens.decoder [0] (stopParams ["a", "b"] (by decide)) rfl
    threeOutputs).mpr (by decide)

/-- With the stop strings "b" and "a", the output "ab" is cut before the "b". -/
theorem excluded_stop_string_kept :
    ¬ EndsAtEarliest ["b", "a"]
      (generatedText fourTokens.decoder [0] (stopParams ["b", "a"] (by decide)) threeOutputs)
      ((fromNewRequest fourTokens.decoder [0] (stopParams ["b", "a"] (by decide))).run
        fourTokens.decoder threeOutputs).1
      ((fromNewRequest fourTokens.decoder [0] (stopParams ["b", "a"] (by decide))).run
        fourTokens.decoder threeOutputs).2.outputText := by
  intro h
  have hclean := h.excluded
  revert hclean
  decide

end IncrementalDetokenizer

end SpaceServe
