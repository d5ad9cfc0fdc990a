import SpaceServe.Engine.StopStrings

/-!
# Queued outputs

`OutputProcessor._make_request_output` and `RequestOutput.add` of `vllm/outputs.py`. When
`AsyncLLM.generate` comes to its queue, it takes everything that is there and adds it up to one output.
Adding up merges texts, token ids and the `finished` flag, but not `finish_reason` and `stop_reason`: an
output that finishes the request behind another one loses them.

* `Outputs.CompletionOutput`, `Outputs.RequestOutput`, `add`, `makeRequestOutput`: the data;
* `Turn`, `generate`: the loop of `generate`, with what it finds in its queue at each turn;
* `run_finished`: only the last result of a request finishes it; `coalesce_spec`, `generate_spec`;
* `Lossless`, `FinishesAlone`: **`coalesced_outputs_lossless_iff`**.
-/

set_option autoImplicit false

namespace SpaceServe

open Py

/-- `str(finish_reason)`. -/
def FinishReason.str : FinishReason → String
  | .stop => "stop"
  | .length => "length"
  | .abort => "abort"

namespace Outputs

/-- `CompletionOutput`. -/
structure CompletionOutput (L : Type) where
  index : ℕ
  text : String
  tokenIds : List TokenId
  cumulativeLogprob : Option L
  logprobs : Option (List L)
  finishReason : Option String
  stopReason : Option (TokenId ⊕ String)
deriving DecidableEq

/-- `RequestOutput`. -/
structure RequestOutput (L : Type) where
  requestId : ReqId
  prompt : Option String
  promptTokenIds : Option (List TokenId)
  promptLogprobs : Option (List L)
  outputs : List (CompletionOutput L)
  finished : Bool
deriving DecidableEq

variable {L : Type}

/-- `RequestOutput.new`. -/
def RequestOutput.new (requestId : ReqId) (prompt : Option String) (promptTokenIds : List TokenId)
    (text : String) (tokenIds : List TokenId) (finished : Bool) : RequestOutput L where
  requestId := requestId
  prompt := prompt
  promptTokenIds := some promptTokenIds
  promptLogprobs := none
  outputs := [⟨0, text, tokenIds, none, none, none, none⟩]
  finished := finished

/-- `completion.logprobs` with those of the next completion. -/
def addLogprobs (logprobs : Option (List L)) : Option (List L) → Except Exn (Option (List L))
  | none => .ok logprobs
  | some [] => .ok logprobs
  | some (l :: ls) =>
    match logprobs with
    | none => .error (.assertionError "")
    | some logprobs => .ok (some (logprobs ++ l :: ls))

/-- `RequestOutput.add`. -/
def RequestOutput.add (self nextOutput : RequestOutput L) : Except Exn (RequestOutput L) :=
  match self.outputs, nextOutput.outputs with
  | completion :: rest, nextCompletion :: _ => do
    let logprobs ← addLogprobs completion.logprobs nextCompletion.logprobs
    .ok { self with
      prompt := nextOutput.prompt
      promptTokenIds := nextOutput.promptTokenIds
      promptLogprobs := nextOutput.promptLogprobs
      finished := self.finished || nextOutput.finished
      outputs := { completion with
        text := completion.text ++ nextCompletion.text
        tokenIds := completion.tokenIds ++ nextCompletion.tokenIds
        logprobs := logprobs
        cumulativeLogprob := nextCompletion.cumulativeLogprob } :: rest }
  | _, _ => .error (.indexError "list index out of range")

/-- `_make_request_output`. -/
def makeRequestOutput (requestId : ReqId) (prompt : Option String) (promptTokenIds : List TokenId)
    (detokenizerOutput : DetokenizerOutput) : RequestOutput L :=
  let requestOutput := .new requestId prompt promptTokenIds detokenizerOutput.outputText
    detokenizerOutput.tokenIds detokenizerOutput.finished
  if detokenizerOutput.finished then
    { requestOutput with
      outputs := requestOutput.outputs.map fun completionOutput =>
        { completionOutput with
          finishReason := some ((detokenizerOutput.finishReason.map FinishReason.str).getD "None")
          stopReason := detokenizerOutput.stopReason } }
  else requestOutput

/-- What `generate` finds in its queue when it comes to it: it waits for the first output. -/
structure Turn (L : Type) where
  out : RequestOutput L
  queued : List (RequestOutput L)

/-- All outputs of a turn. -/
def Turn.all (turn : Turn L) : List (RequestOutput L) := turn.out :: turn.queued

/-- Coalesce any additional queued outputs. -/
def coalesce (outputKind : RequestOutputKind) (turn : Turn L) : Except Exn (RequestOutput L) :=
  turn.queued.foldlM
    (fun out nextOut => if outputKind = .delta then out.add nextOut else .ok nextOut) turn.out

/-- The loop of `generate`: what it yields. -/
def generate (outputKind : RequestOutputKind) : List (Turn L) → Except Exn (List (RequestOutput L))
  | [] => .ok []
  | turn :: rest => do
    let out ← coalesce outputKind turn
    if out.finished then .ok [out]
    else do
      let yielded ← generate outputKind rest
      .ok (out :: yielded)

/-! ## What is yielded -/

/-- The text of some outputs. -/
def text (outs : List (RequestOutput L)) : String :=
  String.join (outs.flatMap fun out => out.outputs.map (·.text))

/-- The token ids of some outputs. -/
def tokenIds (outs : List (RequestOutput L)) : List TokenId :=
  outs.flatMap fun out => out.outputs.flatMap (·.tokenIds)

/-- Why a completion ended. -/
def reasons (out : RequestOutput L) : List (Option String × Option (TokenId ⊕ String)) :=
  out.outputs.map fun completion => (completion.finishReason, completion.stopReason)

/-- The outputs that were yielded carry what the outputs that were produced do. -/
structure Lossless (produced yielded : List (RequestOutput L)) : Prop where
  text_eq : text yielded = text produced
  tokenIds_eq : tokenIds yielded = tokenIds produced
  ending : yielded.getLast?.map (fun out => (out.finished, reasons out)) =
    produced.getLast?.map fun out => (out.finished, reasons out)

/-- No output finishes the request that was queued behind another one. -/
def FinishesAlone (turns : List (Turn L)) : Prop :=
  ∀ turn ∈ turns, ∀ out ∈ turn.queued, out.finished = false

instance (turns : List (Turn L)) : Decidable (FinishesAlone turns) :=
  inferInstanceAs (Decidable (∀ _ ∈ _, ∀ _ ∈ _, _))

variable {out out' : RequestOutput L}

theorem text_append (outs outs' : List (RequestOutput L)) : text (outs ++ outs') = text outs ++ text outs' := by
  apply String.toList_inj.mp
  simp only [text, List.flatMap_append, String.toList_join, String.toList_append]

theorem tokenIds_append (outs outs' : List (RequestOutput L)) :
    tokenIds (outs ++ outs') = tokenIds outs ++ tokenIds outs' := List.flatMap_append

/-- An output with one completion, as `RequestOutput.new` makes it. -/
def Single (out : RequestOutput L) : Prop := ∃ completion, out.outputs = [completion] ∧
  completion.logprobs = none

/-- **Adding up** keeps the reasons of the first output. -/
theorem Single.add (h : Single out) (h' : Single out') : ∃ merged, out.add out' = .ok merged ∧
    Single merged ∧ text [merged] = text [out, out'] ∧ tokenIds [merged] = tokenIds [out, out'] ∧
    merged.finished = (out.finished || out'.finished) ∧ reasons merged = reasons out := by
  obtain ⟨c, hc, hlog⟩ := h
  obtain ⟨c', hc', hlog'⟩ := h'
  rw [RequestOutput.add, hc, hc']
  simp only [hlog, hlog', addLogprobs, ok_bind]
  refine ⟨_, rfl, ⟨_, rfl, rfl⟩, ?_, ?_, rfl, ?_⟩
  · apply String.toList_inj.mp
    simp [text, hc, hc']
  · simp [tokenIds, hc, hc']
  · simp [reasons, hc]

theorem coalesce_spec : ∀ {queued : List (RequestOutput L)} {out : RequestOutput L}, Single out →
    (∀ o ∈ queued, Single o) → ∃ merged, coalesce .delta ⟨out, queued⟩ = .ok merged ∧
      text [merged] = text (out :: queued) ∧ tokenIds [merged] = tokenIds (out :: queued) ∧
      merged.finished = (out :: queued).any (·.finished) ∧ reasons merged = reasons out
  | [], out, h, _ => ⟨out, rfl, rfl, rfl, by simp, rfl⟩
  | next :: queued, out, h, hq => by
    obtain ⟨merged, hadd, hm, htext, htok, hfin, hreasons⟩ := h.add (hq next List.mem_cons_self)
    obtain ⟨all, hall, htext', htok', hfin', hreasons'⟩ :=
      coalesce_spec hm fun o ho => hq o (List.mem_cons_of_mem next ho)
    refine ⟨all, ?_, ?_, ?_, ?_, hreasons'.trans hreasons⟩
    · rw [coalesce] at hall ⊢
      rw [List.foldlM_cons, if_pos rfl, hadd]
      exact hall
    · rw [htext', ← List.singleton_append, text_append, htext, ← text_append]
      rfl
    · rw [htok', ← List.singleton_append, tokenIds_append, htok, ← tokenIds_append]
      rfl
    · rw [hfin', List.any_cons, List.any_cons, List.any_cons, hfin, Bool.or_assoc]

/-- **What is yielded**: each turn's outputs, added up, with the reasons of the turn's first output. -/
theorem generate_spec : ∀ {turns : List (Turn L)}, (∀ o ∈ turns.flatMap Turn.all, Single o) →
    (∀ o ∈ (turns.flatMap Turn.all).dropLast, o.finished = false) →
    ∃ yielded, generate .delta turns = .ok yielded ∧ text yielded = text (turns.flatMap Turn.all) ∧
      tokenIds yielded = tokenIds (turns.flatMap Turn.all) ∧
      yielded.getLast?.map (fun o => (o.finished, reasons o)) =
        turns.getLast?.map fun turn => (turn.all.any (·.finished), reasons turn.out)
  | [], _, _ => ⟨[], rfl, rfl, rfl, rfl⟩
  | turn :: rest, hs, hlast => by
    rw [List.flatMap_cons] at hs hlast ⊢
    obtain ⟨hturn, hrest⟩ := List.forall_mem_append.mp hs
    obtain ⟨merged, hmerged, htext, htok, hfin, hreasons⟩ :=
      coalesce_spec (hturn turn.out List.mem_cons_self) fun o ho => hturn o (List.mem_cons_of_mem _ ho)
    rw [generate, hmerged, ok_bind]
    cases rest with
    | nil =>
      have hyield : (if merged.finished = true then Except.ok [merged] else
          generate .delta [] >>= fun yielded => Except.ok (merged :: yielded)) =
            (.ok [merged] : Except Exn _) := by
        split <;> rfl
      refine ⟨[merged], hyield, ?_, ?_, ?_⟩
      · rw [htext, List.flatMap_nil, List.append_nil]
        rfl
      · rw [htok, List.flatMap_nil, List.append_nil]
        rfl
      · simp [hfin, hreasons, Turn.all]
    | cons next rest =>
      have hne : (next :: rest).flatMap Turn.all ≠ [] := by
        rw [List.flatMap_cons]
        exact List.append_ne_nil_of_left_ne_nil (List.cons_ne_nil _ _) _
      rw [List.dropLast_append_of_ne_nil hne] at hlast
      obtain ⟨hgoing, hlast⟩ := List.forall_mem_append.mp hlast
      have hnot : merged.finished = false := by
        rw [hfin, List.any_eq_false]
        intro o ho
        rw [hgoing o ho]
        exact Bool.false_ne_true
      obtain ⟨yielded, hyield, htext', htok', hend⟩ := generate_spec hrest hlast
      rw [hnot, if_neg Bool.false_ne_true, hyield, ok_bind]
      refine ⟨merged :: yielded, rfl, ?_, ?_, ?_⟩
      · rw [← List.singleton_append, text_append, htext, htext', ← text_append]
        rfl
      · rw [← List.singleton_append, tokenIds_append, htok, htok', ← tokenIds_append]
        rfl
      · rw [List.getLast?_cons_cons, ← hend, List.getLast?_cons]
        cases hl : yielded.getLast? with
        | none =>
          rw [hl, List.getLast?_eq_some_getLast (List.cons_ne_nil next rest)] at hend
          cases hend
        | some last => rfl

/-! ## What is produced -/

open IncrementalDetokenizer

variable {decoder : Decoder}

variable (decoder) in
/-- Only the last result finishes a request, and a result has a reason when it does. -/
theorem run_finished : ∀ (outputs : List EngineCoreOutput) (d : IncrementalDetokenizer),
    (∀ out ∈ (d.run decoder outputs).1, out.finished = out.finishReason.isSome) ∧
    ∀ out ∈ (d.run decoder outputs).1.dropLast, out.finished = false
  | [], _ => ⟨fun _ h => (by cases h), fun _ h => (by cases h)⟩
  | output :: rest, d => by
    obtain ⟨-, -, -, hout⟩ := updateFromOutput_spec decoder d output
    rw [IncrementalDetokenizer.run]
    generalize d.updateFromOutput decoder output = x at *
    obtain ⟨out, d'⟩ := x
    obtain ⟨rfl, -⟩ | ⟨out, rfl, hfin, hreason⟩ := hout
    · exact run_finished rest d'
    · have hself : out.finished = out.finishReason.isSome := by rw [hfin, hreason]
      obtain ⟨hall, hbefore⟩ := run_finished rest d'
      cases hgo : out.finished with
      | true =>
        simp only [hgo, if_true]
        exact ⟨fun o ho => by rwa [List.mem_singleton.mp ho], fun o ho => by cases ho⟩
      | false =>
        simp only [hgo, Bool.false_eq_true, if_false]
        refine ⟨fun o ho => ?_, fun o ho => ?_⟩
        · obtain rfl | ho := List.mem_cons.mp ho
          · exact hself
          · exact hall o ho
        · cases hrest : (d'.run decoder rest).1 with
          | nil =>
            rw [hrest] at ho
            cases ho
          | cons a l =>
            rw [hrest, List.dropLast_cons_cons] at ho
            obtain rfl | ho := List.mem_cons.mp ho
            · exact hgo
            · exact hbefore o (hrest ▸ ho)

/-- The outputs of one request with `DELTA` outputs. -/
def produced (decoder : Decoder) (requestId : ReqId) (prompt : Option String)
    (promptTokenIds : List TokenId) (params : TextParams) (outputs : List EngineCoreOutput) :
    List (RequestOutput L) :=
  (results decoder promptTokenIds params outputs .delta).map
    (makeRequestOutput requestId prompt promptTokenIds)

theorem single_makeRequestOutput (requestId : ReqId) (prompt : Option String)
    (promptTokenIds : List TokenId) (o : DetokenizerOutput) :
    Single (makeRequestOutput requestId prompt promptTokenIds o : RequestOutput L) := by
  rw [makeRequestOutput]
  split
  · exact ⟨_, rfl, rfl⟩
  · exact ⟨_, rfl, rfl⟩

theorem makeRequestOutput_finished (requestId : ReqId) (prompt : Option String)
    (promptTokenIds : List TokenId) (o : DetokenizerOutput) :
    (makeRequestOutput requestId prompt promptTokenIds o : RequestOutput L).finished = o.finished := by
  rw [makeRequestOutput]
  split <;> rfl

/-- An output has reasons exactly when it finishes the request. -/
theorem reasons_makeRequestOutput (requestId : ReqId) (prompt : Option String)
    (promptTokenIds : List TokenId) (o : DetokenizerOutput) :
    reasons (makeRequestOutput requestId prompt promptTokenIds o : RequestOutput L) = [(none, none)] ↔
      o.finished = false := by
  rw [makeRequestOutput]
  cases hfin : o.finished with
  | true => simp [reasons, RequestOutput.new]
  | false => simp [reasons, RequestOutput.new]

variable (decoder) in
/-- Of what is produced, only the last output finishes the request. -/
theorem produced_finished (requestId : ReqId) (prompt : Option String) (promptTokenIds : List TokenId)
    (params : TextParams) (outputs : List EngineCoreOutput) :
    (∀ o ∈ (produced decoder requestId prompt promptTokenIds params outputs : List (RequestOutput L)),
      Single o ∧ (reasons o = [(none, none)] ↔ o.finished = false)) ∧
    ∀ o ∈ (produced decoder requestId prompt promptTokenIds params outputs :
      List (RequestOutput L)).dropLast, o.finished = false := by
  obtain ⟨-, hbefore⟩ := run_finished decoder outputs
    (fromNewRequest decoder promptTokenIds { params with outputKind := .delta })
  refine ⟨fun o ho => ?_, fun o ho => ?_⟩
  · obtain ⟨d, -, rfl⟩ := List.mem_map.mp ho
    rw [makeRequestOutput_finished]
    exact ⟨single_makeRequestOutput _ _ _ _, reasons_makeRequestOutput _ _ _ _⟩
  · rw [produced, ← List.map_dropLast] at ho
    obtain ⟨d, hd, rfl⟩ := List.mem_map.mp ho
    rw [makeRequestOutput_finished]
    exact hbefore d hd

/-- The last turn ends as its last output does, unless that output finishes the request behind another
one. -/
theorem ending_iff {turns : List (Turn L)}
    (hall : ∀ o ∈ turns.flatMap Turn.all, reasons o = [(none, none)] ↔ o.finished = false)
    (hbefore : ∀ o ∈ (turns.flatMap Turn.all).dropLast, o.finished = false) :
    turns.getLast?.map (fun turn => (turn.all.any (·.finished), reasons turn.out)) =
      (turns.flatMap Turn.all).getLast?.map (fun out => (out.finished, reasons out)) ↔
    FinishesAlone turns := by
  obtain rfl | ⟨before, ⟨out, queued⟩, rfl⟩ := turns.eq_nil_or_concat'
  · exact ⟨fun _ turn h => (by cases h), fun _ => rfl⟩
  · have hflat : (before ++ [(⟨out, queued⟩ : Turn L)]).flatMap Turn.all =
        before.flatMap Turn.all ++ out :: queued := by
      rw [List.flatMap_append, List.flatMap_singleton]
      rfl
    rw [hflat] at hall hbefore ⊢
    rw [List.dropLast_append_of_ne_nil (List.cons_ne_nil _ _)] at hbefore
    obtain ⟨hearly, hbefore⟩ := List.forall_mem_append.mp hbefore
    have halone : FinishesAlone (before ++ [(⟨out, queued⟩ : Turn L)]) ↔
        ∀ o ∈ queued, o.finished = false := by
      constructor
      · intro h o ho
        exact h ⟨out, queued⟩ (List.mem_append_right before (List.mem_singleton_self _)) o ho
      · intro h turn hturn o ho
        obtain hturn | hturn := List.mem_append.mp hturn
        · exact hearly o (List.mem_flatMap.mpr ⟨turn, hturn, List.mem_cons_of_mem _ ho⟩)
        · rw [List.mem_singleton.mp hturn] at ho
          exact h o ho
    rw [halone, List.getLast?_concat, List.getLast?_append_of_ne_nil _ (List.cons_ne_nil _ _)]
    obtain rfl | ⟨mid, last, rfl⟩ := queued.eq_nil_or_concat'
    · simp [Turn.all]
    · rw [← List.cons_append, List.dropLast_concat] at hbefore
      have hout := hbefore out List.mem_cons_self
      have hmid : mid.any (·.finished) = false := by
        rw [List.any_eq_false]
        intro o ho
        rw [hbefore o (List.mem_cons_of_mem out ho)]
        exact Bool.false_ne_true
      have hreasons : reasons out = [(none, none)] := (hall out (by simp)).mpr hout
      have hlast := hall last (by simp)
      have hqueued : (∀ o ∈ mid ++ [last], o.finished = false) ↔ last.finished = false := by
        rw [List.forall_mem_append]
        simp only [List.mem_singleton, forall_eq]
        exact ⟨fun h => h.2, fun h => ⟨fun o ho => hbefore o (List.mem_cons_of_mem out ho), h⟩⟩
      rw [hqueued, ← hlast, ← List.cons_append, List.getLast?_concat]
      simp [Turn.all, hout, hmid, hreasons, eq_comm]

/-- **Coalesced outputs.** Whatever `generate` finds in its queue at each turn, it yields the texts and
token ids that were produced; and the last yielded output ends the request as the last produced one
does exactly when no output that finishes the request was queued behind another one. -/
theorem coalesced_outputs_lossless_iff (decoder : Decoder) (requestId : ReqId) (prompt : Option String)
    (promptTokenIds : List TokenId) (params : TextParams) (outputs : List EngineCoreOutput)
    (turns : List (Turn L)) (hturns : turns.flatMap Turn.all =
      produced decoder requestId prompt promptTokenIds params outputs) :
    ∃ yielded, generate .delta turns = .ok yielded ∧
      (Lossless (produced decoder requestId prompt promptTokenIds params outputs) yielded ↔
        FinishesAlone turns) := by
  obtain ⟨hall, hbefore⟩ := produced_finished (L := L) decoder requestId prompt
    promptTokenIds params outputs
  rw [← hturns] at hall hbefore ⊢
  obtain ⟨yielded, hyield, htext, htok, hend⟩ :=
    generate_spec (fun o ho => (hall o ho).1) hbefore
  refine ⟨yielded, hyield, ?_⟩
  rw [← ending_iff (fun o ho => (hall o ho).2) hbefore, ← hend]
  exact ⟨fun h => h.ending, fun h => ⟨htext, htok, h⟩⟩

/-- The outputs of a request that gets a token twice, and reaches its length with the second. -/
def twoTokens : List EngineCoreOutput :=
  [⟨"r", [3], false, none, none⟩, ⟨"r", [0], true, some .length, none⟩]

theorem no_stop_strings : ∀ s ∈ ([] : List String), s ≠ "" := List.forall_mem_nil _

/-- What they make. -/
def twoProduced : List (RequestOutput ℕ) :=
  produced fourTokens.decoder "r" none [0] (stopParams [] no_stop_strings) twoTokens

/-- `generate` finds the second output behind the first. -/
def oneTurn : List (Turn ℕ) :=
  twoProduced.head?.toList.map fun out => ⟨out, twoProduced.tail⟩

/-- `generate` finds one output after the other. -/
def twoTurns : List (Turn ℕ) := twoProduced.map fun out => ⟨out, []⟩

theorem coalesced_outputs_two_turns : ∃ yielded, generate .delta twoTurns = .ok yielded ∧
    Lossless twoProduced yielded := by
  obtain ⟨yielded, hyield, hiff⟩ := coalesced_outputs_lossless_iff fourTokens.decoder "r" none [0]
    (stopParams [] no_stop_strings) twoTokens twoTurns (by decide)
  exact ⟨yielded, hyield, hiff.mpr (by decide)⟩

/-- The finish reason of an output that is added to another one is lost. -/
theorem coalesced_outputs_lose_reason : oneTurn.flatMap Turn.all = twoProduced ∧
    ¬ ∃ yielded, generate .delta oneTurn = .ok yielded ∧ Lossless twoProduced yielded := by
  refine ⟨by decide, ?_⟩
  rintro ⟨yielded, hyield, h⟩
  have hgen : (generate .delta oneTurn).map
      (fun yielded => yielded.getLast?.map fun out => (out.finished, reasons out)) =
        .ok (some (true, [(none, none)])) := rfl
  have hproduced : twoProduced.getLast?.map (fun out => (out.finished, reasons out)) =
      some (true, [(some "length", none)]) := by decide
  rw [hyield] at hgen
  have hend := (Except.ok.inj hgen).symm.trans (h.ending.trans hproduced)
  revert hend
  decide

end Outputs

end SpaceServe
