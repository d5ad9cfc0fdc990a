import SpaceServe.Lib.Utf8
import SpaceServe.Engine.Detokenizer

/-!
# Byte-level tokenizers

A token of a byte-level tokenizer stands for some bytes, and tokens are turned into text by decoding the
bytes of all of them. The detokenizer decodes a window of tokens only; what it returns ends between two
characters each time.

* `ByteLevel`: what a fast byte-level tokenizer does;
* `Holds`: the window of the detokenizer, and the bytes it holds back;
* `Holds.detokenizeToken`, `Holds.decodedTexts`: one token; a run;
* **`incremental_eq_one_shot`**.
-/

set_option autoImplicit false

namespace SpaceServe

open Py

/-- A fast byte-level tokenizer: `token` is the vocabulary, `bytes` what a token stands for. -/
structure ByteLevel (tokenizer : Tokenizer) (token : TokenId → Option String)
    (bytes : String → List UInt8) : Prop where
  isFast : tokenizer.isFast = true
  convertIdsToTokens : ∀ ids, tokenizer.convertIdsToTokens ids false = ids.map token
  convertTokensToString : ∀ tokens, tokenizer.convertTokensToString tokens =
    Utf8.decode (tokens.flatMap bytes)
  bytes_empty : bytes "" = []

/-- The bytes of prompt tokens. -/
def promptBytes (token : TokenId → Option String) (bytes : String → List UInt8) (ids : List TokenId) :
    List UInt8 :=
  ids.flatMap fun id => bytes ((token id).getD "")

/-- The bytes of a generated token; an id out of range has none. -/
def tokenBytes (tokenizer : Tokenizer) (token : TokenId → Option String) (bytes : String → List UInt8)
    (id : TokenId) : List UInt8 :=
  if id < tokenizer.size then bytes ((token id).getD "") else []

namespace IncrementalDetokenizer

/-- The texts that the calls of `update_from_output` decode. -/
def decodedTexts (decoder : Decoder) : IncrementalDetokenizer → List EngineCoreOutput → List (List Char)
  | _, [] => []
  | d, output :: rest =>
    (d.detokenize decoder output.newTokenIds).1 ::
      decodedTexts decoder (d.updateFromOutput decoder output).2 rest

end IncrementalDetokenizer

/-- The window of a detokenizer ends between two characters; the bytes behind it were held back, for they
are no text or they end in a replacement. -/
structure Holds (bytes : String → List UInt8) (d : IncrementalDetokenizer) (held : List UInt8) : Prop where
  no_skip : d.skipSpecialTokens = false
  prefix_le : d.prefixOffset ≤ d.readOffset
  read_le : d.readOffset ≤ d.tokens.length
  window : Utf8.Boundary ((slice d.tokens d.prefixOffset d.readOffset).flatMap bytes)
  rest : (d.tokens.drop d.readOffset).flatMap bytes = held
  reason : Utf8.decode held = [] ∨ (Utf8.decode held).getLast? = some Utf8.replacement

variable {tokenizer : Tokenizer} {token : TokenId → Option String} {bytes : String → List UInt8}
  {d d' : IncrementalDetokenizer} {held : List UInt8}

theorem Holds.congr (h : Holds bytes d held) (hskip : d'.skipSpecialTokens = d.skipSpecialTokens)
    (htokens : d'.tokens = d.tokens) (hoffset : d'.prefixOffset = d.prefixOffset)
    (hread : d'.readOffset = d.readOffset) : Holds bytes d' held := by
  constructor
  · rw [hskip, h.no_skip]
  · rw [hoffset, hread]
    exact h.prefix_le
  · rw [hread, htokens]
    exact h.read_le
  · rw [htokens, hoffset, hread]
    exact h.window
  · rw [htokens, hread]
    exact h.rest
  · exact h.reason

/-- The last tokens of the prompt, wherever they begin. -/
theorem holds_fromNewRequest (hbyte : ByteLevel tokenizer token bytes) {promptIds : List TokenId}
    (hprompt : Utf8.Boundary (promptBytes token bytes promptIds)) {params : TextParams}
    (hskip : params.skipSpecialTokens = false) :
    Holds bytes (IncrementalDetokenizer.fromNewRequest tokenizer.decoder promptIds params) [] := by
  have htokens : (IncrementalDetokenizer.fromNewRequest tokenizer.decoder promptIds params).tokens =
      (promptIds.rtake 7).map fun id => (token id).getD "" := by
    simp only [IncrementalDetokenizer.fromNewRequest, Tokenizer.decoder, convertPromptIdsToTokens, hskip,
      hbyte.convertIdsToTokens, List.map_map]
    rfl
  have hread : (IncrementalDetokenizer.fromNewRequest tokenizer.decoder promptIds params).readOffset =
      (promptIds.rtake 7).length := by
    simp only [IncrementalDetokenizer.fromNewRequest, Tokenizer.decoder, convertPromptIdsToTokens, hskip,
      hbyte.convertIdsToTokens, List.length_map]
    rfl
  have hoffset : (IncrementalDetokenizer.fromNewRequest tokenizer.decoder promptIds params).prefixOffset =
      (promptIds.rtake 7).length - 5 := by
    simp only [IncrementalDetokenizer.fromNewRequest, Tokenizer.decoder, convertPromptIdsToTokens, hskip,
      hbyte.convertIdsToTokens, List.length_map]
    rfl
  constructor
  · exact hskip
  · rw [hoffset, hread]
    exact Nat.sub_le _ _
  · rw [hread, htokens, List.length_map]
  · rw [htokens, hoffset, hread]
    have hdrop : slice ((promptIds.rtake 7).map fun id => (token id).getD "")
        ((promptIds.rtake 7).length - 5) (promptIds.rtake 7).length =
          ((promptIds.rtake 7).drop ((promptIds.rtake 7).length - 5)).map fun id => (token id).getD "" := by
      rw [slice, List.take_of_length_le (by simp), List.map_drop]
    have hsuffix : (promptIds.rtake 7).drop ((promptIds.rtake 7).length - 5) <:+ promptIds :=
      (List.drop_suffix _ _).trans (List.drop_suffix _ _)
    obtain ⟨before, hbefore⟩ := hsuffix
    rw [hdrop, List.flatMap_map]
    rw [← hbefore, promptBytes, List.flatMap_append] at hprompt
    exact hprompt.of_append
  · rw [htokens, hread, List.drop_eq_nil_of_le (by simp), List.flatMap_nil]
  · exact Or.inl rfl

/-- The token that is added for an id. -/
def newToken (tokenizer : Tokenizer) (token : TokenId → Option String) (id : TokenId) : String :=
  if id < tokenizer.size then (token id).getD "" else ""

theorem ByteLevel.bytes_newToken (hbyte : ByteLevel tokenizer token bytes) (id : TokenId) :
    bytes (newToken tokenizer token id) = tokenBytes tokenizer token bytes id := by
  rw [newToken, tokenBytes]
  split_ifs
  · rfl
  · exact hbyte.bytes_empty

/-- What `detokenize_incrementally` returns, in bytes: `window` are those before the read offset, `rest`
those behind it. -/
theorem ByteLevel.detokenizeIncrementally (hbyte : ByteLevel tokenizer token bytes) (ids : List TokenId)
    (id : TokenId) (tokens : List String) {prefixOffset readOffset : ℕ} (hle : prefixOffset ≤ readOffset)
    (hlen : readOffset ≤ tokens.length)
    (hwindow : Utf8.Boundary ((slice tokens prefixOffset readOffset).flatMap bytes)) (spaces : Bool) :
    SpaceServe.detokenizeIncrementally tokenizer (ids ++ [id]) tokens prefixOffset readOffset false spaces =
      let text := Utf8.decode ((tokens.drop readOffset).flatMap bytes ++ tokenBytes tokenizer token bytes id)
      if text = [] ∨ text.getLast? = some Utf8.replacement then
        ([newToken tokenizer token id], [], prefixOffset, readOffset)
      else ([newToken tokenizer token id], text, readOffset, tokens.length + 1) := by
  have hnew : (if id < tokenizer.size then (tokenizer.convertIdsToTokens [id] false).map (·.getD "")
      else [""]) = [newToken tokenizer token id] := by
    rw [hbyte.convertIdsToTokens, newToken]
    split_ifs <;> rfl
  have hslice : slice (tokens ++ [newToken tokenizer token id]) prefixOffset readOffset =
      slice tokens prefixOffset readOffset := by
    rw [slice, slice, List.drop_append_of_le_length (hle.trans hlen), List.take_append_of_le_length]
    rw [List.length_drop]
    omega
  have hdrop : (tokens ++ [newToken tokenizer token id]).drop prefixOffset =
      slice tokens prefixOffset readOffset ++ (tokens.drop readOffset ++ [newToken tokenizer token id]) := by
    have hsplit := List.take_append_drop (readOffset - prefixOffset) (tokens.drop prefixOffset)
    rw [List.drop_drop, Nat.add_sub_cancel' hle] at hsplit
    rw [List.drop_append_of_le_length (hle.trans hlen), ← List.append_assoc, slice, hsplit]
  have hbytes : ((tokens ++ [newToken tokenizer token id]).drop prefixOffset).flatMap bytes =
      (slice tokens prefixOffset readOffset).flatMap bytes ++
        ((tokens.drop readOffset).flatMap bytes ++ tokenBytes tokenizer token bytes id) := by
    rw [hdrop, List.flatMap_append, List.flatMap_append, List.flatMap_singleton, hbyte.bytes_newToken]
  have hlast : (ids ++ [id]).getLastD 0 = id := by simp
  simp only [SpaceServe.detokenizeIncrementally, hlast, hnew, hbyte.isFast, true_or, if_true,
    hbyte.convertTokensToString, hslice, hbytes, Utf8.decode_append hwindow, List.length_append,
    List.length_singleton, List.drop_left]
  generalize Utf8.decode ((tokens.drop readOffset).flatMap bytes ++
    tokenBytes tokenizer token bytes id) = text
  -- the window adds nothing to the tests
  have htest : ((Utf8.decode ((slice tokens prefixOffset readOffset).flatMap bytes)).length + text.length ≤
      (Utf8.decode ((slice tokens prefixOffset readOffset).flatMap bytes)).length ∨
      (Utf8.decode ((slice tokens prefixOffset readOffset).flatMap bytes) ++ text).getLast? =
        some '\uFFFD') ↔ (text = [] ∨ text.getLast? = some Utf8.replacement) := by
    cases text with
    | nil => simp
    | cons c text =>
      rw [List.getLast?_append_of_ne_nil _ (List.cons_ne_nil c text)]
      simp [Utf8.replacement]
  simp only [htest]

/-- **One token.** Its bytes join those that are held back; all of them come out, or none. -/
theorem Holds.detokenizeToken (hbyte : ByteLevel tokenizer token bytes) (h : Holds bytes d held)
    (id : TokenId) : ∃ out held', held ++ tokenBytes tokenizer token bytes id = out ++ held' ∧
      Utf8.Boundary out ∧ (d.detokenizeToken tokenizer.decoder id).1 = Utf8.decode out ∧
      Holds bytes (d.detokenizeToken tokenizer.decoder id).2 held' := by
  have hstep := hbyte.detokenizeIncrementally d.tokenIds id d.tokens h.prefix_le h.read_le h.window
    d.spacesBetweenSpecialTokens
  rw [h.rest] at hstep
  simp only at hstep
  have hnew : ([newToken tokenizer token id]).flatMap bytes = tokenBytes tokenizer token bytes id := by
    rw [List.flatMap_singleton, hbyte.bytes_newToken]
  have hread := h.read_le
  unfold IncrementalDetokenizer.detokenizeToken
  simp only [Tokenizer.decoder, h.no_skip]
  by_cases hhold : Utf8.decode (held ++ tokenBytes tokenizer token bytes id) = [] ∨
      (Utf8.decode (held ++ tokenBytes tokenizer token bytes id)).getLast? = some Utf8.replacement
  · rw [if_pos hhold] at hstep
    refine ⟨[], _, rfl, Utf8.boundary_nil, ?_, ?_⟩
    · rw [hstep]
      rfl
    · rw [hstep]
      constructor
      · rfl
      · exact h.prefix_le
      · simp only [List.length_append]
        omega
      · simp only [slice]
        rw [List.drop_append_of_le_length (h.prefix_le.trans hread), List.take_append_of_le_length]
        · exact h.window
        · rw [List.length_drop]
          omega
      · simp only
        rw [List.drop_append_of_le_length hread, List.flatMap_append, h.rest, hnew]
        rfl
      · exact hhold
  · have hboundary : Utf8.Boundary (held ++ tokenBytes tokenizer token bytes id) := by
      by_contra hinside
      exact hhold (Or.inr (Utf8.getLast?_decode hinside))
    rw [if_neg hhold] at hstep
    refine ⟨held ++ tokenBytes tokenizer token bytes id, [], (List.append_nil _).symm, hboundary, ?_, ?_⟩
    · rw [hstep]
    · rw [hstep]
      constructor
      · rfl
      · exact Nat.le_succ_of_le hread
      · simp
      · simp only [slice]
        rw [List.drop_append_of_le_length hread, List.take_of_length_le, List.flatMap_append, h.rest, hnew]
        · exact hboundary
        · simp only [List.length_append, List.length_drop, List.length_singleton]
          omega
      · simp only
        rw [List.drop_eq_nil_of_le (by simp), List.flatMap_nil]
      · exact Or.inl rfl

theorem Holds.detokenize (hbyte : ByteLevel tokenizer token bytes) : ∀ (ids : List TokenId)
    {d : IncrementalDetokenizer} {held : List UInt8}, Holds bytes d held →
    ∃ out held', held ++ ids.flatMap (tokenBytes tokenizer token bytes) = out ++ held' ∧
      Utf8.Boundary out ∧ (d.detokenize tokenizer.decoder ids).1 = Utf8.decode out ∧
      Holds bytes (d.detokenize tokenizer.decoder ids).2 held'
  | [], d, held, h => ⟨[], held, by simp, Utf8.boundary_nil, rfl, h⟩
  | id :: ids, d, held, h => by
    obtain ⟨out₁, held₁, hsplit₁, hbound₁, htext₁, h₁⟩ := h.detokenizeToken hbyte id
    obtain ⟨out₂, held₂, hsplit₂, hbound₂, htext₂, h₂⟩ := Holds.detokenize hbyte ids h₁
    refine ⟨out₁ ++ out₂, held₂, ?_, hbound₁.append hbound₂, ?_, h₂⟩
    · rw [List.flatMap_cons, ← List.append_assoc, hsplit₁, List.append_assoc, hsplit₂, List.append_assoc]
    · rw [Utf8.decode_append hbound₁, ← htext₁, ← htext₂]
      rfl

theorem Holds.getNextOutputText (h : Holds bytes d held) (finished delta : Bool) :
    Holds bytes (d.getNextOutputText finished delta).2 held := by
  unfold IncrementalDetokenizer.getNextOutputText
  dsimp only
  split_ifs <;> exact h.congr rfl rfl rfl rfl

/-- The rest of `update_from_output` leaves tokens and offsets as they are. -/
theorem Holds.updateFromOutput {output : EngineCoreOutput} {decoder : Decoder}
    (h : Holds bytes (d.detokenize decoder output.newTokenIds).2 held) :
    Holds bytes (d.updateFromOutput decoder output).2 held := by
  have hstop : Holds bytes (d.advance decoder output).1 held := by
    simp only [IncrementalDetokenizer.advance, IncrementalDetokenizer.evaluateStop]
    split
    · exact h
    · exact h
    · exact h.congr rfl rfl rfl rfl
  unfold IncrementalDetokenizer.updateFromOutput IncrementalDetokenizer.makeOutput
  dsimp only
  split_ifs
  · exact hstop
  · exact hstop.getNextOutputText _ _
  · exact hstop.getNextOutputText _ _

/-- **A run.** All that was generated has come out, but for the bytes that are held back. -/
theorem Holds.decodedTexts (hbyte : ByteLevel tokenizer token bytes) : ∀ (outputs : List EngineCoreOutput)
    {d : IncrementalDetokenizer} {held : List UInt8}, Holds bytes d held →
    ∃ out held', held ++ (outputs.flatMap (·.newTokenIds)).flatMap (tokenBytes tokenizer token bytes) =
        out ++ held' ∧ Utf8.Boundary out ∧
      (d.decodedTexts tokenizer.decoder outputs).flatten = Utf8.decode out ∧
      (Utf8.decode held' = [] ∨ (Utf8.decode held').getLast? = some Utf8.replacement)
  | [], d, held, h => ⟨[], held, by simp, Utf8.boundary_nil, rfl, h.reason⟩
  | output :: outputs, d, held, h => by
    obtain ⟨out₁, held₁, hsplit₁, hbound₁, htext₁, h₁⟩ := Holds.detokenize hbyte output.newTokenIds h
    obtain ⟨out₂, held₂, hsplit₂, hbound₂, htext₂, h₂⟩ :=
      Holds.decodedTexts hbyte outputs h₁.updateFromOutput
    refine ⟨out₁ ++ out₂, held₂, ?_, hbound₁.append hbound₂, ?_, h₂⟩
    · rw [List.flatMap_cons, List.flatMap_append, ← List.append_assoc, hsplit₁, List.append_assoc, hsplit₂,
        List.append_assoc]
    · rw [Utf8.decode_append hbound₁, ← htext₁, ← htext₂]
      rfl

/-- **Incremental detokenization** of valid UTF-8 that does not end in `U+FFFD`: the texts, joined, are the
text of all that was generated. -/
theorem incremental_eq_one_shot (hbyte : ByteLevel tokenizer token bytes) {promptIds : List TokenId}
    (hprompt : Utf8.Boundary (promptBytes token bytes promptIds)) {params : TextParams}
    (hskip : params.skipSpecialTokens = false) {outputs : List EngineCoreOutput} {text : List Char}
    (htext : (outputs.flatMap (·.newTokenIds)).flatMap (tokenBytes tokenizer token bytes) =
      Utf8.encode text) (hlast : text.getLast? ≠ some Utf8.replacement) :
    ((IncrementalDetokenizer.fromNewRequest tokenizer.decoder promptIds params).decodedTexts
        tokenizer.decoder outputs).flatten =
      Utf8.decode ((outputs.flatMap (·.newTokenIds)).flatMap (tokenBytes tokenizer token bytes)) := by
  obtain ⟨out, held, hsplit, hbound, hout, hheld⟩ :=
    (holds_fromNewRequest hbyte hprompt hskip).decodedTexts hbyte outputs
  have hdecode : text = Utf8.decode out ++ Utf8.decode held := by
    rw [← Utf8.decode_append hbound, ← hsplit, List.nil_append, htext, Utf8.decode_encode]
  rw [htext, Utf8.decode_encode]
  rcases hheld with hnil | hend
  · rw [hout, hdecode, hnil, List.append_nil]
  · -- nothing may be held back at the end
    refine absurd ?_ hlast
    rw [hdecode, List.getLast?_append, hend]
    rfl

/-- The token of a byte, and the byte of a token. -/
def byteToken (id : TokenId) : Option String := some (String.singleton (Char.ofNat id))

def byteOf (token : String) : List UInt8 := token.toList.map fun c => c.toNat.toUInt8

/-- A tokenizer with a token for every byte. -/
def byteTokenizer : Tokenizer where
  size := 256
  isFast := true
  allSpecialTokens := []
  addedVocab := []
  convertIdsToTokens ids _ := ids.map byteToken
  convertTokensToString tokens := Utf8.decode (tokens.flatMap byteOf)
  isSome_token _ _ _ token htoken := by
    rw [List.map_cons, List.map_nil, List.mem_singleton] at htoken
    rw [htoken]
    rfl

theorem byteLevel_byteTokenizer : ByteLevel byteTokenizer byteToken byteOf :=
  ⟨rfl, fun _ => rfl, fun _ => rfl, rfl⟩

/-- The three bytes of the euro sign in two outputs, and an id that is out of range. -/
def euroOutputs : List EngineCoreOutput :=
  [⟨"0", [0xE2, 0x82], false, none, none⟩, ⟨"0", [0xAC, 300], false, none, none⟩]

def euroParams : TextParams := ⟨[], false, false, false, .delta, fun _ hs => by cases hs⟩

/-- The euro sign, behind a prompt of two letters. -/
theorem incremental_eq_one_shot_euro :
    ((IncrementalDetokenizer.fromNewRequest byteTokenizer.decoder [72, 105] euroParams).decodedTexts
      byteTokenizer.decoder euroOutputs).flatten = ['€'] := by
  have hprompt : Utf8.Boundary (promptBytes byteToken byteOf [72, 105]) := rfl
  have hskip : euroParams.skipSpecialTokens = false := rfl
  have htext : (euroOutputs.flatMap (·.newTokenIds)).flatMap (tokenBytes byteTokenizer byteToken byteOf) =
      Utf8.encode ['€'] := by decide
  rw [incremental_eq_one_shot byteLevel_byteTokenizer hprompt hskip htext (by decide), htext,
    Utf8.decode_encode]

end SpaceServe
