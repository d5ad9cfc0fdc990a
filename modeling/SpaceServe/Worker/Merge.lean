import Mathlib.Data.List.ReduceOption
import SpaceServe.Worker.Gather
import SpaceServe.Worker.Inputs

/-!
# Merging encoder outputs into the embeddings

`merge_multimodal_embeddings` of `vllm/model_executor/models/utils.py`, as
`Qwen2VLForConditionalGeneration.get_input_embeddings` of `qwen2_vl.py` calls it from `execute_model`.
The rows of all encoder outputs are matched to the tokens of the batch by their order alone: row `m`
goes to the `m`-th token that is an image or a video token.

An embedding is kept as what it comes from: a token, or a row of an encoder output.

* `Embedding`, `mergeMultimodalEmbeddings`, `getInputEmbeddings`, `embedInputs`;
* `merge_row`: where rows go; **`merge_matching`**: they go where they belong if the image and video
  tokens are the ones that have a row.
-/

set_option autoImplicit false

namespace SpaceServe

open Py

/-- An entry of `inputs_embeds`. -/
inductive Embedding (ρ : Type)
  | text (tokenId : TokenId)
  | row (r : ρ)
deriving DecidableEq

section

variable {ρ : Type}

/-- `_embedding_count_expression` of a list of encoder outputs. -/
def embeddingCountExpression (multimodalEmbeddings : List (List ρ)) : String :=
  " + ".intercalate (multimodalEmbeddings.map fun e => toString e.length)

/-- `inputs_embeds[is_multimodal] = flattened`. -/
def assignMasked : List Bool → List (Embedding ρ) → List ρ → List (Embedding ρ)
  | true :: mask, _ :: embeds, r :: rows => .row r :: assignMasked mask embeds rows
  | _ :: mask, e :: embeds, rows => e :: assignMasked mask embeds rows
  | _, embeds, _ => embeds

/-- `merge_multimodal_embeddings` with a list of placeholder token ids. -/
def mergeMultimodalEmbeddings (inputIds : List TokenId) (inputsEmbeds : List (Embedding ρ))
    (multimodalEmbeddings : List (List ρ)) (placeholderTokenId : List TokenId) :
    Except Exn (List (Embedding ρ)) :=
  let isMultimodal := inputIds.map fun t => decide (t ∈ placeholderTokenId)
  let numExpectedTokens := isMultimodal.count true
  let flattened := multimodalEmbeddings.flatten
  if flattened.length ≠ numExpectedTokens then
    .error (.valueError ("Attempted to assign " ++ embeddingCountExpression multimodalEmbeddings ++
      " = " ++ toString flattened.length ++ " multimodal tokens to " ++ toString numExpectedTokens ++
      " placeholders"))
  else .ok (assignMasked isMultimodal inputsEmbeds flattened)

/-- The token ids of a model's configuration that stand for multi-modal inputs. -/
structure PlaceholderTokens where
  imageTokenId : TokenId
  videoTokenId : TokenId

/-- The two of them. -/
def PlaceholderTokens.ids (c : PlaceholderTokens) : List TokenId := [c.imageTokenId, c.videoTokenId]

/-- `get_input_embeddings`. -/
def getInputEmbeddings (c : PlaceholderTokens) (inputIds : List TokenId)
    (multimodalEmbeddings : Option (List (List ρ))) : Except Exn (List (Embedding ρ)) :=
  let inputsEmbeds := inputIds.map .text
  match multimodalEmbeddings with
  | none => .ok inputsEmbeds
  | some embeddings => mergeMultimodalEmbeddings inputIds inputsEmbeds embeddings c.ids

/-- The part of `execute_model` between `_update_states` and the forward pass. -/
def GPUModelRunner.embedInputs (w : GPUModelRunner (List ρ)) (p : KVCacheParams)
    (useCascade : ℤ → List ℕ → Bool) (c : PlaceholderTokens) (out : SchedulerOutput) :
    Except Exn (List (Embedding ρ)) := do
  let encoderOutputs ← w.gatherEncoderOutputs out
  let inputs ← w.prepareInputs p useCascade out
  getInputEmbeddings c inputs.inputIds (if encoderOutputs = [] then none else some encoderOutputs)

/-! ## Where the rows go -/

variable {ids : List TokenId} {ph : List TokenId}

/-- Rows go to the masked entries. -/
theorem assignMasked_row : ∀ {ids : List TokenId} {rows : List ρ},
    rows.length = (ids.map fun t => decide (t ∈ ph)).count true →
      ∀ (k : ℕ) (t : TokenId), ids[k]? = some t →
      ((t ∈ ph → ∃ r, (assignMasked (ids.map fun t => decide (t ∈ ph)) (ids.map Embedding.text)
          rows)[k]? = some (Embedding.row r)) ∧
        (t ∉ ph → (assignMasked (ids.map fun t => decide (t ∈ ph)) (ids.map Embedding.text)
          rows)[k]? = some (Embedding.text t)))
  | [], rows, _, k, t, hk => by cases hk
  | t₀ :: ids, rows, h, k, t, hk => by
    simp only [List.map_cons] at h ⊢
    by_cases ht₀ : t₀ ∈ ph
    · rw [decide_eq_true ht₀, List.count_cons_self] at h
      obtain ⟨r, rows, rfl⟩ := List.exists_cons_of_length_eq_add_one h
      rw [decide_eq_true ht₀, assignMasked]
      cases k with
      | zero =>
        obtain rfl := Option.some.inj hk
        exact ⟨fun _ => ⟨r, rfl⟩, fun hn => absurd ht₀ hn⟩
      | succ k => exact assignMasked_row (Nat.succ.inj h) k t hk
    · rw [decide_eq_false ht₀, List.count_cons_of_ne Bool.noConfusion] at h
      rw [decide_eq_false ht₀]
      cases k with
      | zero =>
        obtain rfl := Option.some.inj hk
        refine ⟨fun hp => absurd hp ht₀, fun _ => ?_⟩
        cases rows <;> rfl
      | succ k =>
        have ih := assignMasked_row h k t hk
        cases rows <;> exact ih

/-- **Where the rows go** in a merge that returns. -/
theorem merge_row {mm : List (List ρ)} {embeds : List (Embedding ρ)}
    (h : mergeMultimodalEmbeddings ids (ids.map .text) mm ph = .ok embeds) {k : ℕ} {t : TokenId}
    (hk : ids[k]? = some t) : (t ∈ ph → ∃ r, embeds[k]? = some (.row r)) ∧
      (t ∉ ph → embeds[k]? = some (.text t)) := by
  unfold mergeMultimodalEmbeddings at h
  simp only at h
  split_ifs at h with hlen
  cases h
  exact assignMasked_row (not_ne_iff.mp hlen) k t hk

/-- What a token should get: its row, or its text embedding. -/
def Embedding.ofRow (t : TokenId) : Option ρ → Embedding ρ
  | none => .text t
  | some r => .row r

/-- The masked entries are those that have a row. -/
def Matching (ph : List TokenId) : List TokenId → List (Option ρ) → Prop :=
  List.Forall₂ fun t o => t ∈ ph ↔ o.isSome = true

theorem Matching.count {ids : List TokenId} {target : List (Option ρ)} (h : Matching ph ids target) :
    (ids.map fun t => decide (t ∈ ph)).count true = target.reduceOption.length := by
  induction h with
  | nil => rfl
  | @cons t o ids target hd _ ih =>
    cases o with
    | none =>
      have ht : t ∉ ph := fun hc => Bool.noConfusion (hd.mp hc)
      rw [List.map_cons, decide_eq_false ht, List.count_cons_of_ne Bool.noConfusion, ih,
        List.reduceOption_cons_of_none]
    | some r =>
      rw [List.map_cons, decide_eq_true (hd.mpr rfl), List.count_cons_self, ih,
        List.reduceOption_cons_of_some, List.length_cons]

theorem Matching.assign {ids : List TokenId} {target : List (Option ρ)} (h : Matching ph ids target) :
    assignMasked (ids.map fun t => decide (t ∈ ph)) (ids.map Embedding.text) target.reduceOption =
      List.zipWith Embedding.ofRow ids target := by
  induction h with
  | nil => rfl
  | @cons t o ids target hd _ ih =>
    cases o with
    | none =>
      have ht : t ∉ ph := fun hc => Bool.noConfusion (hd.mp hc)
      rw [List.map_cons, decide_eq_false ht, List.map_cons, List.reduceOption_cons_of_none,
        List.zipWith_cons_cons, ← ih]
      cases target.reduceOption <;> rfl
    | some r =>
      rw [List.map_cons, decide_eq_true (hd.mpr rfl), List.map_cons, List.reduceOption_cons_of_some,
        List.zipWith_cons_cons, ← ih]
      rfl

/-- **A merge of matching rows** returns, and every row lands on its own token. -/
theorem merge_matching {mm : List (List ρ)} {target : List (Option ρ)} (h : Matching ph ids target)
    (hmm : mm.flatten = target.reduceOption) :
    mergeMultimodalEmbeddings ids (ids.map .text) mm ph =
      .ok (List.zipWith Embedding.ofRow ids target) := by
  unfold mergeMultimodalEmbeddings
  simp only
  rw [hmm, h.count, if_neg (fun hne => hne rfl), h.assign]

end

end SpaceServe
