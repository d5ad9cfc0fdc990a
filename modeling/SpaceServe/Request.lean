import Mathlib.Data.Int.Basic
import Mathlib.Data.Rat.Defs
import Mathlib.Algebra.Order.Ring.Rat
import Mathlib.Order.Basic
import SpaceServe.Lib.Exec

/-!
# Requests

The data model of `vllm/v1/request.py`: a request with its prompt and output tokens, its
multi-modal inputs and placeholder ranges, its status, and the block hashes cached on it.

A `Request` carries the length checks that its constructor asserts, so that a request whose
multi-modal lists disagree cannot be built. Fields that only the sampler or the metrics read
(`arrival_time`, `lora_request`, `prompt`, `metrics`) are left out.

* `RequestStatus`, `isFinished`, `getFinishedReason`;
* `Request`, `allTokenIds`, `numTokens`, `appendOutputTokenIds`, `getNumEncoderTokens`;
* `WellPlaced`: placeholder ranges are sorted, disjoint and not empty;
* `slice`, `cdiv`: Python's `xs[a:b]` and `vllm.utils.cdiv`.
-/

set_option autoImplicit false

namespace SpaceServe

open Py

/-- Request ids. -/
abbrev ReqId := String

/-- Token ids. -/
abbrev TokenId := ℕ

/-- `xs[a:b]`. -/
def slice {α : Type} (l : List α) (a b : ℕ) : List α := (l.drop a).take (b - a)

theorem slice_append_of_le {α : Type} {l m : List α} {a b : ℕ} (hb : b ≤ l.length) :
    slice (l ++ m) a b = slice l a b := by
  rcases Nat.le_total a b with hab | hba
  · rw [slice, slice, List.drop_append_of_le_length (hab.trans hb), List.take_append_of_le_length]
    rw [List.length_drop]
    exact Nat.sub_le_sub_right hb a
  · rw [slice, slice, Nat.sub_eq_zero_of_le hba, List.take_zero, List.take_zero]

/-- `cdiv(a, b)`, the quotient rounded up. -/
def cdiv (a b : ℕ) : ℕ := (a + b - 1) / b

theorem length_slice {α : Type} (l : List α) (a b : ℕ) :
    (slice l a b).length = min (b - a) (l.length - a) := by
  simp [slice]

theorem getElem?_slice {α : Type} (l : List α) (a b i : ℕ) :
    (slice l a b)[i]? = if i < b - a then l[a + i]? else none := by
  simp only [slice, List.getElem?_take, List.getElem?_drop]

theorem le_cdiv_mul {b : ℕ} (hb : 0 < b) (a : ℕ) : a ≤ cdiv a b * b := by
  unfold cdiv
  have := Nat.div_add_mod (a + b - 1) b
  have := Nat.mod_lt (a + b - 1) hb
  rw [Nat.mul_comm]
  omega

theorem cdiv_le_iff {b : ℕ} (hb : 0 < b) (a k : ℕ) : cdiv a b ≤ k ↔ a ≤ k * b := by
  unfold cdiv
  rw [Nat.div_le_iff_le_mul_add_pred hb, Nat.mul_comm]
  omega

theorem lt_cdiv_iff {b : ℕ} (hb : 0 < b) (a k : ℕ) : k < cdiv a b ↔ k * b < a := by
  rw [← not_le, cdiv_le_iff hb, not_le]

/-- `PlaceholderRange`: where the placeholder tokens of one multi-modal input stand. -/
structure PlaceholderRange where
  offset : ℕ
  length : ℕ
deriving DecidableEq

/-- The placeholder ranges of a request are sorted, disjoint and not empty. -/
def WellPlaced (poss : List PlaceholderRange) : Prop :=
  poss.Pairwise (fun a b => a.offset + a.length ≤ b.offset) ∧ ∀ pos ∈ poss, 0 < pos.length

instance (poss : List PlaceholderRange) : Decidable (WellPlaced poss) := by
  unfold WellPlaced; infer_instance

theorem WellPlaced.tail {pos : PlaceholderRange} {rest : List PlaceholderRange}
    (h : WellPlaced (pos :: rest)) : WellPlaced rest ∧
      ∀ pos' ∈ rest, pos.offset + pos.length ≤ pos'.offset :=
  ⟨⟨(List.pairwise_cons.mp h.1).2, fun pos' hp => h.2 pos' (List.mem_cons_of_mem _ hp)⟩,
    (List.pairwise_cons.mp h.1).1⟩

/-- A `MultiModalKwargs` object: its identity `id(...)` and the modalities it holds. -/
structure MultiModalKwargs where
  ident : ℕ
  modalities : List String
deriving DecidableEq

/-- `BlockHashType`: a hash value with the tokens and extra keys it was computed from. -/
structure BlockHashType where
  hashValue : ℤ
  tokenIds : List TokenId
  extraKeys : Option (List String)
deriving DecidableEq

/-- `RequestStatus`, in the order of its integer values. -/
inductive RequestStatus
  | waiting
  | running
  | preempted
  | finishedStopped
  | finishedLengthCapped
  | finishedAborted
  | finishedIgnored
deriving DecidableEq

namespace RequestStatus

/-- The integer value of a status. -/
def value : RequestStatus → ℕ
  | waiting => 0
  | running => 1
  | preempted => 2
  | finishedStopped => 3
  | finishedLengthCapped => 4
  | finishedAborted => 5
  | finishedIgnored => 6

/-- `RequestStatus.is_finished`: anything after `PREEMPTED`. -/
def isFinished (s : RequestStatus) : Bool := decide (preempted.value < s.value)

end RequestStatus

/-- `FinishReason`. -/
inductive FinishReason
  | stop
  | length
  | abort
deriving DecidableEq

/-- `_FINISHED_REASON_MAP.get(status)`. -/
def RequestStatus.getFinishedReason : RequestStatus → Option FinishReason
  | finishedStopped => some .stop
  | finishedLengthCapped => some .length
  | finishedAborted => some .abort
  | finishedIgnored => some .length
  | _ => none

/-- `SamplingType`. -/
inductive SamplingType
  | greedy
  | random
  | randomSeed
deriving DecidableEq

/-- `SamplingParams`: what the scheduler and the model runner read. The numbers are kept as they are
given, before the runner's arrays round them. -/
structure SamplingParams where
  maxTokens : ℕ
  ignoreEos : Bool
  stopTokenIds : List TokenId
  temperature : ℚ := 1
  topP : ℚ := 1
  topK : ℤ := -1
  frequencyPenalty : ℚ := 0
  presencePenalty : ℚ := 0
  repetitionPenalty : ℚ := 1
  minTokens : ℕ := 0
  allStopTokenIds : List TokenId := []
  seed : Option ℤ := none
  logprobs : Option ℕ := none
  promptLogprobs : Option ℕ := none
deriving DecidableEq

/-- `sampling_type`. -/
def SamplingParams.samplingType (sp : SamplingParams) : SamplingType :=
  if sp.temperature < 1 / 100000 then .greedy
  else if sp.seed.isSome = true then .randomSeed
  else .random

/-- `Request`. -/
structure Request where
  requestId : ReqId
  samplingParams : SamplingParams
  eosTokenId : Option TokenId
  status : RequestStatus
  stopReason : Option TokenId
  promptTokenIds : List TokenId
  outputTokenIds : List TokenId
  numComputedTokens : ℕ
  mmPositions : List PlaceholderRange
  mmInputs : List MultiModalKwargs
  mmHashes : List String
  kvBlockHashes : List BlockHashType
  /-- The constructor asserts one input per placeholder range. -/
  mmInputs_length : mmInputs.length = mmPositions.length
  /-- The constructor asserts one hash per input, if there are hashes. -/
  mmHashes_length : mmHashes ≠ [] → mmInputs.length = mmHashes.length
deriving DecidableEq

namespace Request

variable (r : Request)

/-- `all_token_ids`. -/
def allTokenIds : List TokenId := r.promptTokenIds ++ r.outputTokenIds

/-- `num_tokens`. -/
def numTokens : ℕ := r.allTokenIds.length

/-- `num_output_tokens`. -/
def numOutputTokens : ℕ := r.outputTokenIds.length

/-- `append_output_token_ids` of one token. -/
def appendOutputTokenIds (t : TokenId) : Request :=
  { r with outputTokenIds := r.outputTokenIds ++ [t] }

/-- `set_kv_block_hashes`. -/
def setKvBlockHashes (value : List BlockHashType) : Request := { r with kvBlockHashes := value }

/-- `append_kv_block_hashes`. -/
def appendKvBlockHashes (blockHash : BlockHashType) : Request :=
  r.setKvBlockHashes (r.kvBlockHashes ++ [blockHash])

@[simp] theorem setKvBlockHashes_kvBlockHashes (hs : List BlockHashType) :
    (r.setKvBlockHashes hs).kvBlockHashes = hs := rfl

@[simp] theorem setKvBlockHashes_self : r.setKvBlockHashes r.kvBlockHashes = r := rfl

@[simp] theorem setKvBlockHashes_setKvBlockHashes (hs hs' : List BlockHashType) :
    (r.setKvBlockHashes hs).setKvBlockHashes hs' = r.setKvBlockHashes hs' := rfl

/-- `has_encoder_inputs`. -/
def hasEncoderInputs : Bool := decide (0 < r.mmInputs.length)

/-- `get_num_encoder_tokens`. -/
def getNumEncoderTokens (inputId : ℕ) : Except Exn ℕ :=
  match r.mmPositions[inputId]? with
  | some pos => .ok pos.length
  | none => .error (.assertionError "")

/-- The length of an input, `0` if there is no such input. -/
def inputLength (i : ℕ) : ℕ := (r.mmPositions[i]?).elim 0 fun pos => pos.length

theorem inputLength_eq {i : ℕ} {pos : PlaceholderRange} (h : r.mmPositions[i]? = some pos) :
    r.inputLength i = pos.length := by
  rw [inputLength, h]
  rfl

/-- A request without multi-modal inputs. -/
def TextOnly : Prop := r.mmPositions = []

instance : Decidable r.TextOnly := by unfold TextOnly; infer_instance

theorem hasEncoderInputs_iff : r.hasEncoderInputs = true ↔ ¬ r.TextOnly := by
  rw [hasEncoderInputs, decide_eq_true_eq, r.mmInputs_length, List.length_pos_iff]
  rfl

/-- A request without inputs has no hashes of inputs. -/
theorem mmHashes_length_eq (h : r.TextOnly) : r.mmPositions.length = r.mmHashes.length := by
  by_cases hne : r.mmHashes = []
  · rw [hne, h]
    rfl
  · rw [← r.mmInputs_length, r.mmHashes_length hne]

/-- `Request.from_engine_core_request`: a request as it enters an engine. -/
def IsNew : Prop :=
  r.status = .waiting ∧ r.stopReason = none ∧ r.outputTokenIds = [] ∧ r.numComputedTokens = 0 ∧
    r.kvBlockHashes = []

instance : Decidable r.IsNew := by unfold IsNew; infer_instance

/-- A new request with the given prompt and one image for each of the given positions. -/
def ofPrompt (requestId : ReqId) (promptTokenIds : List TokenId)
    (mmPositions : List PlaceholderRange) : Request where
  requestId := requestId
  samplingParams := { maxTokens := 4, ignoreEos := true, stopTokenIds := [] }
  eosTokenId := none
  status := .waiting
  stopReason := none
  promptTokenIds := promptTokenIds
  outputTokenIds := []
  numComputedTokens := 0
  mmPositions := mmPositions
  mmInputs := (List.range mmPositions.length).map fun i => ⟨i, ["image"]⟩
  mmHashes := (List.range mmPositions.length).map fun i => requestId ++ toString i
  kvBlockHashes := []
  mmInputs_length := by simp
  mmHashes_length := by simp

end Request

end SpaceServe
