import Mathlib.Data.List.Sort
import Mathlib.Data.Finset.Lattice.Fold
import Mathlib.Data.Finset.Range
import Mathlib.Order.Lattice.Nat
import Mathlib.Logic.Function.Basic
import SpaceServe.Scheduler.Model

/-!
# The model runner

`GPUModelRunner` of `vllm/v1/worker/gpu_model_runner.py` and `InputBatch` of
`vllm/v1/worker/gpu_input_batch.py`: the worker's copy of the requests, its persistent batch and
its encoder outputs.

Arrays are functions of the row and the column; what a device tensor holds is a second such function.
M-RoPE positions and the attention inputs are left out. An encoder output is a list of rows; the
multi-modal encoder itself is the argument `embed`.

* `InputBatch.addRequest`, `removeRequest`, `condense`;
* `InputBatch.makeSamplingMetadata`: the copy of the sampling parameters to the device;
* `updateStates`, `gatherEncoderOutputs`, `executeModel`: one step of a decoder worker;
* `updateForEncoder`, `groupMmInputsByModality`, `executeEncoder`: one step of the encoder worker.
-/

set_option autoImplicit false

namespace SpaceServe

open Py

/-- A `torch.Generator`: the request it was made for and its seed; its offset is left out. -/
structure Generator where
  reqId : ReqId
  seed : ℤ
deriving DecidableEq

/-- The generator of a new request. -/
def SamplingParams.generator (sp : SamplingParams) (reqId : ReqId) : Option Generator :=
  if sp.samplingType = .randomSeed then sp.seed.map fun seed => ⟨reqId, seed⟩ else none

/-- `CachedRequestState`. -/
structure CachedRequestState where
  reqId : ReqId
  promptTokenIds : List TokenId
  mmInputs : List MultiModalKwargs
  mmPositions : List PlaceholderRange
  samplingParams : SamplingParams
  generator : Option Generator
  blockIds : Option (List ℕ)
  numComputedTokens : ℤ
  outputTokenIds : List TokenId

/-- `CachedRequestState.num_tokens`. -/
def CachedRequestState.numTokens (r : CachedRequestState) : ℕ :=
  r.promptTokenIds.length + r.outputTokenIds.length

/-- `SamplingMetadata`; the row-wise parts are those of the first `num_reqs` rows. -/
structure SamplingMetadata where
  temperature : List ℚ
  allGreedy : Bool
  allRandom : Bool
  topP : List ℚ
  topK : List ℤ
  noTopP : Bool
  noTopK : Bool
  generators : Dict ℕ Generator
  maxNumLogprobs : ℕ
  promptTokenIds : Option (List (List (Option TokenId)))
  frequencyPenalties : List ℚ
  presencePenalties : List ℚ
  repetitionPenalties : List ℚ
  outputTokenIds : List (List TokenId)
  minTokens : List ℕ
  stopTokenIds : List (List TokenId)
  noPenalties : Bool

/-! ## The persistent batch -/

/-- `InputBatch`. -/
structure InputBatch where
  reqIds : List (Option ReqId)
  reqIdToIndex : Dict ReqId ℕ
  tokenIdsCpu : ℕ → ℕ → TokenId
  numTokens : ℕ → ℕ
  numPromptTokens : ℕ → ℕ
  numComputedTokensCpu : ℕ → ℤ
  blockTable : ℕ → ℕ → ℕ
  numBlocksPerRow : ℕ → ℕ
  temperatureCpu : ℕ → ℚ
  greedyReqs : Finset ReqId
  randomReqs : Finset ReqId
  topPCpu : ℕ → ℚ
  topPReqs : Finset ReqId
  topKCpu : ℕ → ℤ
  topKReqs : Finset ReqId
  frequencyPenaltiesCpu : ℕ → ℚ
  frequencyPenaltiesReqs : Finset ReqId
  presencePenaltiesCpu : ℕ → ℚ
  presencePenaltiesReqs : Finset ReqId
  repetitionPenaltiesCpu : ℕ → ℚ
  repetitionPenaltiesReqs : Finset ReqId
  minTokens : ℕ → ℕ
  stopTokenIds : ℕ → List TokenId
  generators : Dict ℕ Generator
  numLogprobs : Dict ReqId ℕ
  promptLogprobReqs : Finset ReqId
  temperature : ℕ → ℚ
  topP : ℕ → ℚ
  topK : ℕ → ℤ
  frequencyPenalties : ℕ → ℚ
  presencePenalties : ℕ → ℚ
  repetitionPenalties : ℕ → ℚ
  /-- The rows of the prompt tensor; `none` stands for the pad `vocab_size`. -/
  promptTokenIds : Option (List (List (Option TokenId)))

/-- `a[row, start:start+len(values)] = values`. -/
def writeRow {α : Type} (a : ℕ → ℕ → α) (row start : ℕ) (values : List α) : ℕ → ℕ → α :=
  fun r c => if r = row ∧ start ≤ c then (values[c - start]?).getD (a r c) else a r c

/-- `a[tgt, :n] = a[src, :n]`. -/
def copyRow {α : Type} (a : ℕ → ℕ → α) (src tgt n : ℕ) : ℕ → ℕ → α :=
  fun r c => if r = tgt ∧ c < n then a src c else a r c

namespace InputBatch

/-- `InputBatch.__init__`. -/
def init (maxNumReqs : ℕ) : InputBatch where
  reqIds := List.replicate maxNumReqs none
  reqIdToIndex := .empty
  tokenIdsCpu := fun _ _ => 0
  numTokens := fun _ => 0
  numPromptTokens := fun _ => 0
  numComputedTokensCpu := fun _ => 0
  blockTable := fun _ _ => 0
  numBlocksPerRow := fun _ => 0
  temperatureCpu := fun _ => 0
  greedyReqs := ∅
  randomReqs := ∅
  topPCpu := fun _ => 0
  topPReqs := ∅
  topKCpu := fun _ => 0
  topKReqs := ∅
  frequencyPenaltiesCpu := fun _ => 0
  frequencyPenaltiesReqs := ∅
  presencePenaltiesCpu := fun _ => 0
  presencePenaltiesReqs := ∅
  repetitionPenaltiesCpu := fun _ => 0
  repetitionPenaltiesReqs := ∅
  minTokens := fun _ => 0
  stopTokenIds := fun _ => []
  generators := .empty
  numLogprobs := .empty
  promptLogprobReqs := ∅
  temperature := fun _ => 0
  topP := fun _ => 0
  topK := fun _ => 0
  frequencyPenalties := fun _ => 0
  presencePenalties := fun _ => 0
  repetitionPenalties := fun _ => 0
  promptTokenIds := none

variable (b : InputBatch)

/-- `num_reqs`. -/
def numReqs : ℕ := b.reqIdToIndex.keys.length

/-- `block_table.append_row`. -/
def appendRow (rowIdx start : ℕ) (blockIds : List ℕ) : InputBatch :=
  if blockIds = [] then b
  else { b with
    blockTable := writeRow b.blockTable rowIdx start blockIds
    numBlocksPerRow := Function.update b.numBlocksPerRow rowIdx (start + blockIds.length) }

/-- `s.add(x)` if `c` holds. -/
def addIf (c : Prop) [Decidable c] (x : ReqId) (s : Finset ReqId) : Finset ReqId :=
  if c then insert x s else s

/-- The part of `add_request` that is about sampling. -/
def addSampling (i : ℕ) (request : CachedRequestState) : InputBatch :=
  let reqId := request.reqId
  let sp := request.samplingParams
  { b with
    temperatureCpu := Function.update b.temperatureCpu i sp.temperature
    greedyReqs := addIf (sp.samplingType = .greedy) reqId b.greedyReqs
    randomReqs := addIf (sp.samplingType ≠ .greedy) reqId b.randomReqs
    topPCpu := Function.update b.topPCpu i sp.topP
    topPReqs := addIf (sp.topP < 1) reqId b.topPReqs
    topKCpu := Function.update b.topKCpu i sp.topK
    topKReqs := addIf (0 < sp.topK) reqId b.topKReqs
    frequencyPenaltiesCpu := Function.update b.frequencyPenaltiesCpu i sp.frequencyPenalty
    frequencyPenaltiesReqs := addIf (sp.frequencyPenalty ≠ 0) reqId b.frequencyPenaltiesReqs
    presencePenaltiesCpu := Function.update b.presencePenaltiesCpu i sp.presencePenalty
    presencePenaltiesReqs := addIf (sp.presencePenalty ≠ 0) reqId b.presencePenaltiesReqs
    repetitionPenaltiesCpu := Function.update b.repetitionPenaltiesCpu i sp.repetitionPenalty
    repetitionPenaltiesReqs := addIf (sp.repetitionPenalty ≠ 1) reqId b.repetitionPenaltiesReqs
    minTokens := Function.update b.minTokens i sp.minTokens
    stopTokenIds := Function.update b.stopTokenIds i sp.allStopTokenIds
    generators := match request.generator with
      | some generator => b.generators.set i generator
      | none => b.generators
    numLogprobs := match sp.logprobs with
      | some (n + 1) => b.numLogprobs.set reqId (n + 1)
      | _ => b.numLogprobs
    promptLogprobReqs := addIf (0 < sp.promptLogprobs.getD 0) reqId b.promptLogprobReqs }

/-- `add_request`. -/
def addRequest (maxNumReqs : ℕ) (request : CachedRequestState) (reqIndex : Option ℕ) :
    Except Exn InputBatch := do
  let i := reqIndex.getD b.numReqs
  assert (i < maxNumReqs) ""
  let b := { b with
    reqIds := b.reqIds.set i (some request.reqId)
    reqIdToIndex := b.reqIdToIndex.set request.reqId i
    numPromptTokens := Function.update b.numPromptTokens i request.promptTokenIds.length
    tokenIdsCpu := writeRow b.tokenIdsCpu i 0 (request.promptTokenIds ++ request.outputTokenIds)
    numTokens := Function.update b.numTokens i request.numTokens
    numComputedTokensCpu := Function.update b.numComputedTokensCpu i request.numComputedTokens }
  .ok ((b.appendRow i 0 (request.blockIds.getD [])).addSampling i request)

/-- `remove_request`. -/
def removeRequest (reqId : ReqId) : Option ℕ × InputBatch :=
  match b.reqIdToIndex.get? reqId with
  | none => (none, b)
  | some i => (some i, { b with
      reqIdToIndex := b.reqIdToIndex.pop reqId
      reqIds := b.reqIds.set i none
      greedyReqs := b.greedyReqs.erase reqId
      randomReqs := b.randomReqs.erase reqId
      topPReqs := b.topPReqs.erase reqId
      topKReqs := b.topKReqs.erase reqId
      frequencyPenaltiesReqs := b.frequencyPenaltiesReqs.erase reqId
      presencePenaltiesReqs := b.presencePenaltiesReqs.erase reqId
      repetitionPenaltiesReqs := b.repetitionPenaltiesReqs.erase reqId
      generators := b.generators.pop i
      numLogprobs := b.numLogprobs.pop reqId
      promptLogprobReqs := b.promptLogprobReqs.erase reqId })

/-- The largest index below `n` that is not empty, `-1` if there is none. -/
def lastNonEmpty (emptyReqIndices : List ℕ) : ℕ → ℤ
  | 0 => -1
  | n + 1 => if n ∈ emptyReqIndices then lastNonEmpty emptyReqIndices n else n

/-- Move the states of row `last` to row `emptyIndex`. -/
def moveRow (reqId : ReqId) (last emptyIndex : ℕ) : InputBatch :=
  { b with
    reqIds := (b.reqIds.set emptyIndex (some reqId)).set last none
    reqIdToIndex := b.reqIdToIndex.set reqId emptyIndex
    tokenIdsCpu := copyRow b.tokenIdsCpu last emptyIndex (b.numTokens last)
    numTokens := Function.update b.numTokens emptyIndex (b.numTokens last)
    numPromptTokens := Function.update b.numPromptTokens emptyIndex (b.numPromptTokens last)
    numComputedTokensCpu :=
      Function.update b.numComputedTokensCpu emptyIndex (b.numComputedTokensCpu last)
    blockTable := copyRow b.blockTable last emptyIndex (b.numBlocksPerRow last)
    numBlocksPerRow := Function.update b.numBlocksPerRow emptyIndex (b.numBlocksPerRow last)
    temperatureCpu := Function.update b.temperatureCpu emptyIndex (b.temperatureCpu last)
    topPCpu := Function.update b.topPCpu emptyIndex (b.topPCpu last)
    topKCpu := Function.update b.topKCpu emptyIndex (b.topKCpu last)
    frequencyPenaltiesCpu :=
      Function.update b.frequencyPenaltiesCpu emptyIndex (b.frequencyPenaltiesCpu last)
    presencePenaltiesCpu :=
      Function.update b.presencePenaltiesCpu emptyIndex (b.presencePenaltiesCpu last)
    repetitionPenaltiesCpu :=
      Function.update b.repetitionPenaltiesCpu emptyIndex (b.repetitionPenaltiesCpu last)
    minTokens := Function.update b.minTokens emptyIndex (b.minTokens last)
    stopTokenIds := Function.update b.stopTokenIds emptyIndex (b.stopTokenIds last)
    generators := match b.generators.get? last with
      | some generator => (b.generators.pop last).set emptyIndex generator
      | none => b.generators.pop last }

/-- The loop of `condense`. The empty indices are in ascending order, so that `pop` takes the
head; all rows from `n` on are empty. -/
def condenseLoop : List ℕ → ℕ → InputBatch → Except Exn InputBatch
  | [], _, b => .ok b
  | emptyIndex :: rest, n, b =>
    let last := lastNonEmpty (emptyIndex :: rest) n
    if last ≤ emptyIndex then .ok b
    else
      match b.reqIds[last.toNat]? with
      | none => .error (.indexError "list index out of range")
      | some none => .error (.assertionError "")
      | some (some reqId) => condenseLoop rest last.toNat (b.moveRow reqId last.toNat emptyIndex)

/-- `condense`. -/
def condense (emptyReqIndices : List ℕ) : Except Exn InputBatch :=
  if b.numReqs = 0 then .ok b
  else condenseLoop emptyReqIndices (b.numReqs + emptyReqIndices.length) b

/-- `no_penalties`. -/
def noPenalties : Bool :=
  decide (b.presencePenaltiesReqs = ∅ ∧ b.frequencyPenaltiesReqs = ∅ ∧
    b.repetitionPenaltiesReqs = ∅)

/-- `max_num_logprobs`. -/
def maxNumLogprobs : ℕ := (b.numLogprobs.entries.map Prod.snd).foldl max 0

/-- `_make_prompt_token_ids_tensor`. -/
def makePromptTokenIdsTensor : List (List (Option TokenId)) :=
  let maxPromptLen := (Finset.range b.numReqs).sup b.numPromptTokens
  (List.range b.numReqs).map fun i => (List.range maxPromptLen).map fun j =>
    if j < b.numPromptTokens i then some (b.tokenIdsCpu i j) else none

/-- `a[:n].copy_(c[:n])`. -/
def copyFirst {α : Type} (n : ℕ) (c a : ℕ → α) : ℕ → α := fun i => if i < n then c i else a i

/-- The copies of `make_sampling_metadata`. -/
def copyToDevice : InputBatch :=
  let b₁ := { b with
    temperature := copyFirst b.numReqs b.temperatureCpu b.temperature
    topP := copyFirst b.numReqs b.topPCpu b.topP
    topK := copyFirst b.numReqs b.topKCpu b.topK }
  if b.noPenalties = true then b₁
  else { b₁ with
    frequencyPenalties := copyFirst b.numReqs b.frequencyPenaltiesCpu b.frequencyPenalties
    presencePenalties := copyFirst b.numReqs b.presencePenaltiesCpu b.presencePenalties
    repetitionPenalties := copyFirst b.numReqs b.repetitionPenaltiesCpu b.repetitionPenalties
    promptTokenIds := some b.makePromptTokenIdsTensor }

/-- The output tokens of the request in a row. -/
def rowOutput (reqIdOutputTokenIds : Dict ReqId (List TokenId)) :
    Option ReqId → Except Exn (List TokenId)
  | none => .error (.assertionError "")
  | some reqId => ofOption .keyError (reqIdOutputTokenIds.get? reqId)

/-- `make_sampling_metadata`. -/
def makeSamplingMetadata (reqIdOutputTokenIds : Dict ReqId (List TokenId)) (skipCopy : Bool) :
    Except Exn (SamplingMetadata × InputBatch) := do
  let b := if skipCopy = true then b else b.copyToDevice
  let rows := List.range b.numReqs
  let outputTokenIds ← (b.reqIds.take b.numReqs).mapM (rowOutput reqIdOutputTokenIds)
  .ok ({
    temperature := rows.map b.temperature
    allGreedy := decide (b.randomReqs = ∅)
    allRandom := decide (b.greedyReqs = ∅)
    topP := rows.map b.topP
    topK := rows.map b.topK
    noTopP := decide (b.topPReqs = ∅)
    noTopK := decide (b.topKReqs = ∅)
    generators := b.generators
    maxNumLogprobs := b.maxNumLogprobs
    promptTokenIds := b.promptTokenIds
    frequencyPenalties := rows.map b.frequencyPenalties
    presencePenalties := rows.map b.presencePenalties
    repetitionPenalties := rows.map b.repetitionPenalties
    outputTokenIds := outputTokenIds
    minTokens := rows.map b.minTokens
    stopTokenIds := rows.map b.stopTokenIds
    noPenalties := b.noPenalties }, b)

end InputBatch

/-! ## The decoder worker -/

/-- The output of an input of a request in an encoder cache. -/
def cachedOutput {V : Type} (cache : Dict ReqId (Dict ℕ V)) (id : ReqId) (i : ℕ) : Option V :=
  (cache.get? id).bind fun d => d.get? i

/-- `GPUModelRunner`. -/
structure GPUModelRunner (V : Type) where
  requests : Dict ReqId CachedRequestState
  inputBatch : InputBatch
  encoderCache : Dict ReqId (Dict ℕ V)

namespace GPUModelRunner

variable {V : Type} (w : GPUModelRunner V)

/-- `GPUModelRunner.__init__`. -/
def init (maxNumReqs : ℕ) : GPUModelRunner V where
  requests := .empty
  inputBatch := .init maxNumReqs
  encoderCache := .empty

/-- Forget finished requests. -/
def removeFinished (finishedReqIds : List ReqId) : GPUModelRunner V :=
  { w with
    requests := finishedReqIds.foldl (fun d id => d.pop id) w.requests
    encoderCache := finishedReqIds.foldl (fun d id => d.pop id) w.encoderCache }

/-- Remove requests from the persistent batch; the indices that became empty. -/
def removeRows (ids : List ReqId) (x : List ℕ × InputBatch) : List ℕ × InputBatch :=
  ids.foldl (fun x id =>
    match x.2.removeRequest id with
    | (some i, b) => (x.1 ++ [i], b)
    | (none, b) => (x.1, b)) x

/-- Free one cached encoder output. -/
def freeOutput (cache : Dict ReqId (Dict ℕ V)) (pair : ReqId × ℕ) : Dict ReqId (Dict ℕ V) :=
  match cache.get? pair.1 with
  | none => cache
  | some outputs =>
    let outputs := outputs.pop pair.2
    if outputs.keys = [] then cache.pop pair.1 else cache.set pair.1 outputs

/-- The state of a new request. -/
def newState (data : NewRequestData) : CachedRequestState where
  reqId := data.reqId
  promptTokenIds := data.promptTokenIds
  mmInputs := data.mmInputs
  mmPositions := data.mmPositions
  samplingParams := data.samplingParams
  generator := data.samplingParams.generator data.reqId
  blockIds := some data.blockIds
  numComputedTokens := data.numComputedTokens
  outputTokenIds := []

/-- Update the state of a running or resumed request, and its row if it has one; a request
without a row is to be added. -/
def updateCached (x : List ReqId × GPUModelRunner V) (data : CachedRequestData) :
    Except Exn (List ReqId × GPUModelRunner V) := do
  let state ← ofOption .keyError (x.2.requests.get? data.reqId)
  let blockIds ← (if data.resumedFromPreemption = true then .ok data.newBlockIds
    else match state.blockIds with
      | some ids => .ok (ids ++ data.newBlockIds)
      | none => .error (.attributeError "'NoneType' object has no attribute 'extend'"))
  let state := { state with
    numComputedTokens := data.numComputedTokens
    blockIds := some blockIds }
  let w := { x.2 with requests := x.2.requests.set data.reqId state }
  match w.inputBatch.reqIdToIndex.get? data.reqId with
  | none => .ok (x.1 ++ [data.reqId], w)
  | some i =>
    let b := { w.inputBatch with
      numComputedTokensCpu :=
        Function.update w.inputBatch.numComputedTokensCpu i data.numComputedTokens }
    .ok (x.1, { w with
      inputBatch := b.appendRow i (blockIds.length - data.newBlockIds.length) data.newBlockIds })

/-- Add a request to the batch, in the smallest empty row if there is one. -/
def addRow (maxNumReqs : ℕ) (requests : Dict ReqId CachedRequestState) (x : List ℕ × InputBatch)
    (id : ReqId) : Except Exn (List ℕ × InputBatch) := do
  let state ← ofOption .keyError (requests.get? id)
  let b ← x.2.addRequest maxNumReqs state x.1.head?
  .ok (x.1.tail, b)

/-- `_update_states`: whether the batch has changed, and the runner. -/
def updateStates (maxNumReqs : ℕ) (out : SchedulerOutput) : Except Exn (Bool × GPUModelRunner V) := do
  let w := w.removeFinished out.finishedReqIds
  let (removed, b) := removeRows out.finishedReqIds ([], w.inputBatch)
  let encoderCache := out.freeEncoderInputIds.foldl freeOutput w.encoderCache
  let unscheduled := b.reqIdToIndex.keys.filter fun id => decide (id ∉ out.numScheduledTokens.keys)
  let (removed, b) := removeRows unscheduled (removed, b)
  let requests := out.scheduledNewReqs.foldl (fun d data => d.set data.reqId (newState data))
    w.requests
  let w := { w with requests := requests, inputBatch := b, encoderCache := encoderCache }
  let (toAdd, w) ← out.scheduledCachedReqs.foldlM updateCached
    (out.scheduledNewReqs.map fun data => data.reqId, w)
  let (removed, b) ← toAdd.foldlM (addRow maxNumReqs w.requests)
    (removed.insertionSort (· ≤ ·), w.inputBatch)
  let b ← (if removed = [] then .ok b else b.condense removed)
  .ok (decide (0 < unscheduled.length ∨ 0 < toAdd.length), { w with inputBatch := b })

/-- `_prepare_sampling`. -/
def prepareSampling (batchChanged : Bool) :
    Except Exn (SamplingMetadata × GPUModelRunner V) := do
  let (metadata, b) ← w.inputBatch.makeSamplingMetadata
    (w.requests.mapValues fun _ state => state.outputTokenIds) (!batchChanged)
  .ok (metadata, { w with inputBatch := b })

end GPUModelRunner

namespace GPUModelRunner

variable {ρ : Type}

/-- The loop of `_gather_encoder_outputs` over the inputs of one request, from index `i` on. -/
def gatherInputs (encoderCache : Dict ReqId (Dict ℕ (List ρ))) (reqId : ReqId)
    (numComputedTokens : ℤ) (numScheduledTokens : ℕ) :
    List PlaceholderRange → ℕ → List (List ρ) → Except Exn (List (List ρ))
  | [], _, encoderOutputs => .ok encoderOutputs
  | pos :: rest, i, encoderOutputs =>
    if numComputedTokens + numScheduledTokens ≤ pos.offset then
      -- not needed in this step, nor is any later one
      .ok encoderOutputs
    else if (pos.offset : ℤ) + pos.length ≤ numComputedTokens then
      -- already in the decoder's KV cache
      gatherInputs encoderCache reqId numComputedTokens numScheduledTokens rest (i + 1)
        encoderOutputs
    else do
      let startIdx := max (numComputedTokens - pos.offset) 0
      let endIdx := min (numComputedTokens - pos.offset + numScheduledTokens) pos.length
      assert (startIdx < endIdx) ""
      let outputs ← ofOption (.assertionError "") (encoderCache.get? reqId)
      let output ← ofOption (.assertionError "") (outputs.get? i)
      gatherInputs encoderCache reqId numComputedTokens numScheduledTokens rest (i + 1)
        (encoderOutputs ++ [slice output startIdx.toNat endIdx.toNat])

/-- One round of the loop of `_gather_encoder_outputs` over the rows. -/
def gatherRow (w : GPUModelRunner (List ρ)) (out : SchedulerOutput)
    (encoderOutputs : List (List ρ)) : Option ReqId → Except Exn (List (List ρ))
  | none => .error (.assertionError "")
  | some reqId => do
    let numScheduledTokens ← ofOption .keyError (out.numScheduledTokens.get? reqId)
    let state ← ofOption .keyError (w.requests.get? reqId)
    gatherInputs w.encoderCache reqId state.numComputedTokens numScheduledTokens state.mmPositions 0
      encoderOutputs

/-- `_gather_encoder_outputs`. -/
def gatherEncoderOutputs (w : GPUModelRunner (List ρ)) (out : SchedulerOutput) :
    Except Exn (List (List ρ)) :=
  (w.inputBatch.reqIds.take w.inputBatch.numReqs).foldlM (w.gatherRow out) []

/-- One round of the loop of `execute_model` that hands out the sampled tokens; a request that has
not caught up ignores its token. -/
def appendSampled (out : SchedulerOutput) (sampled : List TokenId)
    (w : GPUModelRunner (List ρ)) (row : Option ReqId × ℕ) :
    Except Exn (GPUModelRunner (List ρ)) :=
  match row.1 with
  | none => .error (.assertionError "")
  | some reqId => do
    let state ← ofOption .keyError (w.requests.get? reqId)
    let n ← ofOption .keyError (out.numScheduledTokens.get? reqId)
    let seqLen := state.numComputedTokens + n
    assert (seqLen ≤ state.numTokens) ""
    if seqLen = state.numTokens then do
      let tokenId ← ofOption (.indexError "list index out of range") sampled[row.2]?
      .ok { w with
        requests := w.requests.set reqId
          { state with outputTokenIds := state.outputTokenIds ++ [tokenId] }
        inputBatch := { w.inputBatch with
          numTokens := Function.update w.inputBatch.numTokens row.2
            (w.inputBatch.numTokens row.2 + 1)
          tokenIdsCpu := writeRow w.inputBatch.tokenIdsCpu row.2 seqLen.toNat [tokenId] } }
    else .ok w

/-- `execute_model` of a multi-modal model, with the tokens that were sampled for the rows. -/
def executeModel (w : GPUModelRunner (List ρ)) (maxNumReqs : ℕ) (out : SchedulerOutput)
    (sampled : List TokenId) : Except Exn (ModelRunnerOutput × GPUModelRunner (List ρ)) := do
  let (batchChanged, w) ← w.updateStates maxNumReqs out
  let _ ← w.gatherEncoderOutputs out
  let (_, w) ← w.prepareSampling batchChanged
  let w ← (w.inputBatch.reqIds.take w.inputBatch.numReqs).zipIdx.foldlM (appendSampled out sampled) w
  .ok ({ reqIdToIndex := w.inputBatch.reqIdToIndex, sampledTokenIds := sampled }, w)

end GPUModelRunner

/-! ## The encoder worker -/

/-- `NewRequestData` of `encoder_scheduler.py`; its block ids are `None` and its number of computed
tokens is `-1`. -/
structure EncoderRequestData where
  reqId : ReqId
  promptTokenIds : List TokenId
  mmInputs : List MultiModalKwargs
  mmHashes : List String
  mmPositions : List PlaceholderRange
  samplingParams : SamplingParams
deriving DecidableEq

/-- `NewRequestData.from_request(request, None, -1)`. -/
def EncoderRequestData.fromRequest (request : Request) : EncoderRequestData where
  reqId := request.requestId
  promptTokenIds := request.promptTokenIds
  mmInputs := request.mmInputs
  mmHashes := request.mmHashes
  mmPositions := request.mmPositions
  samplingParams := request.samplingParams

/-- The key `group_mm_inputs_by_modality` groups by: the object's `id`, or a modality. -/
def modalityGroupFunc (mmInput : MultiModalKwargs) : ℕ ⊕ String :=
  match mmInput.modalities with
  | [] => .inr ""
  | [modality] => .inr modality
  | _ => .inl mmInput.ident

/-- `group_mm_inputs_by_modality`: `groupby` on consecutive inputs. -/
def groupMmInputsByModality (mmInputs : List MultiModalKwargs) : List (List MultiModalKwargs) :=
  mmInputs.splitBy fun a b => decide (modalityGroupFunc a = modalityGroupFunc b)

namespace GPUModelRunner

variable {V : Type} (w : GPUModelRunner V)

/-- `update_for_encoder`. -/
def updateForEncoder (scheduledNewReqs : List EncoderRequestData) : GPUModelRunner V :=
  { w with
    requests := scheduledNewReqs.foldl (fun d data => d.set data.reqId
      { reqId := data.reqId
        promptTokenIds := data.promptTokenIds
        mmInputs := data.mmInputs
        mmPositions := data.mmPositions
        samplingParams := data.samplingParams
        generator := data.samplingParams.generator data.reqId
        blockIds := none
        numComputedTokens := -1
        outputTokenIds := [] }) w.requests }

/-- The scheduled pairs of one request, each with its input. -/
def batchRequest (x : ReqId × List ℕ) : Except Exn (List ((ReqId × ℕ) × MultiModalKwargs)) := do
  let state ← ofOption .keyError (w.requests.get? x.1)
  x.2.mapM fun inputId => do
    let mmInput ← ofOption (.indexError "list index out of range") state.mmInputs[inputId]?
    .ok ((x.1, inputId), mmInput)

/-- One round of the loop that stores the outputs. It tests `self.encoder_cache` and writes the
local dictionary. -/
def cacheOutput (encoderCache : Dict ReqId (Dict ℕ V)) (x : (ReqId × ℕ) × V) :
    Except Exn (Dict ReqId (Dict ℕ V)) := do
  let encoderCache := if x.1.1 ∈ w.encoderCache.keys then encoderCache
    else encoderCache.set x.1.1 .empty
  let outputs ← ofOption .keyError (encoderCache.get? x.1.1)
  .ok (encoderCache.set x.1.1 (outputs.set x.1.2 x.2))

/-- `_execute_encoder`. -/
def executeEncoder (embed : List MultiModalKwargs → List V)
    (scheduledEncoderInputs : Dict ReqId (List ℕ)) :
    Except Exn (Option (Dict ReqId (Dict ℕ V))) :=
  if scheduledEncoderInputs.keys = [] then .ok none
  else do
    let batched ← scheduledEncoderInputs.entries.mapM w.batchRequest
    let pairs := batched.flatten.map Prod.fst
    let mmInputs := batched.flatten.map Prod.snd
    let encoderOutputs := (groupMmInputsByModality mmInputs).flatMap embed
    let encoderCache ← (pairs.zip encoderOutputs).foldlM w.cacheOutput .empty
    .ok (some encoderCache)

end GPUModelRunner

end SpaceServe
