import SpaceServe.KVCache.Model
import SpaceServe.Encoder.CacheManager

/-!
# The scheduler

`Scheduler` of `vllm/v1/core/scheduler.py`.

The requests are kept in `requests`; the queues `waiting` and `running` hold their ids. The lists
and dictionaries that `schedule` fills in are the fields of `Scheduling`. The dictionary of encoder
results that the scheduler shares with the engine is only asked whether it holds a result, and is
the argument `available`.

The statistics are left out. `history` is not in the source: it records, in order, what has happened
to the KV-cache blocks, and nothing reads it.

* `tryScheduleEncoderInputs`, `schedule`: one scheduling step, with `runningLoop` and `waitingLoop`;
* `updateFromOutput`, `checkStop`, `freeRequest`: what a step's sampled tokens change;
* `addRequest`, `finishRequests`, `resetPrefixCache`.
-/

set_option autoImplicit false

namespace SpaceServe

open Py

/-- The constants of a `Scheduler`. -/
structure SchedulerParams where
  kv : KVCacheParams
  maxNumRunningReqs : ℕ
  maxNumScheduledTokens : ℕ
  maxNumEncoderInputTokens : ℕ
  encoderCacheSize : ℕ

/-- What happens to KV-cache blocks: blocks are taken from the pool, a lookup for a token sequence
returns blocks, tokens `start .. start + n - 1` of a request are scheduled into its blocks. -/
inductive BlockEvent
  | taken (blocks : List ℕ)
  | computed (tokenIds : List TokenId) (blocks : List ℕ)
  | scheduled (reqId : ReqId) (tokenIds : List TokenId) (blocks : List ℕ) (start n : ℕ)
deriving DecidableEq

/-- `NewRequestData`. -/
structure NewRequestData where
  reqId : ReqId
  promptTokenIds : List TokenId
  mmInputs : List MultiModalKwargs
  mmHashes : List String
  mmPositions : List PlaceholderRange
  samplingParams : SamplingParams
  blockIds : List ℕ
  numComputedTokens : ℕ
deriving DecidableEq

/-- `CachedRequestData`. -/
structure CachedRequestData where
  reqId : ReqId
  resumedFromPreemption : Bool
  newBlockIds : List ℕ
  numComputedTokens : ℕ
deriving DecidableEq

/-- The state of a `Scheduler`. -/
structure Scheduler where
  kv : KVCacheManager
  requests : Dict ReqId Request
  waiting : List ReqId
  running : List ReqId
  finishedReqIds : List ReqId
  cachedReqsData : Dict ReqId CachedRequestData
  encoderCacheManager : EncoderCacheManager
  history : List BlockEvent

/-- `SchedulerOutput`. -/
structure SchedulerOutput where
  scheduledNewReqs : List NewRequestData
  scheduledCachedReqs : List CachedRequestData
  numScheduledTokens : Dict ReqId ℕ
  totalNumScheduledTokens : ℕ
  scheduledEncoderInputs : Dict ReqId (List ℕ)
  numCommonPrefixBlocks : ℕ
  finishedReqIds : List ReqId
  freeEncoderInputIds : List (ReqId × ℕ)
deriving DecidableEq

/-- `ModelRunnerOutput`, without the log probabilities. -/
structure ModelRunnerOutput where
  reqIdToIndex : Dict ReqId ℕ
  sampledTokenIds : List TokenId

/-- `EngineCoreOutput`. -/
structure EngineCoreOutput where
  requestId : ReqId
  newTokenIds : List TokenId
  finished : Bool
  finishReason : Option FinishReason
  stopReason : Option TokenId
deriving DecidableEq

/-- `NewRequestData.from_request`. -/
def NewRequestData.fromRequest (request : Request) (blockIds : List ℕ) : NewRequestData where
  reqId := request.requestId
  promptTokenIds := request.promptTokenIds
  mmInputs := request.mmInputs
  mmHashes := request.mmHashes
  mmPositions := request.mmPositions
  samplingParams := request.samplingParams
  blockIds := blockIds
  numComputedTokens := request.numComputedTokens

/-- `CachedRequestData.from_request`. -/
def CachedRequestData.fromRequest (request : Request) (resumedFromPreemption : Bool)
    (newBlockIds : List ℕ) : CachedRequestData where
  reqId := request.requestId
  resumedFromPreemption := resumedFromPreemption
  newBlockIds := newBlockIds
  numComputedTokens := request.numComputedTokens

/-- The local variables of `schedule`. -/
structure Scheduling where
  sched : Scheduler
  scheduledNewReqs : List ReqId
  scheduledResumedReqs : List ReqId
  scheduledRunningReqs : List ReqId
  preemptedReqs : List ReqId
  reqToNewBlockIds : Dict ReqId (List ℕ)
  numScheduledTokens : Dict ReqId ℕ
  tokenBudget : ℤ
  scheduledEncoderInputs : Dict ReqId (List ℕ)
  encoderBudget : ℤ

namespace Scheduler

variable (p : SchedulerParams)

/-- `Scheduler.__init__`. -/
def init : Scheduler where
  kv := .init p.kv
  requests := .empty
  waiting := []
  running := []
  finishedReqIds := []
  cachedReqsData := .empty
  encoderCacheManager := .init p.encoderCacheSize
  history := []

variable (s : Scheduler)

/-- The request object with an id. -/
def request (id : ReqId) : Except Exn Request := ofOption .keyError (s.requests.get? id)

/-! ## Encoder inputs -/

/-- The number of tokens before an encoder input that cannot be scheduled. -/
def tokensBefore (pos : PlaceholderRange) (numComputedTokens : ℕ) : ℤ :=
  if numComputedTokens < pos.offset then (pos.offset : ℤ) - numComputedTokens else 0

/-- The loop of `_try_schedule_encoder_inputs`, over the inputs from index `i` on. -/
def encoderLoop (available : ReqId → ℕ → Bool) (request : Request) (numComputedTokens : ℕ) :
    List PlaceholderRange → ℕ → List ℕ → ℤ → ℤ → Except Exn (List ℕ × ℤ × ℤ)
  | [], _, inputs, numNewTokens, budget => .ok (inputs, numNewTokens, budget)
  | pos :: rest, i, inputs, numNewTokens, budget =>
    if (numComputedTokens : ℤ) + numNewTokens ≤ pos.offset then
      -- not needed in this step
      .ok (inputs, numNewTokens, budget)
    else if pos.offset + pos.length ≤ numComputedTokens then
      -- already in the decoder's KV cache
      encoderLoop available request numComputedTokens rest (i + 1) inputs numNewTokens budget
    else if s.encoderCacheManager.hasCache request.requestId i = true then
      encoderLoop available request numComputedTokens rest (i + 1) inputs numNewTokens budget
    else do
      let can ← s.encoderCacheManager.canAllocate request i
      if can = false ∨ budget < pos.length then
        .ok (inputs, tokensBefore pos numComputedTokens, budget)
      else if available request.requestId i = false then
        .ok (inputs, tokensBefore pos numComputedTokens, budget)
      else
        encoderLoop available request numComputedTokens rest (i + 1) (inputs ++ [i]) numNewTokens
          (budget - pos.length)

/-- `_try_schedule_encoder_inputs`: the inputs to schedule, the number of tokens that may be
computed and the remaining budget. -/
def tryScheduleEncoderInputs (available : ReqId → ℕ → Bool) (request : Request)
    (numComputedTokens : ℕ) (numNewTokens encoderBudget : ℤ) : Except Exn (List ℕ × ℤ × ℤ) :=
  if request.hasEncoderInputs = false then .ok ([], numNewTokens, encoderBudget)
  else do
    assert (0 < request.mmPositions.length) ""
    s.encoderLoop available request numComputedTokens request.mmPositions 0 [] numNewTokens
      encoderBudget

end Scheduler

/-! ## The scheduling loops -/

namespace Scheduling

variable (p : SchedulerParams) (available : ReqId → ℕ → Bool) (st : Scheduling)

/-- The local variables at the start of `schedule`. -/
def start (s : Scheduler) : Scheduling where
  sched := s
  scheduledNewReqs := []
  scheduledResumedReqs := []
  scheduledRunningReqs := []
  preemptedReqs := []
  reqToNewBlockIds := .empty
  numScheduledTokens := .empty
  tokenBudget := p.maxNumScheduledTokens
  scheduledEncoderInputs := .empty
  encoderBudget := p.maxNumEncoderInputTokens

/-- Write back a request and the KV-cache manager. -/
def put (kv : KVCacheManager) (id : ReqId) (request : Request) : Scheduling :=
  { st with sched := { st.sched with kv := kv, requests := st.sched.requests.set id request } }

/-- Append to the history. -/
def log (events : List BlockEvent) : Scheduling :=
  { st with sched := { st.sched with history := st.sched.history ++ events } }

/-- What both loops do with a request once it has its slots. -/
def record (request : Request) (newBlockIds : List ℕ) (n : ℕ) (inputs : List ℕ)
    (newEncoderBudget : ℤ) : Except Exn Scheduling := do
  let ecm ← inputs.foldlM (fun m i => m.allocate request i) st.sched.encoderCacheManager
  .ok { st with
    sched := { st.sched with encoderCacheManager := ecm }
    reqToNewBlockIds := st.reqToNewBlockIds.set request.requestId newBlockIds
    numScheduledTokens := st.numScheduledTokens.set request.requestId n
    tokenBudget := st.tokenBudget - n
    scheduledEncoderInputs := if inputs = [] then st.scheduledEncoderInputs
      else st.scheduledEncoderInputs.set request.requestId inputs
    encoderBudget := if inputs = [] then st.encoderBudget else newEncoderBudget }

/-- The last running request goes back to the front of `waiting`, with its blocks freed. -/
def preempt (id : ReqId) (request : Request) (kv : KVCacheManager) : Scheduling :=
  { st with
    sched := { st.sched with
      kv := kv
      requests := st.sched.requests.set id
        { request with status := .preempted, numComputedTokens := 0 }
      running := st.sched.running.dropLast
      waiting := id :: st.sched.waiting }
    preemptedReqs := st.preemptedReqs ++ [id] }

/-- Preempt the last running request. -/
def preemptLast : Except Exn (ReqId × Scheduling) := do
  let id ← ofOption (.indexError "pop from empty list") st.sched.running.getLast?
  let request ← st.sched.request id
  let kv ← st.sched.kv.free p.kv request
  .ok (id, st.preempt id request kv)

/-- The inner loop over `allocate_slots`: preempt from the end of `running` until the slots fit.
`none` if the request itself had to go. -/
def allocLoop (id : ReqId) (n : ℕ) : ℕ → Scheduling → Except Exn (Option (List ℕ) × Scheduling)
  | 0, _ => .error .diverges
  | fuel + 1, st => do
    let request ← st.sched.request id
    let (res, kv, request) ← st.sched.kv.allocateSlots p.kv request n []
    let st := st.put kv id request
    match res with
    | some newBlocks => .ok (some newBlocks, st)
    | none => do
      let (preempted, st) ← preemptLast p st
      if preempted = id then .ok (none, st) else allocLoop id n fuel st

/-- A running request has got its slots. -/
def scheduleRunning (id : ReqId) (newBlocks : List ℕ) (n : ℕ) (inputs : List ℕ)
    (newEncoderBudget : ℤ) : Except Exn Scheduling := do
  let request ← st.sched.request id
  { st with scheduledRunningReqs := st.scheduledRunningReqs ++ [id] }.log
      [.taken newBlocks, .scheduled id request.allTokenIds (st.sched.kv.blocksOf id)
        request.numComputedTokens n]
    |>.record request newBlocks n inputs newEncoderBudget

/-- One round of the loop over `running` for a request that may get tokens: `none` when the
request was preempted, which ends the loop. -/
def tryRunning (id : ReqId) (inputs : List ℕ) (n newEncoderBudget : ℤ) :
    Except Exn (Bool × Scheduling) := do
  let (res, st) ← allocLoop p id n.toNat (st.sched.running.length + 1) st
  match res with
  | none => .ok (false, st)
  | some newBlocks => do
    let st ← st.scheduleRunning id newBlocks n.toNat inputs newEncoderBudget
    .ok (true, st)

/-- The loop over the running requests, from `reqIndex` on. -/
def runningLoop : ℕ → ℕ → Scheduling → Except Exn Scheduling
  | fuel, reqIndex, st =>
    match st.sched.running[reqIndex]? with
    | none => .ok st
    | some id =>
      if st.tokenBudget ≤ 0 then .ok st
      else match fuel with
        | 0 => .error .diverges
        | fuel + 1 => do
          let request ← st.sched.request id
          let numNewTokens := min ((request.numTokens : ℤ) - request.numComputedTokens)
            st.tokenBudget
          assert (0 < numNewTokens) ""
          let (inputs, numNewTokens, newEncoderBudget) ← st.sched.tryScheduleEncoderInputs available
            request request.numComputedTokens numNewTokens st.encoderBudget
          if numNewTokens = 0 then runningLoop fuel (reqIndex + 1) st
          else do
            let (canSchedule, st) ← st.tryRunning p id inputs numNewTokens newEncoderBudget
            if canSchedule = true then runningLoop fuel (reqIndex + 1) st else .ok st

/-- The tokens already cached for a waiting request: the blocks, the number of tokens and the
request with its hashes. The last block is recomputed when it is the end of the request. -/
def cachedPrefix (id : ReqId) : Except Exn (List ℕ × ℕ × Request × Scheduling) := do
  let request ← st.sched.request id
  let (computed, numComputedTokens, request) ← st.sched.kv.getComputedBlocks p.kv request
  let st := (st.put st.sched.kv id request).log [.computed request.allTokenIds computed]
  if request.numTokens = numComputedTokens then
    if computed = [] then .error (.indexError "pop from empty list")
    else .ok (computed.dropLast, numComputedTokens - p.kv.blockSize, request, st)
  else .ok (computed, numComputedTokens, request, st)

/-- A waiting request has got its slots and joins `running`. -/
def scheduleWaiting (id : ReqId) (request : Request) (computed newBlocks : List ℕ)
    (numComputedTokens n : ℕ) (inputs : List ℕ) (newEncoderBudget : ℤ) : Except Exn Scheduling := do
  let st : Scheduling := { st with
    sched := { st.sched with
      waiting := st.sched.waiting.tail
      running := st.sched.running ++ [id] } }
  let st ← (match request.status with
    | .waiting => .ok { st with scheduledNewReqs := st.scheduledNewReqs ++ [id] }
    | .preempted => .ok { st with scheduledResumedReqs := st.scheduledResumedReqs ++ [id] }
    | status => .error (.runtimeError ("Invalid request status: " ++ toString status.value)))
  let request := { request with status := .running, numComputedTokens := numComputedTokens }
  let st := (st.put st.sched.kv id request).log
    [.taken newBlocks, .scheduled id request.allTokenIds (st.sched.kv.blocksOf id)
      numComputedTokens n]
  st.record request (computed ++ newBlocks) n inputs newEncoderBudget

/-- The loop over the waiting requests. -/
def waitingLoop : List ReqId → Scheduling → Except Exn Scheduling
  | [], st => .ok st
  | id :: rest, st =>
    if st.tokenBudget ≤ 0 ∨ st.sched.running.length = p.maxNumRunningReqs then .ok st
    else do
      let (computed, numComputedTokens, request, st) ← st.cachedPrefix p id
      let numNewTokens := min ((request.numTokens : ℤ) - numComputedTokens) st.tokenBudget
      assert (0 < numNewTokens) ""
      let (inputs, numNewTokens, newEncoderBudget) ← st.sched.tryScheduleEncoderInputs available
        request numComputedTokens numNewTokens st.encoderBudget
      if numNewTokens = 0 then .ok st
      else do
        let (res, kv, request) ← st.sched.kv.allocateSlots p.kv request numNewTokens.toNat computed
        let st := st.put kv id request
        match res with
        | none => .ok st
        | some newBlocks => do
          let st ← st.scheduleWaiting id request computed newBlocks numComputedTokens numNewTokens.toNat
            inputs newEncoderBudget
          waitingLoop rest st

/-- The two loops of `schedule`. -/
def loops (s : Scheduler) : Except Exn Scheduling := do
  let st ← runningLoop p available s.running.length 0 (start p s)
  if st.preemptedReqs = [] then waitingLoop p available st.sched.waiting st else .ok st

/-- `sum(num_scheduled_tokens.values())`. -/
def totalTokens : ℕ := st.numScheduledTokens.total fun n => n

/-- The checks at the end of `schedule`. -/
def checks : Except Exn Unit := do
  assert (st.totalTokens ≤ p.maxNumScheduledTokens) ""
  assert (0 ≤ st.tokenBudget) ""
  assert (st.sched.running.length ≤ p.maxNumRunningReqs) ""
  assert (st.scheduledNewReqs.length + st.scheduledResumedReqs.length +
    st.scheduledRunningReqs.length ≤ st.sched.running.length) ""

/-- The number of blocks shared by all running requests. -/
def commonPrefix : Except Exn (ℕ × Scheduling) :=
  match st.sched.running.head? with
  | none => .ok (0, st)
  | some id => do
    let request ← st.sched.request id
    let (n, kv) ← st.sched.kv.getNumCommonPrefixBlocks request st.sched.running.length
    .ok (n, { st with sched := { st.sched with kv := kv } })

/-- A scheduled request with its new block ids. -/
def withBlocks (id : ReqId) : Except Exn (Request × List ℕ) := do
  let request ← st.sched.request id
  let blockIds ← ofOption .keyError (st.reqToNewBlockIds.get? id)
  .ok (request, blockIds)

/-- What `_make_cached_request_data` leaves in `_cached_reqs_data`. An object that is there is reused,
with all its fields but its id overwritten. -/
def keepRequestData (cachedReqsData : Dict ReqId CachedRequestData) (data : CachedRequestData) :
    Dict ReqId CachedRequestData :=
  cachedReqsData.set data.reqId data

/-- The output of `schedule`; the finished ids and the freed inputs are handed over. -/
def output (numCommonPrefixBlocks : ℕ) : Except Exn (SchedulerOutput × Scheduler) := do
  let newReqs ← st.scheduledNewReqs.mapM st.withBlocks
  let resumedReqs ← st.scheduledResumedReqs.mapM st.withBlocks
  let runningReqs ← st.scheduledRunningReqs.mapM st.withBlocks
  let (freed, ecm) := st.sched.encoderCacheManager.getFreedIds
  let cachedReqs := (resumedReqs.map fun x => CachedRequestData.fromRequest x.1 true x.2) ++
    runningReqs.map fun x => .fromRequest x.1 false x.2
  .ok ({ scheduledNewReqs := newReqs.map fun x => .fromRequest x.1 x.2
         scheduledCachedReqs := cachedReqs
         numScheduledTokens := st.numScheduledTokens
         totalNumScheduledTokens := st.totalTokens
         scheduledEncoderInputs := st.scheduledEncoderInputs
         numCommonPrefixBlocks := numCommonPrefixBlocks
         finishedReqIds := st.sched.finishedReqIds
         freeEncoderInputIds := freed },
    { st.sched with
      finishedReqIds := []
      cachedReqsData := cachedReqs.foldl keepRequestData st.sched.cachedReqsData
      encoderCacheManager := ecm })

end Scheduling

namespace Scheduler

variable (p : SchedulerParams) (s : Scheduler)

/-- `schedule`. -/
def schedule (available : ReqId → ℕ → Bool) : Except Exn (SchedulerOutput × Scheduler) := do
  let st ← Scheduling.loops p available s
  st.checks p
  let (numCommonPrefixBlocks, st) ← st.commonPrefix
  st.output numCommonPrefixBlocks

/-! ## Updates -/

/-- `_free_request`. -/
def freeRequest (request : Request) : Except Exn Scheduler := do
  assert (request.status.isFinished = true) ""
  let kv ← s.kv.free p.kv request
  let ecm ← s.encoderCacheManager.free request
  if s.requests.contains request.requestId = false then .error .keyError
  else
    .ok { s with
      kv := kv
      encoderCacheManager := ecm
      cachedReqsData := s.cachedReqsData.pop request.requestId
      requests := s.requests.pop request.requestId
      finishedReqIds := if request.requestId ∈ s.finishedReqIds then s.finishedReqIds
        else s.finishedReqIds ++ [request.requestId] }

/-- `_check_stop`: whether the request has stopped, and the request with its new status. -/
def checkStop (request : Request) : Except Exn (Bool × Request) :=
  if p.kv.maxModelLen ≤ request.numTokens ∨
      request.samplingParams.maxTokens ≤ request.numOutputTokens then
    .ok (true, { request with status := .finishedLengthCapped })
  else do
    let lastTokenId ← ofOption (.indexError "list index out of range")
      request.outputTokenIds.getLast?
    if request.samplingParams.ignoreEos = false ∧ some lastTokenId = request.eosTokenId then
      .ok (true, { request with status := .finishedStopped })
    else if lastTokenId ∈ request.samplingParams.stopTokenIds then
      .ok (true, { request with status := .finishedStopped, stopReason := some lastTokenId })
    else .ok (false, request)

/-- Release the cached encoder inputs whose tokens are all computed. -/
def releaseInputs (request : Request) (m : EncoderCacheManager) :
    Except Exn EncoderCacheManager :=
  (m.getCachedInputIds request.requestId).foldlM (fun m i => do
    let pos ← ofOption (.indexError "list index out of range") request.mmPositions[i]?
    if pos.offset + pos.length ≤ request.numComputedTokens then m.freeEncoderInput request i
    else .ok m) m

/-- The loop variables of `update_from_output`. -/
structure Updating where
  sched : Scheduler
  newRunning : List ReqId
  outputs : List EngineCoreOutput

/-- A request that has caught up gets its token and may stop. -/
def generate (u : Updating) (id : ReqId) (request : Request) (out : ModelRunnerOutput) :
    Except Exn Updating := do
  let reqIndex ← ofOption .keyError (out.reqIdToIndex.get? id)
  let tokenId ← ofOption (.indexError "list index out of range") out.sampledTokenIds[reqIndex]?
  let (stopped, request) ← checkStop p (request.appendOutputTokenIds tokenId)
  let s := { u.sched with requests := u.sched.requests.set id request }
  let s ← (if stopped = true then s.freeRequest p request else .ok s)
  .ok { sched := s
        newRunning := if stopped = true then u.newRunning else u.newRunning ++ [id]
        outputs := u.outputs ++ [{
          requestId := id
          newTokenIds := request.outputTokenIds.drop (request.outputTokenIds.length - 1)
          finished := request.status.isFinished
          finishReason := request.status.getFinishedReason
          stopReason := request.stopReason }] }

/-- One round of the loop of `update_from_output`. -/
def updateOne (output : SchedulerOutput) (out : ModelRunnerOutput) (u : Updating) (id : ReqId) :
    Except Exn Updating :=
  let numTokensScheduled := (output.numScheduledTokens.get? id).getD 0
  if numTokensScheduled = 0 then .ok { u with newRunning := u.newRunning ++ [id] }
  else do
    let request ← u.sched.request id
    let request := { request with
      numComputedTokens := request.numComputedTokens + numTokensScheduled }
    assert (request.numComputedTokens ≤ request.numTokens) ""
    let ecm ← releaseInputs request u.sched.encoderCacheManager
    let s := { u.sched with
      encoderCacheManager := ecm
      requests := u.sched.requests.set id request }
    if request.numComputedTokens = request.numTokens then
      generate p { u with sched := s } id request out
    else .ok { u with sched := s, newRunning := u.newRunning ++ [id] }

/-- `update_from_output`. -/
def updateFromOutput (output : SchedulerOutput) (out : ModelRunnerOutput) :
    Except Exn (List EngineCoreOutput × Scheduler) := do
  let u ← s.running.foldlM (updateOne p output out) { sched := s, newRunning := [], outputs := [] }
  .ok (u.outputs, { u.sched with running := u.newRunning })

/-- `add_request`. -/
def addRequest (request : Request) : Scheduler :=
  { s with
    waiting := s.waiting ++ [request.requestId]
    requests := s.requests.set request.requestId request }

/-- `finish_requests` of one id. -/
def finishOne (status : RequestStatus) (s : Scheduler) (id : ReqId) : Except Exn Scheduler :=
  match s.requests.get? id with
  | none => .ok s
  | some request => do
    let s ← (if request.status = .running then
        if id ∈ s.running then .ok { s with running := s.running.erase id }
        else .error (.valueError "list.remove(x): x not in list")
      else
        if id ∈ s.waiting then .ok { s with waiting := s.waiting.erase id }
        else .error (.valueError "deque.remove(x): x not in deque"))
    let request := { request with status := status }
    { s with requests := s.requests.set id request }.freeRequest p request

/-- `finish_requests`. A repeated id finds no request the second time. -/
def finishRequests (requestIds : List ReqId) (finishedStatus : RequestStatus) :
    Except Exn Scheduler := do
  assert (finishedStatus.isFinished = true) ""
  requestIds.foldlM (finishOne p finishedStatus) s

/-- `has_unfinished_requests`. -/
def hasUnfinishedRequests : Bool := decide (0 < s.waiting.length + s.running.length)

/-- `reset_prefix_cache`. -/
def resetPrefixCache : Scheduler := { s with kv := (s.kv.resetPrefixCache p.kv).2 }

end Scheduler

end SpaceServe
