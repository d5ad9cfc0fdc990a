import SpaceServe.Engine.Stream

/-!
# The frontend

`AsyncLLM` of `vllm/v1/engine/async_llm.py` with its `OutputProcessor`, the two channels to the engine
process, and the engine behind them.

Everything in the frontend happens in one event loop: an event is what a task does between two awaits.
Messages enter a channel when they are given to the socket, in order; an `await` of a send may come back
later. `generate` sends its request to the encoder process first, so that the message to the engine goes
out in a later event. `abort` removes its request only when its message has gone out. The output handler
splits a large list of outputs and lets other tasks run between its parts.

Messages carry request ids only. The numbers of the submissions are not in the source: they say which
call of `generate` a request state, a request of the engine, an output or an abort belongs to, and
nothing reads them. The detokenizer is a parameter.

* `Detokenizer`, `RequestState`, `TaggedOutput`, `Abort`, `ClientMessage`: the data;
* `AsyncLLM`: the state; `deliver`, `processOutputs`: the `OutputProcessor`;
* `AsyncEvent`, `AsyncLLM.step`, `Admissible`.
-/

set_option autoImplicit false

namespace SpaceServe

open Py

/-- `DetokenizerOutput`. -/
structure DetokenizerOutput where
  outputText : String
  tokenIds : List TokenId
  finished : Bool
  finishReason : Option FinishReason
  stopReason : Option (TokenId ⊕ String)
deriving DecidableEq

/-- `IncrementalDetokenizer`: how it starts, and what it makes of an output. -/
structure Detokenizer (D : Type) where
  fromNewRequest : Request → D
  updateFromOutput : D → EngineCoreOutput → Option DetokenizerOutput × D

/-- `RequestOutput`, what `_make_request_output` takes from the detokenizer's output. -/
structure RequestOutput where
  requestId : ReqId
  output : DetokenizerOutput
deriving DecidableEq

/-- `RequestState`, with the number of its submission. Its queue is kept under that number. -/
structure RequestState (D : Type) where
  submission : ℕ
  detokenizer : D

/-- An output, with the submission whose request it was made for. -/
structure TaggedOutput where
  output : EngineCoreOutput
  submission : Option ℕ
deriving DecidableEq

/-- The abort of an id, with the submission it is issued for. -/
structure Abort where
  requestId : ReqId
  issuedFor : Option ℕ
deriving DecidableEq

/-- A submission of a request: a call of `generate`. -/
structure Submission where
  number : ℕ
  request : Request
deriving DecidableEq

/-- What the frontend sends to the engine. -/
inductive ClientMessage
  | add (submission : Submission)
  | abort (aborts : List Abort)
  | resetPrefixCache
deriving DecidableEq

/-- `np.array_split(xs, k)`: `k` parts, the longer ones first. -/
def arraySplit {α : Type} (xs : List α) : ℕ → List (List α)
  | 0 => []
  | k + 1 => xs.take (cdiv xs.length (k + 1)) :: arraySplit (xs.drop (cdiv xs.length (k + 1))) k

/-- The slices of a list of outputs, of at most `VLLM_V1_OUTPUT_PROC_CHUNK_SIZE` each. -/
def outputSlices {α : Type} (chunkSize : ℕ) (outputs : List α) : List (List α) :=
  if outputs.length ≤ chunkSize then [outputs]
  else arraySplit outputs (cdiv outputs.length chunkSize)

/-- The frontend, the channels and the engine. `latest` and `owner` are the last submission of each id
and the submission of each request of the engine; `processed` and `finished` record, for each output
that was processed and each request that an abort has ended, the submission it came from and the one it
has met. -/
structure AsyncLLM (D E : Type) where
  requestStates : Dict ReqId (RequestState D)
  queues : Dict ℕ (List RequestOutput)
  count : ℕ
  latest : Dict ReqId ℕ
  tasks : List Submission
  sending : List Submission
  aborting : List Abort
  slices : List (List TaggedOutput)
  reqsToAbort : Option (List Abort)
  inputs : List ClientMessage
  outputs : List (List TaggedOutput)
  core : EngineCore E
  owner : Dict ReqId ℕ
  processed : List (Option ℕ × ℕ)
  finished : List (Option ℕ × Option ℕ)

/-- What can happen. -/
inductive AsyncEvent (V O : Type)
  /-- `generate`, up to its first await. -/
  | generate (request : Request)
  /-- `add_request_async` goes on after the request was sent to the encoder process. -/
  | sendRequest (submission : Submission)
  /-- `generate` takes what is in its queue. -/
  | consume (submission : Submission)
  /-- `generate` is cancelled, and calls `abort`. -/
  | cancel (submission : Submission)
  /-- `abort`, called by a client. -/
  | abort (requestId : ReqId)
  /-- `abort` goes on after its message was sent. -/
  | aborted (abort : Abort)
  /-- `reset_prefix_cache`, called by a client. -/
  | resetPrefixCache
  /-- The output handler gets outputs. -/
  | receive
  /-- The output handler processes a slice. -/
  | process
  /-- The output handler goes on after it has let other tasks run. -/
  | sendAborts
  /-- The engine handles a message. -/
  | handleClientRequest
  /-- The engine handles an encoder result. -/
  | encoderResult (res : EncoderResult V)
  /-- The engine calls `schedule`. -/
  | advance (polled : Option (EncoderResult V)) (outcome : O)

namespace AsyncLLM

variable {D E V O : Type} (detok : Detokenizer D) (chunkSize : ℕ) (p : SchedulerParams)
  (x : Executor E V O)

/-- `AsyncLLM.__init__`. -/
def init (executor : E) : AsyncLLM D E where
  requestStates := .empty
  queues := .empty
  count := 0
  latest := .empty
  tasks := []
  sending := []
  aborting := []
  slices := []
  reqsToAbort := none
  inputs := []
  outputs := []
  core := .init p executor
  owner := .empty
  processed := []
  finished := []

variable (σ : AsyncLLM D E)

/-- `is_request_active`. -/
def isRequestActive (id : ReqId) : Bool := σ.requestStates.contains id

/-- `abort_requests_async`: nothing is sent for an empty list. -/
def abortRequestsAsync (aborts : List Abort) : AsyncLLM D E :=
  if aborts = [] then σ else { σ with inputs := σ.inputs ++ [.abort aborts] }

/-- `queue.put_nowait`. -/
def put (submission : ℕ) (out : RequestOutput) : AsyncLLM D E :=
  { σ with queues := σ.queues.set submission ((σ.queues.get? submission).getD [] ++ [out]) }

/-- What `process_outputs` does with what the detokenizer of a request has made of an output: the state
after it, and whether the engine has to abort the request. -/
def deliver (st : RequestState D) (o : TaggedOutput) (out : Option DetokenizerOutput) (d : D) :
    AsyncLLM D E × List Abort :=
  let id := o.output.requestId
  let σ := { σ with
    processed := σ.processed ++ [(o.submission, st.submission)]
    requestStates := σ.requestStates.set id { st with detokenizer := d } }
  match out with
  | none => (σ, [])
  | some out =>
    let σ := σ.put st.submission ⟨id, out⟩
    if out.finished = true then
      ({ σ with requestStates := σ.requestStates.pop id },
        if o.output.finished = true then [] else [⟨id, some st.submission⟩])
    else (σ, [])

/-- One round of the loop of `process_outputs`: the ids to abort are gathered. -/
def processOutput (acc : AsyncLLM D E × List Abort) (o : TaggedOutput) : AsyncLLM D E × List Abort :=
  match acc.1.requestStates.get? o.output.requestId with
  | none => acc
  | some st =>
    let updated := detok.updateFromOutput st.detokenizer o.output
    let delivered := acc.1.deliver st o updated.1 updated.2
    (delivered.1, acc.2 ++ delivered.2)

/-- `process_outputs`. -/
def processOutputs (outputs : List TaggedOutput) : AsyncLLM D E × List Abort :=
  outputs.foldl (processOutput detok) (σ, [])

/-- The round of the output handler for a slice. Other tasks run before the aborts are sent, but for the
last slice. -/
def process : AsyncLLM D E :=
  match σ.reqsToAbort, σ.slices with
  | none, [] => σ
  | none, [slice] =>
    let (σ, aborts) := { σ with slices := [] }.processOutputs detok slice
    σ.abortRequestsAsync aborts
  | none, slice :: rest =>
    let (σ, aborts) := { σ with slices := rest }.processOutputs detok slice
    { σ with reqsToAbort := some aborts }
  | some _, _ => σ

/-- The abort of an id: its message is sent, and what remains is done later. -/
def startAbort (abort : Abort) : AsyncLLM D E :=
  { σ.abortRequestsAsync [abort] with aborting := σ.aborting ++ [abort] }

/-- `abort_requests` of the `OutputProcessor`. -/
def finishAbort (abort : Abort) : AsyncLLM D E :=
  match σ.requestStates.get? abort.requestId with
  | none => σ
  | some st => { σ with
      requestStates := σ.requestStates.pop abort.requestId
      finished := σ.finished ++ [(abort.issuedFor, some st.submission)] }

/-- `_handle_client_request`. -/
def handle (rest : List ClientMessage) : ClientMessage → Except Exn (AsyncLLM D E)
  | .add submission => do
    let (_, c) ← σ.core.next p x (.addRequest submission.request)
    .ok { σ with
      inputs := rest
      core := c
      owner := σ.owner.set submission.request.requestId submission.number }
  | .abort aborts => do
    let (_, c) ← σ.core.next p x (.abortRequests (aborts.map (·.requestId)))
    .ok { σ with
      inputs := rest
      core := c
      finished := σ.finished ++
        (aborts.filter fun a => decide (a.requestId ∈ σ.core.scheduler.requests.keys)).map
          fun a => (a.issuedFor, σ.owner.get? a.requestId) }
  | .resetPrefixCache => do
    let (_, c) ← σ.core.next p x .resetPrefixCache
    .ok { σ with inputs := rest, core := c }

/-- The outputs of a step, with the submissions of their requests. -/
def tag (outputs : List EngineCoreOutput) : List TaggedOutput :=
  outputs.map fun o => ⟨o, σ.owner.get? o.requestId⟩

/-- One event. An event that is not possible changes nothing. -/
def step : AsyncEvent V O → Except Exn (AsyncLLM D E)
  | .generate request =>
    if σ.isRequestActive request.requestId = true then
      .error (.valueError ("Request id " ++ request.requestId ++ " already running."))
    else
      let submission : Submission := ⟨σ.count, request⟩
      .ok { σ with
        requestStates := σ.requestStates.set request.requestId
          ⟨σ.count, detok.fromNewRequest request⟩
        queues := σ.queues.set σ.count []
        count := σ.count + 1
        latest := σ.latest.set request.requestId σ.count
        tasks := σ.tasks ++ [submission]
        sending := σ.sending ++ [submission] }
  | .sendRequest submission =>
    if submission ∈ σ.sending then
      .ok { σ with
        sending := σ.sending.erase submission
        inputs := σ.inputs ++ [.add submission] }
    else .ok σ
  | .consume submission =>
    let queue := (σ.queues.get? submission.number).getD []
    if submission ∈ σ.tasks then
      .ok { σ with
        queues := σ.queues.set submission.number []
        tasks := if queue.any (fun out => out.output.finished) = true then σ.tasks.erase submission
          else σ.tasks }
    else .ok σ
  | .cancel submission =>
    if submission ∈ σ.tasks then
      .ok ({ σ with
        tasks := σ.tasks.erase submission
        sending := σ.sending.erase submission }.startAbort
          ⟨submission.request.requestId, some submission.number⟩)
    else .ok σ
  | .abort requestId => .ok (σ.startAbort ⟨requestId, σ.latest.get? requestId⟩)
  | .aborted abort =>
    if abort ∈ σ.aborting then
      .ok ({ σ with aborting := σ.aborting.erase abort }.finishAbort abort)
    else .ok σ
  | .resetPrefixCache => .ok { σ with inputs := σ.inputs ++ [.resetPrefixCache] }
  | .receive =>
    match σ.reqsToAbort, σ.slices, σ.outputs with
    | none, [], batch :: rest =>
      .ok { σ with slices := outputSlices chunkSize batch, outputs := rest }
    | _, _, _ => .ok σ
  | .process => .ok (σ.process detok)
  | .sendAborts =>
    match σ.reqsToAbort with
    | none => .ok σ
    | some aborts => .ok ({ σ with reqsToAbort := none }.abortRequestsAsync aborts)
  | .handleClientRequest =>
    match σ.inputs with
    | [] => .ok σ
    | message :: rest => σ.handle p x rest message
  | .encoderResult res => do
    let (_, c) ← σ.core.next p x (.encoderResult res)
    .ok { σ with core := c }
  | .advance polled outcome => do
    let (progress, exec, c) ← σ.core.call p x polled outcome
    -- `step` only returns when tokens were scheduled, or at once when there is nothing to do
    match progress with
    | .discarded _ => .ok { σ with core := c }
    | _ => .ok { σ with core := c, outputs := σ.outputs ++ [σ.tag (executedOutputs exec)] }

/-- The busy loop handles messages and encoder results between the steps of the engine only, and `step`
looks for an encoder result only in its loop. Requests are new. -/
def Admissible : AsyncEvent V O → Prop
  | .generate request => request.IsNew
  | .handleClientRequest => σ.core.spinning = false
  | .encoderResult _ => σ.core.spinning = false
  | .advance polled _ => σ.core.spinning = false → polled.isNone = true
  | _ => True

instance : (e : AsyncEvent V O) → Decidable (σ.Admissible e)
  | .generate request => inferInstanceAs (Decidable request.IsNew)
  | .handleClientRequest => inferInstanceAs (Decidable (σ.core.spinning = false))
  | .encoderResult _ => inferInstanceAs (Decidable (σ.core.spinning = false))
  | .advance polled _ =>
    inferInstanceAs (Decidable (σ.core.spinning = false → polled.isNone = true))
  | .sendRequest _ => inferInstanceAs (Decidable True)
  | .consume _ => inferInstanceAs (Decidable True)
  | .cancel _ => inferInstanceAs (Decidable True)
  | .abort _ => inferInstanceAs (Decidable True)
  | .aborted _ => inferInstanceAs (Decidable True)
  | .resetPrefixCache => inferInstanceAs (Decidable True)
  | .receive => inferInstanceAs (Decidable True)
  | .process => inferInstanceAs (Decidable True)
  | .sendAborts => inferInstanceAs (Decidable True)

end AsyncLLM

end SpaceServe
