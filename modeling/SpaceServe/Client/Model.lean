import SpaceServe.Encoder.Results
import SpaceServe.Engine.Outputs
import SpaceServe.Engine.Inputs

/-!
# The client and its two processes

`AsyncMPClient` of `vllm/v1/engine/core_client.py` with the two processes that it starts: the engine and
the encoder. They share nothing but queues: the client sends each request to the encoder and then to the
engine, aborts and resets to the engine only, and the encoder puts its results on a bounded queue from
which the engine takes them.

Everything runs side by side. A call of `add_request_async` may be overtaken by other calls between its
two sends; the encoder waits when the queue of results is full; the engine handles its messages between
two steps, and inside a step it looks at the queue of results at most once for each call of `schedule`.
The profiling messages are left out, and so are the outputs on their way back to the client.

* `EngineCoreRequestUnion`, `AsyncMPClient`, `AsyncMPClient.Event`, `AsyncMPClient.step`;
* `Admissible`: what the client submits; `ClientRun`: the reachable states;
* `Moved`, **`step_moved`**: the ways an event can go.
-/

set_option autoImplicit false

namespace SpaceServe

open Py EncoderScheduler

/-- The part of the configuration that the encoder process reads. -/
def SchedulerParams.encoder (p : SchedulerParams) : EncoderSchedulerParams where
  maxNumRunningReqs := p.maxNumRunningReqs
  maxNumEncoderInputTokens := p.maxNumEncoderInputTokens
  encoderCacheSize := p.encoderCacheSize

/-- What the client sends to the engine. -/
inductive EngineCoreRequestUnion
  | add (request : Request)
  | abort (requestIds : List ReqId)
  | resetPrefixCache

namespace EngineCoreRequestUnion

/-- `_handle_client_request`. -/
def event {V O : Type} : EngineCoreRequestUnion → EngineEvent V O
  | add request => .addRequest request
  | abort requestIds => .abortRequests requestIds
  | resetPrefixCache => .resetPrefixCache

/-- The request that a message adds. -/
def added : EngineCoreRequestUnion → Option Request
  | add request => some request
  | abort _ => none
  | resetPrefixCache => none

end EngineCoreRequestUnion

/-- The client with what it has submitted, the requests that it has sent to the encoder only, the
messages on their way, and the two processes. -/
structure AsyncMPClient (ρ : Type) where
  submitted : List Request
  sending : List Request
  encoderInput : List Request
  engineInput : List EngineCoreRequestUnion
  encoder : EncoderCore (List ρ)
  engine : EngineRun (GPUModelRunner (List ρ))

namespace AsyncMPClient

variable {ρ : Type}

/-- What can happen. `sendInput k` is the second send of the `k`-th call of `add_request_async` that is
under way; `advance` is a call of `schedule` in `EngineCore.step`, with the tokens that are sampled. -/
inductive Event
  | addRequest (request : Request)
  | sendInput (k : ℕ)
  | abortRequests (requestIds : List ReqId)
  | resetPrefixCache
  | encoderInput
  | encoderStep
  | engineInput
  | encoderResult
  | advance (poll : Bool) (sampled : List TokenId)

section

variable (p : SchedulerParams) (enc : MultiModalKwargs → List ρ) (σ : AsyncMPClient ρ)

/-- A client with its processes started. -/
def init : AsyncMPClient ρ where
  submitted := []
  sending := []
  encoderInput := []
  engineInput := []
  encoder := .init p.encoder
  engine := .init p (.init p.maxNumRunningReqs)

/-- `maxsize` of `encoder_result_queue`. -/
def maxsize : ℕ := 5

/-- The queue from the encoder to the engine. -/
def results : List (EncoderResult (List ρ)) := σ.encoder.encoderResultQueue

/-- The engine takes results off the queue. -/
def took (rest : List (EncoderResult (List ρ))) (engine : EngineRun (GPUModelRunner (List ρ))) :
    AsyncMPClient ρ :=
  { σ with
    encoder := { σ.encoder with encoderResultQueue := rest }
    engine := engine }

/-- One event. One that cannot happen leaves everything as it is. The vision model encodes each input
by itself, as `enc`. -/
def step : Event → Except Exn (AsyncMPClient ρ)
  | .addRequest request => .ok { σ with
      submitted := σ.submitted ++ [request]
      sending := σ.sending ++ [request]
      encoderInput := σ.encoderInput ++ [request] }
  | .sendInput k =>
    match σ.sending[k]? with
    | none => .ok σ
    | some request => .ok { σ with
        sending := σ.sending.eraseIdx k
        engineInput := σ.engineInput ++ [.add request] }
  | .abortRequests requestIds =>
    if requestIds = [] then .ok σ
    else .ok { σ with engineInput := σ.engineInput ++ [.abort requestIds] }
  | .resetPrefixCache => .ok { σ with engineInput := σ.engineInput ++ [.resetPrefixCache] }
  | .encoderInput =>
    match σ.encoderInput with
    | [] => .ok σ
    | request :: rest => .ok { σ with
        encoderInput := rest
        encoder := σ.encoder.addRequest request }
  | .encoderStep => do
    let (out, encoder) ← σ.encoder.step p.encoder (List.map enc)
    -- `put` waits until there is room
    if out.scheduledNewReqs ≠ [] ∧ maxsize ≤ σ.results.length then .ok σ
    else .ok { σ with encoder := encoder }
  | .engineInput =>
    if σ.engine.core.spinning = true then .ok σ
    else match σ.engineInput with
      | [] => .ok σ
      | message :: rest => do
        let engine ← σ.engine.step p (uniProcExecutor ρ p.maxNumRunningReqs) message.event
        .ok { σ with
          engineInput := rest
          engine := engine }
  | .encoderResult =>
    if σ.engine.core.spinning = true then .ok σ
    else match σ.results with
      | [] => .ok σ
      | res :: rest => do
        let engine ← σ.engine.step p (uniProcExecutor ρ p.maxNumRunningReqs) (.encoderResult res)
        .ok (σ.took rest engine)
  | .advance poll sampled =>
    match poll && σ.engine.core.spinning, σ.results with
    | true, res :: rest => do
      let engine ← σ.engine.step p (uniProcExecutor ρ p.maxNumRunningReqs)
        (.advance (some res) sampled)
      .ok (σ.took rest engine)
    | _, _ => do
      let engine ← σ.engine.step p (uniProcExecutor ρ p.maxNumRunningReqs) (.advance none sampled)
      .ok { σ with engine := engine }

/-- The encoder output of each input has one row for each of its placeholders. -/
def Sized (enc : MultiModalKwargs → List ρ) (r : Request) : Prop :=
  ∀ y ∈ r.mmInputs.zip r.mmPositions, (enc y.1).length = y.2.length

instance (r : Request) : Decidable (Sized enc r) := by unfold Sized; infer_instance

/-- A request as the `Processor` accepts it: new, with a prompt that the model has room for and
placeholder ranges inside it, in order, without overlaps and of the sizes of the encoder outputs. -/
structure Accepted (positions : ReqId → List PlaceholderRange) (r : Request) : Prop where
  isNew : r.IsNew
  ranges : r.mmPositions = positions r.requestId
  placed : WellPlaced (positions r.requestId)
  inside : ∀ pos ∈ r.mmPositions, pos.offset + pos.length ≤ r.promptTokenIds.length
  nonempty : 0 < r.promptTokenIds.length
  short : r.promptTokenIds.length < p.kv.maxModelLen
  sized : Sized enc r

variable {p enc} in
theorem accepted_iff {positions : ReqId → List PlaceholderRange} {r : Request} :
    Accepted p enc positions r ↔ r.IsNew ∧ r.mmPositions = positions r.requestId ∧
      WellPlaced (positions r.requestId) ∧
      (∀ pos ∈ r.mmPositions, pos.offset + pos.length ≤ r.promptTokenIds.length) ∧
      0 < r.promptTokenIds.length ∧ r.promptTokenIds.length < p.kv.maxModelLen ∧ Sized enc r :=
  ⟨fun h => ⟨h.1, h.2, h.3, h.4, h.5, h.6, h.7⟩,
    fun h => ⟨h.1, h.2.1, h.2.2.1, h.2.2.2.1, h.2.2.2.2.1, h.2.2.2.2.2.1, h.2.2.2.2.2.2⟩⟩

instance (positions : ReqId → List PlaceholderRange) (r : Request) :
    Decidable (Accepted p enc positions r) := decidable_of_iff' _ accepted_iff

/-- Requests that are submitted are accepted ones with fresh ids. -/
def Admissible (positions : ReqId → List PlaceholderRange) : Event → Prop
  | .addRequest r => Accepted p enc positions r ∧ r.requestId ∉ σ.submitted.map (·.requestId)
  | _ => True

instance (positions : ReqId → List PlaceholderRange) :
    (e : Event) → Decidable (Admissible p enc σ positions e)
  | .addRequest r => inferInstanceAs (Decidable (Accepted p enc positions r ∧
      r.requestId ∉ σ.submitted.map (·.requestId)))
  | .sendInput _ => inferInstanceAs (Decidable True)
  | .abortRequests _ => inferInstanceAs (Decidable True)
  | .resetPrefixCache => inferInstanceAs (Decidable True)
  | .encoderInput => inferInstanceAs (Decidable True)
  | .encoderStep => inferInstanceAs (Decidable True)
  | .engineInput => inferInstanceAs (Decidable True)
  | .encoderResult => inferInstanceAs (Decidable True)
  | .advance _ _ => inferInstanceAs (Decidable True)

end

/-- The states of a client and its processes. -/
def ClientRun (positions : ReqId → List PlaceholderRange) (p : SchedulerParams)
    (enc : MultiModalKwargs → List ρ) : AsyncMPClient ρ → Prop :=
  Reachable (fun σ e => step p enc σ e) (fun σ e => Admissible p enc σ positions e) (init p)

/-! ## The ways an event can go -/

variable {p : SchedulerParams} {enc : MultiModalKwargs → List ρ} {σ σ' : AsyncMPClient ρ}

variable (p enc) in
/-- What an event does: to the client, to the encoder, or to the engine. -/
inductive Moved (σ : AsyncMPClient ρ) : Event → AsyncMPClient ρ → Prop
  | skip {e : Event} : (∀ r, e ≠ .addRequest r) → Moved σ e σ
  | submit (r : Request) : Moved σ (.addRequest r) { σ with
      submitted := σ.submitted ++ [r]
      sending := σ.sending ++ [r]
      encoderInput := σ.encoderInput ++ [r] }
  | forward {k : ℕ} {r : Request} : σ.sending[k]? = some r → Moved σ (.sendInput k) { σ with
      sending := σ.sending.eraseIdx k
      engineInput := σ.engineInput ++ [.add r] }
  | post {e : Event} {message : EngineCoreRequestUnion} : (∀ r, e ≠ .addRequest r) →
      message.added = none → Moved σ e { σ with engineInput := σ.engineInput ++ [message] }
  | hand {r : Request} {rest : List Request} : σ.encoderInput = r :: rest →
      Moved σ .encoderInput { σ with
        encoderInput := rest
        encoder := σ.encoder.addRequest r }
  | send {r : Request} {encoder : EncoderCore (List ρ)} :
      σ.encoder.scheduler.waiting = r :: encoder.scheduler.waiting →
      CanTake p.encoder σ.encoder.scheduler r →
      encoder.scheduler.running = σ.encoder.scheduler.running ++ [{ r with status := .running }] →
      encoder.encoderResultQueue = σ.results ++ [EncoderCore.sentResult p.encoder enc r] →
      encoder.Inv p.encoder → Moved σ .encoderStep { σ with encoder := encoder }
  | handle {message : EngineCoreRequestUnion} {rest : List EngineCoreRequestUnion}
      {engine : EngineRun (GPUModelRunner (List ρ))} : σ.engine.core.spinning = false →
      σ.engineInput = message :: rest →
      σ.engine.step p (uniProcExecutor ρ p.maxNumRunningReqs) message.event = .ok engine →
      Moved σ .engineInput { σ with
        engineInput := rest
        engine := engine }
  | receive {res : EncoderResult (List ρ)} {rest : List (EncoderResult (List ρ))}
      {engine : EngineRun (GPUModelRunner (List ρ))} : σ.engine.core.spinning = false →
      σ.results = res :: rest →
      σ.engine.step p (uniProcExecutor ρ p.maxNumRunningReqs) (.encoderResult res) = .ok engine →
      Moved σ .encoderResult (σ.took rest engine)
  | poll {b : Bool} {sampled : List TokenId} {res : EncoderResult (List ρ)}
      {rest : List (EncoderResult (List ρ))} {engine : EngineRun (GPUModelRunner (List ρ))} :
      σ.engine.core.spinning = true → σ.results = res :: rest →
      σ.engine.step p (uniProcExecutor ρ p.maxNumRunningReqs) (.advance (some res) sampled) =
        .ok engine → Moved σ (.advance b sampled) (σ.took rest engine)
  | advance {b : Bool} {sampled : List TokenId} {engine : EngineRun (GPUModelRunner (List ρ))} :
      σ.engine.step p (uniProcExecutor ρ p.maxNumRunningReqs) (.advance none sampled) = .ok engine →
      Moved σ (.advance b sampled) { σ with engine := engine }

/-- **How an event has gone.** -/
theorem step_moved (hinv : σ.encoder.Inv p.encoder) {e : Event} (hs : step p enc σ e = .ok σ') :
    Moved p enc σ e σ' := by
  have hother : ∀ e' : Event, (∀ r, Event.addRequest r ≠ e') → ∀ r, e' ≠ .addRequest r :=
    fun e' h r he => h r he.symm
  cases e with
  | addRequest r =>
    cases hs
    exact .submit r
  | sendInput k =>
    rw [step] at hs
    cases hk : σ.sending[k]? with
    | none =>
      rw [hk] at hs
      cases hs
      exact .skip (hother _ fun r h => by cases h)
    | some r =>
      rw [hk] at hs
      cases hs
      exact .forward hk
  | abortRequests ids =>
    rw [step] at hs
    split_ifs at hs with hnil
    · cases hs
      exact .skip (hother _ fun r h => by cases h)
    · cases hs
      exact .post (hother _ fun r h => by cases h) rfl
  | resetPrefixCache =>
    cases hs
    exact .post (hother _ fun r h => by cases h) rfl
  | encoderInput =>
    rw [step] at hs
    cases hi : σ.encoderInput with
    | nil =>
      rw [hi] at hs
      cases hs
      exact .skip (hother _ fun r h => by cases h)
    | cons r rest =>
      rw [hi] at hs
      cases hs
      exact .hand hi
  | encoderStep =>
    have hembed : ∀ g, List.map enc g = g.map enc := fun _ => rfl
    obtain ⟨out, c', hc, hinv', hcase⟩ := EncoderCore.step_sends hembed hinv
    rw [step, hc, ok_bind] at hs
    simp only at hs
    split_ifs at hs with hfull
    · cases hs
      exact .skip (hother _ fun r h => by cases h)
    · cases hs
      obtain ⟨r, hw, htake, hrun, -, hq⟩ | ⟨-, -, rfl⟩ := hcase
      · exact .send hw htake hrun hq hinv'
      · exact .skip (hother _ fun r h => by cases h)
  | engineInput =>
    rw [step] at hs
    split_ifs at hs with hspin
    · cases hs
      exact .skip (hother _ fun r h => by cases h)
    cases hi : σ.engineInput with
    | nil =>
      rw [hi] at hs
      cases hs
      exact .skip (hother _ fun r h => by cases h)
    | cons message rest =>
      rw [hi, bind_eq_ok] at hs
      obtain ⟨engine, he, hs⟩ := hs
      cases hs
      exact .handle (Bool.not_eq_true _ ▸ hspin) hi he
  | encoderResult =>
    rw [step] at hs
    split_ifs at hs with hspin
    · cases hs
      exact .skip (hother _ fun r h => by cases h)
    cases hi : σ.results with
    | nil =>
      rw [hi] at hs
      cases hs
      exact .skip (hother _ fun r h => by cases h)
    | cons res rest =>
      rw [hi, bind_eq_ok] at hs
      obtain ⟨engine, he, hs⟩ := hs
      cases hs
      exact .receive (Bool.not_eq_true _ ▸ hspin) hi he
  | advance b sampled =>
    rw [step] at hs
    split at hs
    · rename_i hb hi
      rw [Bool.and_eq_true] at hb
      obtain ⟨engine, he, hs⟩ := bind_eq_ok.mp hs
      cases hs
      exact .poll hb.2 hi he
    · obtain ⟨engine, he, hs⟩ := bind_eq_ok.mp hs
      cases hs
      exact .advance he

end AsyncMPClient

end SpaceServe
