import SpaceServe.Scheduler.Model
import SpaceServe.Worker.Model

/-!
# The engine

`EngineCore` of `vllm/v1/engine/core.py`: the scheduler, an executor, and the encoder results that
the encoder process has delivered. The input mapper, the statistics and the sockets are left out.

`step` calls `schedule` until it schedules tokens, and looks for one encoder result after each call
but the first. One `advance` is one such call, with the execution that follows it if it scheduled
tokens; `spinning` says that `step` is inside its loop. Between steps requests are added and
aborted, encoder results are handled and the prefix cache is reset.

The dictionary `encoder_result_cache` is kept with the executor: `UniProcExecutor` hands it to its
model runner, which uses it as its own `encoder_cache`.

* `Executor`: what the engine uses of an executor; `uniProcExecutor`;
* `mergeResult`: `_handle_encoder_result`;
* `EngineCore.call`, `call_eq_ok`; `EngineCore.advance`, `EngineCore.next`, `advance_eq_ok`;
* `EngineLog`, `EngineRun`: what has happened in a run, which nothing reads.
-/

set_option autoImplicit false

namespace SpaceServe

open Py

/-- What the encoder process sends: one dictionary for each of its workers, or `None`. -/
abbrev EncoderResult (V : Type) := List (Option (Dict ReqId (Dict ℕ V)))

section Merge

variable {V : Type}

/-- The outputs that a result holds, each with its request and its input. -/
def EncoderResult.outputs (res : EncoderResult V) : List ((ReqId × ℕ) × V) :=
  res.flatMap fun item => match item with
    | none => []
    | some d => d.entries.flatMap fun x => x.2.entries.map fun y => ((x.1, y.1), y.2)

/-- The pairs of request and input that a result holds. -/
def EncoderResult.pairs (res : EncoderResult V) : List (ReqId × ℕ) := res.outputs.map Prod.fst

/-- Add one output to `encoder_result_cache`. -/
def mergeOutput (id : ReqId) (cache : Dict ReqId (Dict ℕ V)) (x : ℕ × V) :
    Dict ReqId (Dict ℕ V) :=
  match cache.get? id with
  | some outputs => cache.set id (outputs.set x.1 x.2)
  | none => cache.set id (Dict.empty.set x.1 x.2)

/-- Add the outputs of one item to `encoder_result_cache`. -/
def mergeItem (cache : Dict ReqId (Dict ℕ V)) :
    Option (Dict ReqId (Dict ℕ V)) → Except Exn (Dict ReqId (Dict ℕ V))
  | none => .error (.attributeError "'NoneType' object has no attribute 'items'")
  | some item =>
    .ok (item.entries.foldl (fun cache x => x.2.entries.foldl (mergeOutput x.1) cache) cache)

/-- `_handle_encoder_result`. -/
def mergeResult (cache : Dict ReqId (Dict ℕ V)) (res : EncoderResult V) :
    Except Exn (Dict ReqId (Dict ℕ V)) :=
  res.foldlM mergeItem cache

end Merge

/-- An executor with the engine's `encoder_result_cache`, as `EngineCore` uses them. `O` is what is
decided outside in one execution. -/
structure Executor (E V O : Type) where
  encoderResultCache : E → Dict ReqId (Dict ℕ V)
  handleEncoderResult : E → EncoderResult V → Except Exn E
  executeModel : E → SchedulerOutput → O → Except Exn (ModelRunnerOutput × E)

/-- `UniProcExecutor`, with the tokens that are sampled for the rows. -/
def uniProcExecutor (ρ : Type) (maxNumReqs : ℕ) :
    Executor (GPUModelRunner (List ρ)) (List ρ) (List TokenId) where
  encoderResultCache w := w.encoderCache
  handleEncoderResult w res := do
    let cache ← mergeResult w.encoderCache res
    .ok { w with encoderCache := cache }
  executeModel w out sampled := w.executeModel maxNumReqs out sampled

/-- `EngineCore`. -/
structure EngineCore (E : Type) where
  scheduler : Scheduler
  executor : E
  spinning : Bool

/-- What can happen to the engine. -/
inductive EngineEvent (V O : Type)
  | addRequest (request : Request)
  | abortRequests (requestIds : List ReqId)
  | resetPrefixCache
  | encoderResult (res : EncoderResult V)
  | advance (polled : Option (EncoderResult V)) (outcome : O)

/-- What became of the output of a call of `schedule`. -/
inductive Progress
  | idle
  | discarded (out : SchedulerOutput)
  | executed (out : SchedulerOutput)

/-- An execution: an output with the scheduler that has made it, what the executor returned for it
and what `step` returns. -/
structure Execution where
  out : SchedulerOutput
  scheduled : Scheduler
  output : ModelRunnerOutput
  outputs : List EngineCoreOutput

namespace EngineCore

variable {E V O : Type} (p : SchedulerParams) (x : Executor E V O) (c : EngineCore E)

/-- `EngineCore.__init__`. -/
def init (executor : E) : EngineCore E where
  scheduler := .init p
  executor := executor
  spinning := false

/-- Whether the scheduler finds a result in `encoder_result_cache`. -/
def available (id : ReqId) (i : ℕ) : Bool :=
  (cachedOutput (x.encoderResultCache c.executor) id i).isSome

/-- Handle an encoder result, if there is one. -/
def handle (executor : E) : Option (EncoderResult V) → Except Exn E
  | none => .ok executor
  | some res => x.handleEncoderResult executor res

theorem handle_none (executor : E) : handle x executor none = .ok executor := rfl

/-- One call of `schedule` in `step`, and what follows it. -/
def call (polled : Option (EncoderResult V)) (outcome : O) :
    Except Exn (Progress × Option Execution × EngineCore E) :=
  if c.spinning = false ∧ c.scheduler.hasUnfinishedRequests = false then .ok (.idle, none, c)
  else do
    let (out, scheduled) ← c.scheduler.schedule p (c.available x)
    let executor ← handle x c.executor polled
    if out.totalNumScheduledTokens = 0 then
      .ok (.discarded out, none, { scheduler := scheduled, executor := executor, spinning := true })
    else do
      let (output, executor) ← x.executeModel executor out outcome
      let (outputs, s) ← scheduled.updateFromOutput p out output
      .ok (.executed out, some ⟨out, scheduled, output, outputs⟩,
        { scheduler := s, executor := executor, spinning := false })

/-- The same without what the execution has given. -/
def advance (polled : Option (EncoderResult V)) (outcome : O) :
    Except Exn (Progress × EngineCore E) := do
  let (progress, _, c) ← c.call p x polled outcome
  .ok (progress, c)

/-- One event. -/
def next : EngineEvent V O → Except Exn (Progress × EngineCore E)
  | .addRequest request => .ok (.idle, { c with scheduler := c.scheduler.addRequest request })
  | .abortRequests ids => do
    let s ← c.scheduler.finishRequests p ids .finishedAborted
    .ok (.idle, { c with scheduler := s })
  | .resetPrefixCache => .ok (.idle, { c with scheduler := c.scheduler.resetPrefixCache p })
  | .encoderResult res => do
    let executor ← x.handleEncoderResult c.executor res
    .ok (.idle, { c with executor := executor })
  | .advance polled outcome => c.advance p x polled outcome

/-- The busy loop lets nothing happen inside `step` but its own calls, and `step` looks for an
encoder result only in its loop. -/
def Orderly : EngineEvent V O → Prop
  | .advance polled _ => c.spinning = false → polled = none
  | _ => c.spinning = false

instance : (e : EngineEvent V O) → Decidable (c.Orderly e)
  | .addRequest _ => inferInstanceAs (Decidable (c.spinning = false))
  | .abortRequests _ => inferInstanceAs (Decidable (c.spinning = false))
  | .resetPrefixCache => inferInstanceAs (Decidable (c.spinning = false))
  | .encoderResult _ => inferInstanceAs (Decidable (c.spinning = false))
  | .advance polled _ =>
    match polled with
    | none => isTrue fun _ => rfl
    | some _ => if h : c.spinning = false then isFalse fun h' => Option.some_ne_none _ (h' h)
      else isTrue fun h' => absurd h' h

variable {p x c}

/-- How a call of `schedule` in `step` has run. -/
theorem call_eq_ok {polled : Option (EncoderResult V)} {outcome : O} {progress : Progress}
    {exec : Option Execution} {c' : EngineCore E}
    (h : c.call p x polled outcome = .ok (progress, exec, c')) :
    (progress = .idle ∧ exec = none ∧ c' = c ∧ c.spinning = false) ∨ ∃ out s executor,
      c.scheduler.schedule p (c.available x) = .ok (out, s) ∧
      handle x c.executor polled = .ok executor ∧
      ((out.totalNumScheduledTokens = 0 ∧ progress = .discarded out ∧ exec = none ∧
          c' = ⟨s, executor, true⟩) ∨
        (out.totalNumScheduledTokens ≠ 0 ∧ progress = .executed out ∧
          ∃ output executor' outputs s', x.executeModel executor out outcome =
              .ok (output, executor') ∧
            s.updateFromOutput p out output = .ok (outputs, s') ∧
            exec = some ⟨out, s, output, outputs⟩ ∧ c' = ⟨s', executor', false⟩)) := by
  unfold call at h
  split_ifs at h with hidle
  · cases h
    exact Or.inl ⟨rfl, rfl, rfl, hidle.1⟩
  · simp only [bind_eq_ok] at h
    obtain ⟨⟨out, s⟩, hs, executor, hh, h⟩ := h
    refine Or.inr ⟨out, s, executor, hs, hh, ?_⟩
    by_cases hz : out.totalNumScheduledTokens = 0
    · rw [if_pos hz] at h
      cases h
      exact Or.inl ⟨hz, rfl, rfl, rfl⟩
    · simp only [if_neg hz, bind_eq_ok] at h
      obtain ⟨⟨output, executor'⟩, he, ⟨outputs, s'⟩, hu, h⟩ := h
      cases h
      exact Or.inr ⟨hz, rfl, output, executor', outputs, s', he, hu, rfl, rfl⟩

theorem advance_eq_ok {polled : Option (EncoderResult V)} {outcome : O} {progress : Progress}
    {c' : EngineCore E} (h : c.advance p x polled outcome = .ok (progress, c')) :
    (progress = .idle ∧ c' = c ∧ c.spinning = false) ∨ ∃ out s executor,
      c.scheduler.schedule p (c.available x) = .ok (out, s) ∧
      handle x c.executor polled = .ok executor ∧
      ((out.totalNumScheduledTokens = 0 ∧ progress = .discarded out ∧ c' = ⟨s, executor, true⟩) ∨
        (out.totalNumScheduledTokens ≠ 0 ∧ progress = .executed out ∧
          ∃ output executor' outputs s', x.executeModel executor out outcome =
              .ok (output, executor') ∧
            s.updateFromOutput p out output = .ok (outputs, s') ∧ c' = ⟨s', executor', false⟩)) := by
  rw [advance, bind_eq_ok] at h
  obtain ⟨⟨progress', exec, c₁⟩, hcall, h⟩ := h
  cases h
  obtain ⟨hp, -, hc, hspin⟩ | ⟨out, s, executor, hs, hh, hcase⟩ := call_eq_ok hcall
  · exact Or.inl ⟨hp, hc, hspin⟩
  · refine Or.inr ⟨out, s, executor, hs, hh, ?_⟩
    obtain ⟨hz, hp, -, hc⟩ | ⟨hz, hp, output, executor', outputs, s', he, hu, -, hc⟩ := hcase
    · exact Or.inl ⟨hz, hp, hc⟩
    · exact Or.inr ⟨hz, hp, output, executor', outputs, s', he, hu, hc⟩

end EngineCore

/-! ## Runs -/

/-- What has happened in a run: the ids of the requests that were added, the encoder results that
were handled, the outputs that were executed and those that were discarded, the ids that were
added to `finished_req_ids` and the pairs that were added to `freed`, each with the number of
outputs that had been executed by then. -/
structure EngineLog where
  seen : List ReqId
  delivered : List (ReqId × ℕ)
  executed : List SchedulerOutput
  discarded : List SchedulerOutput
  finished : List (ReqId × ℕ)
  released : List ((ReqId × ℕ) × ℕ)

/-- An engine with the log of its run. -/
structure EngineRun (E : Type) where
  core : EngineCore E
  log : EngineLog

/-- What an event has added to a list that every call of `schedule` empties. -/
def Progress.added {α : Type} (before after : List α) : Progress → List α
  | .idle => after.drop before.length
  | .discarded _ => after
  | .executed _ => after

namespace EngineLog

/-- The empty log. -/
def empty : EngineLog := ⟨[], [], [], [], [], []⟩

variable {V O : Type} (log : EngineLog)

/-- The log after a call of `schedule`. -/
def proceed : Progress → EngineLog
  | .idle => log
  | .discarded out => { log with discarded := log.discarded ++ [out] }
  | .executed out => { log with executed := log.executed ++ [out] }

/-- The log after requests were added or encoder results handled. -/
def receive : EngineEvent V O → EngineLog
  | .addRequest request => { log with seen := log.seen ++ [request.requestId] }
  | .encoderResult res => { log with delivered := log.delivered ++ res.pairs }
  | .advance (some res) _ => { log with delivered := log.delivered ++ res.pairs }
  | _ => log

/-- The log after ids and pairs were added. -/
def note (ids : List ReqId) (pairs : List (ReqId × ℕ)) : EngineLog :=
  { log with
    finished := log.finished ++ ids.map fun id => (id, log.executed.length)
    released := log.released ++ pairs.map fun pair => (pair, log.executed.length) }

end EngineLog

namespace EngineRun

variable {E V O : Type} (p : SchedulerParams) (x : Executor E V O)

/-- A new engine. -/
def init (executor : E) : EngineRun E := ⟨.init p executor, .empty⟩

/-- One event, with what it adds to the log. -/
def step (σ : EngineRun E) (e : EngineEvent V O) : Except Exn (EngineRun E) := do
  let (progress, c) ← σ.core.next p x e
  .ok { core := c
        log := (σ.log.receive e |>.proceed progress).note
          (progress.added σ.core.scheduler.finishedReqIds c.scheduler.finishedReqIds)
          (progress.added σ.core.scheduler.encoderCacheManager.freed
            c.scheduler.encoderCacheManager.freed) }

end EngineRun

end SpaceServe
