import SpaceServe.Lib.Ledger
import SpaceServe.Engine.Model
import SpaceServe.Scheduler.Notices
import SpaceServe.Scheduler.Safety
import SpaceServe.Scheduler.Stalled

/-!
# Notices on their way to the worker

`schedule` hands over the collected notices with every output, but `step` discards an output
without tokens. Whatever was collected before such a call never reaches the worker; if nothing was,
every notice is in the next output that is executed, and in no other.

* `NoticesKept`: what the log of a run says about notices;
* `NothingPending`: nothing is collected when `step` calls a stalled scheduler;
* **`notices_kept`**: in a run of such steps no notice is lost, whatever the executor;
* `abort_notice_lost`: a run in which an abort is lost.
-/

set_option autoImplicit false

namespace SpaceServe

open Py

/-- Discarded outputs carry no notice, and each executed output carries the notices that were
collected since the one before it. -/
structure EngineLog.NoticesKept (log : EngineLog) : Prop where
  discarded : ∀ out ∈ log.discarded, out.finishedReqIds = [] ∧ out.freeEncoderInputIds = []
  finished : ∀ k out, log.executed[k]? = some out → out.finishedReqIds = stamped log.finished k
  released : ∀ k out, log.executed[k]? = some out →
    out.freeEncoderInputIds = stamped log.released k

namespace EngineRun

variable {E V O : Type} (p : SchedulerParams) (x : Executor E V O)

/-- Nothing is collected when `step` is about to call `schedule` and there is nothing to schedule. -/
def NothingPending (c : EngineCore E) : EngineEvent V O → Prop
  | .advance _ _ => ¬ (c.spinning = false ∧ c.scheduler.hasUnfinishedRequests = false) →
      Stalled p (c.available x) c.scheduler → c.scheduler.notices = ([], [])
  | _ => True

/-- Nothing is collected, or the call of `schedule` returns tokens. -/
def Delivers (c : EngineCore E) : EngineEvent V O → Prop
  | .advance _ _ => c.scheduler.notices = ([], []) ∨
      (c.scheduler.schedule p (c.available x)).toOption.any
        (fun y => decide (y.1.totalNumScheduledTokens ≠ 0)) = true
  | _ => True

instance (c : EngineCore E) : (e : EngineEvent V O) → Decidable (Delivers p x c e)
  | .advance _ _ => inferInstanceAs (Decidable (_ ∨ _))
  | .addRequest _ => isTrue trivial
  | .abortRequests _ => isTrue trivial
  | .resetPrefixCache => isTrue trivial
  | .encoderResult _ => isTrue trivial

variable {p x} in
theorem Delivers.nothingPending {c : EngineCore E} {e : EngineEvent V O} (h : Delivers p x c e) :
    NothingPending p x c e := by
  cases e with
  | advance polled outcome =>
    intro _ hstalled
    refine h.resolve_right fun hany => ?_
    obtain ⟨⟨out, s⟩, hs, hne⟩ := exists_ok_of_any hany
    exact of_decide_eq_true hne (hstalled.schedule hs)
  | addRequest => trivial
  | abortRequests => trivial
  | resetPrefixCache => trivial
  | encoderResult => trivial

/-- The runs in which `step` calls no stalled scheduler while notices are pending. -/
def QuietRun (executor : E) : EngineRun E → Prop :=
  Reachable (fun σ e => step p x σ e)
    (fun σ e => σ.core.Orderly e ∧ NothingPending p x σ.core e) (init p executor)

/-- The books of a run. -/
structure Books (σ : EngineRun E) : Prop where
  discarded : ∀ out ∈ σ.log.discarded, out.finishedReqIds = [] ∧ out.freeEncoderInputIds = []
  finished : Booked (σ.log.executed.map (·.finishedReqIds)) σ.core.scheduler.finishedReqIds
    σ.log.finished
  released : Booked (σ.log.executed.map (·.freeEncoderInputIds))
    σ.core.scheduler.encoderCacheManager.freed σ.log.released

variable {p x}

theorem receive_kept (log : EngineLog) (e : EngineEvent V O) :
    (log.receive e).executed = log.executed ∧ (log.receive e).discarded = log.discarded ∧
      (log.receive e).finished = log.finished ∧ (log.receive e).released = log.released := by
  unfold EngineLog.receive
  split <;> exact ⟨rfl, rfl, rfl, rfl⟩

/-- The scheduler has only collected notices. -/
theorem Books.collect {σ : EngineRun E} (h : σ.Books) {e : EngineEvent V O} {c : EngineCore E}
    (hfin : ∃ l, c.scheduler.finishedReqIds = σ.core.scheduler.finishedReqIds ++ l)
    (hfreed : c.scheduler.encoderCacheManager.freed =
      σ.core.scheduler.encoderCacheManager.freed) :
    Books ⟨c, ((σ.log.receive e).proceed .idle).note
      (Progress.idle.added σ.core.scheduler.finishedReqIds c.scheduler.finishedReqIds)
      (Progress.idle.added σ.core.scheduler.encoderCacheManager.freed
        c.scheduler.encoderCacheManager.freed)⟩ := by
  obtain ⟨l, hl⟩ := hfin
  obtain ⟨h1, h2, h3, h4⟩ := receive_kept σ.log e
  have hf := h.finished.collect l
  rw [List.length_map] at hf
  refine ⟨fun out hout => h.discarded out (h2 ▸ hout), ?_, ?_⟩
  · simpa [EngineLog.note, EngineLog.proceed, Progress.added, hl, h1, h3] using hf
  · simpa [EngineLog.note, EngineLog.proceed, Progress.added, hfreed, h1, h4] using h.released

/-- An output is executed: what was collected is sent, and new notices are collected. -/
theorem Booked.executed {α : Type} {outs : List SchedulerOutput} {f : SchedulerOutput → List α}
    {pending : List α} {notes : List (α × ℕ)} (h : Booked (outs.map f) pending notes)
    {out : SchedulerOutput} (hout : f out = pending) (l : List α) :
    Booked ((outs ++ [out]).map f) l
      (notes ++ l.map fun a => (a, (outs ++ [out]).length)) := by
  have hs := h.send.collect l
  rw [← hout, List.nil_append] at hs
  simpa using hs

theorem Books.advance {σ : EngineRun E} (h : σ.Books) {polled : Option (EncoderResult V)}
    {outcome : O} {progress : Progress} {c : EngineCore E}
    (hn : NothingPending p x σ.core (.advance polled outcome))
    (hs : σ.core.advance p x polled outcome = .ok (progress, c)) :
    Books ⟨c, ((σ.log.receive (.advance polled outcome : EngineEvent V O)).proceed progress).note
      (progress.added σ.core.scheduler.finishedReqIds c.scheduler.finishedReqIds)
      (progress.added σ.core.scheduler.encoderCacheManager.freed
        c.scheduler.encoderCacheManager.freed)⟩ := by
  obtain ⟨h1, h2, h3, h4⟩ := receive_kept σ.log (.advance polled outcome : EngineEvent V O)
  by_cases hidle : σ.core.spinning = false ∧ σ.core.scheduler.hasUnfinishedRequests = false
  · rw [EngineCore.advance, EngineCore.call, if_pos hidle] at hs
    cases hs
    exact h.collect ⟨[], (List.append_nil _).symm⟩ rfl
  obtain ⟨rfl, rfl, -⟩ | ⟨out, s, executor, hsched, -, hcase⟩ := EngineCore.advance_eq_ok hs
  · exact h.collect ⟨[], (List.append_nil _).symm⟩ rfl
  · obtain ⟨hout, hempty⟩ := schedule_notices hsched
    obtain ⟨hout₁, hout₂⟩ := Prod.mk.injEq .. ▸ hout
    obtain ⟨hempty₁, hempty₂⟩ := Prod.mk.injEq .. ▸ hempty
    obtain ⟨hz, rfl, rfl⟩ | ⟨-, rfl, output, executor', outputs, s', -, -, rfl⟩ := hcase
    · -- nothing was pending, and nothing is
      have hpend := hn hidle (schedule_stalled hsched hz)
      obtain ⟨hp₁, hp₂⟩ := Prod.mk.injEq .. ▸ hpend
      refine ⟨?_, ?_, ?_⟩
      · intro o ho
        simp only [EngineLog.note, EngineLog.proceed, h2, List.mem_append,
          List.mem_singleton] at ho
        obtain ho | rfl := ho
        · exact h.discarded o ho
        · exact ⟨hout₁.trans hp₁, hout₂.trans hp₂⟩
      · have := h.finished
        rw [hp₁] at this
        simpa [EngineLog.note, EngineLog.proceed, Progress.added, h1, h3, hempty₁] using this
      · have := h.released
        rw [hp₂] at this
        simpa [EngineLog.note, EngineLog.proceed, Progress.added, h1, h4, hempty₂] using this
    · refine ⟨fun o ho => h.discarded o (h2 ▸ ho), ?_, ?_⟩
      · have := Booked.executed h.finished hout₁ s'.finishedReqIds
        simpa [EngineLog.note, EngineLog.proceed, Progress.added, h1, h3] using this
      · have := Booked.executed h.released hout₂ s'.encoderCacheManager.freed
        simpa [EngineLog.note, EngineLog.proceed, Progress.added, h1, h4] using this

theorem Books.step {σ σ' : EngineRun E} (h : σ.Books) {e : EngineEvent V O}
    (hn : NothingPending p x σ.core e) (hs : step p x σ e = .ok σ') : σ'.Books := by
  unfold EngineRun.step at hs
  rw [bind_eq_ok] at hs
  obtain ⟨⟨progress, c⟩, hc, hs⟩ := hs
  cases hs
  cases e with
  | addRequest r =>
    cases hc
    refine h.collect ⟨[], ?_⟩ ?_
    · exact (List.append_nil _).symm
    · rfl
  | abortRequests ids =>
    simp only [EngineCore.next, bind_eq_ok] at hc
    obtain ⟨s, hf, hc⟩ := hc
    cases hc
    obtain ⟨hfin, hfreed⟩ := finishRequests_notices hf
    refine h.collect ?_ ?_
    · exact hfin
    · exact hfreed
  | resetPrefixCache =>
    cases hc
    refine h.collect ⟨[], ?_⟩ ?_
    · exact (List.append_nil _).symm
    · rfl
  | encoderResult res =>
    simp only [EngineCore.next, bind_eq_ok] at hc
    obtain ⟨executor, -, hc⟩ := hc
    cases hc
    refine h.collect ⟨[], ?_⟩ ?_
    · exact (List.append_nil _).symm
    · rfl
  | advance polled outcome => exact h.advance hn hc

/-- **No notice is lost** in a run in which nothing is pending when `step` calls a stalled scheduler:
no discarded output carries a notice, and each executed output carries exactly the
notices collected since the one before it. -/
theorem notices_kept {executor : E} {σ : EngineRun E} (h : QuietRun p x executor σ) :
    σ.log.NoticesKept := by
  have hbooks : σ.Books := by
    refine h.invariant (P := fun σ : EngineRun E => σ.Books) ?_ ?_
    · exact ⟨fun out hout => (List.not_mem_nil hout).elim, Booked.nil, Booked.nil⟩
    · exact fun σ e σ' hσ ha hs => hσ.step ha.2 hs
  refine ⟨hbooks.discarded, fun k out hk => ?_, fun k out hk => ?_⟩
  · exact hbooks.finished.batch (by rw [List.getElem?_map, hk]; rfl)
  · exact hbooks.released.batch (by rw [List.getElem?_map, hk]; rfl)

/-! ## Runs of a small engine -/

open SchedulerRun (smallParams)

/-- A small engine with one process; an encoder output is a list of numbers. -/
def smallExecutor : Executor (GPUModelRunner (List ℕ)) (List ℕ) (List TokenId) :=
  uniProcExecutor ℕ smallParams.maxNumRunningReqs

/-- The result of one input. -/
def oneResult (id : ReqId) (i : ℕ) (output : List ℕ) : EncoderResult (List ℕ) :=
  [some (Dict.empty.set id (Dict.empty.set i output))]

/-- An image is encoded and released. -/
def oneImageRun : List (EngineEvent (List ℕ) (List TokenId)) :=
  [.addRequest (.ofPrompt "a" [5, 6] [⟨0, 1⟩]), .encoderResult (oneResult "a" 0 [42]),
    .advance none [9], .advance none [9]]

theorem notices_kept_one_image : ∃ σ,
    QuietRun smallParams smallExecutor (.init smallParams.maxNumRunningReqs) σ ∧
      σ.log.released = [(("a", 0), 1)] ∧
      σ.log.executed.map (·.freeEncoderInputIds) = [[], [("a", 0)]] ∧ σ.log.NoticesKept := by
  obtain ⟨σ, hreach, hreleased, hsent⟩ := exists_reachable
    (fun σ e => step smallParams smallExecutor σ e)
    (fun σ e => σ.core.Orderly e ∧ Delivers smallParams smallExecutor σ.core e)
    (init smallParams (.init smallParams.maxNumRunningReqs)) oneImageRun
    (fun σ => σ.log.released = [(("a", 0), 1)] ∧
      σ.log.executed.map (·.freeEncoderInputIds) = [[], [("a", 0)]]) (by decide +kernel)
  have hrun : QuietRun smallParams smallExecutor (.init smallParams.maxNumRunningReqs) σ :=
    hreach.mono fun _ _ ha => ⟨ha.1, ha.2.nothingPending⟩
  exact ⟨σ, hrun, hreleased, hsent, notices_kept hrun⟩

/-- A request is aborted while the only other one waits for the encoder. -/
def lostAbortRun : List (EngineEvent (List ℕ) (List TokenId)) :=
  [.addRequest (.ofPrompt "a" [1, 2] []), .advance none [7],
    .addRequest (.ofPrompt "b" [5, 6] [⟨0, 1⟩]), .abortRequests ["a"], .advance none [],
    .advance (some (oneResult "b" 0 [42])) [], .advance none [9]]

/-- **An abort is lost**: the only output that carries it is discarded, a later one is executed
without it, and the worker keeps the state of the request. -/
theorem abort_notice_lost : ∃ σ : EngineRun (GPUModelRunner (List ℕ)),
    Reachable (fun σ e => step smallParams smallExecutor σ e) (fun σ e => σ.core.Orderly e)
      (init smallParams (.init smallParams.maxNumRunningReqs)) σ ∧
    σ.log.seen = ["a", "b"] ∧ σ.log.finished = [("a", 1)] ∧
    σ.log.discarded.map (·.finishedReqIds) = [["a"], []] ∧
    σ.log.executed.map (·.finishedReqIds) = [[], []] ∧
    σ.core.executor.requests.keys = ["a", "b"] ∧ ¬ σ.log.NoticesKept := by
  obtain ⟨σ, hreach, h1, h2, h3, h4, h5⟩ := exists_reachable
    (fun σ e => step smallParams smallExecutor σ e) (fun σ e => σ.core.Orderly e)
    (init smallParams (.init smallParams.maxNumRunningReqs)) lostAbortRun
    (fun σ => σ.log.seen = ["a", "b"] ∧ σ.log.finished = [("a", 1)] ∧
      σ.log.discarded.map (·.finishedReqIds) = [["a"], []] ∧
      σ.log.executed.map (·.finishedReqIds) = [[], []] ∧
      σ.core.executor.requests.keys = ["a", "b"]) (by decide +kernel)
  refine ⟨σ, hreach, h1, h2, h3, h4, h5, fun hkept => ?_⟩
  obtain ⟨out, hout, hids⟩ : ∃ out ∈ σ.log.discarded, out.finishedReqIds = ["a"] := by
    have hmem : ["a"] ∈ σ.log.discarded.map (·.finishedReqIds) := by rw [h3]; simp
    exact List.mem_map.mp hmem
  rw [(hkept.discarded out hout).1] at hids
  cases hids

end EngineRun

end SpaceServe
