import SpaceServe.Engine.Cache
import SpaceServe.Engine.Notices
import SpaceServe.Engine.Runs

/-!
# Encoder results stay available

With a single process, the encoder result of an unfinished request is in `encoder_result_cache` until
all its tokens are computed. The scheduler releases it then, and the worker drops it. A request that
is preempted afterwards starts over without it, and waits for a result that nobody produces again.

* `ResultsStay`: what has been delivered is there or not needed any more;
* `ResultInv`, `ResultInv.step`;
* **`results_stay`**: so it is in every run in which no request with a released input is last when a
  running request is refused its blocks;
* `preempted_after_release`: a run in which one is.
-/

set_option autoImplicit false

namespace SpaceServe

open Py

namespace EngineRun

variable {ρ : Type}

/-- The results that were delivered for an unfinished request are in the cache, or all their tokens
are computed. -/
def ResultsStay (σ : EngineRun (GPUModelRunner (List ρ))) : Prop :=
  ∀ id i r pos, (id, i) ∈ σ.log.delivered → σ.core.scheduler.requests.get? id = some r →
    r.mmPositions[i]? = some pos →
    (cachedOutput σ.core.executor.encoderCache id i).isSome = true ∨
      pos.offset + pos.length ≤ r.numComputedTokens

/-- The runs of an engine with a single process in which the request that `schedule` has to preempt
never has a released input. -/
def SparingRun (p : SchedulerParams) : EngineRun (GPUModelRunner (List ρ)) → Prop :=
  Reachable (fun σ e => step p (uniProcExecutor ρ p.maxNumRunningReqs) σ e)
    (fun σ e => σ.core.Orderly e ∧ UniqueIds σ.log.seen e ∧
      SparesReleased p (uniProcExecutor ρ p.maxNumRunningReqs) σ.core σ.log.traces e)
    (init p (.init p.maxNumRunningReqs))

/-- What holds in these runs. -/
structure ResultInv (p : SchedulerParams) (c : EngineCore (GPUModelRunner (List ρ)))
    (t : Traces) : Prop where
  queues : Queues p c.scheduler t
  behind : Behind t.released [] c.scheduler
  delivered : ∀ id i, (id, i) ∈ t.delivered → Alive c.scheduler t id →
    (cachedOutput c.executor.encoderCache id i).isSome = true ∨ (id, i) ∈ t.released

variable {p : SchedulerParams}

/-- A result that was polled is in the cache, with those that were there. -/
theorem handle_uniProc {m : ℕ} {w w' : GPUModelRunner (List ρ)}
    {polled : Option (EncoderResult (List ρ))}
    (h : EngineCore.handle (uniProcExecutor ρ m) w polled = .ok w') :
    w'.requests = w.requests ∧ w'.inputBatch = w.inputBatch ∧
      ∀ id i, (∀ v, cachedOutput w'.encoderCache id i = some v →
          cachedOutput w.encoderCache id i = some v ∨ ∃ res ∈ polled, ((id, i), v) ∈ res.outputs) ∧
        ((cachedOutput w'.encoderCache id i).isSome = true ↔
          (cachedOutput w.encoderCache id i).isSome = true ∨ (id, i) ∈ polledPairs polled) := by
  cases polled with
  | none =>
    cases h
    exact ⟨rfl, rfl, fun id i => ⟨fun v hv => Or.inl hv, by simp [polledPairs]⟩⟩
  | some res =>
    simp only [EngineCore.handle, uniProcExecutor, bind_eq_ok] at h
    obtain ⟨cache, hm, h⟩ := h
    cases h
    refine ⟨rfl, rfl, fun id i => ?_⟩
    obtain ⟨h1, h2⟩ := cachedOutput_mergeResult hm id i
    exact ⟨fun v hv => (h1 v hv).imp_right fun h' => ⟨res, rfl, h'⟩, h2⟩

/-- Results that were delivered survive the handling of another one. -/
theorem ResultInv.handled {c : EngineCore (GPUModelRunner (List ρ))} {t : Traces}
    (h : ResultInv p c t) {m : ℕ} {w : GPUModelRunner (List ρ)}
    (polled : Option (EncoderResult (List ρ)))
    (hh : EngineCore.handle (uniProcExecutor ρ m) c.executor polled = .ok w) {id : ReqId} {i : ℕ}
    (hmem : (id, i) ∈ t.delivered ++ polledPairs polled) (hid : Alive c.scheduler t id) :
    (cachedOutput w.encoderCache id i).isSome = true ∨ (id, i) ∈ t.released := by
  have hw := ((handle_uniProc hh).2.2 id i).2
  obtain hmem | hmem := List.mem_append.mp hmem
  · exact (h.delivered id i hmem hid).imp_left fun hc => hw.mpr (Or.inl hc)
  · exact Or.inl (hw.mpr (Or.inr hmem))

theorem ResultInv.step {c c' : EngineCore (GPUModelRunner (List ρ))} {t t' : Traces}
    {e : EngineEvent (List ρ) (List TokenId)} (h : ResultInv p c t) (hu : UniqueIds t.seen e)
    (hspare : SparesReleased p (uniProcExecutor ρ p.maxNumRunningReqs) c t e)
    (hs : Stepped p (uniProcExecutor ρ p.maxNumRunningReqs) c t e c' t') : ResultInv p c' t' := by
  refine ⟨h.queues.step hu hs, h.behind.step h.queues hu hspare hs, fun id i hmem halive => ?_⟩
  have hid := halive.of_step h.queues hu hs
  cases hs with
  | add r => exact h.delivered id i hmem hid
  | abort hf => exact h.delivered id i hmem hid
  | reset => exact h.delivered id i hmem hid
  | result hh => exact h.handled (some _) hh hmem hid
  | idle => exact h.delivered id i hmem hid
  | discard hsched hh hz => exact h.handled _ hh hmem hid
  | execute hsched hh hz he hup =>
    rename_i polled outcome out s s' w w' output outputs
    -- the worker drops the outputs of finished requests and those that were released
    obtain hc | hc := h.handled _ hh hmem hid
    · have hw' := GPUModelRunner.cachedOutput_executeModel he id i
      have hfin := hid.not_finished h.queues hsched
      by_cases hfree : (id, i) ∈ out.freeEncoderInputIds
      · rw [(Prod.mk.inj (schedule_notices hsched).1).2] at hfree
        exact Or.inr (List.mem_append_left _ (h.queues.freed _ hfree))
      · rw [if_neg (by rw [not_or]; exact ⟨hfin, hfree⟩)] at hw'
        exact Or.inl (hw' ▸ hc)
    · exact Or.inr (List.mem_append_left _ hc)

/-- **Results stay available** in every run of an engine with a single process in which no request
with a released input is preempted. -/
theorem results_stay {σ : EngineRun (GPUModelRunner (List ρ))} (h : SparingRun p σ) :
    σ.ResultsStay := by
  have hinv : ResultInv p σ.core σ.log.traces := by
    refine h.invariant (P := fun σ => ResultInv p σ.core σ.log.traces) ?_ ?_
    · refine ⟨Queues.init p, fun _ _ _ _ hmem => ?_, fun _ _ hmem => ?_⟩
      · exact (List.not_mem_nil hmem).elim
      · exact (List.not_mem_nil hmem).elim
    · exact fun σ e σ' hσ ha hs => hσ.step ha.2.1 ha.2.2 (step_stepped ha.1 hs)
  intro id i r pos hmem hr hpos
  obtain hc | hc := hinv.delivered id i hmem (Or.inl (Dict.mem_keys_of_get? hr))
  · exact Or.inl hc
  · exact Or.inr ((hinv.behind id i r pos hc hr hpos).resolve_right List.not_mem_nil).2

open SchedulerRun (smallParams)

theorem results_stay_one_image : ∃ σ : EngineRun (GPUModelRunner (List ℕ)),
    SparingRun smallParams σ ∧ σ.log.delivered = [("a", 0)] ∧ σ.core.scheduler.running = ["a"] ∧
      cachedOutput σ.core.executor.encoderCache "a" 0 = none ∧ σ.ResultsStay := by
  obtain ⟨σ, hreach, h1, h2, h3⟩ := exists_reachable
    (fun σ e => step smallParams smallExecutor σ e)
    (fun σ e => σ.core.Orderly e ∧ UniqueIds σ.log.seen e ∧
      Suffices smallParams smallExecutor σ.core e)
    (init smallParams (.init smallParams.maxNumRunningReqs)) oneImageRun
    (fun σ => σ.log.delivered = [("a", 0)] ∧ σ.core.scheduler.running = ["a"] ∧
      cachedOutput σ.core.executor.encoderCache "a" 0 = none) (by decide +kernel)
  have hrun : SparingRun smallParams σ := hreach.mono fun _ _ ha => ⟨ha.1, ha.2.1, ha.2.2.spares⟩
  exact ⟨σ, hrun, h1, h2, h3, results_stay hrun⟩

/-- A text request needs a block, and the request behind it, whose image was released, has to give
back its own. -/
def preemptedRun : List (EngineEvent (List ℕ) (List TokenId)) :=
  [.addRequest (.ofPrompt "b" [1] []), .addRequest (.ofPrompt "a" [5, 6, 7, 8] [⟨0, 1⟩]),
    .encoderResult (oneResult "a" 0 [42]), .advance none [9, 9], .advance none [9, 9],
    .advance none [9, 9]]

/-- **A result is lost**: its request is preempted after it was released, so that it is needed again
and not in the cache. -/
theorem preempted_after_release : ∃ σ : EngineRun (GPUModelRunner (List ℕ)),
    Reachable (fun σ e => step smallParams smallExecutor σ e)
      (fun σ e => σ.core.Orderly e ∧ UniqueIds σ.log.seen e)
      (init smallParams (.init smallParams.maxNumRunningReqs)) σ ∧
    σ.log.delivered = [("a", 0)] ∧ σ.core.scheduler.waiting = ["a"] ∧ ¬ σ.ResultsStay := by
  obtain ⟨σ, hreach, h1, h2, h3, h4⟩ := exists_reachable
    (fun σ e => step smallParams smallExecutor σ e)
    (fun σ e => σ.core.Orderly e ∧ UniqueIds σ.log.seen e)
    (init smallParams (.init smallParams.maxNumRunningReqs)) preemptedRun
    (fun σ => σ.log.delivered = [("a", 0)] ∧ σ.core.scheduler.waiting = ["a"] ∧
      cachedOutput σ.core.executor.encoderCache "a" 0 = none ∧
      (σ.core.scheduler.requests.get? "a").map (fun r => (r.mmPositions, r.numComputedTokens)) =
        some ([⟨0, 1⟩], 0)) (by decide +kernel)
  refine ⟨σ, hreach, h1, h2, fun hstay => ?_⟩
  obtain ⟨r, hr, hq⟩ := Option.map_eq_some_iff.mp h4
  obtain ⟨hmm, hnc⟩ := Prod.mk.inj hq
  obtain hc | hc := hstay "a" 0 r ⟨0, 1⟩ (by rw [h1]; exact List.mem_cons_self) hr (by rw [hmm]; rfl)
  · rw [h3] at hc
    cases hc
  · rw [hnc] at hc
    exact absurd hc (by decide)

end EngineRun

end SpaceServe
