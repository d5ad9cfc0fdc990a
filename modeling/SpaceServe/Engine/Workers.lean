import SpaceServe.Engine.Multiproc
import SpaceServe.Engine.Runs
import SpaceServe.Scheduler.Safety

/-!
# The workers and the engine agree on encoder results

With several worker processes there are many copies of the encoder cache. The engine merges results
input by input and never drops one; a worker skips a request that it has already, and drops what the
scheduler releases. They agree as long as no input is skipped, every result is taken when it is
announced, and no request comes to need an input that was released.

* `WorkerProc.fullCache`, `WorkerProc.Accepts`: a result is stored completely;
* `Synced`: each worker has, or finds in its queue, what is needed; `Synced.handle`,
  `Synced.execute`;
* `OutputsReach`, **`outputs_reach_workers`**;
* `outputs_missed`: two runs in which the workers miss an output.
-/

set_option autoImplicit false

namespace SpaceServe

open Py

section

variable {ρ : Type}

/-- What a worker has when it has taken all results. -/
def WorkerProc.fullCache (w : WorkerProc ρ) : Dict ReqId (Dict ℕ (List ρ)) :=
  (w.encoderResultQueue.flatMap EncoderResult.requests).foldl storeRequest w.runner.encoderCache

/-- A result brings a request that the worker does not have, and none of its inputs is skipped. -/
def WorkerProc.Accepts (w : WorkerProc ρ) (res : EncoderResult (List ρ)) : Prop :=
  (∃ id ∈ res.reqIds, id ∉ w.fullCache.keys) ∧
    ∀ pair ∈ res.pairs,
      (cachedOutput (res.requests.foldl storeRequest w.fullCache) pair.1 pair.2).isSome = true

instance (w : WorkerProc ρ) (res : EncoderResult (List ρ)) : Decidable (w.Accepts res) := by
  unfold WorkerProc.Accepts; infer_instance

/-- The results that an event hands to the workers are accepted. -/
def Accepted {O : Type} (e : MultiprocExecutor ρ) : EngineEvent (List ρ) O → Prop
  | .encoderResult res => ∀ w ∈ e.workers, w.Accepts res
  | .advance polled _ => ∀ res ∈ polled, ∀ w ∈ e.workers, w.Accepts res
  | _ => True

instance {O : Type} (e : MultiprocExecutor ρ) :
    (event : EngineEvent (List ρ) O) → Decidable (Accepted e event)
  | .addRequest _ => inferInstanceAs (Decidable True)
  | .abortRequests _ => inferInstanceAs (Decidable True)
  | .resetPrefixCache => inferInstanceAs (Decidable True)
  | .encoderResult res => inferInstanceAs (Decidable (∀ w ∈ e.workers, w.Accepts res))
  | .advance polled _ =>
    inferInstanceAs (Decidable (∀ res ∈ polled, ∀ w ∈ e.workers, w.Accepts res))

/-- Each worker has, or finds in its queue, the results that are needed. -/
structure Synced (e : MultiprocExecutor ρ) (needed : ReqId → ℕ → Prop) : Prop where
  announced : ∀ w ∈ e.workers,
    w.encoderResultQueue.flatMap EncoderResult.reqIds = e.encoderReqIds
  pending : ∀ w ∈ e.workers, w.Pending w.fullCache
  agree : ∀ w ∈ e.workers, ∀ id i, (cachedOutput e.encoderResultCache id i).isSome = true →
    needed id i → (cachedOutput w.fullCache id i).isSome = true

theorem Synced.mono {e : MultiprocExecutor ρ} {needed needed' : ReqId → ℕ → Prop}
    (h : Synced e needed) (hn : ∀ id i, needed' id i → needed id i) : Synced e needed' :=
  ⟨h.announced, h.pending, fun w hw id i hc hi => h.agree w hw id i hc (hn id i hi)⟩

theorem Synced.init (worldSize maxNumReqs : ℕ) (needed : ReqId → ℕ → Prop) :
    Synced (.init worldSize maxNumReqs : MultiprocExecutor ρ) needed := by
  refine ⟨fun w hw => ?_, fun w hw => ?_, fun w hw id i hc => ?_⟩
  · rw [List.eq_of_mem_replicate hw]
    rfl
  · rw [List.eq_of_mem_replicate hw]
    exact Announced.nil _
  · cases hc

/-- What handing a result to the workers does. -/
theorem handle_multiproc {m : ℕ} {e e' : MultiprocExecutor ρ} {res : EncoderResult (List ρ)}
    (h : (multiprocExecutor ρ m).handleEncoderResult e res = .ok e') :
    none ∉ res ∧ mergeResult e.encoderResultCache res = .ok e'.encoderResultCache ∧
      e'.encoderReqIds = e.encoderReqIds ++ res.reqIds ∧
      e'.workers = e.workers.map fun w =>
        { w with encoderResultQueue := w.encoderResultQueue ++ [res] } := by
  simp only [multiprocExecutor, MultiprocExecutor.dispatchEncoderResultToWorkers, bind_eq_ok] at h
  obtain ⟨cache, hm, ids, hids, h⟩ := h
  obtain ⟨hnone, hflat⟩ := mapM_itemIds hids
  split_ifs at h
  cases h
  exact ⟨hnone, hm, by rw [hflat], rfl⟩

/-- A result at the end of the queue. -/
theorem WorkerProc.fullCache_snoc (w : WorkerProc ρ) (res : EncoderResult (List ρ)) :
    ({ w with encoderResultQueue := w.encoderResultQueue ++ [res] } : WorkerProc ρ).fullCache =
      res.requests.foldl storeRequest w.fullCache := by
  simp [WorkerProc.fullCache, List.flatMap_append, List.foldl_append]

theorem Synced.dispatch {m : ℕ} {e e' : MultiprocExecutor ρ} {res : EncoderResult (List ρ)}
    {needed : ReqId → ℕ → Prop} (h : Synced e needed) (ha : ∀ w ∈ e.workers, w.Accepts res)
    (hh : (multiprocExecutor ρ m).handleEncoderResult e res = .ok e') : Synced e' needed := by
  obtain ⟨hnone, hmerge, hids, hworkers⟩ := handle_multiproc hh
  refine ⟨fun w' hw' => ?_, fun w' hw' => ?_, fun w' hw' id i hc hn => ?_⟩ <;>
    (rw [hworkers] at hw'; obtain ⟨w, hw, rfl⟩ := List.mem_map.mp hw')
  · rw [hids, List.flatMap_append, h.announced w hw, List.flatMap_singleton]
  · obtain ⟨⟨id, hid, hnew⟩, -⟩ := ha w hw
    rw [WorkerProc.fullCache_snoc]
    refine (h.pending w hw).snoc ⟨id, hid, decide_eq_false hnew⟩ (storeResult_eq_ok hnone _) ?_
    intro id' hid'
    exact decide_eq_true ((mem_keys_foldl_storeRequest id' _ _).mpr (Or.inl hid'))
  · rw [WorkerProc.fullCache_snoc]
    obtain hc | hc := ((cachedOutput_mergeResult hmerge id i).2).mp hc
    · obtain ⟨v, hv⟩ := Option.isSome_iff_exists.mp (h.agree w hw id i hc hn)
      exact Option.isSome_iff_exists.mpr ⟨v, cachedOutput_foldl_storeRequest hv⟩
    · exact (ha w hw).2 (id, i) hc

/-- The engine only adds results. -/
theorem cachedOutput_handle {m : ℕ} {e e' : MultiprocExecutor ρ}
    {polled : Option (EncoderResult (List ρ))}
    (h : EngineCore.handle (multiprocExecutor ρ m) e polled = .ok e') {id : ReqId} {i : ℕ}
    (hc : (cachedOutput e.encoderResultCache id i).isSome = true) :
    (cachedOutput e'.encoderResultCache id i).isSome = true := by
  cases polled with
  | none => cases h; exact hc
  | some res =>
    obtain ⟨-, hmerge, -⟩ := handle_multiproc h
    exact ((cachedOutput_mergeResult hmerge id i).2).mpr (Or.inl hc)

theorem Synced.handle {m : ℕ} {e e' : MultiprocExecutor ρ}
    {polled : Option (EncoderResult (List ρ))} {needed : ReqId → ℕ → Prop} (h : Synced e needed)
    (ha : ∀ res ∈ polled, ∀ w ∈ e.workers, w.Accepts res)
    (hh : EngineCore.handle (multiprocExecutor ρ m) e polled = .ok e') : Synced e' needed := by
  cases polled with
  | none => cases hh; exact h
  | some res => exact h.dispatch (ha res rfl) hh

/-- A worker that executes has taken all results. -/
theorem Synced.receive {e : MultiprocExecutor ρ} {needed : ReqId → ℕ → Prop} (h : Synced e needed)
    {w : WorkerProc ρ} (hw : w ∈ e.workers) (visible : ℕ) :
    w.receive visible e.encoderReqIds =
      .ok ⟨{ w.runner with encoderCache := w.fullCache }, []⟩ := by
  rw [← h.announced w hw]
  exact (h.pending w hw).receive visible

/-- A step of the workers keeps what is not dropped. -/
theorem Synced.execute {m : ℕ} {e e' : MultiprocExecutor ρ} {out : SchedulerOutput}
    {outcome : ℕ → List TokenId × ℕ} {output : ModelRunnerOutput} {needed : ReqId → ℕ → Prop}
    (h : Synced e needed)
    (he : (multiprocExecutor ρ m).executeModel e out outcome = .ok (output, e')) :
    e'.encoderResultCache = e.encoderResultCache ∧ Synced e' fun id i => needed id i ∧
      id ∉ out.finishedReqIds ∧ (id, i) ∉ out.freeEncoderInputIds := by
  simp only [multiprocExecutor, MultiprocExecutor.collectiveRpc, bind_eq_ok] at he
  obtain ⟨responses, hmap, _, -, he⟩ := he
  cases he
  refine ⟨rfl, ?_⟩
  -- each worker comes from one that has taken all results
  have hfrom : ∀ w' ∈ responses.map Prod.snd, w'.encoderResultQueue = [] ∧ ∃ w ∈ e.workers,
      ∀ id i, cachedOutput w'.runner.encoderCache id i =
        if id ∈ out.finishedReqIds ∨ (id, i) ∈ out.freeEncoderInputIds then none
        else cachedOutput w.fullCache id i := by
    intro w' hw'
    obtain ⟨x, hx, rfl⟩ := List.mem_map.mp hw'
    obtain ⟨y, hy, hrun⟩ := exists_of_mem_mapM hmap x hx
    have hw : y.1 ∈ e.workers := List.fst_mem_of_mem_zipIdx hy
    simp only [WorkerProc.executeModel, h.receive hw, ok_bind, bind_eq_ok] at hrun
    obtain ⟨⟨_, runner⟩, hexec, hrun⟩ := hrun
    cases hrun
    exact ⟨rfl, y.1, hw, GPUModelRunner.cachedOutput_executeModel hexec⟩
  refine ⟨fun w' hw' => ?_, fun w' hw' => ?_, fun w' hw' id i hc hn => ?_⟩
  · rw [(hfrom w' hw').1]
    rfl
  · rw [WorkerProc.Pending, WorkerProc.fullCache, (hfrom w' hw').1]
    exact Announced.nil _
  · obtain ⟨hq, w, hw, hcache⟩ := hfrom w' hw'
    have hfull : w'.fullCache = w'.runner.encoderCache := by rw [WorkerProc.fullCache, hq]; rfl
    rw [hfull, hcache, if_neg (by rw [not_or]; exact hn.2)]
    exact h.agree w hw id i hc hn.1

/-! ## Runs -/

/-- What holds in runs of an engine with several processes: the results that may still be needed
have reached the workers. -/
structure AgreeInv (p : SchedulerParams) (c : EngineCore (MultiprocExecutor ρ)) (t : Traces) :
    Prop where
  queues : Queues p c.scheduler t
  behind : Behind t.released [] c.scheduler
  held : Held (fun id i => (cachedOutput c.executor.encoderResultCache id i).isSome) [] c.scheduler
  synced : Synced c.executor fun id i => Alive c.scheduler t id ∧ (id, i) ∉ t.released

variable {p : SchedulerParams}

theorem Held.handled {m : ℕ} {e e' : MultiprocExecutor ρ} {s : Scheduler}
    {polled : Option (EncoderResult (List ρ))}
    (h : Held (fun id i => (cachedOutput e.encoderResultCache id i).isSome) [] s)
    (hh : EngineCore.handle (multiprocExecutor ρ m) e polled = .ok e') :
    Held (fun id i => (cachedOutput e'.encoderResultCache id i).isSome) [] s := by
  intro id i hi
  obtain ⟨h1, h2, h3⟩ := h id i hi
  exact ⟨h1, cachedOutput_handle hh h2, h3⟩

theorem Held.onward {available : ReqId → ℕ → Bool} {s s' : Scheduler} (h : Held available [] s)
    (ho : Scheduler.Onward s s') : Held available [] s' := by
  intro id i hi
  obtain ⟨hc, hk⟩ := ho.cached id i hi
  obtain ⟨h1, h2, h3⟩ := h id i hc
  exact ⟨hk h1, h2, h3⟩

theorem AgreeInv.step {c c' : EngineCore (MultiprocExecutor ρ)} {t t' : Traces}
    {e : EngineEvent (List ρ) (ℕ → List TokenId × ℕ)} (h : AgreeInv p c t)
    (hu : UniqueIds t.seen e)
    (hspare : SparesReleased p (multiprocExecutor ρ p.maxNumRunningReqs) c t e)
    (ha : Accepted c.executor e)
    (hs : Stepped p (multiprocExecutor ρ p.maxNumRunningReqs) c t e c' t') : AgreeInv p c' t' := by
  have hq := h.queues.step hu hs
  have hb := h.behind.step h.queues hu hspare hs
  have halive : ∀ id, Alive c'.scheduler t' id → Alive c.scheduler t id :=
    fun id hid => hid.of_step h.queues hu hs
  have hnil : ∀ {l : List ReqId} {s : Scheduler}, Behind [] l s :=
    fun _ _ _ _ hmem => (List.not_mem_nil hmem).elim
  cases hs with
  | add r =>
    refine ⟨hq, hb, fun id i hi => ?_, h.synced.mono fun id i hn => ⟨halive id hn.1, hn.2⟩⟩
    obtain ⟨h1, h2⟩ := h.held id i hi
    exact ⟨(Dict.mem_keys_set _ _ _ _).mpr (Or.inr h1), h2⟩
  | abort hf =>
    obtain ⟨-, ho⟩ := Scheduler.finishRequests_onward h.queues.wf hf
    exact ⟨hq, hb, h.held.onward ho, h.synced.mono fun id i hn => ⟨halive id hn.1, hn.2⟩⟩
  | reset => exact ⟨hq, hb, h.held, h.synced⟩
  | result hh =>
    rename_i res executor
    have hh' : EngineCore.handle (multiprocExecutor ρ p.maxNumRunningReqs) c.executor (some res) =
      .ok executor := hh
    exact ⟨hq, hb, h.held.handled hh', h.synced.dispatch ha hh⟩
  | idle => exact h
  | discard hsched hh hz =>
    refine ⟨hq, hb, ?_, ?_⟩
    · exact (Scheduler.schedule_held h.queues.wf hsched hnil h.held).handled hh
    · exact (h.synced.handle ha hh).mono fun id i hn => ⟨halive id hn.1, hn.2⟩
  | execute hsched hh hz he hup =>
    rename_i polled outcome out s s' executor executor' output outputs
    obtain ⟨hcache, hsync⟩ := (h.synced.handle ha hh).execute he
    have hheld := (Scheduler.schedule_held h.queues.wf hsched hnil h.held).handled hh
    rw [← hcache] at hheld
    obtain ⟨-, ho⟩ := Scheduler.updateFromOutput_onward (h.queues.schedule hsched).wf hup
    refine ⟨hq, hb, hheld.onward ho, hsync.mono fun id i hn => ?_⟩
    have hid := halive id hn.1
    have hrel : (id, i) ∉ t.released := fun hm => hn.2 (List.mem_append_left _ hm)
    refine ⟨⟨hid, hrel⟩, hid.not_finished h.queues hsched, fun hfree => hrel ?_⟩
    rw [(Prod.mk.inj (schedule_notices hsched).1).2] at hfree
    exact h.queues.freed _ hfree

namespace EngineRun

/-- Whatever `schedule` lets a request compute because the engine has the output of an input, or the
scheduler holds the input, each worker has that output when it has updated its states. -/
def OutputsReach (p : SchedulerParams) (c : EngineCore (MultiprocExecutor ρ))
    (polled : Option (EncoderResult (List ρ))) : Prop :=
  ∀ out s executor,
    c.scheduler.schedule p (c.available (multiprocExecutor ρ p.maxNumRunningReqs)) = .ok (out, s) →
    EngineCore.handle (multiprocExecutor ρ p.maxNumRunningReqs) c.executor polled = .ok executor →
    ∀ w ∈ executor.workers, ∀ visible, ∃ w₁, w.receive visible executor.encoderReqIds = .ok w₁ ∧
      ∀ changed w₂, w₁.runner.updateStates p.maxNumRunningReqs out = .ok (changed, w₂) →
      ∀ id n r i pos, out.numScheduledTokens.get? id = some n → s.requests.get? id = some r →
        r.mmPositions[i]? = some pos → pos.offset < r.numComputedTokens + n →
        r.numComputedTokens < pos.offset + pos.length →
        (cachedOutput c.executor.encoderResultCache id i).isSome = true ∨
          i ∈ c.scheduler.encoderCacheManager.getCachedInputIds id →
        (cachedOutput w₂.encoderCache id i).isSome = true

/-- What a step has to do so that engine and workers keep agreeing. -/
def Agreeing (p : SchedulerParams) (σ : EngineRun (MultiprocExecutor ρ))
    (e : EngineEvent (List ρ) (ℕ → List TokenId × ℕ)) : Prop :=
  σ.core.Orderly e ∧ UniqueIds σ.log.seen e ∧
    SparesReleased p (multiprocExecutor ρ p.maxNumRunningReqs) σ.core σ.log.traces e ∧
    Accepted σ.core.executor e

/-- The runs of an engine with `worldSize` processes in which the request that `schedule` has to preempt
never has a released input, and no encoder result is skipped or late. -/
def AgreeingRun (p : SchedulerParams) (worldSize : ℕ) : EngineRun (MultiprocExecutor ρ) → Prop :=
  Reachable (fun σ e => step p (multiprocExecutor ρ p.maxNumRunningReqs) σ e) (Agreeing p)
    (init p (.init worldSize p.maxNumRunningReqs))

/-- **The outputs reach the workers** in every such run. -/
theorem outputs_reach_workers {worldSize : ℕ} {σ : EngineRun (MultiprocExecutor ρ)}
    (h : AgreeingRun p worldSize σ) {polled : Option (EncoderResult (List ρ))}
    {outcome : ℕ → List TokenId × ℕ} (ha : Agreeing p σ (.advance polled outcome)) :
    OutputsReach p σ.core polled := by
  have hinv : AgreeInv p σ.core σ.log.traces := by
    refine h.invariant (P := fun σ => AgreeInv p σ.core σ.log.traces) ?_ ?_
    · refine ⟨Queues.init p, fun _ _ _ _ hmem => ?_, fun _ _ hi => ?_, Synced.init _ _ _⟩
      · exact (List.not_mem_nil hmem).elim
      · exact (List.not_mem_nil hi).elim
    · exact fun σ e σ' hσ ha hs => hσ.step ha.2.1 ha.2.2.1 ha.2.2.2 (step_stepped ha.1 hs)
  obtain ⟨-, -, hspare, hacc⟩ := ha
  intro out s executor hs hh w hw visible
  have hsync := hinv.synced.handle hacc hh
  refine ⟨_, hsync.receive hw visible, fun changed w₂ hup id n r i pos _ hr hpos _ h2 hcause => ?_⟩
  have hkey := ((Scheduler.schedule_requests hinv.queues.wf hs).1 id).mp (Dict.mem_keys_of_get? hr)
  have halive : Alive σ.core.scheduler σ.log.traces id := Or.inl hkey
  -- an input that the window meets was not released
  have hrel : (id, i) ∉ σ.log.traces.released := by
    intro hmem
    have hb := hinv.behind.schedule hinv.queues hspare hs id i r pos hmem hr hpos
    have hle := (hb.resolve_right List.not_mem_nil).2
    omega
  have hcache : (cachedOutput σ.core.executor.encoderResultCache id i).isSome = true :=
    hcause.elim (fun hc => hc) fun hc => (hinv.held id i hc).2.1
  have hfull := hsync.agree w hw id i (cachedOutput_handle hh hcache) ⟨halive, hrel⟩
  rw [GPUModelRunner.cachedOutput_updateStates hup, if_neg]
  · exact hfull
  · rw [not_or, (Prod.mk.inj (schedule_notices hs).1).2]
    exact ⟨halive.not_finished hinv.queues hs, fun hm => hrel (hinv.queues.freed _ hm)⟩

end EngineRun

end

namespace EngineRun

open SchedulerRun (smallParams)

/-- A small engine with several processes; an encoder output is a list of numbers. -/
def smallMultiproc : Executor (MultiprocExecutor ℕ) (List ℕ) (ℕ → List TokenId × ℕ) :=
  multiprocExecutor ℕ smallParams.maxNumRunningReqs

/-- What the first worker has after `_update_states` of the next output, with that output. -/
def firstWorker (c : EngineCore (MultiprocExecutor ℕ)) :
    Except Exn (SchedulerOutput × Scheduler × GPUModelRunner (List ℕ)) := do
  let (out, s) ← c.scheduler.schedule smallParams (c.available smallMultiproc)
  let w ← ofOption .keyError c.executor.workers.head?
  let w ← w.receive 0 c.executor.encoderReqIds
  let (_, w) ← w.runner.updateStates smallParams.maxNumRunningReqs out
  .ok (out, s, w)

theorem outputs_reach_two_workers : ∃ (σ : EngineRun (MultiprocExecutor ℕ)) (out : SchedulerOutput)
    (s : Scheduler) (w : GPUModelRunner (List ℕ)),
    AgreeingRun smallParams 2 σ ∧ firstWorker σ.core = .ok (out, s, w) ∧
      out.numScheduledTokens.get? "a" = some 2 ∧ OutputsReach smallParams σ.core none := by
  obtain ⟨σ, hreach, hagree, hfirst⟩ := exists_reachable
    (fun σ e => step smallParams smallMultiproc σ e)
    (fun σ e => σ.core.Orderly e ∧ UniqueIds σ.log.seen e ∧ Accepted σ.core.executor e ∧
      Suffices smallParams smallMultiproc σ.core e)
    (init smallParams (.init 2 smallParams.maxNumRunningReqs))
    [.addRequest (.ofPrompt "a" [5, 6] [⟨0, 1⟩]),
      .encoderResult [some (Dict.empty.set "a" (Dict.empty.set 0 [42]))]]
    (fun σ => Suffices smallParams smallMultiproc σ.core (.advance none fun _ => ([9], 0)) ∧
      (firstWorker σ.core).toOption.any
        (fun x => decide (x.1.numScheduledTokens.get? "a" = some 2)) = true) (by decide +kernel)
  obtain ⟨⟨out, s, w⟩, hf, hn⟩ := exists_ok_of_any hfirst
  have hrun : AgreeingRun smallParams 2 σ :=
    hreach.mono fun _ _ ha => ⟨ha.1, ha.2.1, ha.2.2.2.spares, ha.2.2.1⟩
  have hstep : Agreeing smallParams σ (.advance none fun _ => ([9], 0)) :=
    ⟨fun _ => rfl, trivial, hagree.spares, fun _ hres => by cases hres⟩
  exact ⟨σ, out, s, w, hrun, hf, of_decide_eq_true hn, outputs_reach_workers hrun hstep⟩

/-- The first worker lacks an output that the engine has and the next output needs. -/
theorem not_outputsReach {σ : EngineRun (MultiprocExecutor ℕ)} {id : ReqId} {i n nc : ℕ}
    {poss : List PlaceholderRange} {pos : PlaceholderRange} (hpos : poss[i]? = some pos)
    (hlt : pos.offset < nc + n) (hle : nc < pos.offset + pos.length)
    (hcache : (cachedOutput σ.core.executor.encoderResultCache id i).isSome = true)
    (hfirst : (firstWorker σ.core).toOption.any (fun x => decide (
      x.1.numScheduledTokens.get? id = some n ∧
      (x.2.1.requests.get? id).map (fun r => (r.mmPositions, r.numComputedTokens)) = some (poss, nc) ∧
      cachedOutput x.2.2.encoderCache id i = none)) = true) :
    ¬ OutputsReach smallParams σ.core none := by
  intro hall
  obtain ⟨⟨out, s, w₂⟩, hf, hx⟩ := exists_ok_of_any hfirst
  obtain ⟨hn, hmap, hnone⟩ := of_decide_eq_true hx
  obtain ⟨r, hr, hq⟩ := Option.map_eq_some_iff.mp hmap
  obtain ⟨rfl, rfl⟩ := Prod.mk.inj hq
  simp only [firstWorker, bind_eq_ok, ofOption_eq_ok] at hf
  obtain ⟨⟨out', s'⟩, hs, w, hw, w₁, hrec, ⟨changed, w₂'⟩, hup, hf⟩ := hf
  cases hf
  obtain ⟨w₁', hrec', hw₁⟩ := hall out' s' σ.core.executor hs rfl w (List.mem_of_mem_head? hw) 0
  rw [hrec] at hrec'
  cases hrec'
  have hsome := hw₁ changed w₂' hup id n r i pos hn hr hpos hlt hle (Or.inl hcache)
  rw [hnone] at hsome
  cases hsome

/-- The results of the two images of a request come one after the other. -/
def splitRun : List (EngineEvent (List ℕ) (ℕ → List TokenId × ℕ)) :=
  [.addRequest (.ofPrompt "a" [5, 6] [⟨0, 1⟩, ⟨1, 1⟩]),
    .encoderResult [some (Dict.empty.set "a" (Dict.empty.set 0 [42]))],
    .advance none fun _ => ([9], 0),
    .encoderResult [some (Dict.empty.set "a" (Dict.empty.set 1 [43]))]]

/-- A request whose image was released is preempted, and resumed when the other one is gone. -/
def resumedRun : List (EngineEvent (List ℕ) (ℕ → List TokenId × ℕ)) :=
  [.addRequest (.ofPrompt "b" [1] []), .addRequest (.ofPrompt "a" [5, 6, 7, 8] [⟨0, 1⟩]),
    .encoderResult [some (Dict.empty.set "a" (Dict.empty.set 0 [42]))],
    .advance none fun _ => ([9, 9], 0), .advance none fun _ => ([9, 9], 0),
    .advance none fun _ => ([9, 9], 0), .abortRequests ["b"], .resetPrefixCache]

/-- **The workers miss an output** that the engine has and schedules tokens for: they skip the second
result of a request, or dropped the output when it was released, before its request was preempted. -/
theorem outputs_missed : (∃ σ : EngineRun (MultiprocExecutor ℕ),
    Reachable (fun σ e => step smallParams smallMultiproc σ e)
      (fun σ e => σ.core.Orderly e ∧ UniqueIds σ.log.seen e)
      (init smallParams (.init 2 smallParams.maxNumRunningReqs)) σ ∧
    σ.log.delivered = [("a", 0), ("a", 1)] ∧ σ.core.scheduler.running = ["a"] ∧
    ¬ OutputsReach smallParams σ.core none) ∧
    ∃ σ : EngineRun (MultiprocExecutor ℕ),
      Reachable (fun σ e => step smallParams smallMultiproc σ e)
        (fun σ e => σ.core.Orderly e ∧ UniqueIds σ.log.seen e)
        (init smallParams (.init 2 smallParams.maxNumRunningReqs)) σ ∧
      σ.log.delivered = [("a", 0)] ∧ σ.core.scheduler.waiting = ["a"] ∧
      ¬ OutputsReach smallParams σ.core none := by
  constructor
  · obtain ⟨σ, hreach, h1, h2, hcache, hfirst⟩ := exists_reachable
      (fun σ e => step smallParams smallMultiproc σ e)
      (fun σ e => σ.core.Orderly e ∧ UniqueIds σ.log.seen e)
      (init smallParams (.init 2 smallParams.maxNumRunningReqs)) splitRun
      (fun σ => σ.log.delivered = [("a", 0), ("a", 1)] ∧ σ.core.scheduler.running = ["a"] ∧
        (cachedOutput σ.core.executor.encoderResultCache "a" 1).isSome = true ∧
        (firstWorker σ.core).toOption.any (fun x => decide (
          x.1.numScheduledTokens.get? "a" = some 1 ∧
          (x.2.1.requests.get? "a").map (fun r => (r.mmPositions, r.numComputedTokens)) =
            some ([⟨0, 1⟩, ⟨1, 1⟩], 1) ∧
          cachedOutput x.2.2.encoderCache "a" 1 = none)) = true) (by decide +kernel)
    exact ⟨σ, hreach, h1, h2, not_outputsReach rfl (by decide) (by decide) hcache hfirst⟩
  · obtain ⟨σ, hreach, h1, h2, hcache, hfirst⟩ := exists_reachable
      (fun σ e => step smallParams smallMultiproc σ e)
      (fun σ e => σ.core.Orderly e ∧ UniqueIds σ.log.seen e)
      (init smallParams (.init 2 smallParams.maxNumRunningReqs)) resumedRun
      (fun σ => σ.log.delivered = [("a", 0)] ∧ σ.core.scheduler.waiting = ["a"] ∧
        (cachedOutput σ.core.executor.encoderResultCache "a" 0).isSome = true ∧
        (firstWorker σ.core).toOption.any (fun x => decide (
          x.1.numScheduledTokens.get? "a" = some 3 ∧
          (x.2.1.requests.get? "a").map (fun r => (r.mmPositions, r.numComputedTokens)) =
            some ([⟨0, 1⟩], 0) ∧
          cachedOutput x.2.2.encoderCache "a" 0 = none)) = true) (by decide +kernel)
    exact ⟨σ, hreach, h1, h2, not_outputsReach rfl (by decide) (by decide) hcache hfirst⟩

end EngineRun

end SpaceServe
