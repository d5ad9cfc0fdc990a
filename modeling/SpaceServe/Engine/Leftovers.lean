import SpaceServe.Engine.Cache
import SpaceServe.Engine.Runs
import SpaceServe.Engine.Notices
import SpaceServe.Engine.Multiproc
import SpaceServe.Scheduler.Runs

/-!
# Encoder results that are left over

A worker drops the encoder outputs of a request when an output names the request as finished. A
result that is delivered later, or a notice that is discarded with an output without tokens, leaves
an entry of `encoder_result_cache` that nothing removes.

* `mem_keys_mergeResult`, `mem_keys_executeModel`: the keys of the cache;
* `OnTime`: a result comes before the notice of its request is handed over, and no notice of a
  request with an entry is discarded;
* **`no_leftovers`**: in a run of such steps an executed step leaves no entry of a request that had
  finished before it;
* `late_result_stays`: a run in which a result comes too late;
* `multiproc_keeps_entries`: with several workers the engine's own dictionary is never shrunk.
-/

set_option autoImplicit false

namespace SpaceServe

open Py

/-! ## The keys of the cache -/

section Keys

variable {V : Type} {cache cache' : Dict ReqId (Dict ℕ V)}

theorem mem_keys_mergeOutput (id : ReqId) (y : ℕ × V) (x : ReqId) :
    x ∈ (mergeOutput id cache y).keys ↔ x = id ∨ x ∈ cache.keys := by
  unfold mergeOutput
  split <;> rw [Dict.mem_keys_set]

/-- A result adds the requests it names. -/
theorem mem_keys_mergeResult {res : EncoderResult V} (h : mergeResult cache res = .ok cache')
    (x : ReqId) : x ∈ cache'.keys ↔ x ∈ res.pairs.map Prod.fst ∨ x ∈ cache.keys := by
  rw [mergeResult_eq_ok h, EncoderResult.pairs]
  clear h
  generalize res.outputs = outs
  induction outs generalizing cache with
  | nil => simp
  | cons y outs ih =>
    rw [List.foldl_cons, ih, mem_keys_mergeOutput]
    simp only [List.map_cons, List.mem_cons]
    tauto

theorem keys_freeOutput (pair : ReqId × ℕ) {x : ReqId}
    (hx : x ∈ (GPUModelRunner.freeOutput cache pair).keys) : x ∈ cache.keys := by
  unfold GPUModelRunner.freeOutput at hx
  cases hg : cache.get? pair.1 with
  | none =>
    rw [hg] at hx
    exact hx
  | some outputs =>
    simp only [hg] at hx
    split_ifs at hx
    · exact ((Dict.mem_keys_pop _ _ _).mp hx).2
    · obtain rfl | hx := (Dict.mem_keys_set _ _ _ _).mp hx
      · exact Dict.mem_keys_of_get? hg
      · exact hx

theorem keys_foldl_freeOutput : ∀ {pairs : List (ReqId × ℕ)} {cache : Dict ReqId (Dict ℕ V)}
    {x : ReqId}, x ∈ (pairs.foldl GPUModelRunner.freeOutput cache).keys → x ∈ cache.keys
  | [], _, _, hx => hx
  | _ :: _, _, _, hx => keys_freeOutput _ (keys_foldl_freeOutput hx)

/-- **A step of the worker** leaves no entry of a request that is named as finished. -/
theorem mem_keys_executeModel {ρ : Type} {w w' : GPUModelRunner (List ρ)} {m : ℕ}
    {out : SchedulerOutput} {sampled : List TokenId} {mo : ModelRunnerOutput}
    (h : w.executeModel m out sampled = .ok (mo, w')) {x : ReqId}
    (hx : x ∈ w'.encoderCache.keys) : x ∈ w.encoderCache.keys ∧ x ∉ out.finishedReqIds := by
  obtain ⟨changed, w₁, _, h₁, -, henc, -⟩ := GPUModelRunner.executeModel_eq_ok h
  rw [henc, GPUModelRunner.updateStates_encoderCache h₁] at hx
  have hpop := keys_foldl_freeOutput hx
  rw [Dict.mem_keys, Dict.get?_foldl_pop] at hpop
  split_ifs at hpop with hfin
  · cases hpop
  · exact ⟨(Dict.mem_keys _ _).mpr hpop, hfin⟩

end Keys

/-! ## Runs in which nothing comes too late -/

namespace EngineRun

variable {ρ : Type} (p : SchedulerParams) (m : ℕ)

/-- A request whose notice has not been handed over: it is in the scheduler, still to come, or its
notice is collected. -/
def Open (s : Scheduler) (t : Traces) (id : ReqId) : Prop :=
  Alive s t id ∨ id ∈ s.finishedReqIds

/-- Results are delivered for open requests only, and an output without tokens is discarded only if
no collected notice is of a request with an entry. -/
def OnTime (c : EngineCore (GPUModelRunner (List ρ))) (t : Traces) :
    EngineEvent (List ρ) (List TokenId) → Prop
  | .encoderResult res => ∀ pair ∈ res.pairs, Open c.scheduler t pair.1
  | .advance polled _ => (∀ pair ∈ polledPairs polled, Open c.scheduler t pair.1) ∧
    match c.scheduler.schedule p (c.available (uniProcExecutor ρ m)) with
    | .ok (out, _) => out.totalNumScheduledTokens = 0 → ∀ id ∈ c.scheduler.finishedReqIds,
        id ∉ c.executor.encoderCache.keys ∧ id ∉ (polledPairs polled).map Prod.fst
    | .error _ => True
  | _ => True

instance (s : Scheduler) (t : Traces) (id : ReqId) : Decidable (Open s t id) := by
  unfold Open Alive; infer_instance

instance (c : EngineCore (GPUModelRunner (List ρ))) (t : Traces)
    (e : EngineEvent (List ρ) (List TokenId)) : Decidable (OnTime p m c t e) := by
  unfold OnTime
  split
  · infer_instance
  · split <;> infer_instance
  · infer_instance

/-- The runs in which nothing comes too late. -/
def TimelyRun : EngineRun (GPUModelRunner (List ρ)) → Prop :=
  Reachable (fun σ e => step p (uniProcExecutor ρ m) σ e)
    (fun σ e => σ.core.Orderly e ∧ UniqueIds σ.log.seen e ∧ OnTime p m σ.core σ.log.traces e)
    (init p (.init m))

/-- Every entry of the cache is of an open request. -/
def NoLeftovers (c : EngineCore (GPUModelRunner (List ρ))) (t : Traces) : Prop :=
  ∀ id ∈ c.executor.encoderCache.keys, Open c.scheduler t id

variable {p m} {c c' : EngineCore (GPUModelRunner (List ρ))} {t t' : Traces}
  {e : EngineEvent (List ρ) (List TokenId)}

/-- What handling a result does to the keys. -/
theorem mem_keys_handle {w w' : GPUModelRunner (List ρ)} {polled : Option (EncoderResult (List ρ))}
    (h : EngineCore.handle (uniProcExecutor ρ m) w polled = .ok w') (x : ReqId) :
    x ∈ w'.encoderCache.keys ↔ x ∈ (polledPairs polled).map Prod.fst ∨ x ∈ w.encoderCache.keys := by
  cases polled with
  | none =>
    cases h
    simp [polledPairs]
  | some res =>
    change (uniProcExecutor ρ m).handleEncoderResult w res = .ok w' at h
    simp only [uniProcExecutor, bind_eq_ok] at h
    obtain ⟨cache, hm, h⟩ := h
    cases h
    exact mem_keys_mergeResult hm x

theorem Open.noticed {s s' : Scheduler} {id : ReqId} (h : Open s t id)
    (hn : Scheduler.Noticed s s') {t' : Traces} (ht : t'.seen = t.seen) : Open s' t' id := by
  obtain (h | h) | h := h
  · exact (hn.left id h).imp Or.inl fun hf => hf
  · exact Or.inl (Or.inr (by rwa [ht]))
  · exact Or.inr (hn.kept id h)

theorem Alive.schedule {s s' : Scheduler} {available : ReqId → ℕ → Bool} {out : SchedulerOutput}
    (hq : Queues p s t) (hs : s.schedule p available = .ok (out, s')) {id : ReqId}
    (h : Alive s t id) {t' : Traces} (ht : t'.seen = t.seen) : Alive s' t' id :=
  h.imp ((Scheduler.schedule_requests hq.wf hs).1 id).mpr fun h' => by rwa [ht]

/-- The entries that an executed step leaves are of requests that were not finished before it. -/
theorem NoLeftovers.execute (h : NoLeftovers c t) {polled : Option (EncoderResult (List ρ))}
    {outcome : List TokenId} {out : SchedulerOutput} {s : Scheduler}
    {w w' : GPUModelRunner (List ρ)} {mo : ModelRunnerOutput}
    (hon : ∀ pair ∈ polledPairs polled, Open c.scheduler t pair.1)
    (hsched : c.scheduler.schedule p (c.available (uniProcExecutor ρ m)) = .ok (out, s))
    (hh : EngineCore.handle (uniProcExecutor ρ m) c.executor polled = .ok w)
    (he : w.executeModel m out outcome = .ok (mo, w')) {id : ReqId}
    (hid : id ∈ w'.encoderCache.keys) : Alive c.scheduler t id := by
  obtain ⟨hkey, hfin⟩ := mem_keys_executeModel he hid
  rw [(Prod.mk.inj (schedule_notices hsched).1).1] at hfin
  have hopen : Open c.scheduler t id := by
    obtain hpol | hcache := (mem_keys_handle hh id).mp hkey
    · obtain ⟨pair, hpair, rfl⟩ := List.mem_map.mp hpol
      exact hon pair hpair
    · exact h id hcache
  exact hopen.resolve_right hfin

/-- **One event** leaves no entry of a request whose notice was handed over. -/
theorem NoLeftovers.step (h : NoLeftovers c t) (hq : Queues p c.scheduler t)
    (hon : OnTime p m c t e) (hs : Stepped p (uniProcExecutor ρ m) c t e c' t') :
    NoLeftovers c' t' := by
  cases hs with
  | add r =>
    intro id hid
    obtain (hk | hk) | hk := h id hid
    · exact Or.inl (Or.inl ((Dict.mem_keys_set _ _ _ _).mpr (Or.inr hk)))
    · by_cases he : id = r.requestId
      · exact Or.inl (Or.inl ((Dict.mem_keys_set _ _ _ _).mpr (Or.inl he)))
      · exact Or.inl (Or.inr (by simp [hk, he]))
    · exact Or.inr hk
  | abort hf => exact fun id hid => (h id hid).noticed (Scheduler.finishRequests_noticed hq.wf hf) rfl
  | reset => exact h
  | @result res executor hh =>
    intro id hid
    have hres : EngineCore.handle (uniProcExecutor ρ m) c.executor (some res) = .ok executor := hh
    obtain hnew | hold := (mem_keys_handle hres id).mp hid
    · obtain ⟨pair, hpair, rfl⟩ := List.mem_map.mp hnew
      exact hon pair hpair
    · exact h id hold
  | idle => exact h
  | discard hsched hh hz =>
    intro id hid
    obtain ⟨hpol, hdisc⟩ := hon
    simp only [hsched] at hdisc
    have hclear : id ∉ c.scheduler.finishedReqIds := by
      intro hf
      obtain ⟨h1, h2⟩ := hdisc hz id hf
      exact ((mem_keys_handle hh id).mp hid).elim h2 h1
    have hopen : Open c.scheduler t id := by
      obtain hnew | hold := (mem_keys_handle hh id).mp hid
      · obtain ⟨pair, hpair, rfl⟩ := List.mem_map.mp hnew
        exact hpol pair hpair
      · exact h id hold
    exact Or.inl (Alive.schedule hq hsched (hopen.resolve_right hclear) rfl)
  | execute hsched hh hz he hup =>
    intro id hid
    have halive := h.execute hon.1 hsched hh he hid
    have hopen : Open _ t id := Or.inl (Alive.schedule hq hsched halive rfl)
    exact hopen.noticed (Scheduler.updateFromOutput_noticed (hq.schedule hsched).wf hup) rfl

/-- After a step: every entry is of a request that had not finished when the step began. -/
def ForgetsFinished (σ : EngineRun (GPUModelRunner (List ρ)))
    (c' : EngineCore (GPUModelRunner (List ρ))) : Prop :=
  ∀ id ∈ c'.executor.encoderCache.keys, id ∈ σ.log.seen → id ∈ σ.core.scheduler.requests.keys

instance (σ : EngineRun (GPUModelRunner (List ρ))) (c' : EngineCore (GPUModelRunner (List ρ))) :
    Decidable (ForgetsFinished σ c') := by
  unfold ForgetsFinished; infer_instance

/-- **No results are left over** in runs in which nothing comes too late: an executed step leaves no
entry of a request that had finished before it. -/
theorem no_leftovers {σ : EngineRun (GPUModelRunner (List ρ))} (h : TimelyRun p m σ)
    {polled : Option (EncoderResult (List ρ))} {outcome : List TokenId}
    (hon : OnTime p m σ.core σ.log.traces (.advance polled outcome)) {out : SchedulerOutput}
    {c' : EngineCore (GPUModelRunner (List ρ))}
    (hs : σ.core.advance p (uniProcExecutor ρ m) polled outcome = .ok (.executed out, c')) :
    ForgetsFinished σ c' := by
  have hinv : Queues p σ.core.scheduler σ.log.traces ∧ NoLeftovers σ.core σ.log.traces := by
    refine h.invariant (P := fun σ : EngineRun (GPUModelRunner (List ρ)) =>
      Queues p σ.core.scheduler σ.log.traces ∧ NoLeftovers σ.core σ.log.traces) ?_ ?_
    · exact ⟨Queues.init p, fun id hid => by cases hid⟩
    · rintro σ e σ' ⟨hq, hn⟩ ⟨ho, hu, hot⟩ hs
      have hst := step_stepped ho hs
      exact ⟨hq.step hu hst, hn.step hq hot hst⟩
  obtain ⟨⟨⟩, -⟩ | ⟨out', s, executor, hsched, hh, hcase⟩ := EngineCore.advance_eq_ok hs
  obtain ⟨-, ⟨⟩, -⟩ | ⟨-, hout, output, executor', outputs, s', he, -, rfl⟩ := hcase
  intro id hid hseen
  exact (hinv.2.execute hon.1 hsched hh he hid).resolve_right fun h => h hseen

/-! ## Several workers -/

/-- **`MultiprocExecutor` keeps every entry** of the engine's dictionary: only the workers' own
dictionaries are shrunk. -/
theorem multiproc_keeps_entries {c c' : EngineCore (MultiprocExecutor ρ)} {t t' : Traces}
    {e : EngineEvent (List ρ) (ℕ → List TokenId × ℕ)}
    (hs : Stepped p (multiprocExecutor ρ m) c t e c' t') {id : ReqId}
    (hid : id ∈ c.executor.encoderResultCache.keys) :
    id ∈ c'.executor.encoderResultCache.keys := by
  have hhandle : ∀ {w w' : MultiprocExecutor ρ} {res : EncoderResult (List ρ)},
      (multiprocExecutor ρ m).handleEncoderResult w res = .ok w' →
        id ∈ w.encoderResultCache.keys → id ∈ w'.encoderResultCache.keys := by
    intro w w' res h hw
    simp only [multiprocExecutor, bind_eq_ok] at h
    obtain ⟨cache, hm, h⟩ := h
    simp only [MultiprocExecutor.dispatchEncoderResultToWorkers, bind_eq_ok] at h
    obtain ⟨ids, -, h⟩ := h
    split_ifs at h
    cases h
    exact (mem_keys_mergeResult hm id).mpr (Or.inr hw)
  have hpolled : ∀ {w w' : MultiprocExecutor ρ} {polled : Option (EncoderResult (List ρ))},
      EngineCore.handle (multiprocExecutor ρ m) w polled = .ok w' →
        id ∈ w.encoderResultCache.keys → id ∈ w'.encoderResultCache.keys := by
    intro w w' polled h hw
    cases polled with
    | none =>
      cases h
      exact hw
    | some res => exact hhandle h hw
  cases hs with
  | add r => exact hid
  | abort hf => exact hid
  | reset => exact hid
  | result hh => exact hhandle hh hid
  | idle => exact hid
  | discard hsched hh hz => exact hpolled hh hid
  | execute hsched hh hz he hup =>
    have hw := hpolled hh hid
    simp only [multiprocExecutor, MultiprocExecutor.collectiveRpc, bind_eq_ok] at he
    obtain ⟨responses, -, output, -, he⟩ := he
    cases he
    exact hw

/-! ## A result that comes too late -/

open SchedulerRun (smallParams)

/-- Whether the next call of `schedule` is executed and leaves the entry of a request that had
finished before. -/
def LeavesFinished (σ : EngineRun (GPUModelRunner (List ℕ))) (outcome : List TokenId) : Prop :=
  match σ.core.advance smallParams smallExecutor none outcome with
  | .ok (.executed _, c') => ¬ ForgetsFinished σ c'
  | _ => False

instance (σ : EngineRun (GPUModelRunner (List ℕ))) (outcome : List TokenId) :
    Decidable (LeavesFinished σ outcome) := by
  unfold LeavesFinished
  split <;> infer_instance

/-- An image request is aborted before its result has come, and finished for the worker by the next
step. -/
def abortedImageRun : List (EngineEvent (List ℕ) (List TokenId)) :=
  [.addRequest (.ofPrompt "b" [1, 2] []), .addRequest (.ofPrompt "a" [5, 6] [⟨0, 1⟩]),
    .abortRequests ["a"], .advance none [7]]

/-- **A result that comes too late stays**: the notice of the abort has been handed over, the result
comes, and the next step leaves its entry. -/
theorem late_result_stays : ∃ σ : EngineRun (GPUModelRunner (List ℕ)),
    Reachable (fun σ e => step smallParams smallExecutor σ e)
      (fun σ e => σ.core.Orderly e ∧ UniqueIds σ.log.seen e)
      (init smallParams (.init smallParams.maxNumRunningReqs)) σ ∧
    σ.log.delivered = [("a", 0)] ∧ "a" ∉ σ.core.scheduler.requests.keys ∧
    ∃ out c', σ.core.advance smallParams smallExecutor none [8] = .ok (.executed out, c') ∧
      ¬ ForgetsFinished σ c' := by
  obtain ⟨σ, hreach, hdel, hgone, hleft⟩ := exists_reachable
    (fun σ e => step smallParams smallExecutor σ e)
    (fun σ e => σ.core.Orderly e ∧ UniqueIds σ.log.seen e)
    (init smallParams (.init smallParams.maxNumRunningReqs))
    (abortedImageRun ++ [.encoderResult (oneResult "a" 0 [42])])
    (fun σ => σ.log.delivered = [("a", 0)] ∧ "a" ∉ σ.core.scheduler.requests.keys ∧
      LeavesFinished σ [8]) (by decide +kernel)
  refine ⟨σ, hreach, hdel, hgone, ?_⟩
  unfold LeavesFinished at hleft
  split at hleft
  · rename_i out c' hadv
    exact ⟨out, c', hadv, hleft⟩
  · cases hleft

/-- The result comes before the step. -/
def timelyImageRun : List (EngineEvent (List ℕ) (List TokenId)) :=
  [.addRequest (.ofPrompt "b" [1, 2] []), .addRequest (.ofPrompt "a" [5, 6] [⟨0, 1⟩]),
    .abortRequests ["a"], .encoderResult (oneResult "a" 0 [42])]

/-- Whether the next call of `schedule` is on time and is executed. -/
def ExecutesOnTime (σ : EngineRun (GPUModelRunner (List ℕ))) (outcome : List TokenId) : Prop :=
  OnTime smallParams smallParams.maxNumRunningReqs σ.core σ.log.traces (.advance none outcome) ∧
    match σ.core.advance smallParams smallExecutor none outcome with
    | .ok (.executed _, _) => True
    | _ => False

instance (σ : EngineRun (GPUModelRunner (List ℕ))) (outcome : List TokenId) :
    Decidable (ExecutesOnTime σ outcome) := by
  unfold ExecutesOnTime
  split <;> infer_instance

theorem no_leftovers_aborted : ∃ σ : EngineRun (GPUModelRunner (List ℕ)),
    TimelyRun smallParams smallParams.maxNumRunningReqs σ ∧
    σ.core.executor.encoderCache.keys = ["a"] ∧ "a" ∉ σ.core.scheduler.requests.keys ∧
    ∃ out c', σ.core.advance smallParams smallExecutor none [8] = .ok (.executed out, c') ∧
      ForgetsFinished σ c' := by
  obtain ⟨σ, hreach, hkeys, hgone, hon, hexec⟩ := exists_reachable
    (fun σ e => step smallParams smallExecutor σ e)
    (fun σ e => σ.core.Orderly e ∧ UniqueIds σ.log.seen e ∧
      OnTime smallParams smallParams.maxNumRunningReqs σ.core σ.log.traces e)
    (init smallParams (.init smallParams.maxNumRunningReqs)) timelyImageRun
    (fun σ => σ.core.executor.encoderCache.keys = ["a"] ∧
      "a" ∉ σ.core.scheduler.requests.keys ∧ ExecutesOnTime σ [8]) (by decide +kernel)
  refine ⟨σ, hreach, hkeys, hgone, ?_⟩
  split at hexec
  · rename_i out c' hadv
    exact ⟨out, c', hadv, no_leftovers hreach hon hadv⟩
  · cases hexec

end EngineRun

end SpaceServe
