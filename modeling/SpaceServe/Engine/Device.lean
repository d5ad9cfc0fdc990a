import SpaceServe.Engine.Notices
import SpaceServe.Engine.Runner
import SpaceServe.Worker.Device

/-!
# The sampling parameters on the device in runs of the engine

`execute_model` copies the sampling parameters of the rows to the device when `_update_states`
reports a change. A step in which requests have finished and nothing else has happened reports none,
although the rows behind a finished request may have moved.

* `appendRows_same`: sampled tokens leave the parameters and the prompts;
* `LeavesLast`, `TidyRun`: finished requests leave the last rows of the batch in such steps;
* **`device_synced`**: in these runs the device holds the parameters of the rows;
* `moved_row_not_copied`: a run in which it does not.
-/

set_option autoImplicit false

namespace SpaceServe

open Py

section

variable {ρ : Type} {w w' : GPUModelRunner (List ρ)} {out : SchedulerOutput}
  {sampled : List TokenId} {m n : ℕ}

namespace GPUModelRunner

open InputBatch

theorem appendSampled_same (hf : w.inputBatch.Faithful w.requests) {reqId : ReqId} {i : ℕ}
    (hi : w.inputBatch.reqIdToIndex.get? reqId = some i)
    (h : appendSampled out sampled w (some reqId, i) = .ok w') :
    SameArrays w.inputBatch w'.inputBatch := by
  simp only [appendSampled, bind_eq_ok, ofOption_eq_ok] at h
  obtain ⟨st, hst, k, -, _, -, h⟩ := h
  split_ifs at h with heq
  · simp only [bind_eq_ok] at h
    obtain ⟨tokenId, -, h⟩ := h
    cases h
    obtain ⟨st', hst', hrow⟩ := hf.rows reqId i hi
    rw [hst] at hst'
    cases hst'
    refine ⟨⟨rfl, rfl⟩, ⟨rfl, rfl⟩, ⟨rfl, rfl⟩, ⟨rfl, rfl⟩, ⟨rfl, rfl⟩, ⟨rfl, rfl⟩,
      ⟨rfl, rfl, fun i' j hj => ?_⟩, fun h => h⟩
    -- the token is written behind the prompt
    have hprompt : w.inputBatch.numPromptTokens i = st.promptTokenIds.length := hrow.numPromptTokens
    refine if_neg ?_
    rintro ⟨rfl, hle⟩
    have hnum : st.numTokens = st.promptTokenIds.length + st.outputTokenIds.length := rfl
    omega
  · cases h
    exact SameArrays.refl _

/-- Sampled tokens leave the parameters and the prompts. -/
theorem appendRows_same (hinv : w.inputBatch.Inv m n []) (hf : w.inputBatch.Faithful w.requests)
    (h : w.appendRows out sampled = .ok w') : SameArrays w.inputBatch w'.inputBatch := by
  refine (foldlM_invariant (P := fun w₁ : GPUModelRunner (List ρ) =>
    SameArrays w.inputBatch w₁.inputBatch ∧ w₁.inputBatch.reqIds = w.inputBatch.reqIds ∧
    w₁.inputBatch.reqIdToIndex = w.inputBatch.reqIdToIndex ∧
    w₁.inputBatch.Faithful w₁.requests) ?_ ⟨SameArrays.refl _, rfl, rfl, hf⟩ h).1
  rintro w₁ ⟨row, i⟩ w₂ hrow ⟨h1, h2, h3, h4⟩ hs
  obtain ⟨-, j1, j2, -⟩ := appendSampled_eq_ok hs
  cases row with
  | none => cases hs
  | some reqId =>
    have hidx : w₁.inputBatch.reqIdToIndex.get? reqId = some i := by
      rw [h3]
      exact hinv.get?_of_mem_zipIdx hrow
    exact ⟨h1.trans (appendSampled_same h4 hidx hs), j1.trans h2, j2.trans h3,
      appendSampled_faithful h4 (hinv.congr h2 h3) hidx hs⟩

end GPUModelRunner

end

namespace EngineRun

variable {ρ : Type} (p : SchedulerParams)

/-- Finished requests leave the last rows in a step that changes the batch in no other way. -/
def LeavesLast (c : EngineCore (GPUModelRunner (List ρ))) :
    EngineEvent (List ρ) (List TokenId) → Prop
  | .advance _ _ =>
    match c.scheduler.schedule p (c.available (uniProcExecutor ρ p.maxNumRunningReqs)) with
    | .ok (out, _) => out.totalNumScheduledTokens ≠ 0 →
        GPUModelRunner.FinishedLast c.executor.inputBatch out
    | .error _ => True
  | _ => True

instance (c : EngineCore (GPUModelRunner (List ρ))) :
    (e : EngineEvent (List ρ) (List TokenId)) → Decidable (LeavesLast p c e)
  | .advance _ _ =>
    match h : c.scheduler.schedule p (c.available (uniProcExecutor ρ p.maxNumRunningReqs)) with
    | .ok (out, _) => decidable_of_iff (out.totalNumScheduledTokens ≠ 0 →
        GPUModelRunner.FinishedLast c.executor.inputBatch out) (by rw [LeavesLast, h])
    | .error _ => isTrue (by rw [LeavesLast, h]; trivial)
  | .addRequest _ => isTrue trivial
  | .abortRequests _ => isTrue trivial
  | .resetPrefixCache => isTrue trivial
  | .encoderResult _ => isTrue trivial

/-- The runs in which finished requests leave the last rows. -/
def TidyRun : EngineRun (GPUModelRunner (List ρ)) → Prop :=
  Reachable (fun σ e => step p (uniProcExecutor ρ p.maxNumRunningReqs) σ e)
    (fun σ e => σ.core.Orderly e ∧ UniqueIds σ.log.seen e ∧ LeavesLast p σ.core e)
    (init p (.init p.maxNumRunningReqs))

variable {p} {c c' : EngineCore (GPUModelRunner (List ρ))} {t t' : Traces}
  {e : EngineEvent (List ρ) (List TokenId)} {s : Scheduler} {w w₁ w₂ : GPUModelRunner (List ρ)}

/-- What `make_sampling_metadata` leaves on the device, and which rows have kept their requests if
nothing was copied. -/
theorem synced_prepareSampling (h : RunnerInv p c t) (hd : c.executor.inputBatch.DeviceSynced)
    {out : SchedulerOutput} {available : ReqId → ℕ → Bool}
    (hs : c.scheduler.schedule p available = .ok (out, s))
    (hlast : GPUModelRunner.FinishedLast c.executor.inputBatch out)
    (hreq : w.requests = c.executor.requests) (hbatch : w.inputBatch = c.executor.inputBatch)
    {changed : Bool} (hup : w.updateStates p.maxNumRunningReqs out = .ok (changed, w₁))
    {metadata : SamplingMetadata} (hp : w₁.prepareSampling changed = .ok (metadata, w₂)) :
    w₂.inputBatch.DeviceSynced ∧ (changed = false → ∀ i < w₂.inputBatch.numReqs,
      w₂.inputBatch.reqIds[i]? = c.executor.inputBatch.reqIds[i]?) := by
  obtain rfl := GPUModelRunner.prepareSampling_eq_ok hp
  cases changed with
  | true => exact ⟨InputBatch.copyToDevice_synced _, fun hc => Bool.noConfusion hc⟩
  | false =>
    obtain ⟨n, hinv⟩ := h.told.batch
    obtain ⟨_, _, hup', hupd⟩ := h.updateStates hs hreq hbatch
    rw [hup] at hup'
    cases hup'
    obtain ⟨n₁, hinv₁⟩ := hupd.batch
    obtain ⟨hsame, hrows⟩ := GPUModelRunner.updateStates_unchanged (hbatch ▸ hinv)
      (h.sentTo hs hreq hbatch) (hbatch ▸ hlast) hup
    rw [hbatch] at hsame hrows
    have hn₁ := hinv₁.length_add_holes List.nodup_nil fun i hi => (List.not_mem_nil hi).elim
    have hn := hinv.length_add_holes List.nodup_nil fun i hi => (List.not_mem_nil hi).elim
    rw [List.length_nil, Nat.add_zero] at hn₁ hn
    have hkeep : ∀ i < w₁.inputBatch.numReqs, ∃ id, w₁.inputBatch.reqIds[i]? = some (some id) ∧
        c.executor.inputBatch.reqIds[i]? = some (some id) := by
      intro i hi
      obtain ⟨id, hid⟩ := hinv₁.filled i (hn₁ ▸ hi) List.not_mem_nil
      exact ⟨id, hid, (hinv.index i id).mpr (hrows id i ((hinv₁.index i id).mp hid))⟩
    refine ⟨hd.same hsame ?_, fun _ i hi => ?_⟩
    · by_contra hlt
      obtain ⟨id, -, hid⟩ := hkeep c.executor.inputBatch.numReqs (Nat.lt_of_not_le hlt)
      have := hinv.lt id _ ((hinv.index _ id).mp hid)
      omega
    · obtain ⟨id, h1, h2⟩ := hkeep i hi
      exact h1.trans h2.symm

/-- **Every event of such a run** leaves the parameters of the rows on the device. -/
theorem synced_step (h : RunnerInv p c t) (hd : c.executor.inputBatch.DeviceSynced)
    (hlast : LeavesLast p c e)
    (hs : Stepped p (uniProcExecutor ρ p.maxNumRunningReqs) c t e c' t') :
    c'.executor.inputBatch.DeviceSynced := by
  cases hs with
  | add r => exact hd
  | abort hf => exact hd
  | reset => exact hd
  | @result res executor hh =>
    have hres : EngineCore.handle (uniProcExecutor ρ p.maxNumRunningReqs) c.executor (some res) =
      .ok executor := hh
    rw [(handle_uniProc hres).2.1]
    exact hd
  | idle => exact hd
  | discard hsched hh hz =>
    rw [(handle_uniProc hh).2.1]
    exact hd
  | execute hsched hh hz he hup =>
    obtain ⟨hreq, hbatch, -⟩ := handle_uniProc hh
    obtain ⟨changed, w₁, _, metadata, w₂, hup₁, -, hprep, happ, -⟩ :=
      GPUModelRunner.executeModel_parts he
    simp only [LeavesLast, hsched] at hlast
    have hd₂ := (synced_prepareSampling h hd hsched (hlast hz) hreq hbatch hup₁ hprep).1
    obtain ⟨_, _, hup', hupd⟩ := h.updateStates hsched hreq hbatch
    rw [hup₁] at hup'
    cases hup'
    obtain ⟨n, hinv⟩ := hupd.batch
    obtain ⟨-, p2, p3, p4⟩ := GPUModelRunner.prepareSampling_spec hprep
    have hf₂ := p4 (hupd.faithful (by rw [hreq, hbatch]; exact h.faithful))
    refine hd₂.same (GPUModelRunner.appendRows_same (hinv.congr p2 p3) hf₂ happ) ?_
    rw [InputBatch.numReqs, (GPUModelRunner.appendRows_spec (hinv.congr p2 p3) happ).2.1]
    exact Nat.le_refl _

/-- **The device holds the sampling parameters of the rows** whenever `make_sampling_metadata` has
run, and the rows have kept their requests whenever it has not copied. -/
theorem device_synced {σ : EngineRun (GPUModelRunner (List ρ))} (h : TidyRun p σ)
    {polled : Option (EncoderResult (List ρ))} {outcome : List TokenId}
    (hlast : LeavesLast p σ.core (.advance polled outcome)) {out : SchedulerOutput}
    (hs : σ.core.scheduler.schedule p (σ.core.available (uniProcExecutor ρ p.maxNumRunningReqs)) =
      .ok (out, s)) (hz : out.totalNumScheduledTokens ≠ 0)
    (hh : EngineCore.handle (uniProcExecutor ρ p.maxNumRunningReqs) σ.core.executor polled = .ok w)
    {changed : Bool} (hup : w.updateStates p.maxNumRunningReqs out = .ok (changed, w₁))
    {metadata : SamplingMetadata} (hp : w₁.prepareSampling changed = .ok (metadata, w₂)) :
    w₂.inputBatch.DeviceSynced ∧ (changed = false → ∀ i < w₂.inputBatch.numReqs,
      w₂.inputBatch.reqIds[i]? = σ.core.executor.inputBatch.reqIds[i]?) := by
  have hinv : RunnerInv p σ.core σ.log.traces ∧ σ.core.executor.inputBatch.DeviceSynced := by
    refine h.invariant (P := fun σ : EngineRun (GPUModelRunner (List ρ)) =>
      RunnerInv p σ.core σ.log.traces ∧ σ.core.executor.inputBatch.DeviceSynced) ?_ ?_
    · exact ⟨RunnerInv.init p, InputBatch.DeviceSynced.init _⟩
    · rintro σ e σ' ⟨hr, hd⟩ ⟨ho, hu, hl⟩ hs
      have hst := step_stepped ho hs
      exact ⟨hr.step hu hst, synced_step hr hd hl hst⟩
  obtain ⟨hreq, hbatch, -⟩ := handle_uniProc hh
  simp only [LeavesLast, hs] at hlast
  exact synced_prepareSampling hinv.1 hinv.2 hs (hlast hz) hreq hbatch hup hp

/-! ## A row that has moved -/

open SchedulerRun (smallParams)

/-- A request with the given temperature and number of tokens. -/
def tempered (requestId : ReqId) (temperature : ℚ) (maxTokens : ℕ) : Request :=
  { Request.ofPrompt requestId [1] [] with
    samplingParams := { maxTokens, ignoreEos := true, stopTokenIds := [], temperature } }

/-- The step that follows: the flag of `_update_states`, and for each row its request, its
temperature and the temperature on the device. -/
def sampledRows (c : EngineCore (GPUModelRunner (List ℕ))) :
    Except Exn (Bool × List (Option ReqId × ℚ × ℚ)) := do
  let (out, _) ← c.scheduler.schedule smallParams (c.available smallExecutor)
  let (changed, w) ← c.executor.updateStates smallParams.maxNumRunningReqs out
  let (_, w) ← w.prepareSampling changed
  .ok (changed, (List.range w.inputBatch.numReqs).map fun i =>
    ((w.inputBatch.reqIds[i]?).join, w.inputBatch.temperatureCpu i, w.inputBatch.temperature i))

/-- The steps of `sampledRows`. -/
theorem sampledRows_eq_ok {c : EngineCore (GPUModelRunner (List ℕ))}
    {l : List (Option ReqId × ℚ × ℚ)} (h : sampledRows c = .ok (false, l)) :
    ∃ out s w₁ metadata w₂, c.scheduler.schedule smallParams (c.available smallExecutor) =
        .ok (out, s) ∧
      c.executor.updateStates smallParams.maxNumRunningReqs out = .ok (false, w₁) ∧
      w₁.prepareSampling false = .ok (metadata, w₂) ∧
      ((List.range w₂.inputBatch.numReqs).map fun i => ((w₂.inputBatch.reqIds[i]?).join,
        w₂.inputBatch.temperatureCpu i, w₂.inputBatch.temperature i)) = l := by
  simp only [sampledRows, bind_eq_ok] at h
  obtain ⟨⟨out, s⟩, hs, ⟨changed, w₁⟩, hup, ⟨metadata, w₂⟩, hp, h⟩ := h
  obtain ⟨rfl, hl⟩ := Prod.mk.inj (Except.ok.inj h)
  exact ⟨out, s, w₁, metadata, w₂, hs, hup, hp, hl⟩

/-- Two requests run, and the one that runs out of tokens is `first` or the other one. -/
def twoTemperatures (first : Bool) : List (EngineEvent (List ℕ) (List TokenId)) :=
  [.addRequest (tempered "a" 1 (if first then 1 else 3)),
    .addRequest (tempered "b" 0 (if first then 3 else 1)), .advance none [7, 8]]

/-- **A row that has moved is not copied**: the first request has finished and the second one moves to
its row; nothing is reported, and the device keeps the temperature of the first. -/
theorem moved_row_not_copied : ∃ (σ : EngineRun (GPUModelRunner (List ℕ))) (out : SchedulerOutput)
    (s : Scheduler) (w₁ w₂ : GPUModelRunner (List ℕ)) (metadata : SamplingMetadata),
    Reachable (fun σ e => step smallParams smallExecutor σ e)
      (fun σ e => σ.core.Orderly e ∧ UniqueIds σ.log.seen e)
      (init smallParams (.init smallParams.maxNumRunningReqs)) σ ∧
    σ.core.scheduler.schedule smallParams (σ.core.available smallExecutor) = .ok (out, s) ∧
    σ.core.executor.updateStates smallParams.maxNumRunningReqs out = .ok (false, w₁) ∧
    w₁.prepareSampling false = .ok (metadata, w₂) ∧ ¬ w₂.inputBatch.DeviceSynced := by
  obtain ⟨σ, hreach, hrows⟩ := exists_reachable (fun σ e => step smallParams smallExecutor σ e)
    (fun σ e => σ.core.Orderly e ∧ UniqueIds σ.log.seen e)
    (init smallParams (.init smallParams.maxNumRunningReqs)) (twoTemperatures true)
    (fun σ => (sampledRows σ.core).toOption.any
      (fun x => decide (x.1 = false ∧ x.2 = [(some "b", 0, 1)])) = true) (by decide +kernel)
  obtain ⟨⟨flag, l⟩, hok, hx⟩ := exists_ok_of_any hrows
  obtain ⟨rfl, rfl⟩ := of_decide_eq_true hx
  obtain ⟨out, s, w₁, metadata, w₂, hs, hup, hp, hmap⟩ := sampledRows_eq_ok hok
  refine ⟨σ, out, s, w₁, w₂, metadata, hreach, hs, hup, hp, fun hsync => ?_⟩
  have hlen := congrArg List.length hmap
  rw [List.length_map, List.length_range] at hlen
  have hzero := congrArg (fun l => l[0]?) hmap
  simp only [hlen, List.length_cons, List.length_nil, Nat.zero_add, List.range_one, List.map_cons,
    List.map_nil, List.getElem?_cons_zero, Option.some.injEq, Prod.mk.injEq] at hzero
  have hpar := (hsync.params 0 (by rw [hlen]; decide)).1
  rw [hzero.2.1, hzero.2.2] at hpar
  exact absurd hpar (by decide)

theorem device_synced_last_row : ∃ (σ : EngineRun (GPUModelRunner (List ℕ))) (out : SchedulerOutput)
    (s : Scheduler) (w₁ w₂ : GPUModelRunner (List ℕ)) (metadata : SamplingMetadata),
    TidyRun smallParams σ ∧
    σ.core.scheduler.schedule smallParams (σ.core.available smallExecutor) = .ok (out, s) ∧
    out.finishedReqIds = ["b"] ∧
    σ.core.executor.updateStates smallParams.maxNumRunningReqs out = .ok (false, w₁) ∧
    w₁.prepareSampling false = .ok (metadata, w₂) ∧ w₂.inputBatch.DeviceSynced := by
  obtain ⟨σ, hreach, hlast, hrows, hfin⟩ := exists_reachable
    (fun σ e => step smallParams smallExecutor σ e)
    (fun σ e => σ.core.Orderly e ∧ UniqueIds σ.log.seen e ∧ LeavesLast smallParams σ.core e)
    (init smallParams (.init smallParams.maxNumRunningReqs)) (twoTemperatures false)
    (fun σ => LeavesLast smallParams σ.core (.advance none []) ∧
      (sampledRows σ.core).toOption.any
        (fun x => decide (x.1 = false ∧ x.2 = [(some "a", 1, 1)])) = true ∧
      (σ.core.scheduler.schedule smallParams (σ.core.available smallExecutor)).toOption.any
        (fun x => decide (x.1.finishedReqIds = ["b"] ∧ x.1.totalNumScheduledTokens ≠ 0)) = true)
    (by decide +kernel)
  obtain ⟨⟨flag, l⟩, hok, hx⟩ := exists_ok_of_any hrows
  obtain ⟨rfl, -⟩ := of_decide_eq_true hx
  obtain ⟨out, s, w₁, metadata, w₂, hs, hup, hp, -⟩ := sampledRows_eq_ok hok
  rw [hs] at hfin
  obtain ⟨hids, hz⟩ := of_decide_eq_true hfin
  exact ⟨σ, out, s, w₁, w₂, metadata, hreach, hs, hids, hup, hp,
    (device_synced hreach hlast hs hz rfl hup hp).1⟩

end EngineRun

end SpaceServe
