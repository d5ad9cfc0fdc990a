import SpaceServe.Engine.Forward
import SpaceServe.Engine.Stream
import SpaceServe.Scheduler.Liveness
import SpaceServe.Worker.Paged

/-!
# The engine with its model

An engine whose executor runs the model: the sampled tokens are no longer an input, and the caches are part
of its state. Without the caches its runs are runs of the engine whose sampled tokens come from outside. Its
requests are text-only.

* `pagedExecutor`, `forget`, **`Stepped.forget`**: a step without the caches;
* `SameParams`: the worker has the parameters of the requests; `Stepped.evolved`;
* `PagedInv`, `PagedInv.executed`, **`PagedInv.step`**: the slots hold the entries that they are for;
* **`kv_cache_coherent`**: in every state the caches hold, for every computed token of every running
  request, what the model would have stored for it in a run of its own.
-/

set_option autoImplicit false

namespace SpaceServe

open Py

section

variable {F H Q K S O ρ : Type} [Field F] [LinearOrder F]

/-! ## The executor -/

/-- `UniProcExecutor` with its model. -/
def pagedExecutor (M : CausalLM F H Q K S O) (p : SchedulerParams) (useCascade : ℤ → List ℕ → Bool) :
    Executor (PagedRunner ρ K) (List ρ) (Noise F) where
  encoderResultCache w := w.runner.encoderCache
  handleEncoderResult w res := do
    let cache ← mergeResult w.runner.encoderCache res
    .ok { w with runner := { w.runner with encoderCache := cache } }
  executeModel w out noise := w.executeModel M p useCascade noise out

/-- The engine without the caches. -/
def EngineCore.forget (c : EngineCore (PagedRunner ρ K)) : EngineCore (GPUModelRunner (List ρ)) :=
  ⟨c.scheduler, c.executor.runner, c.spinning⟩

/-- The event with the tokens that were sampled in it. -/
def EngineEvent.sampling {V O : Type} (sampled : List TokenId) :
    EngineEvent V O → EngineEvent V (List TokenId)
  | .addRequest r => .addRequest r
  | .abortRequests ids => .abortRequests ids
  | .resetPrefixCache => .resetPrefixCache
  | .encoderResult res => .encoderResult res
  | .advance polled _ => .advance polled sampled

variable {M : CausalLM F H Q K S O} {p : SchedulerParams} {useCascade : ℤ → List ℕ → Bool}
  {c c' : EngineCore (PagedRunner ρ K)} {t t' : Traces} {e : EngineEvent (List ρ) (Noise F)}

theorem handleEncoderResult_paged {w w' : PagedRunner ρ K} {res : EncoderResult (List ρ)}
    (h : (pagedExecutor M p useCascade).handleEncoderResult w res = .ok w') :
    (uniProcExecutor ρ p.maxNumRunningReqs).handleEncoderResult w.runner res = .ok w'.runner ∧
      w'.kvCaches = w.kvCaches ∧ w'.offsets = w.offsets := by
  simp only [pagedExecutor, bind_eq_ok] at h
  obtain ⟨cache, hcache, h⟩ := h
  obtain rfl := Except.ok.inj h
  refine ⟨?_, rfl, rfl⟩
  simp only [uniProcExecutor, bind_eq_ok]
  exact ⟨cache, hcache, rfl⟩

theorem handle_paged {w w' : PagedRunner ρ K} {polled : Option (EncoderResult (List ρ))}
    (h : EngineCore.handle (pagedExecutor M p useCascade) w polled = .ok w') :
    EngineCore.handle (uniProcExecutor ρ p.maxNumRunningReqs) w.runner polled = .ok w'.runner ∧
      w'.kvCaches = w.kvCaches ∧ w'.offsets = w.offsets := by
  cases polled with
  | none =>
    obtain rfl := Except.ok.inj h
    exact ⟨rfl, rfl, rfl⟩
  | some res => exact handleEncoderResult_paged h

/-- An execution without the caches. -/
theorem PagedRunner.executeModel_runner {w w' : PagedRunner ρ K} {noise : Noise F} {out : SchedulerOutput}
    {mo : ModelRunnerOutput} (h : w.executeModel M p useCascade noise out = .ok (mo, w'))
    (hgather : ∀ changed w₁, w.runner.updateStates p.maxNumRunningReqs out = .ok (changed, w₁) →
      w₁.gatherEncoderOutputs out = .ok []) :
    w.runner.executeModel p.maxNumRunningReqs out mo.sampledTokenIds = .ok (mo, w'.runner) := by
  obtain ⟨changed, w₁, inputs, hidden, selected, metadata, w₂, offsets, hup, -, -, -, hprep, -, -, happ,
    hidx⟩ := PagedRunner.executeModel_parts h
  simp only [GPUModelRunner.executeModel, hup, hgather changed w₁ hup, hprep, happ, ok_bind, ← hidx]

/-- **A step without the caches** is a step of the engine. -/
theorem Stepped.forget (hs : Stepped p (pagedExecutor M p useCascade) c t e c' t')
    (hgather : ∀ (out : SchedulerOutput) (s : Scheduler) (w : GPUModelRunner (List ρ)) (changed : Bool)
        (w₁ : GPUModelRunner (List ρ)),
      c.scheduler.schedule p (c.available (pagedExecutor M p useCascade)) = .ok (out, s) →
      w.requests = c.executor.runner.requests → w.inputBatch = c.executor.runner.inputBatch →
      w.updateStates p.maxNumRunningReqs out = .ok (changed, w₁) → w₁.gatherEncoderOutputs out = .ok []) :
    ∃ sampled, Stepped p (uniProcExecutor ρ p.maxNumRunningReqs) c.forget t (e.sampling sampled) c'.forget
      t' := by
  cases hs with
  | add r => exact ⟨[], Stepped.add r⟩
  | abort hf => exact ⟨[], Stepped.abort hf⟩
  | reset => exact ⟨[], Stepped.reset⟩
  | result hh => exact ⟨[], Stepped.result (handleEncoderResult_paged hh).1⟩
  | idle => exact ⟨[], Stepped.idle⟩
  | discard hsched hh hz => exact ⟨[], Stepped.discard hsched (handle_paged hh).1 hz⟩
  | @execute _ _ out s _ w _ output _ hsched hh hz he hup =>
    have hh' := (handle_paged hh).1
    obtain ⟨hreq, hbatch, -⟩ := EngineRun.handle_uniProc hh'
    exact ⟨output.sampledTokenIds, Stepped.execute hsched hh' hz (PagedRunner.executeModel_runner he
      fun changed w₁ hup₁ => hgather out s w.runner changed w₁ hsched hreq hbatch hup₁) hup⟩

/-! ## The parameters of the requests -/

variable {s s' : Scheduler} {w w' : GPUModelRunner (List ρ)} {out : SchedulerOutput}
  {available : ReqId → ℕ → Bool}

/-- A state of the worker has the parameters of a request. -/
structure SameData (r : Request) (st : CachedRequestState) : Prop where
  sampling : st.samplingParams = r.samplingParams
  positions : st.mmPositions = r.mmPositions

/-- The worker has the parameters of the requests that were sent to it. -/
def SameParams (s : Scheduler) (w : GPUModelRunner (List ρ)) : Prop :=
  ∀ id ∈ sentIds s, ∀ r st, s.requests.get? id = some r → w.requests.get? id = some st → SameData r st

/-- New requests are sent as they are. -/
theorem schedule_newReqs (hw : s.WF p) (hs : s.schedule p available = .ok (out, s')) :
    ∀ data ∈ out.scheduledNewReqs, ∃ r, s'.requests.get? data.reqId = some r ∧
      SameData r (GPUModelRunner.newState data) := by
  obtain ⟨_, st, newReqs, _, _, -, -, -, hst, rfl, -, -, -, -, -, hreqs, -, -, hnew, -⟩ :=
    schedule_eq_ok hw hs
  intro data hdata
  rw [hnew] at hdata
  obtain ⟨y, hy, rfl⟩ := List.mem_map.mp hdata
  exact ⟨y.1, (mapM_withBlocks hst.sched hreqs).2 y hy, rfl, rfl⟩

/-- What a call of `schedule` changes of the requests. -/
theorem schedule_evolved (h : s.Sound p) (hs : s.schedule p available = .ok (out, s')) {id : ReqId}
    {r' : Request} (hr' : s'.requests.get? id = some r') :
    ∃ r, s.requests.get? id = some r ∧ Evolved r r' := by
  obtain ⟨r, hr, hres⟩ := (h.blocks.schedule h.wf hs).2 id r' hr'
  exact ⟨r, hr, hres.evolved⟩

theorem SameData.evolved {r r' : Request} {st : CachedRequestState} (h : SameData r st)
    (he : Evolved r r') : SameData r' st := by
  refine ⟨h.sampling.trans ?_, h.positions.trans ?_⟩
  · rw [he]
  · rw [he]

/-- **No request is sent**, and the parameters stay. -/
theorem SameParams.onward (h : SameParams s w) (hsent : ∀ id ∈ sentIds s', id ∈ sentIds s)
    (hreq : ∀ id r', s'.requests.get? id = some r' → ∃ r, s.requests.get? id = some r ∧ Evolved r r')
    (hstate : ∀ id st', w'.requests.get? id = some st' → ∃ st, w.requests.get? id = some st ∧
      st'.samplingParams = st.samplingParams ∧ st'.mmPositions = st.mmPositions) : SameParams s' w' := by
  intro id hid r' st' hr' hst'
  obtain ⟨r, hr, he⟩ := hreq id r' hr'
  obtain ⟨st, hst, h1, h2⟩ := hstate id st' hst'
  obtain ⟨g1, g2⟩ := (h id (hsent id hid) r st hr hst).evolved he
  exact ⟨h1.trans g1, h2.trans g2⟩

theorem SameParams.congr (h : SameParams s w) (hreq : w'.requests = w.requests) : SameParams s w' :=
  h.onward (fun _ hid => hid) (fun _ r' hr' => ⟨r', hr', Evolved.refl r'⟩) fun _ st' hst' =>
    ⟨st', hreq ▸ hst', rfl, rfl⟩

/-- Requests that are left were there before, with the same status. -/
theorem sentIds_onward (ho : Scheduler.Onward s s') : ∀ id ∈ sentIds s', id ∈ sentIds s := by
  intro id hid
  obtain ⟨r', hr', hst⟩ := mem_sentIds.mp hid
  obtain ⟨r, hr, -, -, he⟩ := ho.requests id r' hr'
  exact mem_sentIds.mpr ⟨r, hr, he ▸ hst⟩

/-- **What the worker has of a scheduled request** after `_update_states`. -/
theorem SameParams.scheduled (h : SameParams s w) (hsound : s.Sound p)
    (hs : s.schedule p available = .ok (out, s'))
    (hup : GPUModelRunner.Updated p.maxNumRunningReqs w w' out) {id : ReqId}
    (hid : id ∈ out.numScheduledTokens.keys) {r : Request} {st : CachedRequestState}
    (hr : s'.requests.get? id = some r) (hst : w'.requests.get? id = some st) : SameData r st := by
  have hsent := schedule_sent hsound.wf (knownTo_sentIds hsound.wf) hs
  rw [← hsent.scheduled.mem_iff, List.mem_append] at hid
  obtain hid | hid := hid
  · obtain ⟨data, hdata, rfl⟩ := List.mem_map.mp hid
    obtain rfl := Option.some.inj ((hup.new data hdata).symm.trans hst)
    obtain ⟨r', hr', hsame⟩ := schedule_newReqs hsound.wf hs data hdata
    obtain rfl := Option.some.inj (hr.symm.trans hr')
    exact hsame
  · obtain ⟨data, hdata, rfl⟩ := List.mem_map.mp hid
    obtain ⟨st₀, hst₀, hst'⟩ := hup.cached data hdata
    obtain rfl := Option.some.inj (hst'.symm.trans hst)
    obtain ⟨r₀, hr₀, he⟩ := schedule_evolved hsound hs hr
    obtain ⟨g1, g2⟩ := (h _ (hsent.cached data hdata).1 r₀ st₀ hr₀ hst₀).evolved he
    exact ⟨g1, g2⟩

/-- **An output that is executed.** -/
theorem SameParams.schedule (h : SameParams s w) (hsound : s.Sound p)
    (hs : s.schedule p available = .ok (out, s'))
    (hup : GPUModelRunner.Updated p.maxNumRunningReqs w w' out) : SameParams s' w' := by
  intro id hid r st hr hst
  by_cases hsch : id ∈ out.numScheduledTokens.keys
  · exact h.scheduled hsound hs hup hsch hr hst
  · have hold : id ∈ sentIds s := by
      refine ((schedule_sentIds hsound.wf hs id).mp hid).resolve_right fun hnew => hsch ?_
      rw [← (schedule_sent hsound.wf (knownTo_sentIds hsound.wf) hs).scheduled.mem_iff]
      exact List.mem_append_left _ hnew
    rw [hup.other id hsch] at hst
    split_ifs at hst
    obtain ⟨r₀, hr₀, he⟩ := schedule_evolved hsound hs hr
    exact (h id hold r₀ st hr₀ hst).evolved he

/-- **An output that is discarded.** -/
theorem SameParams.discard (h : SameParams s w) (hsound : s.Sound p)
    (hs : s.schedule p available = .ok (out, s')) (hz : out.totalNumScheduledTokens = 0) :
    SameParams s' w := by
  have hsent := schedule_sent hsound.wf (knownTo_sentIds hsound.wf) hs
  refine h.onward (fun id hid => ?_) (fun id r' hr' => schedule_evolved hsound hs hr') fun id st hst =>
    ⟨st, hst, rfl, rfl⟩
  refine ((schedule_sentIds hsound.wf hs id).mp hid).resolve_right fun hnew => ?_
  have hkey := hsent.scheduled.mem_iff.mp (List.mem_append_left _ hnew)
  rw [hsent.nothing hz] at hkey
  exact List.not_mem_nil hkey

/-- **The tokens of a step** change no parameters. -/
theorem SameParams.update (h : SameParams s w) (hw : s.WF p) {m n : ℕ} (hinv : w.inputBatch.Inv m n [])
    {sampled : List TokenId} (happ : w.appendRows out sampled = .ok w') {mo : ModelRunnerOutput}
    {outputs : List EngineCoreOutput} (hup : s.updateFromOutput p out mo = .ok (outputs, s')) :
    SameParams s' w' := by
  refine h.onward (sentIds_onward (Scheduler.updateFromOutput_onward hw hup).2) (fun id r' hr' => ?_)
    fun id st' hst' => ?_
  · obtain ⟨r, hr, hl⟩ := updateFromOutput_later hw hup hr'
    exact ⟨r, hr, hl.eq⟩
  · have hmap := (GPUModelRunner.appendRows_spec hinv happ).2.2.1 id
    rw [hst', Option.map_some] at hmap
    obtain ⟨st, hst, heq⟩ := Option.map_eq_some_iff.mp hmap.symm
    refine ⟨st, hst, ?_, ?_⟩
    · exact (congrArg CachedRequestState.samplingParams heq).symm
    · exact (congrArg CachedRequestState.mmPositions heq).symm

theorem SameParams.addRequest (h : SameParams s w) {r : Request} (hnew : r.IsNew)
    (hid : r.requestId ∉ s.requests.keys) : SameParams (s.addRequest r) w := by
  intro id hsent r' st hr' hst
  obtain ⟨r₀, hr₀, hne⟩ := mem_sentIds.mp hsent
  obtain rfl := Option.some.inj (hr'.symm.trans hr₀)
  obtain ⟨rfl, rfl⟩ | ⟨-, hr⟩ := Scheduler.addRequest_get? hr'
  · exact absurd hnew.1 hne
  · exact h id (mem_sentIds.mpr ⟨r', hr, hne⟩) r' st hr hst

/-! ## Executions -/

section Executions

variable {changed : Bool} {w₁ : GPUModelRunner (List ρ)} {rows : List ReqId} {ns : List ℕ}
  {before : List BlockEvent}

/-- **Text-only requests** gather nothing. -/
theorem BatchOf.gather_text (h : BatchOf s out w rows ns) (htext : ∀ id r, s.requests.get? id = some r →
      r.TextOnly) (hsame : ∀ id ∈ out.numScheduledTokens.keys, ∀ r st, s.requests.get? id = some r →
      w.requests.get? id = some st → SameData r st)
    (hstate : ∀ id ∈ out.numScheduledTokens.keys, ∃ st, w.requests.get? id = some st) :
    w.gatherEncoderOutputs out = .ok [] := by
  refine GPUModelRunner.gatherEncoderOutputs_text h.scheduled.reqIds fun id hid => ?_
  have hkey := h.perm.mem_iff.mp hid
  obtain ⟨i, hi⟩ := List.mem_iff_getElem?.mp hid
  obtain ⟨n, r, -, hrow⟩ := h.row i id hi
  obtain ⟨st, hst⟩ := hstate id hkey
  refine ⟨hkey, st, hst, ?_⟩
  rw [(hsame id hkey r st hrow.request hst).positions]
  exact htext id r hrow.request

/-- What an execution of the model has computed: the batch, the states of its tokens, those that are
sampled from, the generators, and what the caches hold afterwards. -/
structure Ran (M : CausalLM F H Q K S O) (p : SchedulerParams) (s : Scheduler) (out : SchedulerOutput)
    (noise : Noise F) (before : Generator → ℕ) (changed : Bool) (w₁ : GPUModelRunner (List ρ))
    (rows : List ReqId) (ns : List ℕ) (mo : ModelRunnerOutput) (w' : PagedRunner ρ K) : Prop where
  batch : BatchOf s out w₁ rows ns
  sampled : ∃ selected metadata w₂ offsets,
    selectHidden ((rowItems p s w₁ rows ns).map fun it =>
        M.model.causal.state M.model.numLayers it.behind it.token)
      ((npCumsum ns).map fun n : ℕ => (n : ℤ) - 1) = .ok selected ∧
    w₁.prepareSampling changed = .ok (metadata, w₂) ∧
    Sampler.forward (M.random.forwardNative noise) (selected.map M.computeLogits) metadata
      (out.scheduledNewReqs.foldl seedNew before) = .ok (mo.sampledTokenIds, offsets) ∧
    w'.offsets = (w₂.inputBatch.reqIds.take w₂.inputBatch.numReqs).zipIdx.foldl (rewindRow out w₂) offsets ∧
    w₂.appendRows out mo.sampledTokenIds = .ok w'.runner ∧
    mo.reqIdToIndex = w'.runner.inputBatch.reqIdToIndex
  memory : ∀ l < M.model.numLayers,
    CausalModel.Holds M.model.causal (content p.kv.blockSize s.history) l (w'.kvCaches l)

/-- **An execution computes the states of the model on whole sequences**, whatever was computed before,
in whatever blocks it is, and whether or not a prefix is shared. -/
theorem PagedRunner.executeModel_ran {w w' : PagedRunner ρ K} {noise : Noise F} {mo : ModelRunnerOutput}
    (hpos : ∀ n queryLens, useCascade n queryLens = true → 0 < n)
    (h : w.executeModel M p useCascade noise out = .ok (mo, w'))
    (hup : w.runner.updateStates p.maxNumRunningReqs out = .ok (changed, w₁))
    (hb : BatchOf s out w₁ rows ns) (hz : out.totalNumScheduledTokens ≠ 0)
    (hshared : SharedPrefix s out.numCommonPrefixBlocks) (hshort : Short p s)
    (hblocks : BlocksInv p s fun id => (out.numScheduledTokens.get? id).getD 0)
    (hset : Settled p s fun id => (out.numScheduledTokens.get? id).getD 0)
    (hpending : ∀ slot x, content p.kv.blockSize s.history slot = some x →
      content p.kv.blockSize before slot = some x ∨ Window p.kv.blockSize s out.numScheduledTokens slot)
    (hmem : ∀ l < M.model.numLayers,
      CausalModel.Holds M.model.causal (content p.kv.blockSize before) l (w.kvCaches l)) :
    Ran M p s out noise w.offsets changed w₁ rows ns mo w' := by
  obtain ⟨_, _, inputs, hidden, selected, metadata, w₂, offsets, hup', hprep, hfwd, hsel, hsamp, hsampled,
    hoffsets, happ, hidx⟩ := PagedRunner.executeModel_parts h
  cases hup.symm.trans hup'
  obtain ⟨_, hok, hp⟩ := GPUModelRunner.prepareInputs_spec p.kv useCascade hb.scheduled (hb.ne_nil hz)
  cases hprep.symm.trans hok
  obtain ⟨_, hok, hc⟩ := hb.cascadeInputs (p := p) (hb.ne_nil hz) useCascade
  cases hprep.symm.trans hok
  have hl := hb.rowLengths hp hc hshared fun l hl =>
    (GPUModelRunner.prepareInputs_cascade hprep l hl).elim fun queryLens hq => hpos _ queryLens hq
  obtain ⟨kvCaches', hfwd', hmem'⟩ := hb.forward (hb.feeds hp hl hshort hblocks) hset hpending hmem
  obtain ⟨rfl, rfl⟩ := Prod.mk.inj (Except.ok.inj (hfwd.symm.trans hfwd'))
  rw [hp.logitsIndices] at hsel
  exact ⟨hb, ⟨selected, metadata, w₂, offsets, hsel, hsamp, hsampled, hoffsets, happ, hidx⟩, hmem'⟩

end Executions

/-! ## Runs -/

variable (M p) in
/-- What holds between two events. -/
structure PagedInv (c : EngineCore (PagedRunner ρ K)) (t : Traces) : Prop where
  base : RefinementInv p c.forget t
  params : SameParams c.scheduler c.executor.runner
  text : TextBlocks p c.scheduler fun _ => 0
  memory : ∀ l < M.model.numLayers,
    CausalModel.Holds M.model.causal (content p.kv.blockSize c.scheduler.history) l (c.executor.kvCaches l)

theorem PagedInv.init (kvCaches : ℕ → ℕ × ℕ → K) (offsets : Generator → ℕ) :
    PagedInv M p (.init p ⟨.init p.maxNumRunningReqs, kvCaches, offsets⟩ : EngineCore (PagedRunner ρ K))
      EngineLog.empty.traces := by
  refine ⟨RefinementInv.init p, fun id hid => ?_, TextBlocks.init p, fun l _ slot ts t hs => ?_⟩
  · cases hid
  · cases hs

/-- `_update_states` and the batch that it leaves. -/
theorem PagedInv.batch (h : PagedInv M p c t)
    (hs : c.scheduler.schedule p available = .ok (out, s)) (hreq : w.requests = c.executor.runner.requests)
    (hbatch : w.inputBatch = c.executor.runner.inputBatch) :
    ∃ changed w₁ rows ns, w.updateStates p.maxNumRunningReqs out = .ok (changed, w₁) ∧
      GPUModelRunner.Updated p.maxNumRunningReqs w w₁ out ∧ BatchOf s out w₁ rows ns ∧
      w₁.gatherEncoderOutputs out = .ok [] := by
  obtain ⟨changed, w₁, rows, ns, hup, hb⟩ := h.base.batch hs hreq hbatch
  obtain ⟨_, _, hup', hupd⟩ := h.base.runner.updateStates hs hreq hbatch
  cases hup.symm.trans hup'
  refine ⟨changed, w₁, rows, ns, hup, hupd, hb, hb.gather_text (h.text.schedule hs).state.inv.text
    (fun id hid r st => ?_) fun id hid => ?_⟩
  · exact (h.params.congr hreq).scheduled h.base.sound hs hupd hid
  · obtain ⟨st, -, hst, -⟩ := (h.base.inStep.congr hreq).scheduled h.base.sound hs hupd hid
    exact ⟨st, hst⟩

/-- Requests without encoder inputs, and with prompts that the `Processor` accepts. -/
def TextEvent {V O : Type} (p : SchedulerParams) : EngineEvent V O → Prop
  | .addRequest r => SchedulerRun.TextPrompt p r
  | _ => True

instance {V O : Type} (p : SchedulerParams) : (e : EngineEvent V O) → Decidable (TextEvent p e)
  | .addRequest r => inferInstanceAs (Decidable (SchedulerRun.TextPrompt p r))
  | .abortRequests _ => inferInstanceAs (Decidable True)
  | .resetPrefixCache => inferInstanceAs (Decidable True)
  | .encoderResult _ => inferInstanceAs (Decidable True)
  | .advance _ _ => inferInstanceAs (Decidable True)

section Steps

variable (hinj : Function.Injective p.kv.hash) (hzero : ∀ x, p.kv.hash x ≠ 0)
  (hpos : ∀ n queryLens, useCascade n queryLens = true → 0 < n)
include hinj hzero hpos

/-- **What the engine executes.** -/
theorem PagedInv.executed (h : PagedInv M p c t) {polled : Option (EncoderResult (List ρ))}
    {w w' : PagedRunner ρ K} {noise : Noise F} {mo : ModelRunnerOutput}
    (hs : c.scheduler.schedule p available = .ok (out, s))
    (hh : EngineCore.handle (pagedExecutor M p useCascade) c.executor polled = .ok w)
    (hz : out.totalNumScheduledTokens ≠ 0)
    (he : (pagedExecutor M p useCascade).executeModel w out noise = .ok (mo, w')) :
    ∃ changed w₁ rows ns, w.runner.updateStates p.maxNumRunningReqs out = .ok (changed, w₁) ∧
      GPUModelRunner.Updated p.maxNumRunningReqs w.runner w₁ out ∧
      Ran M p s out noise c.executor.offsets changed w₁ rows ns mo w' := by
  obtain ⟨hh, hcaches, hoffsets⟩ := handle_paged hh
  obtain ⟨hreq, hbatch, -⟩ := EngineRun.handle_uniProc hh
  obtain ⟨changed, w₁, rows, ns, hup, hupd, hb, -⟩ := h.batch hs hreq hbatch
  have hw := h.base.sound.wf
  have htext := h.text.schedule hs
  refine ⟨changed, w₁, rows, ns, hup, hupd, ?_⟩
  have hmem : ∀ l < M.model.numLayers,
      CausalModel.Holds M.model.causal (content p.kv.blockSize c.scheduler.history) l (w.kvCaches l) := by
    rw [hcaches]
    exact h.memory
  rw [← hoffsets]
  exact PagedRunner.executeModel_ran hpos he hup hb hz
    (schedule_sharedPrefix hw h.base.sound.blocks hinj hzero hs)
    (fun id r hr => (htext.state.inv.len id r hr).2) htext.blocks (htext.settled hinj hzero)
    (fun slot x hx => schedule_pending hw h.text.blocks hs hx) hmem

/-- **Every event keeps the caches right.** -/
theorem PagedInv.step (h : PagedInv M p c t) (hu : UniqueIds t.seen e) (ha : TextEvent p e)
    (hs : Stepped p (pagedExecutor M p useCascade) c t e c' t') : PagedInv M p c' t' := by
  obtain ⟨sampled, hforget⟩ := hs.forget fun out s w changed w₁ hsched hreq hbatch hup => by
    obtain ⟨_, _, _, _, hup', -, -, hgather⟩ := h.batch hsched hreq hbatch
    cases hup.symm.trans hup'
    exact hgather
  have hbase : RefinementInv p c'.forget t' := by
    refine h.base.step ?_ hforget
    cases e with
    | addRequest r => exact hu
    | abortRequests ids => trivial
    | resetPrefixCache => trivial
    | encoderResult res => trivial
    | advance polled outcome => trivial
  have hsound : c.scheduler.Sound p := h.base.sound
  have hw := hsound.wf
  cases hs with
  | add r =>
    have hid : r.requestId ∉ c.scheduler.requests.keys := fun hk =>
      hu.2 (h.base.runner.queues.seen _ hk)
    obtain ⟨htext, hlen⟩ := ha
    exact ⟨hbase, h.params.addRequest hu.1 hid, h.text.addRequest hid hu.1 htext hlen, h.memory⟩
  | abort hf =>
    refine ⟨hbase, h.params.onward (sentIds_onward (Scheduler.finishRequests_onward hw hf).2)
      (fun id r hr => ⟨r, finishRequests_later hw hf hr, Evolved.refl r⟩) fun id st hst =>
        ⟨st, hst, rfl, rfl⟩, h.text.finishRequests rfl hsound hf, ?_⟩
    rw [finishRequests_history hw hf]
    exact h.memory
  | reset => exact ⟨hbase, h.params, h.text.resetPrefixCache, h.memory⟩
  | result hh =>
    obtain ⟨hh, hcaches, -⟩ := handleEncoderResult_paged hh
    have hres : EngineCore.handle (uniProcExecutor ρ p.maxNumRunningReqs) c.executor.runner (some _) =
      .ok _ := hh
    refine ⟨hbase, h.params.congr (EngineRun.handle_uniProc hres).1, h.text, ?_⟩
    rw [hcaches]
    exact h.memory
  | idle => exact h
  | @discard polled _ out s executor hsched hh hz =>
    obtain ⟨hh, hcaches, -⟩ := handle_paged hh
    have hnothing := (schedule_sent hw (knownTo_sentIds hw) hsched).nothing hz
    have hgot : (fun id => (out.numScheduledTokens.get? id).getD 0) = fun _ => 0 := by
      funext id
      rw [(Dict.get?_eq_none _ _).mpr (by rw [hnothing]; exact List.not_mem_nil)]
      rfl
    have htext := h.text.schedule hsched
    rw [hgot] at htext
    refine ⟨hbase, (h.params.congr (EngineRun.handle_uniProc hh).1).discard hsound hsched hz, htext, ?_⟩
    intro l hl slot ts x hx
    rw [hcaches]
    refine h.memory l hl slot ts x ((schedule_pending hw h.text.blocks hsched hx).resolve_right ?_)
    rintro ⟨id, n, _, _, hn, -⟩
    have hkey := Dict.mem_keys_of_get? hn
    rw [hnothing] at hkey
    exact List.not_mem_nil hkey
  | @execute polled _ out s s' w w' mo outputs hsched hh hz he hup =>
    obtain ⟨changed, w₁, rows, ns, hup₁, hupd, hran⟩ := h.executed hinj hzero hpos hsched hh hz he
    obtain ⟨selected, metadata, w₂, offsets, -, hprep, -, -, happ, -⟩ := hran.sampled
    obtain ⟨hh, -⟩ := handle_paged hh
    obtain ⟨p1, p2, p3, -⟩ := GPUModelRunner.prepareSampling_spec hprep
    obtain ⟨n, hinv⟩ := hupd.batch
    have hw' := Scheduler.schedule_wf hw hsched
    have hparams := (h.params.congr (EngineRun.handle_uniProc hh).1).schedule hsound hsched hupd
    refine ⟨hbase, (hparams.congr p1).update hw' (hinv.congr p2 p3) happ hup,
      (h.text.schedule hsched).update hup, ?_⟩
    rw [updateFromOutput_history hw' hup]
    exact hran.memory

end Steps

namespace EngineRun

/-- The caches hold, for every computed token of every running request, what the model stores for it in a
run of its own. -/
def Coherent (M : CausalLM F H Q K S O) (p : SchedulerParams) (c : EngineCore (PagedRunner ρ K)) : Prop :=
  ∀ id r q l, id ∈ c.scheduler.running → c.scheduler.requests.get? id = some r →
    q < r.numComputedTokens → l < M.model.numLayers →
    ∃ b, (c.scheduler.kv.blocksOf id)[q / p.kv.blockSize]? = some b ∧
      c.executor.kvCaches l (b, q % p.kv.blockSize) =
        M.model.causal.stored l (r.allTokenIds.take q) (r.allTokenIds.getD q 0)

/-- The runs of an engine with its model, whose caches may hold anything in the beginning, with text-only
requests and accepted prompts. -/
def PagedRun (M : CausalLM F H Q K S O) (p : SchedulerParams) (useCascade : ℤ → List ℕ → Bool)
    (kvCaches : ℕ → ℕ × ℕ → K) (offsets : Generator → ℕ) : EngineRun (PagedRunner ρ K) → Prop :=
  Reachable (fun σ e => step p (pagedExecutor M p useCascade) σ e)
    (fun σ e => σ.core.Orderly e ∧ UniqueIds σ.log.seen e ∧ TextEvent p e)
    (init p ⟨.init p.maxNumRunningReqs, kvCaches, offsets⟩)

/-- **The caches are coherent** in every state of every run: with any arrivals and aborts, chunks,
preemptions, resets, blocks that are shared, evicted and used again, and cascade attention. -/
theorem kv_cache_coherent (hinj : Function.Injective p.kv.hash) (hzero : ∀ x, p.kv.hash x ≠ 0)
    (hpos : ∀ n queryLens, useCascade n queryLens = true → 0 < n) {kvCaches : ℕ → ℕ × ℕ → K}
    {offsets : Generator → ℕ} {σ : EngineRun (PagedRunner ρ K)}
    (h : PagedRun M p useCascade kvCaches offsets σ) : Coherent M p σ.core := by
  have hinv : PagedInv M p σ.core σ.log.traces := by
    refine h.invariant (P := fun σ : EngineRun (PagedRunner ρ K) => PagedInv M p σ.core σ.log.traces)
      (PagedInv.init kvCaches offsets) ?_
    rintro σ e σ' hσ ⟨ho, hu, ha⟩ hs
    exact hσ.step hinj hzero hpos hu ha (step_stepped ho hs)
  intro id r q l hid hr hq hl
  obtain ⟨b, hb, hcontent⟩ := hinv.text.settled hinj hzero id r q hid hr hq
  exact ⟨b, hb, hinv.memory l hl _ _ _ hcontent⟩

end EngineRun

end

namespace EngineRun

open SchedulerRun (smallParams)

/-- Logits are whole numbers with powers of two as weights, equal ones are sorted by their places, and seeds
give small numbers. -/
def smallRandom : RandomOps ℚ where
  exp x := 2 ^ x.floor
  argsort row := (List.range row.length).insertionSort fun i j => row.getD i ⊥ ≤ row.getD j ⊥
  draw seed offset t := ((seed.natAbs + offset) * (t + 1) % 7 : ℕ) + 1
  exp_pos x := zpow_pos two_pos x.floor
  argsort_perm row := List.perm_insertionSort _ _
  argsort_sorted row := List.pairwise_map.mpr (List.pairwise_insertionSort _ _)
  draw_pos seed offset t := by positivity

/-- Two layers that store a number for every token and add up what they see; the logits of a state are
highest at the state modulo 8. -/
def addingModel : CausalLM ℚ ℕ Unit ℕ (List ℕ) (List ℕ) where
  model :=
    { numLayers := 2
      embedTokens := fun t => t + 1
      query := fun _ _ _ => ()
      key := fun l pos h => h * (l + 2) + pos.toNat
      attn := fun _ =>
        { attend := fun _ ks => ks
          flash := .reference _
          output := fun ks => ks
          mergeAttnStates := fun ks ks' => ks ++ ks'
          merge_append := fun _ _ _ _ _ => rfl }
      mlp := fun _ h ks => h + ks.sum }
  computeLogits h := (List.range 8).map fun t => if t = h % 8 then 1 else 0
  random := smallRandom

/-- Numbers that are not random at all. -/
def quiet : Noise ℚ where
  empty _ _ := 0
  exponential _ _ := 1
  exponential_pos _ _ := one_pos

/-- The second request begins with the block of the first one. -/
def pagedSharedRun : List (EngineEvent (List ℕ) (Noise ℚ)) :=
  [.addRequest (.ofPrompt "a" [1, 2, 3] []), .advance none quiet,
    .addRequest (.ofPrompt "b" [1, 2, 5] []), .advance none quiet]

theorem kv_cache_coherent_shared_block : ∃ σ : EngineRun (PagedRunner ℕ ℕ),
    PagedRun addingModel smallParams positivePrefix (fun _ _ => 77) (fun _ => 0) σ ∧
    Coherent addingModel smallParams σ.core ∧
    σ.core.scheduler.running = ["a", "b"] ∧
    (σ.core.scheduler.kv.blocksOf "b").head? = (σ.core.scheduler.kv.blocksOf "a").head? := by
  obtain ⟨σ, hσ, hrun, hshared⟩ := exists_reachable
    (fun σ e => step smallParams (pagedExecutor (ρ := ℕ) addingModel smallParams positivePrefix) σ e)
    (fun σ e => σ.core.Orderly e ∧ UniqueIds σ.log.seen e ∧ TextEvent smallParams e)
    (init smallParams ⟨.init smallParams.maxNumRunningReqs, fun _ _ => 77, fun _ => 0⟩) pagedSharedRun
    (fun σ => σ.core.scheduler.running = ["a", "b"] ∧
      (σ.core.scheduler.kv.blocksOf "b").head? = (σ.core.scheduler.kv.blocksOf "a").head?)
    (by decide +kernel)
  exact ⟨σ, hσ, kv_cache_coherent (M := addingModel) pairingHash_injective pairingHash_ne_zero
    positivePrefix_pos hσ, hrun, hshared⟩

end EngineRun

end SpaceServe
