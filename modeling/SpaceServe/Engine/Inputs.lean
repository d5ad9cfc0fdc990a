import SpaceServe.Engine.Refinement
import SpaceServe.Worker.Inputs

/-!
# The inputs of a forward pass in runs of the engine

After `_update_states` the rows of the batch hold what the scheduler has of the scheduled requests, so
the flat arrays of `_prepare_inputs` hold the tokens and the slots of the scheduled windows.

* `RowOf`, `BatchOf`: the rows hold what the scheduler has; **`RefinementInv.batch`**;
* `Short`: requests stay below the length limit; `Short.step`;
* `WindowAt`, **`BatchOf.prepareInputs`**: the inputs of the scheduled windows;
* `PromptRun`, `PromptRun.short`: the runs with accepted prompts.
-/

set_option autoImplicit false

namespace SpaceServe

open Py

section

variable {ρ : Type} {p : SchedulerParams}

/-! ## The rows -/

/-- Row `i` holds what the scheduler has of a request that was given `n` tokens. -/
structure RowOf (s : Scheduler) (out : SchedulerOutput) (b : InputBatch) (i : ℕ) (id : ReqId) (n : ℕ)
    (r : Request) : Prop where
  request : s.requests.get? id = some r
  scheduled : out.numScheduledTokens.get? id = some n
  running : id ∈ s.running
  within : r.numComputedTokens + n ≤ r.numTokens
  computed : b.numComputedTokensCpu i = r.numComputedTokens
  tokens : ∀ q t, r.allTokenIds[q]? = some t → b.tokenIdsCpu i q = t
  blocks : ∀ j k, (s.kv.blocksOf id)[j]? = some k → b.blockTable i j = k

/-- The rows of the batch are the scheduled requests, and hold what the scheduler has of them. -/
structure BatchOf (s : Scheduler) (out : SchedulerOutput) (w : GPUModelRunner (List ρ))
    (rows : List ReqId) (ns : List ℕ) : Prop where
  scheduled : GPUModelRunner.ScheduledRows w out rows ns
  perm : rows.Perm out.numScheduledTokens.keys
  row : ∀ i id, rows[i]? = some id → ∃ n r, ns[i]? = some n ∧ RowOf s out w.inputBatch i id n r

variable {s s' : Scheduler} {w w₁ : GPUModelRunner (List ρ)} {out : SchedulerOutput}
  {available : ReqId → ℕ → Bool} {rows : List ReqId} {ns : List ℕ}

theorem BatchOf.of_updated (h : s.Sound p) (hs : s.schedule p available = .ok (out, s')) {n₁ : ℕ}
    (hinv : w₁.inputBatch.Inv p.maxNumRunningReqs n₁ [])
    (hrows : ∀ id, id ∈ w₁.inputBatch.reqIdToIndex.keys ↔ id ∈ out.numScheduledTokens.keys)
    (hf : w₁.inputBatch.Faithful w₁.requests) (href : Refines out s' w₁) :
    ∃ rows ns, BatchOf s' out w₁ rows ns := by
  have hsent := schedule_sent h.wf (knownTo_sentIds h.wf) hs
  have hdeltas := schedule_deltas h hs
  obtain ⟨rows, ns, hsched, hperm, hget⟩ :=
    GPUModelRunner.ScheduledRows.of_inv hinv hrows hsent.pos hsent.total
  refine ⟨rows, ns, hsched, hperm, fun i id hi => ?_⟩
  have hid := List.mem_of_getElem? hi
  obtain ⟨n, hni, hn⟩ := hsched.tokens_at hi
  obtain ⟨st, r, hst, hr, hblocks, hnc, htok⟩ := href id (hperm.mem_iff.mp hid)
  obtain ⟨st', hst', hrow⟩ := hf.rows id i ((hget i id).mp hi)
  obtain rfl := Option.some.inj (hst.symm.trans hst')
  refine ⟨n, r, hni, hr, hn,
    hsent.running id (hperm.mem_iff.mp hid), hdeltas.within id n r hn hr, ?_, ?_, ?_⟩
  · exact hrow.numComputedTokens.trans hnc
  · rw [← htok]
    exact hrow.tokens
  · intro j k hk
    refine hrow.blocks j k ?_
    rw [hblocks]
    exact hk

/-- **After `_update_states`** the rows hold what the scheduler has. -/
theorem RefinementInv.batch {c : EngineCore (GPUModelRunner (List ρ))} {t : Traces}
    (h : RefinementInv p c t) (hs : c.scheduler.schedule p available = .ok (out, s))
    (hreq : w.requests = c.executor.requests) (hbatch : w.inputBatch = c.executor.inputBatch) :
    ∃ changed w₁ rows ns, w.updateStates p.maxNumRunningReqs out = .ok (changed, w₁) ∧
      BatchOf s out w₁ rows ns := by
  obtain ⟨changed, w₁, hup, href⟩ := h.refines hs hreq hbatch
  obtain ⟨_, _, hup', hupd⟩ := h.runner.updateStates hs hreq hbatch
  rw [hup] at hup'
  cases hup'
  obtain ⟨n₁, hinv⟩ := hupd.batch
  have hf : w₁.inputBatch.Faithful w₁.requests := by
    refine hupd.faithful ?_
    rw [hreq, hbatch]
    exact h.runner.faithful
  obtain ⟨rows, ns, hb⟩ := BatchOf.of_updated h.sound hs hinv hupd.rows hf href
  exact ⟨changed, w₁, rows, ns, hup, hb⟩

/-- A batch that is executed has rows. -/
theorem BatchOf.ne_nil (h : BatchOf s out w rows ns) (hz : out.totalNumScheduledTokens ≠ 0) :
    rows ≠ [] := by
  rintro rfl
  refine hz ?_
  have hns := List.length_eq_zero_iff.mp h.scheduled.tokens.length_eq.symm
  rw [h.scheduled.total, hns]
  rfl

/-! ## The length limit -/

variable (p) in
/-- The requests are shorter than the model allows. -/
def Short (s : Scheduler) : Prop := ∀ id r, s.requests.get? id = some r → r.numTokens < p.kv.maxModelLen

variable (p) in
/-- Prompts are not empty and shorter than the model allows, as the `Processor` checks. -/
def AcceptedPrompt {V O : Type} : EngineEvent V O → Prop
  | .addRequest r => 0 < r.promptTokenIds.length ∧ r.promptTokenIds.length < p.kv.maxModelLen
  | _ => True

instance {V O : Type} : (e : EngineEvent V O) → Decidable (AcceptedPrompt p e)
  | .addRequest r => inferInstanceAs (Decidable (0 < r.promptTokenIds.length ∧
      r.promptTokenIds.length < p.kv.maxModelLen))
  | .abortRequests _ => inferInstanceAs (Decidable True)
  | .resetPrefixCache => inferInstanceAs (Decidable True)
  | .encoderResult _ => inferInstanceAs (Decidable True)
  | .advance _ _ => inferInstanceAs (Decidable True)

theorem Short.init (p : SchedulerParams) : Short p (.init p) := by
  intro id r hr
  cases hr

theorem Short.of_later (h : Short p s) (hl : ∀ id r', s'.requests.get? id = some r' →
    ∃ r, s.requests.get? id = some r ∧ Later p r r') : Short p s' := by
  intro id r' hr'
  obtain ⟨r, hr, hlater⟩ := hl id r' hr'
  obtain hlen | hlen := hlater.len
  · rw [hlen]
    exact h id r hr
  · exact hlen

theorem Short.schedule (h : Short p s) (hsound : s.Sound p)
    (hs : s.schedule p available = .ok (out, s')) : Short p s' := by
  refine h.of_later fun id r' hr' => ?_
  obtain ⟨r, hr, hres⟩ := (hsound.blocks.schedule hsound.wf hs).2 id r' hr'
  exact ⟨r, hr, hres.later⟩

/-- **Requests stay short.** -/
theorem Short.step {E V O : Type} {x : Executor E V O} {c c' : EngineCore E} {t t' : Traces}
    {e : EngineEvent V O} (h : Short p c.scheduler) (hsound : c.scheduler.Sound p)
    (hnew : UniqueIds t.seen e) (ha : AcceptedPrompt p e) (hs : Stepped p x c t e c' t') :
    Short p c'.scheduler := by
  cases hs with
  | add r =>
    intro id r' hr'
    obtain ⟨-, rfl⟩ | ⟨-, hr'⟩ := Scheduler.addRequest_get? hr'
    · rw [Request.numTokens, Request.allTokenIds, hnew.1.2.2.1, List.append_nil]
      exact ha.2
    · exact h id r' hr'
  | abort hf => exact fun id r hr => h id r (finishRequests_later hsound.wf hf hr)
  | reset => exact h
  | result hh => exact h
  | idle => exact h
  | discard hsched hh hz => exact h.schedule hsound hsched
  | execute hsched hh hz he hup =>
    exact (h.schedule hsound hsched).of_later fun id r' hr' =>
      updateFromOutput_later (Scheduler.schedule_wf hsound.wf hsched) hup hr'

/-! ## The inputs -/

/-- The inputs at `k` are those of token `q` of a request. -/
structure WindowAt (p : KVCacheParams) (kv : KVCacheManager) (inputs : ModelInputs) (id : ReqId)
    (r : Request) (q k : ℕ) : Prop where
  position : inputs.positions[k]? = some (q : ℤ)
  inputId : ∃ t, r.allTokenIds[q]? = some t ∧ inputs.inputIds[k]? = some t
  slot : ∃ block, (kv.blocksOf id)[q / p.blockSize]? = some block ∧
    inputs.slotMapping[k]? = some ((block * p.blockSize + q % p.blockSize : ℕ) : ℤ)

/-- A scheduled position has a block. -/
theorem RunningBlocks.block_at {p : KVCacheParams} {kv : KVCacheManager} {id : ReqId} {r : Request}
    {g q : ℕ} (h : RunningBlocks p kv id r g) (hq : q < r.numComputedTokens + g)
    (hlen : q < p.maxModelLen) : ∃ block, (kv.blocksOf id)[q / p.blockSize]? = some block := by
  have hlt : q / p.blockSize < (kv.blocksOf id).length := by
    obtain hc | hc := h.covered
    · rw [Nat.div_lt_iff_lt_mul p.blockSize_pos]
      omega
    · exact Nat.lt_of_lt_of_le (div_lt_maxNumBlocksPerReq hlen) hc
  exact ⟨_, List.getElem?_eq_getElem hlt⟩

/-- Token `j` of row `i` is a token of the request in that row. -/
theorem RowOf.windowAt {b : InputBatch} {i n j k : ℕ} {id : ReqId} {r : Request} {inputs : ModelInputs}
    (h : RowOf s out b i id n r) (hshort : Short p s)
    (hb : BlocksInv p s fun id => (out.numScheduledTokens.get? id).getD 0) (hj : j < n)
    (hat : GPUModelRunner.InputsAt p.kv b inputs i j k) :
    WindowAt p.kv s.kv inputs id r (r.numComputedTokens + j) k := by
  have hlen := hshort id r h.request
  have hwithin := h.within
  have hq : r.numComputedTokens + j < r.allTokenIds.length :=
    Nat.lt_of_lt_of_le (Nat.add_lt_add_left hj _) hwithin
  have hmax : r.numComputedTokens + j < p.kv.maxModelLen := Nat.lt_trans hq hlen
  obtain ⟨hpos, hid, hslot⟩ := hat
  rw [h.computed] at hpos hid hslot
  rw [← Nat.cast_add] at hpos hid hslot
  refine ⟨hpos, ⟨_, List.getElem?_eq_getElem hq, ?_⟩, ?_⟩
  · rw [← Nat.cast_add, Int.toNat_natCast, Nat.add_comm _ (i * _), flatAt_eq _ hmax] at hid
    rw [hid, h.tokens _ _ (List.getElem?_eq_getElem hq)]
  · have hrun := hb.running id r h.running h.request
    simp only [h.scheduled, Option.getD_some] at hrun
    obtain ⟨block, hblock⟩ := hrun.block_at (Nat.add_lt_add_left hj _) hmax
    refine ⟨block, hblock, ?_⟩
    rw [← Int.natCast_ediv, ← Nat.cast_add, Int.toNat_natCast,
      flatAt_eq _ (div_lt_maxNumBlocksPerReq hmax), h.blocks _ _ hblock, ← Int.natCast_emod,
      ← Nat.cast_add] at hslot
    exact hslot

/-- **The inputs of the scheduled windows**: those of token `j` of row `i` stand behind those of the rows
before it. -/
theorem BatchOf.prepareInputs (h : BatchOf s out w rows ns) (hne : rows ≠ []) (hshort : Short p s)
    (hb : BlocksInv p s fun id => (out.numScheduledTokens.get? id).getD 0)
    (useCascade : ℤ → List ℕ → Bool) :
    ∃ inputs, w.prepareInputs p.kv useCascade out = .ok inputs ∧
      inputs.inputIds.length = ns.sum ∧ inputs.slotMapping.length = ns.sum ∧
      ∀ i id n r j, rows[i]? = some id → ns[i]? = some n → s.requests.get? id = some r → j < n →
        WindowAt p.kv s.kv inputs id r (r.numComputedTokens + j) (offset ns i + j) := by
  obtain ⟨inputs, hok, hp⟩ := GPUModelRunner.prepareInputs_spec p.kv useCascade h.scheduled hne
  refine ⟨inputs, hok, hp.inputIds_length, hp.slotMapping_length, fun i id n r j hi hn hr hj => ?_⟩
  obtain ⟨n', r', hn', hrow⟩ := h.row i id hi
  obtain rfl := Option.some.inj (hn.symm.trans hn')
  obtain rfl := Option.some.inj (hr.symm.trans hrow.request)
  exact hrow.windowAt hshort hb hj (hp.token i n j hn hj)

namespace EngineRun

/-- The runs in which every prompt has passed the checks of the `Processor`. -/
def PromptRun (p : SchedulerParams) : EngineRun (GPUModelRunner (List ρ)) → Prop :=
  Reachable (fun σ e => step p (uniProcExecutor ρ p.maxNumRunningReqs) σ e)
    (fun σ e => σ.core.Orderly e ∧ UniqueIds σ.log.seen e ∧ AcceptedPrompt p e)
    (init p (.init p.maxNumRunningReqs))

variable {σ : EngineRun (GPUModelRunner (List ρ))}

theorem PromptRun.unique (h : PromptRun p σ) : UniqueRun p σ := h.mono fun _ _ he => ⟨he.1, he.2.1⟩

theorem PromptRun.short (h : PromptRun p σ) : Short p σ.core.scheduler := by
  have hinv : RefinementInv p σ.core σ.log.traces ∧ Short p σ.core.scheduler := by
    refine h.invariant (P := fun σ : EngineRun (GPUModelRunner (List ρ)) =>
      RefinementInv p σ.core σ.log.traces ∧ Short p σ.core.scheduler)
      ⟨RefinementInv.init p, Short.init p⟩ ?_
    rintro σ e σ' ⟨hσ, hshort⟩ ⟨ho, hu, ha⟩ hs
    have hst := step_stepped ho hs
    exact ⟨hσ.step hu hst, hshort.step hσ.sound hu ha hst⟩
  exact hinv.2

end EngineRun

end

namespace EngineRun

open SchedulerRun (smallParams)

/-- The inputs of the next execution. -/
def preparedNext (σ : EngineRun (GPUModelRunner (List ℕ))) :
    Except Exn ((SchedulerOutput × Scheduler) × ModelInputs) := do
  let (out, s) ← σ.core.scheduler.schedule smallParams (σ.core.available smallExecutor)
  let (_, w) ← σ.core.executor.updateStates smallParams.maxNumRunningReqs out
  let inputs ← w.prepareInputs smallParams.kv (fun _ _ => true) out
  .ok ((out, s), inputs)

theorem preparedNext_eq_ok {σ : EngineRun (GPUModelRunner (List ℕ))} {out : SchedulerOutput}
    {s : Scheduler} {inputs : ModelInputs} (h : σ.preparedNext = .ok ((out, s), inputs)) :
    σ.core.scheduler.schedule smallParams (σ.core.available smallExecutor) = .ok (out, s) ∧
    ∃ changed w, σ.core.executor.updateStates smallParams.maxNumRunningReqs out = .ok (changed, w) ∧
      w.prepareInputs smallParams.kv (fun _ _ => true) out = .ok inputs := by
  simp only [preparedNext, bind_eq_ok] at h
  obtain ⟨⟨out', s'⟩, hs, ⟨changed, w⟩, hup, inputs', hprep, h⟩ := h
  simp only [Except.ok.injEq, Prod.mk.injEq] at h
  obtain ⟨⟨rfl, rfl⟩, rfl⟩ := h
  exact ⟨hs, changed, w, hup, hprep⟩

/-- A prompt has been computed when another with the same first block arrives. -/
def sharedBlockRun : List (EngineEvent (List ℕ) (List TokenId)) :=
  [.addRequest (.ofPrompt "a" [1, 2, 3] []), .advance none [9],
    .addRequest (.ofPrompt "b" [1, 2, 5] [])]

end EngineRun

end SpaceServe
