import SpaceServe.Worker.Attention
import SpaceServe.Worker.Device
import SpaceServe.Worker.TopKTopP

/-!
# The model runner with its caches

`execute_model` of `vllm/v1/worker/gpu_model_runner.py` for a model that takes token ids, with the forward
pass over `kv_caches`, the sampler and the generators in it. The caches are not cleared before they are used,
so they may hold anything in the beginning. Padding for CUDA graphs is left out.

* `CausalLM`: the model; `PagedRunner`, `rewindRow`, `PagedRunner.executeModel`,
  `PagedRunner.executeModel_parts`;
* `gatherEncoderOutputs_text`: requests without encoder inputs gather nothing;
* `Plain`, **`prepareSampling_greedyRow`**: what the sampler is told about greedy requests;
* **`prepareSampling_samplerRow`**: what it is told about any request, when the device is up to date.
-/

set_option autoImplicit false

namespace SpaceServe

open Py

/-- A model with its decoder, its head and what it samples with. -/
structure CausalLM (F H Q K S O : Type) [Zero F] [LT F] where
  model : DecoderModel H Q K S O
  computeLogits : H → List Logit
  random : RandomOps F

/-- `GPUModelRunner` with `kv_caches`, one for each layer, and the offsets of the generators. -/
structure PagedRunner (ρ K : Type) where
  runner : GPUModelRunner (List ρ)
  kvCaches : ℕ → ℕ × ℕ → K
  offsets : Generator → ℕ

/-- `hidden_states[logits_indices]`. -/
def selectHidden {H : Type} (hiddenStates : List H) (logitsIndices : List ℤ) : Except Exn (List H) :=
  logitsIndices.mapM fun k => ofOption (.indexError "index out of range in self") hiddenStates[k.toNat]?

/-- `manual_seed` of the generator of a new request. -/
def seedNew (offsets : Generator → ℕ) (data : NewRequestData) : Generator → ℕ :=
  match data.samplingParams.generator data.reqId with
  | some g => Function.update offsets g 0
  | none => offsets

section

variable {F H Q K S O ρ : Type}

/-- The generator of a row whose token is ignored is rewound; the rows are those before the loop, of which
each round changes its own. -/
def rewindRow (out : SchedulerOutput) (w : GPUModelRunner (List ρ)) (offsets : Generator → ℕ)
    (row : Option ReqId × ℕ) : Generator → ℕ :=
  match row.1.bind w.requests.get?, row.1.bind out.numScheduledTokens.get?,
      w.inputBatch.generators.get? row.2 with
  | some state, some n, some g =>
    if state.numComputedTokens + n = state.numTokens then offsets
    else Function.update offsets g (offsets g - 4)
  | _, _, _ => offsets

variable [Field F] [LinearOrder F]

/-- `execute_model`. -/
def PagedRunner.executeModel (M : CausalLM F H Q K S O) (p : SchedulerParams)
    (useCascade : ℤ → List ℕ → Bool) (noise : Noise F) (w : PagedRunner ρ K) (out : SchedulerOutput) :
    Except Exn (ModelRunnerOutput × PagedRunner ρ K) := do
  let (batchChanged, runner) ← w.runner.updateStates p.maxNumRunningReqs out
  let offsets := out.scheduledNewReqs.foldl seedNew w.offsets
  let inputs ← runner.prepareInputs p.kv useCascade out
  let (hiddenStates, kvCaches) ← M.model.forward p.kv.blockSize runner.inputBatch.blockTable inputs
    w.kvCaches
  let hiddenStates ← selectHidden hiddenStates inputs.logitsIndices
  let (metadata, runner) ← runner.prepareSampling batchChanged
  let (sampled, offsets) ← Sampler.forward (M.random.forwardNative noise)
    (hiddenStates.map M.computeLogits) metadata offsets
  let rows := (runner.inputBatch.reqIds.take runner.inputBatch.numReqs).zipIdx
  let offsets := rows.foldl (rewindRow out runner) offsets
  let runner ← rows.foldlM (GPUModelRunner.appendSampled out sampled) runner
  .ok ({ reqIdToIndex := runner.inputBatch.reqIdToIndex, sampledTokenIds := sampled },
    { runner, kvCaches, offsets })

/-- How an execution has run. -/
theorem PagedRunner.executeModel_parts {M : CausalLM F H Q K S O} {p : SchedulerParams}
    {useCascade : ℤ → List ℕ → Bool} {noise : Noise F} {w w' : PagedRunner ρ K} {out : SchedulerOutput}
    {mo : ModelRunnerOutput} (h : w.executeModel M p useCascade noise out = .ok (mo, w')) :
    ∃ changed w₁ inputs hiddenStates selected metadata w₂ offsets,
      w.runner.updateStates p.maxNumRunningReqs out = .ok (changed, w₁) ∧
      w₁.prepareInputs p.kv useCascade out = .ok inputs ∧
      M.model.forward p.kv.blockSize w₁.inputBatch.blockTable inputs w.kvCaches =
        .ok (hiddenStates, w'.kvCaches) ∧
      selectHidden hiddenStates inputs.logitsIndices = .ok selected ∧
      w₁.prepareSampling changed = .ok (metadata, w₂) ∧
      Sampler.forward (M.random.forwardNative noise) (selected.map M.computeLogits) metadata
        (out.scheduledNewReqs.foldl seedNew w.offsets) = .ok (mo.sampledTokenIds, offsets) ∧
      w'.offsets = (w₂.inputBatch.reqIds.take w₂.inputBatch.numReqs).zipIdx.foldl (rewindRow out w₂)
        offsets ∧
      (w₂.inputBatch.reqIds.take w₂.inputBatch.numReqs).zipIdx.foldlM
        (GPUModelRunner.appendSampled out mo.sampledTokenIds) w₂ = .ok w'.runner ∧
      mo.reqIdToIndex = w'.runner.inputBatch.reqIdToIndex := by
  unfold executeModel at h
  simp only [bind_eq_ok] at h
  obtain ⟨⟨changed, w₁⟩, h₁, inputs, h₂, ⟨hiddenStates, kvCaches⟩, h₃, selected, h₄, ⟨metadata, w₂⟩, h₅,
    ⟨sampled, offsets⟩, h₆, w₃, h₇, h⟩ := h
  cases h
  exact ⟨changed, w₁, inputs, hiddenStates, selected, metadata, w₂, offsets, h₁, h₂, h₃, h₄, h₅, h₆, rfl, h₇,
    rfl⟩

end

/-! ## Requests without encoder inputs -/

namespace GPUModelRunner

variable {ρ : Type} {w w' : GPUModelRunner (List ρ)} {out : SchedulerOutput} {rows : List ReqId}

/-- **Requests without encoder inputs** gather nothing. -/
theorem gatherEncoderOutputs_text
    (hrows : w.inputBatch.reqIds.take w.inputBatch.numReqs = rows.map some)
    (htext : ∀ id ∈ rows, id ∈ out.numScheduledTokens.keys ∧
      ∃ st, w.requests.get? id = some st ∧ st.mmPositions = []) :
    w.gatherEncoderOutputs out = .ok [] := by
  have hround : ∀ row ∈ rows.map some, w.gatherRow out [] row = .ok [] := by
    intro row hrow
    obtain ⟨id, hid, rfl⟩ := List.mem_map.mp hrow
    obtain ⟨hkey, st, hst, hmm⟩ := htext id hid
    obtain ⟨n, hn⟩ := Dict.exists_get?_of_mem hkey
    rw [gatherRow, hn, ofOption_some, ok_bind, hst, ofOption_some, ok_bind, hmm, gatherInputs]
  have hstep : ∀ (outputs : List (List ρ)) row, row ∈ rows.map some → outputs = [] →
      ∃ outputs', w.gatherRow out outputs row = .ok outputs' ∧ outputs' = [] := by
    rintro outputs row hrow rfl
    exact ⟨[], hround row hrow, rfl⟩
  obtain ⟨outputs, hok, hnil⟩ := foldlM_total hstep rfl
  rw [gatherEncoderOutputs, hrows, hok, hnil]

end GPUModelRunner

/-! ## Greedy requests -/

/-- Greedy sampling without penalties. -/
structure SamplingParams.Plain (sp : SamplingParams) : Prop where
  greedy : sp.samplingType = .greedy
  frequency : sp.frequencyPenalty = 0
  presence : sp.presencePenalty = 0
  repetition : sp.repetitionPenalty = 1

instance (sp : SamplingParams) : Decidable sp.Plain :=
  decidable_of_iff (sp.samplingType = .greedy ∧ sp.frequencyPenalty = 0 ∧ sp.presencePenalty = 0 ∧
    sp.repetitionPenalty = 1) ⟨fun ⟨h1, h2, h3, h4⟩ => ⟨h1, h2, h3, h4⟩,
      fun h => ⟨h.greedy, h.frequency, h.presence, h.repetition⟩⟩

namespace InputBatch

variable {b : InputBatch} {requests : Dict ReqId CachedRequestState}

/-- A group that nobody in the batch asks for is empty. -/
theorem Faithful.members_eq_empty (h : b.Faithful requests) (g : SamplingGroup)
    (hnot : ∀ id ∈ b.reqIdToIndex.keys, ∀ st, requests.get? id = some st → ¬ g.Asks st.samplingParams) :
    b.members g = ∅ := by
  ext id
  simp only [Finset.notMem_empty, iff_false]
  intro hid
  obtain ⟨hkey, st, hst, hasks⟩ := (h.members g id).mp hid
  exact hnot id hkey st hst hasks

/-- A batch of plain requests has no random ones and no penalties. -/
theorem Faithful.plain (h : b.Faithful requests) (hplain : ∀ id ∈ b.reqIdToIndex.keys, ∀ st,
      requests.get? id = some st → st.samplingParams.Plain) :
    b.randomReqs = ∅ ∧ b.noPenalties = true := by
  have hempty : ∀ g : SamplingGroup, (∀ sp : SamplingParams, sp.Plain → ¬ g.Asks sp) → b.members g = ∅ :=
    fun g hnot => h.members_eq_empty g fun id hid st hst => hnot _ (hplain id hid st hst)
  have hfreq := hempty .frequencyPenalties fun sp hp hask => hask hp.frequency
  have hpres := hempty .presencePenalties fun sp hp hask => hask hp.presence
  have hrep := hempty .repetitionPenalties fun sp hp hask => hask hp.repetition
  exact ⟨hempty .random fun sp hp hask => hask hp.greedy, decide_eq_true ⟨hpres, hfreq, hrep⟩⟩

end InputBatch

/-- **What the sampler is told about a row** of a batch of plain requests. -/
theorem GPUModelRunner.prepareSampling_greedyRow {V : Type} {w w' : GPUModelRunner V} {changed : Bool}
    {metadata : SamplingMetadata} (h : w.prepareSampling changed = .ok (metadata, w'))
    (hf : w.inputBatch.Faithful w.requests)
    (hplain : ∀ id ∈ w.inputBatch.reqIdToIndex.keys, ∀ st, w.requests.get? id = some st →
      st.samplingParams.Plain) {rows : List ReqId}
    (hrows : w.inputBatch.reqIds.take w.inputBatch.numReqs = rows.map some)
    (hlen : rows.length = w.inputBatch.numReqs) {i : ℕ} {id : ReqId} {st : CachedRequestState}
    (hi : rows[i]? = some id) (hidx : w.inputBatch.reqIdToIndex.get? id = some i)
    (hst : w.requests.get? id = some st) :
    Sampler.GreedyRow metadata i st.samplingParams.minTokens st.outputTokenIds
      st.samplingParams.allStopTokenIds := by
  obtain ⟨hrandom, hpen⟩ := hf.plain hplain
  obtain ⟨st', hst', hrow⟩ := hf.rows id i hidx
  obtain rfl := Option.some.inj (hst.symm.trans hst')
  have hlt : i < w.inputBatch.numReqs := hlen ▸ (List.getElem?_eq_some_iff.mp hi).1
  have hmin : w.inputBatch.minTokens i = st.samplingParams.minTokens :=
    congrArg SamplingRow.minTokens hrow.sampling
  have hstop : w.inputBatch.stopTokenIds i = st.samplingParams.allStopTokenIds :=
    congrArg SamplingRow.stopTokenIds hrow.sampling
  have hget : ∀ {α : Type} (f : ℕ → α), ((List.range w.inputBatch.numReqs).map f)[i]? = some (f i) := by
    intro α f
    rw [List.getElem?_map, List.getElem?_range hlt, Option.map_some]
  -- the copy to the device changes nothing of this
  have hcopy : ∀ b : InputBatch, (b = w.inputBatch ∨ b = w.inputBatch.copyToDevice) →
      b.reqIds = w.inputBatch.reqIds ∧ b.numReqs = w.inputBatch.numReqs ∧
      b.minTokens = w.inputBatch.minTokens ∧ b.stopTokenIds = w.inputBatch.stopTokenIds ∧
      b.randomReqs = ∅ ∧ b.noPenalties = true := by
    rintro b (rfl | rfl)
    · exact ⟨rfl, rfl, rfl, rfl, hrandom, hpen⟩
    · unfold InputBatch.copyToDevice
      rw [if_pos hpen]
      exact ⟨rfl, rfl, rfl, rfl, hrandom, hpen⟩
  unfold prepareSampling InputBatch.makeSamplingMetadata at h
  simp only [bind_eq_ok] at h
  obtain ⟨⟨metadata', b⟩, ⟨outputs, houtputs, hb⟩, h⟩ := h
  cases h
  obtain ⟨h1, h2, h3, h4, h5, h6⟩ := hcopy (if (!changed) = true then w.inputBatch
    else w.inputBatch.copyToDevice) (by split_ifs <;> simp)
  cases hb
  rw [h1, h2, hrows] at houtputs
  obtain ⟨o, ho, hrowOutput⟩ := (getElem?_of_mapM houtputs).2 i (some id) (by
    rw [List.getElem?_map, hi, Option.map_some])
  rw [InputBatch.rowOutput, ofOption_eq_ok, Dict.get?_mapValues, hst] at hrowOutput
  obtain rfl := Option.some.inj hrowOutput
  refine ⟨?_, ho, ?_, ⟨_, by rw [h2]; exact hget _⟩, decide_eq_true h5, h6⟩
  · rw [h2, h3, hget, hmin]
  · rw [h2, h4, hget, hstop]

/-! ## Any request -/

/-- The greedy requests are those with a temperature of zero. -/
theorem SamplingParams.greedy_iff {sp : SamplingParams} :
    sp.samplingType = .greedy ↔ sp.temperature < samplingEps := by
  unfold samplingType samplingEps
  split_ifs with h1 h2
  · exact iff_of_true rfl h1
  · exact iff_of_false (by decide) h1
  · exact iff_of_false (by decide) h1

namespace InputBatch

variable {b : InputBatch} {requests : Dict ReqId CachedRequestState} {id : ReqId} {i : ℕ}
  {st : CachedRequestState}

/-- A request of the batch asks for nothing that nobody asks for. -/
theorem Faithful.not_asks (h : b.Faithful requests) (hidx : b.reqIdToIndex.get? id = some i)
    (hst : requests.get? id = some st) {g : SamplingGroup} (hg : b.members g = ∅) :
    ¬ g.Asks st.samplingParams := fun hasks => by
  have hmem := (h.members g id).mpr ⟨Dict.mem_keys_of_get? hidx, st, hst, hasks⟩
  rw [hg] at hmem
  exact Finset.notMem_empty id hmem

/-- The tokens in the row of a prompt tensor are those of the prompt. -/
theorem PromptRow.mem_iff {row : List (Option TokenId)} (h : b.PromptRow i row)
    (hrow : (b.row i).Holds st) (t : TokenId) : some t ∈ row ↔ t ∈ st.promptTokenIds := by
  have hnum : b.numPromptTokens i = st.promptTokenIds.length := hrow.numPromptTokens
  have hcell : ∀ j (hj : j < st.promptTokenIds.length), b.tokenIdsCpu i j = st.promptTokenIds[j] :=
    fun j hj => hrow.tokens j _ (by rw [List.getElem?_append_left hj, List.getElem?_eq_getElem hj])
  constructor
  · intro hmem
    obtain ⟨j, hj⟩ := List.mem_iff_getElem?.mp hmem
    have hcase := h j
    rw [hj, hnum] at hcase
    split_ifs at hcase with hlt
    · rw [Option.some.inj hcase, hcell j hlt]
      exact List.getElem_mem hlt
    · cases hcase
  · intro hmem
    obtain ⟨j, hj, rfl⟩ := List.mem_iff_getElem.mp hmem
    have hcase := h j
    rw [hnum, if_pos hj, hcell j hj, Option.join_eq_some_iff] at hcase
    exact List.mem_of_getElem? hcase

end InputBatch

/-- **What the sampler is told about a row**, when the device holds the parameters of the rows. -/
theorem GPUModelRunner.prepareSampling_samplerRow {V : Type} {w w' : GPUModelRunner V} {changed : Bool}
    {metadata : SamplingMetadata} (h : w.prepareSampling changed = .ok (metadata, w'))
    (hf : w'.inputBatch.Faithful w'.requests) (hd : w'.inputBatch.DeviceSynced) {i : ℕ} {id : ReqId}
    {st : CachedRequestState}
    (hi : (w'.inputBatch.reqIds.take w'.inputBatch.numReqs)[i]? = some (some id))
    (hidx : w'.inputBatch.reqIdToIndex.get? id = some i) (hst : w'.requests.get? id = some st) :
    Sampler.SamplerRow metadata i st.samplingParams st.promptTokenIds st.outputTokenIds := by
  obtain ⟨st', hst', hrow⟩ := hf.rows id i hidx
  obtain rfl := Option.some.inj (hst.symm.trans hst')
  have hlt : i < w'.inputBatch.numReqs :=
    Nat.lt_of_lt_of_le (List.getElem?_eq_some_iff.mp hi).1 (by rw [List.length_take]; omega)
  have hget : ∀ {α : Type} (f : ℕ → α), ((List.range w'.inputBatch.numReqs).map f)[i]? = some (f i) := by
    intro α f
    rw [List.getElem?_map, List.getElem?_range hlt, Option.map_some]
  have hnot : ∀ {g : SamplingGroup}, w'.inputBatch.members g = ∅ → ¬ g.Asks st.samplingParams :=
    fun hg => hf.not_asks hidx hst hg
  have hsampling : (w'.inputBatch.row i).sampling = st.samplingParams.row := hrow.sampling
  unfold prepareSampling InputBatch.makeSamplingMetadata at h
  simp only [bind_eq_ok] at h
  obtain ⟨⟨metadata', b⟩, ⟨outputs, houtputs, hb⟩, h⟩ := h
  cases h
  generalize (if (!changed) = true then w.inputBatch else w.inputBatch.copyToDevice) = b' at houtputs hb
  cases hb
  obtain ⟨o, ho, hrowOutput⟩ := (getElem?_of_mapM houtputs).2 i (some id) hi
  rw [InputBatch.rowOutput, ofOption_eq_ok, Dict.get?_mapValues, hst] at hrowOutput
  obtain rfl := Option.some.inj hrowOutput
  obtain ⟨htemp, htopP, htopK⟩ := hd.params i hlt
  refine ⟨?_, ho, ?_, ?_, ?_, ?_, fun hno => ?_, fun hno => ?_, fun hno => ?_, fun hg => ?_, fun hg => ?_,
    fun hno => ?_, fun hno => ?_⟩
  · exact (hget _).trans (congrArg some (congrArg SamplingRow.minTokens hsampling))
  · exact (hget _).trans (congrArg some (congrArg SamplingRow.stopTokenIds hsampling))
  · exact (hget _).trans (congrArg some (htemp.trans (congrArg SamplingRow.temperature hsampling)))
  · exact (hget _).trans (congrArg some (htopK.trans (congrArg SamplingRow.topK hsampling)))
  · exact (hget _).trans (congrArg some (htopP.trans (congrArg SamplingRow.topP hsampling)))
  · obtain ⟨h1, h2, h3⟩ := of_decide_eq_true hno
    exact ⟨not_not.mp (hnot (g := .presencePenalties) h1), not_not.mp (hnot (g := .frequencyPenalties) h2),
      not_not.mp (hnot (g := .repetitionPenalties) h3)⟩
  · obtain ⟨h1, h2, h3⟩ := hd.penalties hno i hlt
    exact ⟨(hget _).trans (congrArg some (h2.trans (congrArg SamplingRow.presencePenalty hsampling))),
      (hget _).trans (congrArg some (h1.trans (congrArg SamplingRow.frequencyPenalty hsampling))),
      (hget _).trans (congrArg some (h3.trans (congrArg SamplingRow.repetitionPenalty hsampling)))⟩
  · obtain ⟨tensor, htensor, hrows⟩ := hd.prompts hno
    obtain ⟨row, hget', hprompt⟩ := hrows i hlt
    exact ⟨tensor, row, htensor, hget', fun t => hprompt.mem_iff hrow t⟩
  · exact decide_eq_false fun hempty => hnot (g := .greedy) hempty (SamplingParams.greedy_iff.mpr hg)
  · exact decide_eq_false fun hempty => hnot (g := .random) hempty fun hgreedy =>
      hg (SamplingParams.greedy_iff.mp hgreedy)
  · exact not_lt.mp (hnot (g := .topK) (of_decide_eq_true hno))
  · exact not_lt.mp (hnot (g := .topP) (of_decide_eq_true hno))

end SpaceServe
