import SpaceServe.Engine.Seeds

/-!
# The tokens of an engine with its model

What an engine samples for a request that has caught up, in any batch: a token chosen from the logits of the
model on the whole sequence, by what the request asks for, and by random numbers of its own.

* `CausalLM.sampledToken`, `Chosen`: how a token is chosen; `CausalLM.decode`: decoding on its own;
* `Reproducible`, `Chosen.eq_nextToken`: greedy and seeded requests have one token to choose;
* `Sampling`, `PagedInv.sampling`, `PagedInv.samplerRow`: what an execution samples from;
* `Allows`, **`Chosen.allows`**: what a request promises of its tokens;
* **`PagedInv.executed_plain`**, **`PagedInv.executed_sampled`**: its token, among plain requests, and among
  any when the device is up to date;
* `call_chosen`: what a call of `step` appends.
-/

set_option autoImplicit false

namespace SpaceServe

open Py

section

variable {F H Q K S O ρ : Type} [Field F] [LinearOrder F] {M : CausalLM F H Q K S O} {p : SchedulerParams}
  {useCascade : ℤ → List ℕ → Bool}

/-! ## Decoding on its own -/

/-- The logits behind the tokens `ts`, from a run of the model over all of them. -/
def CausalLM.logits (M : CausalLM F H Q K S O) (ts : List TokenId) : List Logit :=
  M.computeLogits (M.model.causal.state M.model.numLayers ts.dropLast (ts.getLastD 0))

/-- The token of a request with these tokens, sampled with the random numbers `q`. -/
def CausalLM.sampledToken (M : CausalLM F H Q K S O) (sp : SamplingParams)
    (promptTokenIds outputTokenIds : List TokenId) (q : ℕ → F) : TokenId :=
  let row := Sampler.penalizedRow sp promptTokenIds outputTokenIds
    (M.logits (promptTokenIds ++ outputTokenIds))
  if sp.temperature < samplingEps then argmax row
  else M.random.sampleRow sp.topK sp.topP q (row.map fun x => x.map (· / sp.temperature))

/-- A token that a request can get: its random numbers are positive, and the next ones of its seed if it has
one. -/
def CausalLM.Chosen (M : CausalLM F H Q K S O) (sp : SamplingParams)
    (promptTokenIds outputTokenIds : List TokenId) (token : TokenId) : Prop :=
  ∃ q : ℕ → F, (∀ t, 0 < q t) ∧
    (∀ seed, sp.seed = some seed → q = M.random.draw seed (4 * outputTokenIds.length)) ∧
    token = M.sampledToken sp promptTokenIds outputTokenIds q

/-- The token that a greedy or seeded request gets. -/
def CausalLM.nextToken (M : CausalLM F H Q K S O) (sp : SamplingParams)
    (promptTokenIds outputTokenIds : List TokenId) : TokenId :=
  M.sampledToken sp promptTokenIds outputTokenIds
    (M.random.draw (sp.seed.getD 0) (4 * outputTokenIds.length))

/-- The first `n` tokens behind a prompt. -/
def CausalLM.decode (M : CausalLM F H Q K S O) (sp : SamplingParams) (promptTokenIds : List TokenId) :
    ℕ → List TokenId
  | 0 => []
  | n + 1 => M.decode sp promptTokenIds n ++ [M.nextToken sp promptTokenIds (M.decode sp promptTokenIds n)]

theorem CausalLM.decode_prefix (sp : SamplingParams) (prompt : List TokenId) {m n : ℕ} (h : m ≤ n) :
    M.decode sp prompt m <+: M.decode sp prompt n := by
  induction n with
  | zero =>
    rw [Nat.le_zero.mp h]
  | succ n ih =>
    by_cases hm : m ≤ n
    · exact (ih hm).trans (List.prefix_append _ _)
    · rw [Nat.le_antisymm h (Nat.not_le.mp hm)]

/-- Greedy and seeded requests. -/
def SamplingParams.Reproducible (sp : SamplingParams) : Prop :=
  sp.temperature < samplingEps ∨ sp.seed.isSome = true

instance (sp : SamplingParams) : Decidable sp.Reproducible := by
  unfold SamplingParams.Reproducible
  infer_instance

/-- **A greedy or seeded request** has one token to choose. -/
theorem CausalLM.Chosen.eq_nextToken {sp : SamplingParams} {prompt outputs : List TokenId} {token : TokenId}
    (h : M.Chosen sp prompt outputs token) (hrep : sp.Reproducible) :
    token = M.nextToken sp prompt outputs := by
  obtain ⟨q, -, hseed, rfl⟩ := h
  obtain hgreedy | hsome := hrep
  · rw [nextToken, sampledToken, sampledToken, if_pos hgreedy, if_pos hgreedy]
  · obtain ⟨seed, hs⟩ := Option.isSome_iff_exists.mp hsome
    rw [nextToken, hs, Option.getD_some, hseed seed hs]

/-- Its tokens are those of decoding on its own. -/
theorem CausalLM.eq_decode {sp : SamplingParams} {prompt ts : List TokenId} (hrep : sp.Reproducible)
    (h : ∀ (n : ℕ) token, ts[n]? = some token → M.Chosen sp prompt (ts.take n) token) :
    ts = M.decode sp prompt ts.length := by
  have htake : ∀ n ≤ ts.length, ts.take n = M.decode sp prompt n := by
    intro n
    induction n with
    | zero => exact fun _ => List.take_zero
    | succ n ih =>
      intro hn
      have hget := List.getElem?_eq_getElem (Nat.lt_of_succ_le hn)
      have hnext := (h n ts[n] hget).eq_nextToken hrep
      rw [ih (Nat.le_of_succ_le hn)] at hnext
      rw [List.take_add_one, hget, Option.toList_some, ih (Nat.le_of_succ_le hn), decode, ← hnext]
  rw [← htake ts.length (Nat.le_refl _), List.take_length]

/-! ## What a request allows -/

/-- The logits that the next token of a request is sampled from. -/
def CausalLM.samplingRow (M : CausalLM F H Q K S O) (sp : SamplingParams)
    (promptTokenIds outputTokenIds : List TokenId) : List Logit :=
  (Sampler.penalizedRow sp promptTokenIds outputTokenIds (M.logits (promptTokenIds ++ outputTokenIds))).map
    fun x => x.map (· / Sampler.divisor sp.temperature)

/-- What the parameters of a request promise of the token behind its outputs. -/
structure CausalLM.Allows (M : CausalLM F H Q K S O) (sp : SamplingParams)
    (promptTokenIds outputTokenIds : List TokenId) (token : TokenId) : Prop where
  finite : (M.samplingRow sp promptTokenIds outputTokenIds).getD token ⊥ ≠ ⊥
  minTokens : outputTokenIds.length < sp.minTokens → token ∉ sp.allStopTokenIds
  greedy : sp.temperature < samplingEps → ∀ x ∈ M.samplingRow sp promptTokenIds outputTokenIds,
    x ≤ (M.samplingRow sp promptTokenIds outputTokenIds).getD token ⊥
  topK : ¬ sp.temperature < samplingEps → 0 < sp.topK →
    (((M.samplingRow sp promptTokenIds outputTokenIds).filter
      ((M.samplingRow sp promptTokenIds outputTokenIds).getD token ⊥ < ·)).length : ℤ) < sp.topK
  topP : ¬ sp.temperature < samplingEps → 0 < sp.topP → sp.topP < 1 →
    (((maskTopK sp.topK (M.samplingRow sp promptTokenIds outputTokenIds)).filter
      ((M.samplingRow sp promptTokenIds outputTokenIds).getD token ⊥ < ·)).map M.random.weight).sum <
    (sp.topP : F) *
      ((maskTopK sp.topK (M.samplingRow sp promptTokenIds outputTokenIds)).map M.random.weight).sum

/-- A stop token is masked while there are not enough tokens. -/
theorem Sampler.penalizedRow_stop {sp : SamplingParams} {prompt outputs : List TokenId} {row : List Logit}
    {token : TokenId} (hfew : outputs.length < sp.minTokens) (hstop : token ∈ sp.allStopTokenIds) :
    (penalizedRow sp prompt outputs row).getD token ⊥ = ⊥ := by
  have hmask : ∀ (stops : List TokenId) (row : List Logit), token ∈ stops ∨ row.getD token ⊥ = ⊥ →
      (stops.foldl (fun row t => row.set t ⊥) row).getD token ⊥ = ⊥ := by
    intro stops
    induction stops with
    | nil => exact fun row h => h.resolve_left List.not_mem_nil
    | cons t stops ih =>
      intro row h
      rw [List.foldl_cons]
      refine ih _ ?_
      by_cases ht : t = token
      · right
        rw [ht, List.getD_eq_getElem?_getD, List.getElem?_set_self']
        cases row[token]? with
        | none => rfl
        | some x => rfl
      · refine h.imp (fun hmem => (List.mem_cons.mp hmem).resolve_left (Ne.symm ht)) fun hbot => ?_
        rw [List.getD_eq_getElem?_getD, List.getElem?_set_ne ht, ← List.getD_eq_getElem?_getD, hbot]
  have hmasked := hmask sp.allStopTokenIds row (Or.inl hstop)
  rw [penalizedRow, maskRow, if_pos hfew, applyPenaltiesRow, List.getD_eq_getElem?_getD, List.getElem?_mapIdx]
  rw [List.getD_eq_getElem?_getD] at hmasked
  cases hx : (sp.allStopTokenIds.foldl (fun row t => row.set t ⊥) row)[token]? with
  | none => rfl
  | some x =>
    rw [hx, Option.getD_some] at hmasked
    rw [hmasked]
    simp

section

variable [IsStrictOrderedRing F]

/-- **The token that a request gets** is one that it allows, if any logit is left. -/
theorem CausalLM.Chosen.allows {sp : SamplingParams} {prompt outputs : List TokenId} {token : TokenId}
    (h : M.Chosen sp prompt outputs token) {x : Logit} (hx : x ∈ M.samplingRow sp prompt outputs)
    (hbot : x ≠ ⊥) : M.Allows sp prompt outputs token := by
  have hmin : ∀ {y : Logit}, (M.samplingRow sp prompt outputs)[token]? = some y → y ≠ ⊥ →
      outputs.length < sp.minTokens → token ∉ sp.allStopTokenIds := by
    intro y hy hne hfew hstop
    rw [samplingRow, List.getElem?_map] at hy
    obtain ⟨z, hz, rfl⟩ := Option.map_eq_some_iff.mp hy
    have hmasked : (Sampler.penalizedRow sp prompt outputs (M.logits (prompt ++ outputs))).getD token ⊥ = ⊥ :=
      Sampler.penalizedRow_stop hfew hstop
    rw [List.getD_eq_getElem?_getD, hz, Option.getD_some] at hmasked
    exact hne (by rw [hmasked]; rfl)
  obtain ⟨q, hq, -, htoken⟩ := h
  by_cases hg : sp.temperature < samplingEps
  · rw [sampledToken, if_pos hg, ← Sampler.argmax_divisor sp.temperature, ← samplingRow] at htoken
    obtain ⟨y, hy, hle⟩ := argmax_spec hx hbot
    rw [← htoken] at hy
    have hget : (M.samplingRow sp prompt outputs).getD token ⊥ = y := by
      rw [List.getD_eq_getElem?_getD, hy, Option.getD_some]
    have hne : y ≠ ⊥ := fun he => hbot (le_bot_iff.mp (he ▸ hle))
    have hlargest : ∀ z ∈ M.samplingRow sp prompt outputs, z ≤ y := by
      intro z hz
      by_cases hzbot : z = ⊥
      · rw [hzbot]
        exact bot_le
      · obtain ⟨y', hy', hle'⟩ := argmax_spec hz hzbot
        rw [← htoken, hy] at hy'
        rwa [← Option.some.inj hy'] at hle'
    rw [← hget] at hlargest hne
    exact ⟨hne, hmin hy (hget ▸ hne), fun _ => hlargest, fun h => absurd hg h, fun h => absurd hg h⟩
  · have hrow : M.samplingRow sp prompt outputs = (Sampler.penalizedRow sp prompt outputs
        (M.logits (prompt ++ outputs))).map fun x => x.map (· / sp.temperature) := by
      rw [samplingRow, Sampler.divisor, if_neg hg]
    rw [sampledToken, if_neg hg, ← hrow] at htoken
    obtain ⟨y, hy, hne, htopK, htopP⟩ := RandomOps.sampleRow_kept (T := M.random) sp.topK sp.topP hq hx hbot
    rw [← htoken] at hy
    have hget : (M.samplingRow sp prompt outputs).getD token ⊥ = y := by
      rw [List.getD_eq_getElem?_getD, hy, Option.getD_some]
    rw [← hget] at htopK htopP hne
    exact ⟨hne, hmin hy (hget ▸ hne), fun h => absurd h hg, fun _ => htopK, fun _ => htopP⟩

end

/-! ## The token of a row -/

section Rows

variable {s : Scheduler} {out : SchedulerOutput} {w : GPUModelRunner (List ρ)} {rows : List ReqId}
  {ns : List ℕ}

/-- **The state that a row is sampled from** is that of the last token of its request. -/
theorem BatchOf.selected (h : BatchOf s out w rows ns) {state : List TokenId → TokenId → H}
    {selected : List H}
    (hsel : selectHidden ((rowItems p s w rows ns).map fun it => state it.behind it.token)
      ((npCumsum ns).map fun n : ℕ => (n : ℤ) - 1) = .ok selected) {i n : ℕ} {id : ReqId} {r : Request}
    (hi : rows[i]? = some id) (hr : s.requests.get? id = some r)
    (hn : out.numScheduledTokens.get? id = some n) (hfull : r.numComputedTokens + n = r.numTokens) :
    selected[i]? = some (state r.allTokenIds.dropLast (r.allTokenIds.getLastD 0)) := by
  obtain ⟨n', r', hni, hrow⟩ := h.row i id hi
  obtain rfl := Option.some.inj (hn.symm.trans hrow.scheduled)
  obtain rfl := Option.some.inj (hr.symm.trans hrow.request)
  have hpos := h.scheduled.pos n (List.mem_of_getElem? hni)
  have hindex : ((npCumsum ns).map fun n : ℕ => (n : ℤ) - 1)[i]? = some ((offset ns i + n : ℕ) - 1 : ℤ) := by
    rw [List.getElem?_map, getElem?_npCumsum hni]
    rfl
  obtain ⟨x, hx, hget⟩ := (getElem?_of_mapM hsel).2 i _ hindex
  have hplace : (((offset ns i + n : ℕ) : ℤ) - 1).toNat = offset ns i + (n - 1) := by omega
  have hitem : (rowItems p s w rows ns)[offset ns i + (n - 1)]? =
      some (itemAt p.kv.blockSize w.inputBatch.blockTable (rowText s rows) i
        (rowComputed s rows i + (n - 1))) := getElem?_batchItems hni (by omega)
  have hlen : r.allTokenIds.length = r.numComputedTokens + n := hfull.symm
  rw [ofOption_eq_ok, hplace, List.getElem?_map, hitem, Option.map_some, itemAt,
    rowText_eq hi hr, rowComputed_eq hi hr] at hget
  rw [hx, ← hget, List.dropLast_eq_take, List.getLastD_eq_getLast?, List.getLast?_eq_getElem?,
    List.getD_eq_getElem?_getD, hlen, Nat.add_sub_assoc hpos]

end Rows

/-! ## What an execution samples from -/

/-- The batch of an execution, its logits, what the worker has of its requests and what the sampler is
told. -/
structure Sampling (M : CausalLM F H Q K S O) (p : SchedulerParams) (s : Scheduler) (out : SchedulerOutput)
    (w w₁ : GPUModelRunner (List ρ)) (changed : Bool) (rows : List ReqId) (logits : List (List Logit))
    (metadata : SamplingMetadata) (w₂ : GPUModelRunner (List ρ)) : Prop where
  updateStates : w.updateStates p.maxNumRunningReqs out = .ok (changed, w₁)
  updated : GPUModelRunner.Updated p.maxNumRunningReqs w w₁ out
  faithful : w₁.inputBatch.Faithful w₁.requests
  reqIds : w₁.inputBatch.reqIds.take w₁.inputBatch.numReqs = rows.map some
  length : rows.length = w₁.inputBatch.numReqs
  mem : ∀ id ∈ out.numScheduledTokens.keys, ∃ i : ℕ, rows[i]? = some id
  state : ∀ id ∈ out.numScheduledTokens.keys, ∃ st r, w₁.requests.get? id = some st ∧
    s.requests.get? id = some r ∧ st.samplingParams = r.samplingParams ∧
    st.promptTokenIds = r.promptTokenIds ∧ st.outputTokenIds = r.outputTokenIds
  prepareSampling : w₁.prepareSampling changed = .ok (metadata, w₂)
  all : ∀ (i : ℕ) id, rows[i]? = some id → ∃ row, logits[i]? = some row
  logits : ∀ (i : ℕ) id r n, rows[i]? = some id → s.requests.get? id = some r →
    out.numScheduledTokens.get? id = some n → r.numComputedTokens + n = r.numTokens →
    logits[i]? = some (M.logits r.allTokenIds)

section Tokens

variable {c : EngineCore (PagedRunner ρ K)} {t : Traces} {available : ReqId → ℕ → Bool} {out : SchedulerOutput}
  {s : Scheduler} {polled : Option (EncoderResult (List ρ))} {w w' : PagedRunner ρ K} {noise : Noise F}
  {mo : ModelRunnerOutput} {id : ReqId} {r : Request} {n i : ℕ} {token : TokenId} {changed : Bool}
  {w₁ w₂ : GPUModelRunner (List ρ)} {rows : List ReqId} {logits : List (List Logit)}
  {metadata : SamplingMetadata}

theorem Sampling.index (h : Sampling M p s out w.runner w₁ changed rows logits metadata w₂) :
    rows[i]? = some id ↔ w₁.inputBatch.reqIdToIndex.get? id = some i := by
  obtain ⟨m, hinv⟩ := h.updated.batch
  exact hinv.getElem?_rows h.reqIds i id

theorem Sampling.mem_keys (h : Sampling M p s out w.runner w₁ changed rows logits metadata w₂)
    (hi : rows[i]? = some id) : id ∈ out.numScheduledTokens.keys :=
  (h.updated.rows id).mp (Dict.mem_keys_of_get? (h.index.mp hi))

section Executed

variable (h : PagedInv M p c t) (hinj : Function.Injective p.kv.hash) (hzero : ∀ x, p.kv.hash x ≠ 0)
  (hpos : ∀ n queryLens, useCascade n queryLens = true → 0 < n)
  (hs : c.scheduler.schedule p available = .ok (out, s))
  (hh : EngineCore.handle (pagedExecutor M p useCascade) c.executor polled = .ok w)
  (hz : out.totalNumScheduledTokens ≠ 0)
  (he : (pagedExecutor M p useCascade).executeModel w out noise = .ok (mo, w'))
include h hinj hzero hpos hs hh hz he

/-- **What the engine samples from**: the logits behind the tokens of a request, where the request catches
up. -/
theorem PagedInv.sampling : ∃ (changed : Bool) (w₁ : GPUModelRunner (List ρ)) (rows : List ReqId)
    (logits : List (List Logit)) (metadata : SamplingMetadata) (w₂ : GPUModelRunner (List ρ))
    (offsets : Generator → ℕ), Sampling M p s out w.runner w₁ changed rows logits metadata w₂ ∧
    Sampler.forward (M.random.forwardNative noise) logits metadata
      (out.scheduledNewReqs.foldl seedNew c.executor.offsets) = .ok (mo.sampledTokenIds, offsets) ∧
    mo.reqIdToIndex = w₁.inputBatch.reqIdToIndex := by
  obtain ⟨changed, w₁, rows, ns, hup, hupd, hran⟩ := h.executed hinj hzero hpos hs hh hz he
  obtain ⟨selected, metadata, w₂, offsets, hsel, hprep, hforward, -, happ, hidx⟩ := hran.sampled
  obtain ⟨hh, -⟩ := handle_paged hh
  obtain ⟨hreq, hbatch, -⟩ := EngineRun.handle_uniProc hh
  have hsound := h.base.sound
  have hstep := h.base.inStep.congr hreq
  have hparams := h.params.congr hreq
  have hb := hran.batch
  obtain ⟨m, hinv⟩ := hupd.batch
  obtain ⟨p1, p2, p3, -⟩ := GPUModelRunner.prepareSampling_spec hprep
  refine ⟨changed, w₁, rows, selected.map M.computeLogits, metadata, w₂, offsets, ⟨hup, hupd, ?_,
    hb.scheduled.reqIds, hb.scheduled.length, fun id hid => ?_, fun id hid => ?_, hprep, fun i id hi => ?_,
    fun i id r n hi hr hn hfull => ?_⟩, hforward, ?_⟩
  · refine hupd.faithful ?_
    rw [hreq, hbatch]
    exact h.base.runner.faithful
  · exact List.mem_iff_getElem?.mp (hb.perm.mem_iff.mpr hid)
  · obtain ⟨st, r, hst, hr, -, -, hprompt, houtput⟩ := hstep.scheduled hsound hs hupd hid
    exact ⟨st, r, hst, hr, (hparams.scheduled hsound hs hupd hid hr hst).sampling, hprompt, houtput⟩
  · obtain ⟨n, r, hni, -⟩ := hb.row i id hi
    obtain ⟨x, hx, -⟩ := (getElem?_of_mapM hsel).2 i _ (by
      rw [List.getElem?_map, getElem?_npCumsum hni, Option.map_some])
    exact ⟨M.computeLogits x, by rw [List.getElem?_map, hx, Option.map_some]⟩
  · rw [List.getElem?_map, hb.selected hsel hi hr hn hfull, Option.map_some]
    rfl
  · rw [hidx, (GPUModelRunner.appendRows_spec (hinv.congr p2 p3) happ).2.1, p3]

omit hinj hzero hpos hz he in
/-- **What the sampler is told about any request**, when the device is up to date. -/
theorem PagedInv.samplerRow (hd : SampledInv c)
    (hlast : GPUModelRunner.FinishedLast c.executor.runner.inputBatch out)
    (hsamp : Sampling M p s out w.runner w₁ changed rows logits metadata w₂) (hi : rows[i]? = some id)
    (hr : s.requests.get? id = some r) :
    Sampler.SamplerRow metadata i r.samplingParams r.promptTokenIds r.outputTokenIds := by
  obtain ⟨hh, -⟩ := handle_paged hh
  obtain ⟨hreq, hbatch, -⟩ := EngineRun.handle_uniProc hh
  obtain ⟨p1, p2, p3, p4⟩ := GPUModelRunner.prepareSampling_spec hsamp.prepareSampling
  have hsynced := (EngineRun.synced_prepareSampling h.base.runner hd.synced hs hlast hreq hbatch
    hsamp.updateStates hsamp.prepareSampling).1
  obtain ⟨st, r', hst, hr', hsp, hprompt, houtput⟩ := hsamp.state id (hsamp.mem_keys hi)
  obtain rfl := Option.some.inj (hr.symm.trans hr')
  have hrows : (w₂.inputBatch.reqIds.take w₂.inputBatch.numReqs)[i]? = some (some id) := by
    rw [p2, InputBatch.numReqs, p3, ← InputBatch.numReqs, hsamp.reqIds, List.getElem?_map, hi,
      Option.map_some]
  rw [← hsp, ← hprompt, ← houtput]
  exact GPUModelRunner.prepareSampling_samplerRow hsamp.prepareSampling (p4 hsamp.faithful) hsynced hrows
    (p3 ▸ hsamp.index.mp hi) (p1 ▸ hst)

/-! ## The token of a request -/

variable (hr : s.requests.get? id = some r) (hn : out.numScheduledTokens.get? id = some n)
  (hfull : r.numComputedTokens + n = r.numTokens) (hi : mo.reqIdToIndex.get? id = some i)
  (ht : mo.sampledTokenIds[i]? = some token)
include hr hn hfull hi ht

/-- **The token of a request among greedy ones without penalties**, whatever the device holds. -/
theorem PagedInv.executed_plain
    (hplain : ∀ id r, c.scheduler.requests.get? id = some r → r.samplingParams.Plain) :
    M.Chosen r.samplingParams r.promptTokenIds r.outputTokenIds token := by
  obtain ⟨changed, w₁, rows, logits, metadata, w₂, offsets, hsamp, hforward, hindex⟩ :=
    h.sampling hinj hzero hpos hs hh hz he
  have hrow := hsamp.index.mpr (hindex ▸ hi)
  have hevolved : ∀ id r, s.requests.get? id = some r → r.samplingParams.Plain := by
    intro id r hr
    obtain ⟨r₀, hr₀, hev⟩ := schedule_evolved h.base.sound hs hr
    rw [hev]
    exact hplain id r₀ hr₀
  have hall : ∀ id ∈ w₁.inputBatch.reqIdToIndex.keys, ∀ st, w₁.requests.get? id = some st →
      st.samplingParams.Plain := by
    intro id hid st hst
    obtain ⟨st', r', hst', hr', hsp, -⟩ := hsamp.state id ((hsamp.updated.rows id).mp hid)
    obtain rfl := Option.some.inj (hst.symm.trans hst')
    rw [hsp]
    exact hevolved id r' hr'
  obtain ⟨st, r', hst, hr', hsp, -, houtput⟩ := hsamp.state id (Dict.mem_keys_of_get? hn)
  obtain rfl := Option.some.inj (hr.symm.trans hr')
  have hg := GPUModelRunner.prepareSampling_greedyRow hsamp.prepareSampling hsamp.faithful hall hsamp.reqIds
    hsamp.length hrow (hsamp.index.mp hrow) hst
  rw [hsp, houtput] at hg
  have hlogits := hsamp.logits i id r n hrow hr hn hfull
  have htoken := Option.some.inj (ht.symm.trans (Sampler.forward_greedy hforward hg hlogits))
  obtain ⟨hgreedy, hfreq, hpres, hrep⟩ := hevolved id r hr
  refine ⟨M.random.draw (r.samplingParams.seed.getD 0) (4 * r.outputTokenIds.length),
    fun t => M.random.draw_pos _ _ t, fun seed hseed => by rw [hseed, Option.getD_some], ?_⟩
  rw [htoken, CausalLM.sampledToken, if_pos (SamplingParams.greedy_iff.mp hgreedy), Sampler.penalizedRow, hpres,
    hfreq, hrep, applyPenaltiesRow_neutral]
  rfl

/-- **The token of a request among any others**, when the device is up to date. -/
theorem PagedInv.executed_sampled [IsStrictOrderedRing F] (hd : SampledInv c)
    (hlast : GPUModelRunner.FinishedLast c.executor.runner.inputBatch out) :
    M.Chosen r.samplingParams r.promptTokenIds r.outputTokenIds token := by
  obtain ⟨changed, w₁, rows, logits, metadata, w₂, offsets, hsamp, hforward, hindex⟩ :=
    h.sampling hinj hzero hpos hs hh hz he
  have hrow := hsamp.index.mpr (hindex ▸ hi)
  have hsampler := h.samplerRow hs hh hd hlast hsamp hrow hr
  have hlogits := hsamp.logits i id r n hrow hr hn hfull
  obtain ⟨hh, -⟩ := handle_paged hh
  obtain ⟨hreq, -⟩ := EngineRun.handle_uniProc hh
  obtain ⟨p1, p2, p3, p4⟩ := GPUModelRunner.prepareSampling_spec hsamp.prepareSampling
  have hf₂ : w₂.inputBatch.Faithful w₂.requests := p4 hsamp.faithful
  -- the generators of the batch are those of its requests
  have hseeded : Seeded w₂.requests (out.scheduledNewReqs.foldl seedNew c.executor.offsets) := by
    rw [p1]
    exact Seeded.updated (hreq ▸ hd.seeded) hsamp.updated
      (schedule_sent h.base.sound.wf (knownTo_sentIds h.base.sound.wf) hs).scheduled
  have hnodup := hseeded.generators_nodup hf₂
  have hgenerators := (prepareSampling_generators hsamp.prepareSampling).1
  rw [← hgenerators] at hnodup
  have hrandom : ∀ {logits' : List (List Logit)} {row' : List Logit} {randomSampled : List TokenId}
      {o' : Generator → ℕ}, M.random.forwardNative noise logits' metadata.generators metadata.noTopK
        metadata.topK metadata.noTopP metadata.topP (out.scheduledNewReqs.foldl seedNew c.executor.offsets) =
          .ok (randomSampled, o') → logits'[i]? = some row' →
      ∃ q : ℕ → F, (∀ t, 0 < q t) ∧ (∀ g, metadata.generators.get? i = some g → q = M.random.draw g.seed
          (out.scheduledNewReqs.foldl seedNew c.executor.offsets g)) ∧
        randomSampled[i]? = some (M.random.sampleRow r.samplingParams.topK r.samplingParams.topP q row') :=
    fun hok hrow' => (RandomOps.forwardNative_row hok hnodup hrow' hsampler.topK hsampler.topP
      hsampler.noTopK hsampler.noTopP).1
  obtain ⟨hgreedy, hsampled⟩ := Sampler.forward_row hforward hsampler hlogits
    fun logits' randomSampled _ hok hlt => by
      obtain ⟨q, -, -, hget⟩ := hrandom hok (List.getElem?_eq_getElem hlt)
      exact (List.getElem?_eq_some_iff.mp hget).1
  by_cases hg : r.samplingParams.temperature < samplingEps
  · have htoken := Option.some.inj (ht.symm.trans (hgreedy hg))
    refine ⟨M.random.draw (r.samplingParams.seed.getD 0) (4 * r.outputTokenIds.length),
      fun t => M.random.draw_pos _ _ t, fun seed hseed => by rw [hseed, Option.getD_some], ?_⟩
    rw [htoken, CausalLM.sampledToken, if_pos hg]
    rfl
  · obtain ⟨logits', randomSampled, hok, hrow', hget⟩ := hsampled hg
    obtain ⟨q, hqpos, hseed, hdrawn⟩ := hrandom hok hrow'
    refine ⟨q, hqpos, fun seed hseeds => ?_, ?_⟩
    · -- the generator of the row is where the tokens are
      obtain ⟨st, r', hst, hr', hsp, -, houtput⟩ := hsamp.state id (hsamp.mem_keys hrow)
      obtain rfl := Option.some.inj (hr.symm.trans hr')
      have hgen : st.generator = some ⟨id, seed⟩ := by
        rw [hseeded.generator id st (p1 ▸ hst), hsp]
        exact SamplingParams.generator_of_seed hseeds hg
      obtain ⟨st', hst', hholds⟩ := hf₂.rows id i (p3 ▸ hsamp.index.mp hrow)
      obtain rfl := Option.some.inj ((p1 ▸ hst).symm.trans hst')
      rw [hseed ⟨id, seed⟩ (hgenerators ▸ hholds.generator.trans hgen),
        hseeded.offset id st ⟨id, seed⟩ hst' hgen, houtput]
    · rw [CausalLM.sampledToken, if_neg hg]
      exact Option.some.inj (ht.symm.trans (hget.trans hdrawn))

end Executed

/-- When the samples of an event can be relied on: all requests are greedy and without penalties, or the
device is up to date and stays so. -/
def Reliable (p : SchedulerParams) (c : EngineCore (PagedRunner ρ K)) (e : EngineEvent (List ρ) (Noise F)) :
    Prop :=
  (∀ id r, c.scheduler.requests.get? id = some r → r.samplingParams.Plain) ∨
    (SampledInv c ∧ EngineRun.LeavesLast p c.forget (e.sampling []))

/-- **The tokens of a request after a call** are those before it, or these and one that it can get. -/
theorem call_chosen [IsStrictOrderedRing F] (h : PagedInv M p c t) (hinj : Function.Injective p.kv.hash)
    (hzero : ∀ x, p.kv.hash x ≠ 0) (hpos : ∀ n queryLens, useCascade n queryLens = true → 0 < n)
    (hrel : Reliable p c (.advance polled noise)) {progress : Progress} {exec : Option Execution}
    {c' : EngineCore (PagedRunner ρ K)}
    (hcall : c.call p (pagedExecutor M p useCascade) polled noise = .ok (progress, exec, c'))
    {tokens : Dict ReqId (List TokenId)} {ts : List TokenId} (hts : tokens.get? id = some ts)
    (hlive : ∀ r, c.scheduler.requests.get? id = some r → r.outputTokenIds = ts) :
    (executedTokens p exec tokens).get? id = some ts ∨
    ∃ r token, c.scheduler.requests.get? id = some r ∧
      (executedTokens p exec tokens).get? id = some (ts ++ [token]) ∧
      M.Chosen r.samplingParams r.promptTokenIds ts token := by
  obtain ⟨-, rfl, -⟩ | ⟨out, s, w, hs, hh, hcase⟩ := EngineCore.call_eq_ok hcall
  · exact Or.inl hts
  obtain ⟨-, -, rfl, -⟩ | ⟨hz, -, mo, w', outputs, s', he, hup, rfl, -⟩ := hcase
  · exact Or.inl hts
  have hget : (executedTokens p (some ⟨out, s, mo, outputs⟩) tokens).get? id = _ :=
    get?_foldl_set (Execution.tokensOf p ⟨out, s, mo, outputs⟩) id s.running tokens
  rw [hget]
  split_ifs with hrun
  swap
  · exact Or.inl hts
  have hsound := h.base.sound
  obtain ⟨hnot, -⟩ | ⟨-, r, r', hr, hupd, -⟩ :=
    Scheduler.updateFromOutput_emits (Scheduler.schedule_wf hsound.wf hs) hup id
  · exact absurd hrun.1 hnot
  have htokens : Execution.tokensOf p ⟨out, s, mo, outputs⟩ id = some r'.outputTokenIds := by
    simp only [Execution.tokensOf, hr, hupd]
  obtain ⟨r₀, hr₀, hev⟩ := schedule_evolved hsound hs hr
  obtain ⟨r₁, hr₁, hprompt, hsame⟩ := schedule_tokens hsound hs hr
  obtain rfl := Option.some.inj (hr₀.symm.trans hr₁)
  have houtput : r.outputTokenIds = ts := hsame.trans (hlive r₀ hr₀)
  rw [htokens]
  obtain ⟨hn, hfull, i, token, hi, ht, htok⟩ | ⟨-, htok⟩ := updatedRequest_tokens hupd rfl
  · right
    cases hk : out.numScheduledTokens.get? id with
    | none =>
      rw [hk] at hn
      exact absurd hn (Nat.lt_irrefl 0)
    | some k =>
      rw [hk] at hfull
      have hchosen : M.Chosen r.samplingParams r.promptTokenIds r.outputTokenIds token := by
        obtain hplain | ⟨hd, htidy⟩ := hrel
        · exact h.executed_plain hinj hzero hpos hs hh hz he hr hk hfull hi ht hplain
        · have hsched : c.forget.scheduler.schedule p (c.forget.available (uniProcExecutor ρ
              p.maxNumRunningReqs)) = .ok (out, s) := hs
          have hlast : GPUModelRunner.FinishedLast c.executor.runner.inputBatch out := by
            simp only [EngineEvent.sampling, EngineRun.LeavesLast, hsched] at htidy
            exact htidy hz
          exact h.executed_sampled hinj hzero hpos hs hh hz he hr hk hfull hi ht hd hlast
      have hsampling : r.samplingParams = r₀.samplingParams := by rw [hev]
      refine ⟨r₀, token, hr₀, by rw [htok, houtput], ?_⟩
      rwa [houtput, hsampling, hprompt] at hchosen
  · left
    rw [htok, houtput]

end Tokens

end

end SpaceServe
