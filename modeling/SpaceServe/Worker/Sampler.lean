import Mathlib.Algebra.Order.Field.Rat
import Mathlib.Order.WithBot
import SpaceServe.Worker.Rows

/-!
# The sampler

`Sampler` of `vllm/v1/sample/sampler.py` with the penalties of `vllm/v1/sample/ops/penalties.py` and
`vllm/model_executor/layers/utils.py`. Logits are rational numbers or `-inf`. The random sampler
`TopKTopPSampler` is the argument `topkToppSampler`, with the state of its random numbers; log probabilities,
which are computed before anything else and change nothing, are left out, and so is the padding of the
tensors of tokens, which the counts drop.

* `argmax`, `applyMinTokenPenalties`, `applyAllPenalties`, `applyTemperature`, `sample`, `Sampler.forward`;
* `maskRow`, `penalizedRow`: what the penalties make of one row; `applyPenaltiesRow_neutral`;
* `argmax_map`: scaling a row leaves its largest logit where it is;
* **`Sampler.forward_greedy`**: the token of a greedy row depends on that row only;
* `SamplerRow`, `Sampler.forward_asks`, **`Sampler.forward_row`**: so does that of any row, as far as the random
  sampler is not asked.
-/

set_option autoImplicit false

namespace SpaceServe

open Py

/-! ## The model -/

/-- A logit; `⊥` is `-inf`. -/
abbrev Logit := WithBot ℚ

/-- `_SAMPLING_EPS`. -/
def samplingEps : ℚ := 1 / 100000

/-- `argmax`: the first place of the largest entry. -/
def argmax {F : Type} [LinearOrder F] (logits : List (WithBot F)) : ℕ := logits.idxOf (logits.foldl max ⊥)

/-- The logits of one row that `apply_min_token_penalties` penalizes. -/
def minTokensLogits (outputTokenIds stopTokenIds : List (List TokenId)) (x : ℕ × ℕ) :
    Except Exn (List (ℕ × TokenId)) := do
  let outputs ← ofOption (.indexError "list index out of range") outputTokenIds[x.2]?
  if outputs.length < x.1 then do
    let stops ← ofOption (.indexError "list index out of range") stopTokenIds[x.2]?
    .ok (stops.map fun stopTokenId => (x.2, stopTokenId))
  else .ok []

/-- `logits[i, t] = -inf`. -/
def maskLogit (logits : List (List Logit)) (x : ℕ × TokenId) : Except Exn (List (List Logit)) :=
  match logits[x.1]? with
  | none => .error (.indexError ("index " ++ toString x.1 ++
      " is out of bounds for dimension 0 with size " ++ toString logits.length))
  | some row =>
    if x.2 < row.length then .ok (logits.set x.1 (row.set x.2 ⊥))
    else .error (.indexError ("index " ++ toString x.2 ++
      " is out of bounds for dimension 1 with size " ++ toString row.length))

/-- `apply_min_token_penalties`. -/
def applyMinTokenPenalties (logits : List (List Logit)) (outputTokenIds stopTokenIds : List (List TokenId))
    (minTokens : List ℕ) : Except Exn (List (List Logit)) := do
  let minTokensLogitsToPenalize ← minTokens.zipIdx.mapM (minTokensLogits outputTokenIds stopTokenIds)
  minTokensLogitsToPenalize.flatten.foldlM maskLogit logits

/-- `apply_penalties` on one row. -/
def applyPenaltiesRow (promptTokens : List (Option TokenId)) (outputTokens : List TokenId)
    (presencePenalty frequencyPenalty repetitionPenalty : ℚ) (logits : List Logit) : List Logit :=
  logits.mapIdx fun t x =>
    let outputBinCount := outputTokens.count t
    let penalty := if some t ∈ promptTokens ∨ 0 < outputBinCount then repetitionPenalty else 1
    let x : Logit := if 0 < x then x.map (· / penalty) else x
    let x : Logit := if x ≤ 0 then x.map (· * penalty) else x
    let x : Logit := x.map (· - frequencyPenalty * outputBinCount)
    x.map (· - presencePenalty * if 0 < outputBinCount then 1 else 0)

/-- `apply_all_penalties`. -/
def applyAllPenalties (logits : List (List Logit)) (promptTokenIds : List (List (Option TokenId)))
    (presencePenalties frequencyPenalties repetitionPenalties : List ℚ)
    (outputTokenIds : List (List TokenId)) : List (List Logit) :=
  logits.mapIdx fun i row => applyPenaltiesRow (promptTokenIds.getD i []) (outputTokenIds.getD i [])
    (presencePenalties.getD i 0) (frequencyPenalties.getD i 0) (repetitionPenalties.getD i 0) row

namespace Sampler

/-- `apply_penalties`. -/
def applyPenalties (logits : List (List Logit)) (metadata : SamplingMetadata) :
    Except Exn (List (List Logit)) := do
  let logits ← applyMinTokenPenalties logits metadata.outputTokenIds metadata.stopTokenIds
    metadata.minTokens
  if metadata.noPenalties = true then .ok logits
  else do
    let promptTokenIds ← ofOption (.assertionError "") metadata.promptTokenIds
    .ok (applyAllPenalties logits promptTokenIds metadata.presencePenalties metadata.frequencyPenalties
      metadata.repetitionPenalties metadata.outputTokenIds)

/-- What a row is divided by. -/
def divisor (temp : ℚ) : ℚ := if temp < samplingEps then 1 else temp

/-- `apply_temperature`. -/
def applyTemperature (logits : List (List Logit)) (temp : List ℚ) : List (List Logit) :=
  List.zipWith (fun row t => row.map fun x => x.map (· / divisor t)) logits temp

variable {R : Type} (topkToppSampler : List (List Logit) → Dict ℕ Generator → Bool → List ℤ → Bool →
  List ℚ → R → Except Exn (List TokenId × R))

/-- `sample`. -/
def sample (logits : List (List Logit)) (metadata : SamplingMetadata) (state : R) :
    Except Exn (List TokenId × R) := do
  assert (¬ (metadata.allGreedy = true ∧ metadata.allRandom = true)) ""
  if metadata.allGreedy = true then .ok (logits.map argmax, state)
  else do
    let (randomSampled, state) ← topkToppSampler logits metadata.generators metadata.noTopK metadata.topK
      metadata.noTopP metadata.topP state
    if metadata.allRandom = true then .ok (randomSampled, state)
    else
      let greedySampled := logits.map argmax
      .ok (List.zipWith (fun t x => if t < samplingEps then x.1 else x.2) metadata.temperature
        (greedySampled.zip randomSampled), state)

/-- `forward`. -/
def forward (logits : List (List Logit)) (metadata : SamplingMetadata) (state : R) :
    Except Exn (List TokenId × R) := do
  let logits ← applyPenalties logits metadata
  sample topkToppSampler (applyTemperature logits metadata.temperature) metadata state

end Sampler

/-! ## The largest logit -/

theorem foldl_max_map {f : Logit → Logit} (hf : Monotone f) : ∀ (l : List Logit) (x : Logit),
    (l.map f).foldl max (f x) = f (l.foldl max x)
  | [], _ => rfl
  | y :: l, x => by
    rw [List.map_cons, List.foldl_cons, List.foldl_cons, ← hf.map_max, foldl_max_map hf l]

theorem idxOf_map_of_injective {f : Logit → Logit} (hf : Function.Injective f) (a : Logit) :
    ∀ l : List Logit, (l.map f).idxOf (f a) = l.idxOf a
  | [] => rfl
  | b :: l => by
    rw [List.map_cons, List.idxOf_cons, List.idxOf_cons, idxOf_map_of_injective hf a l]
    by_cases hb : b = a
    · rw [hb, beq_self_eq_true, beq_self_eq_true]
    · rw [beq_false_of_ne hb, beq_false_of_ne (hf.ne hb)]

/-- **A row that is scaled** has its largest logit at the same place. -/
theorem argmax_map {f : ℚ → ℚ} (hf : StrictMono f) (logits : List Logit) :
    argmax (logits.map (WithBot.map f)) = argmax logits := by
  have hmono : Monotone (WithBot.map f) := hf.monotone.withBot_map
  have hinj : Function.Injective (WithBot.map f) := Option.map_injective hf.injective
  have hmax := foldl_max_map hmono logits ⊥
  rw [WithBot.map_bot] at hmax
  rw [argmax, hmax, idxOf_map_of_injective hinj, argmax]

/-- Whatever the temperature on the device is, dividing by it leaves the largest logit where it is. -/
theorem Sampler.argmax_divisor (t : ℚ) (logits : List Logit) :
    argmax (logits.map fun x => x.map (· / divisor t)) = argmax logits := by
  have hpos : 0 < divisor t := by
    unfold divisor samplingEps
    split_ifs with h
    · exact zero_lt_one
    · exact lt_of_lt_of_le (by simp) (not_lt.mp h)
  exact argmax_map (fun _ _ hlt => div_lt_div_of_pos_right hlt hpos) logits

/-! ## The minimal number of tokens -/

/-- A row whose stop tokens are masked while there are not enough tokens. -/
def maskRow (minTokens numOutputs : ℕ) (stops : List TokenId) (row : List Logit) : List Logit :=
  if numOutputs < minTokens then stops.foldl (fun row t => row.set t ⊥) row else row

theorem maskLogit_eq_ok {logits logits' : List (List Logit)} {x : ℕ × TokenId}
    (h : maskLogit logits x = .ok logits') : ∃ row, logits[x.1]? = some row ∧
      logits' = logits.set x.1 (row.set x.2 ⊥) := by
  unfold maskLogit at h
  split at h
  · cases h
  · rename_i row hrow
    split_ifs at h
    exact ⟨row, hrow, (Except.ok.inj h).symm⟩

/-- A loop of masks changes a row by those that are in it. -/
theorem foldlM_maskLogit : ∀ {xs : List (ℕ × TokenId)} {logits logits' : List (List Logit)},
    xs.foldlM maskLogit logits = .ok logits' → ∀ i, logits'[i]? = logits[i]?.map fun row =>
      ((xs.filter fun x => decide (x.1 = i)).map Prod.snd).foldl (fun row t => row.set t ⊥) row
  | [], logits, logits', h, i => by
    obtain rfl := Except.ok.inj h
    exact Option.map_id'.symm
  | x :: xs, logits, logits', h, i => by
    rw [List.foldlM_cons, bind_eq_ok] at h
    obtain ⟨logits₁, h₁, h⟩ := h
    obtain ⟨row, hrow, rfl⟩ := maskLogit_eq_ok h₁
    rw [foldlM_maskLogit h i]
    by_cases hx : x.1 = i
    · subst hx
      obtain ⟨hlt, -⟩ := List.getElem?_eq_some_iff.mp hrow
      rw [List.getElem?_set_self hlt, hrow, List.filter_cons_of_pos (by simp)]
      rfl
    · rw [List.getElem?_set_ne hx, List.filter_cons_of_neg (by simpa using hx)]

/-- What is listed for one row among the lists of all rows. -/
theorem filter_flatten {α : Type} : ∀ {ls : List (List (ℕ × α))} {k : ℕ} (i : ℕ),
    (∀ (j : ℕ) l, ls[j]? = some l → ∀ x ∈ l, x.1 = k + j) →
      (ls.flatten.filter fun x => decide (x.1 = k + i)) = ls[i]?.getD []
  | [], _, _, _ => rfl
  | l :: ls, k, i, h => by
    have hhead : ∀ x ∈ l, x.1 = k := h 0 l rfl
    have htail : ∀ (j : ℕ) l, ls[j]? = some l → ∀ x ∈ l, x.1 = k + 1 + j := by
      intro j l' hl x hx
      rw [h (j + 1) l' hl x hx, Nat.add_assoc, Nat.add_comm 1]
    rw [List.flatten_cons, List.filter_append]
    cases i with
    | zero =>
      have hnone : (ls.flatten.filter fun x => decide (x.1 = k + 0)) = [] := by
        rw [List.filter_eq_nil_iff]
        intro x hx
        obtain ⟨l', hl', hx⟩ := List.mem_flatten.mp hx
        obtain ⟨j, hj⟩ := List.mem_iff_getElem?.mp hl'
        have := htail j l' hj x hx
        simp only [decide_eq_true_eq]
        omega
      rw [hnone, List.append_nil]
      exact List.filter_eq_self.mpr fun x hx => decide_eq_true (hhead x hx)
    | succ i =>
      have hnone : (l.filter fun x => decide (x.1 = k + (i + 1))) = [] := by
        rw [List.filter_eq_nil_iff]
        intro x hx
        have := hhead x hx
        simp only [decide_eq_true_eq]
        omega
      have ih := filter_flatten i htail
      rw [Nat.add_assoc, Nat.add_comm 1] at ih
      rw [hnone, List.nil_append, ih]
      rfl

theorem minTokensLogits_eq_ok {outputTokenIds stopTokenIds : List (List TokenId)} {m i : ℕ}
    {l : List (ℕ × TokenId)} (h : minTokensLogits outputTokenIds stopTokenIds (m, i) = .ok l) :
    ∃ outputs, outputTokenIds[i]? = some outputs ∧ (outputs.length < m →
      ∃ stops, stopTokenIds[i]? = some stops ∧ l = stops.map fun t => (i, t)) ∧
      (¬ outputs.length < m → l = []) := by
  simp only [minTokensLogits, bind_eq_ok, ofOption_eq_ok] at h
  obtain ⟨outputs, houtputs, h⟩ := h
  refine ⟨outputs, houtputs, fun hlt => ?_, fun hlt => ?_⟩
  · simp only [if_pos hlt, bind_eq_ok, ofOption_eq_ok] at h
    obtain ⟨stops, hstops, h⟩ := h
    exact ⟨stops, hstops, (Except.ok.inj h).symm⟩
  · rw [if_neg hlt] at h
    exact (Except.ok.inj h).symm

/-- **The minimal number of tokens masks each row by itself.** -/
theorem applyMinTokenPenalties_row {logits logits' : List (List Logit)}
    {outputTokenIds stopTokenIds : List (List TokenId)} {minTokens : List ℕ}
    (h : applyMinTokenPenalties logits outputTokenIds stopTokenIds minTokens = .ok logits') {i m : ℕ}
    {outputs stops : List TokenId} (hm : minTokens[i]? = some m) (ho : outputTokenIds[i]? = some outputs)
    (hs : stopTokenIds[i]? = some stops) :
    logits'[i]? = logits[i]?.map (maskRow m outputs.length stops) := by
  simp only [applyMinTokenPenalties, bind_eq_ok] at h
  obtain ⟨ls, hls, h⟩ := h
  obtain ⟨hlen, hget⟩ := getElem?_of_mapM hls
  have hown : ∀ (j : ℕ) l, ls[j]? = some l → ∀ x ∈ l, x.1 = 0 + j := by
    intro j l hl x hx
    have hj : j < minTokens.length := by
      rw [← List.length_zipIdx (l := minTokens), ← hlen]
      exact (List.getElem?_eq_some_iff.mp hl).1
    obtain ⟨_, hl', hok⟩ := hget j (minTokens[j], j) (by
      rw [List.getElem?_zipIdx, List.getElem?_eq_getElem hj, Option.map_some, Nat.zero_add])
    obtain rfl := Option.some.inj (hl.symm.trans hl')
    obtain ⟨outputs', -, hlt, hge⟩ := minTokensLogits_eq_ok hok
    by_cases hc : outputs'.length < minTokens[j]
    · obtain ⟨stops', -, rfl⟩ := hlt hc
      obtain ⟨t, -, rfl⟩ := List.mem_map.mp hx
      exact (Nat.zero_add j).symm
    · rw [hge hc] at hx
      cases hx
  obtain ⟨l, hl, hok⟩ := hget i (m, i) (by
    rw [List.getElem?_zipIdx, hm, Option.map_some, Nat.zero_add])
  obtain ⟨outputs', ho', hlt, hge⟩ := minTokensLogits_eq_ok hok
  obtain rfl := Option.some.inj (ho.symm.trans ho')
  have hfilter := filter_flatten i hown
  rw [Nat.zero_add, hl, Option.getD_some] at hfilter
  rw [foldlM_maskLogit h i, hfilter]
  congr 1
  funext row
  unfold maskRow
  split_ifs with hc
  · obtain ⟨stops', hs', rfl⟩ := hlt hc
    obtain rfl := Option.some.inj (hs.symm.trans hs')
    rw [List.map_map]
    congr 1
    exact List.map_id _
  · rw [hge hc]
    rfl

/-! ## Penalties -/

/-- **Penalties that ask for nothing** leave the row. -/
theorem applyPenaltiesRow_neutral (promptTokens : List (Option TokenId)) (outputTokens : List TokenId)
    (logits : List Logit) : applyPenaltiesRow promptTokens outputTokens 0 0 1 logits = logits := by
  have hmap : ∀ f : ℚ → ℚ, (∀ q, f q = q) → ∀ x : Logit, x.map f = x := by
    intro f hf x
    rw [show f = id from funext hf, WithBot.map_id]
    rfl
  unfold applyPenaltiesRow
  apply List.ext_getElem?
  intro t
  rw [List.getElem?_mapIdx]
  cases logits[t]? with
  | none => rfl
  | some x => simp only [ite_self, zero_mul, hmap _ div_one, hmap _ mul_one, hmap _ sub_zero, Option.map_some]

/-- Only what is among the tokens of the prompt counts. -/
theorem applyPenaltiesRow_congr {promptTokens promptTokens' : List (Option TokenId)}
    (h : ∀ t, some t ∈ promptTokens ↔ some t ∈ promptTokens') (outputTokens : List TokenId) (pp fp rp : ℚ)
    (logits : List Logit) : applyPenaltiesRow promptTokens outputTokens pp fp rp logits =
      applyPenaltiesRow promptTokens' outputTokens pp fp rp logits := by
  simp only [applyPenaltiesRow, h]

namespace Sampler

/-- A row of a request after its penalties. -/
def penalizedRow (sp : SamplingParams) (promptTokenIds outputTokenIds : List TokenId) (row : List Logit) :
    List Logit :=
  applyPenaltiesRow (promptTokenIds.map some) outputTokenIds sp.presencePenalty sp.frequencyPenalty
    sp.repetitionPenalty (maskRow sp.minTokens outputTokenIds.length sp.allStopTokenIds row)

/-! ## Greedy rows -/

variable {R : Type} {topkToppSampler : List (List Logit) → Dict ℕ Generator → Bool → List ℤ → Bool →
  List ℚ → R → Except Exn (List TokenId × R)} {logits : List (List Logit)} {metadata : SamplingMetadata}
  {sampled : List TokenId} {state state' : R}

/-- What the metadata holds of a greedy row without penalties. The temperature of a row of a batch without
random requests, and the penalties of a batch without any, may be anything. -/
structure GreedyRow (metadata : SamplingMetadata) (i minTokens : ℕ) (outputs stops : List TokenId) :
    Prop where
  minTokens : metadata.minTokens[i]? = some minTokens
  outputTokenIds : metadata.outputTokenIds[i]? = some outputs
  stopTokenIds : metadata.stopTokenIds[i]? = some stops
  temperature : ∃ t, metadata.temperature[i]? = some t
  allGreedy : metadata.allGreedy = true
  noPenalties : metadata.noPenalties = true

/-- **The token of a greedy row** of a batch without random requests and without penalties is that of its
largest logit which the minimal number of tokens leaves, whatever else is in the batch. -/
theorem forward_greedy (h : forward topkToppSampler logits metadata state = .ok (sampled, state')) {i m : ℕ}
    {outputs stops : List TokenId} (hg : GreedyRow metadata i m outputs stops) {row : List Logit}
    (hrow : logits[i]? = some row) :
    sampled[i]? = some (argmax (maskRow m outputs.length stops row)) := by
  simp only [forward, applyPenalties, bind_eq_ok, sample, hg.allGreedy, hg.noPenalties] at h
  obtain ⟨_, ⟨logits₁, hmask, hlogits⟩, _, -, h⟩ := h
  obtain rfl := Except.ok.inj hlogits
  obtain ⟨rfl, -⟩ := Prod.mk.inj (Except.ok.inj h)
  obtain ⟨t, ht⟩ := hg.temperature
  have hrow₁ := applyMinTokenPenalties_row hmask hg.minTokens hg.outputTokenIds hg.stopTokenIds
  rw [List.getElem?_map, applyTemperature, List.getElem?_zipWith, hrow₁, hrow, ht]
  exact congrArg some (argmax_divisor t _)

/-! ## Any row -/

/-- What the metadata holds of the row of a request. -/
structure SamplerRow (metadata : SamplingMetadata) (i : ℕ) (sp : SamplingParams)
    (promptTokenIds outputTokenIds : List TokenId) : Prop where
  minTokens : metadata.minTokens[i]? = some sp.minTokens
  outputTokenIds : metadata.outputTokenIds[i]? = some outputTokenIds
  stopTokenIds : metadata.stopTokenIds[i]? = some sp.allStopTokenIds
  temperature : metadata.temperature[i]? = some sp.temperature
  topK : metadata.topK[i]? = some sp.topK
  topP : metadata.topP[i]? = some sp.topP
  unpenalized : metadata.noPenalties = true → sp.presencePenalty = 0 ∧ sp.frequencyPenalty = 0 ∧
    sp.repetitionPenalty = 1
  penalties : metadata.noPenalties = false → metadata.presencePenalties[i]? = some sp.presencePenalty ∧
    metadata.frequencyPenalties[i]? = some sp.frequencyPenalty ∧
    metadata.repetitionPenalties[i]? = some sp.repetitionPenalty
  prompt : metadata.noPenalties = false → ∃ tensor row, metadata.promptTokenIds = some tensor ∧
    tensor[i]? = some row ∧ ∀ t, some t ∈ row ↔ t ∈ promptTokenIds
  greedy : sp.temperature < samplingEps → metadata.allRandom = false
  random : ¬ sp.temperature < samplingEps → metadata.allGreedy = false
  noTopK : metadata.noTopK = true → sp.topK ≤ 0
  noTopP : metadata.noTopP = true → 1 ≤ sp.topP

variable {i : ℕ} {sp : SamplingParams} {promptTokenIds outputTokenIds : List TokenId} {row : List Logit}

/-- The penalties of a row. -/
theorem SamplerRow.applyPenalties (hr : SamplerRow metadata i sp promptTokenIds outputTokenIds)
    {logits' : List (List Logit)} (h : applyPenalties logits metadata = .ok logits') :
    logits'[i]? = logits[i]?.map (penalizedRow sp promptTokenIds outputTokenIds) := by
  simp only [Sampler.applyPenalties, bind_eq_ok] at h
  obtain ⟨logits₁, hmask, h⟩ := h
  have hrow := applyMinTokenPenalties_row hmask hr.minTokens hr.outputTokenIds hr.stopTokenIds
  split_ifs at h with hno
  · obtain rfl := Except.ok.inj h
    obtain ⟨hp, hf, hrep⟩ := hr.unpenalized hno
    rw [hrow]
    congr 1
    funext row
    rw [penalizedRow, hp, hf, hrep, applyPenaltiesRow_neutral]
  · rw [Bool.not_eq_true] at hno
    obtain ⟨hp, hf, hrep⟩ := hr.penalties hno
    obtain ⟨tensor, prompt, htensor, hprompt, hmem⟩ := hr.prompt hno
    simp only [bind_eq_ok, htensor, ofOption_some, Except.ok.injEq, exists_eq_left'] at h
    subst h
    rw [applyAllPenalties, List.getElem?_mapIdx, hrow]
    simp only [List.getD_eq_getElem?_getD, hprompt, hr.outputTokenIds, hp, hf, hrep, Option.getD_some,
      Option.map_map]
    congr 1
    funext row
    refine applyPenaltiesRow_congr (fun t => ?_) _ _ _ _ _
    rw [hmem, List.mem_map_of_injective (Option.some_injective _)]

/-- **What the random sampler is asked**, in a batch that is not greedy as a whole. -/
theorem forward_asks (h : forward topkToppSampler logits metadata state = .ok (sampled, state'))
    (hall : metadata.allGreedy = false) : ∃ logits' randomSampled,
      topkToppSampler logits' metadata.generators metadata.noTopK metadata.topK metadata.noTopP metadata.topP
        state = .ok (randomSampled, state') ∧
      ∀ {i : ℕ} {sp : SamplingParams} {promptTokenIds outputTokenIds : List TokenId} {row : List Logit},
        SamplerRow metadata i sp promptTokenIds outputTokenIds → logits[i]? = some row →
        logits'[i]? = some ((penalizedRow sp promptTokenIds outputTokenIds row).map fun x =>
          x.map (· / divisor sp.temperature)) := by
  simp only [forward, bind_eq_ok, sample] at h
  obtain ⟨logits₁, hpen, _, -, h⟩ := h
  rw [if_neg (by rw [hall]; decide), bind_eq_ok] at h
  obtain ⟨⟨randomSampled, state₁⟩, hrand, h⟩ := h
  refine ⟨applyTemperature logits₁ metadata.temperature, randomSampled, ?_, fun hr hrow => ?_⟩
  · split_ifs at h
    all_goals
      obtain ⟨-, rfl⟩ := Prod.mk.inj (Except.ok.inj h)
      exact hrand
  · rw [applyTemperature, List.getElem?_zipWith, hr.applyPenalties hpen, hrow, hr.temperature]
    rfl

/-- **The token of a row**: that of its largest logit for a greedy request, and what the random sampler gives
for any other, from logits of which this row depends on nothing else in the batch. -/
theorem forward_row (h : forward topkToppSampler logits metadata state = .ok (sampled, state'))
    (hr : SamplerRow metadata i sp promptTokenIds outputTokenIds) (hrow : logits[i]? = some row)
    (hlen : ∀ logits randomSampled state', topkToppSampler logits metadata.generators metadata.noTopK
        metadata.topK metadata.noTopP metadata.topP state = .ok (randomSampled, state') →
        i < logits.length → i < randomSampled.length) :
    (sp.temperature < samplingEps →
      sampled[i]? = some (argmax (penalizedRow sp promptTokenIds outputTokenIds row))) ∧
    (¬ sp.temperature < samplingEps → ∃ logits' randomSampled,
      topkToppSampler logits' metadata.generators metadata.noTopK metadata.topK metadata.noTopP metadata.topP
        state = .ok (randomSampled, state') ∧
      logits'[i]? = some ((penalizedRow sp promptTokenIds outputTokenIds row).map fun x =>
        x.map (· / sp.temperature)) ∧ sampled[i]? = randomSampled[i]?) := by
  simp only [forward, bind_eq_ok, sample] at h
  obtain ⟨logits₁, hpen, _, -, h⟩ := h
  have hscaled : (applyTemperature logits₁ metadata.temperature)[i]? =
      some ((penalizedRow sp promptTokenIds outputTokenIds row).map fun x =>
        x.map (· / divisor sp.temperature)) := by
    rw [applyTemperature, List.getElem?_zipWith, hr.applyPenalties hpen, hrow, hr.temperature]
    rfl
  have hgreedy : ((applyTemperature logits₁ metadata.temperature).map argmax)[i]? =
      some (argmax (penalizedRow sp promptTokenIds outputTokenIds row)) := by
    rw [List.getElem?_map, hscaled]
    exact congrArg some (argmax_divisor _ _)
  have hdiv : ¬ sp.temperature < samplingEps → divisor sp.temperature = sp.temperature :=
    fun hrandom => if_neg hrandom
  split_ifs at h with hall hrandom
  · -- no request is random
    obtain ⟨rfl, -⟩ := Prod.mk.inj (Except.ok.inj h)
    exact ⟨fun _ => hgreedy, fun hn => absurd (hall.symm.trans (hr.random hn)) (by decide)⟩
  · -- no request is greedy
    simp only [bind_eq_ok] at h
    obtain ⟨⟨randomSampled, state₁⟩, hrand, h⟩ := h
    obtain ⟨rfl, rfl⟩ := Prod.mk.inj (Except.ok.inj h)
    refine ⟨fun hg => absurd (hrandom.symm.trans (hr.greedy hg)) (by decide), fun hn => ?_⟩
    rw [hdiv hn] at hscaled
    exact ⟨_, _, hrand, hscaled, rfl⟩
  · simp only [bind_eq_ok] at h
    obtain ⟨⟨randomSampled, state₁⟩, hrand, h⟩ := h
    obtain ⟨rfl, rfl⟩ := Prod.mk.inj (Except.ok.inj h)
    have hlt : i < randomSampled.length :=
      hlen _ _ _ hrand (List.getElem?_eq_some_iff.mp hscaled).1
    have hchosen : (List.zipWith (fun t x => if t < samplingEps then x.1 else x.2) metadata.temperature
        (((applyTemperature logits₁ metadata.temperature).map argmax).zip randomSampled))[i]? =
        some (if sp.temperature < samplingEps then
          argmax (penalizedRow sp promptTokenIds outputTokenIds row) else randomSampled[i]) := by
      rw [List.getElem?_zipWith, hr.temperature, List.zip_eq_zipWith, List.getElem?_zipWith, hgreedy,
        List.getElem?_eq_getElem hlt]
    refine ⟨fun hg => ?_, fun hn => ?_⟩
    · rw [hchosen, if_pos hg]
    · rw [hdiv hn] at hscaled
      refine ⟨_, _, hrand, hscaled, ?_⟩
      rw [hchosen, if_neg hn, List.getElem?_eq_getElem hlt]

end Sampler

end SpaceServe
