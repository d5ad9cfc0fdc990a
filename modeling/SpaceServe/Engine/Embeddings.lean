import SpaceServe.Engine.Inputs
import SpaceServe.Engine.Outputs
import SpaceServe.Worker.Merge

/-!
# Every row of an encoder output on its own placeholder

`_gather_encoder_outputs` takes rows by the placeholder ranges of the requests, while
`merge_multimodal_embeddings` puts them on the image and video tokens of the batch, whichever request
and position they are at. The rows land where they belong if and only if in the scheduled windows these
tokens are exactly those in a placeholder range; a single token elsewhere, in a prompt or sampled, makes
the merge of the whole batch fail or shifts its rows.

The model of `execute_model` goes on whether or not the merge fails, so the states considered here
include those the engine reaches only while its merges succeed.

* `rowTargets`: the rows that the tokens of a window should get; `gathered_targets`;
* `Lands`: every row is where it belongs; `Marked`: the tokens of the windows mark the ranges;
* `WindowOutputs.matching`, `WindowOutputs.lands`, `Lands.marked`;
* **`embeddings_land_iff`**.
-/

set_option autoImplicit false

namespace SpaceServe

open Py

section

variable {ρ : Type}

/-! ## The rows of a window -/

/-- The row of position `k` of an input. -/
theorem rowAt_item {outputs : ℕ → Option (List ρ)} : ∀ {poss : List PlaceholderRange} {i i₀ k : ℕ}
    {pos : PlaceholderRange}, WellPlaced poss → poss[i]? = some pos → k < pos.length →
      rowAt outputs poss i₀ (pos.offset + k) = (outputs (i₀ + i)).bind fun output => output[k]?
  | pos₀ :: rest, 0, i₀, k, pos, _, hi, hk => by
    obtain rfl := Option.some.inj hi
    rw [rowAt, if_pos (by omega), Nat.add_zero, Nat.add_sub_cancel_left]
  | pos₀ :: rest, i + 1, i₀, k, pos, hwell, hi, hk => by
    obtain ⟨hwell', hrest⟩ := hwell.tail
    have hle := hrest pos (List.mem_of_getElem? hi)
    rw [rowAt, if_neg (by omega), rowAt_item hwell' hi hk, Nat.add_assoc, Nat.add_comm 1 i]

/-- The rows that the tokens of the window of a request should get. -/
def rowTargets (s : Scheduler) (out : SchedulerOutput) (cache : Dict ReqId (Dict ℕ (List ρ)))
    (id : ReqId) : List (Option ρ) :=
  match s.requests.get? id, out.numScheduledTokens.get? id with
  | some r, some n => (List.range' r.numComputedTokens n).map
      (rowAt (cachedOutput cache id) r.mmPositions 0)
  | _, _ => []

variable {s : Scheduler} {out : SchedulerOutput} {w : GPUModelRunner (List ρ)} {rows : List ReqId}
  {ns : List ℕ} {p : SchedulerParams}

theorem rowTargets_eq {cache : Dict ReqId (Dict ℕ (List ρ))} {id : ReqId} {r : Request} {n : ℕ}
    (hr : s.requests.get? id = some r) (hn : out.numScheduledTokens.get? id = some n) :
    rowTargets s out cache id = (List.range' r.numComputedTokens n).map
      (rowAt (cachedOutput cache id) r.mmPositions 0) := by
  rw [rowTargets, hr, hn]

/-- The windows find their outputs, which have one row for each placeholder. -/
structure WindowOutputs (s : Scheduler) (out : SchedulerOutput) (w : GPUModelRunner (List ρ)) : Prop where
  placed : ∀ id r, s.requests.get? id = some r → WellPlaced r.mmPositions
  ready : ∀ id n r, out.numScheduledTokens.get? id = some n → s.requests.get? id = some r →
    ∃ st, st.mmPositions = r.mmPositions ∧ ReadyRow w out id st r.numComputedTokens n
  fits : ∀ id r, s.requests.get? id = some r →
    FitsRanges (cachedOutput w.encoderCache id) r.mmPositions 0

/-- The slices of one window are its rows. -/
theorem OneRowEach.reduceOption {cache : Dict ReqId (Dict ℕ (List ρ))} {id : ReqId}
    {poss : List PlaceholderRange} {nc n : ℕ} {slices : List (List ρ)}
    (h : OneRowEach cache id poss nc n slices)
    (hsome : ∀ q ∈ List.range' nc n, (rowAt (cachedOutput cache id) poss 0 q).isSome = true ↔
      IsPlaceholder poss q) :
    slices.flatten = ((List.range' nc n).map (rowAt (cachedOutput cache id) poss 0)).reduceOption := by
  have hmap := h.trans (map_some_filterMap hsome).symm
  rw [List.reduceOption, List.filterMap_map]
  exact List.map_injective_iff.mpr (Option.some_injective ρ) hmap

/-- **The rows that are gathered** are those of the windows, in their order. -/
theorem WindowOutputs.gathered_targets (h : WindowOutputs s out w) (hb : BatchOf s out w rows ns) :
    ∃ gathered, w.gatherEncoderOutputs out = .ok gathered ∧
      gathered.flatten = (rows.map (rowTargets s out w.encoderCache)).flatten.reduceOption ∧
      (rows = [] → gathered = []) := by
  have hrow : ∀ id ∈ rows, ∃ n r, out.numScheduledTokens.get? id = some n ∧
      s.requests.get? id = some r := by
    intro id hid
    obtain ⟨i, hi⟩ := List.mem_iff_getElem?.mp hid
    obtain ⟨n, r, -, hrow⟩ := hb.row i id hi
    exact ⟨n, r, hrow.scheduled, hrow.request⟩
  obtain ⟨slices, hg, hall⟩ := gatherEncoderOutputs_spec hb.scheduled.reqIds fun id hid => by
    obtain ⟨n, r, hn, hr⟩ := hrow id hid
    obtain ⟨st, -, hready⟩ := h.ready id n r hn hr
    exact ⟨st, _, n, hready⟩
  refine ⟨slices.flatten, hg, ?_, fun hnil => ?_⟩
  · clear hg hb
    induction hall with
    | nil => rfl
    | @cons id sl rows slices hd _ ih =>
      obtain ⟨st, nc, n, hready, hone⟩ := hd
      obtain ⟨n', r, hn, hr⟩ := hrow id List.mem_cons_self
      obtain ⟨st', hmm, hready'⟩ := h.ready id n' r hn hr
      obtain rfl := Option.some.inj (hready.scheduled.symm.trans hn)
      obtain rfl := Option.some.inj (hready.state.symm.trans hready'.state)
      obtain rfl := Int.ofNat.inj (hready.computed.symm.trans hready'.computed)
      rw [hmm] at hone
      have hflat := (hone (h.fits id r hr)).reduceOption fun q hq => by
        rw [List.mem_range'_1] at hq
        exact rowAt_isSome hq (hmm ▸ hready.outputs) (h.fits id r hr)
      rw [List.flatten_cons, List.flatten_append, List.map_cons, List.flatten_cons,
        List.reduceOption_append, rowTargets_eq hr hn, hflat,
        ih fun id' hid' => hrow id' (List.mem_cons_of_mem _ hid')]
  · subst hnil
    cases hall
    rfl

theorem BatchOf.lengths (hb : BatchOf s out w rows ns) (cache : Dict ReqId (Dict ℕ (List ρ))) :
    (rows.map (rowTargets s out cache)).map List.length = ns := by
  ext1 i
  rw [List.getElem?_map, List.getElem?_map]
  cases hi : rows[i]? with
  | none =>
    have hlen := hb.scheduled.tokens.length_eq
    rw [List.getElem?_eq_none_iff] at hi
    exact (List.getElem?_eq_none (hlen ▸ hi)).symm
  | some id =>
    obtain ⟨n, r, hn, hrow⟩ := hb.row i id hi
    rw [hn, Option.map_some, Option.map_some, rowTargets_eq hrow.request hrow.scheduled,
      List.length_map, List.length_range']

/-- The rows that the tokens of the batch should get, at a token. -/
theorem BatchOf.target_at (hb : BatchOf s out w rows ns) (cache : Dict ReqId (Dict ℕ (List ρ)))
    {i : ℕ} {id : ReqId} {n : ℕ} {r : Request} {j : ℕ} (hi : rows[i]? = some id)
    (hn : out.numScheduledTokens.get? id = some n) (hr : s.requests.get? id = some r) (hj : j < n) :
    (rows.map (rowTargets s out cache)).flatten[offset ns i + j]? =
      some (rowAt (cachedOutput cache id) r.mmPositions 0 (r.numComputedTokens + j)) := by
  have hseg : (rows.map (rowTargets s out cache))[i]? = some (rowTargets s out cache id) := by
    rw [List.getElem?_map, hi]
    rfl
  have hget := getElem?_flatten_offset hseg (j := j) (by
    rw [rowTargets_eq hr hn, List.length_map, List.length_range']
    exact hj)
  rw [hb.lengths cache] at hget
  rw [hget, rowTargets_eq hr hn, List.getElem?_map, List.getElem?_range' hj, Nat.one_mul]
  rfl

/-! ## Where the rows belong -/

/-- Every row is where it belongs: at offset `k` of input `i` of a request stands row `k` of its output,
and the other tokens keep their text embeddings. -/
structure Lands (s : Scheduler) (out : SchedulerOutput) (cache : Dict ReqId (Dict ℕ (List ρ)))
    (rows : List ReqId) (ns : List ℕ) (embeds : List (Embedding ρ)) : Prop where
  item : ∀ a id n r i pos k, rows[a]? = some id → out.numScheduledTokens.get? id = some n →
    s.requests.get? id = some r → r.mmPositions[i]? = some pos → k < pos.length →
    r.numComputedTokens ≤ pos.offset + k → pos.offset + k < r.numComputedTokens + n →
    ∃ output row, cachedOutput cache id i = some output ∧ output[k]? = some row ∧
      embeds[offset ns a + (pos.offset + k - r.numComputedTokens)]? = some (Embedding.row row)
  text : ∀ a id n r q, rows[a]? = some id → out.numScheduledTokens.get? id = some n →
    s.requests.get? id = some r → r.numComputedTokens ≤ q → q < r.numComputedTokens + n →
    ¬ IsPlaceholder r.mmPositions q → ∃ t, r.allTokenIds[q]? = some t ∧
      embeds[offset ns a + (q - r.numComputedTokens)]? = some (Embedding.text t)

/-- In the scheduled windows the image and video tokens are those in a placeholder range. -/
def Marked (c : PlaceholderTokens) (s : Scheduler) (out : SchedulerOutput) : Prop :=
  ∀ id n r q t, out.numScheduledTokens.get? id = some n → s.requests.get? id = some r →
    r.numComputedTokens ≤ q → q < r.numComputedTokens + n → r.allTokenIds[q]? = some t →
      (t ∈ c.ids ↔ IsPlaceholder r.mmPositions q)

variable {c : PlaceholderTokens} {inputs : ModelInputs}

/-- The inputs of the scheduled windows. -/
def Windows (p : KVCacheParams) (s : Scheduler) (rows : List ReqId) (ns : List ℕ)
    (inputs : ModelInputs) : Prop :=
  inputs.inputIds.length = ns.sum ∧ ∀ i id n r j, rows[i]? = some id → ns[i]? = some n →
    s.requests.get? id = some r → j < n →
      WindowAt p s.kv inputs id r (r.numComputedTokens + j) (offset ns i + j)

/-- **Tokens that mark the ranges** match the rows. -/
theorem WindowOutputs.matching (h : WindowOutputs s out w) (hb : BatchOf s out w rows ns)
    (hin : Windows p.kv s rows ns inputs) (hm : Marked c s out) :
    Matching c.ids inputs.inputIds (rows.map (rowTargets s out w.encoderCache)).flatten := by
  have hlen : (rows.map (rowTargets s out w.encoderCache)).flatten.length = ns.sum := by
    rw [List.length_flatten, hb.lengths]
  refine List.forall₂_iff_get.mpr ⟨hin.1.trans hlen.symm, fun k h₁ h₂ => ?_⟩
  obtain ⟨i, n, j, hn, hj, rfl⟩ := exists_offset (hin.1 ▸ h₁)
  have hi : i < rows.length := by
    rw [hb.scheduled.tokens.length_eq]
    exact (List.getElem?_eq_some_iff.mp hn).1
  obtain ⟨n', r, hn', hrow⟩ := hb.row i rows[i] (List.getElem?_eq_getElem hi)
  obtain rfl := Option.some.inj (hn.symm.trans hn')
  obtain ⟨t, ht, hid⟩ := (hin.2 i _ n r j (List.getElem?_eq_getElem hi) hn hrow.request hj).inputId
  have htarget := hb.target_at w.encoderCache (List.getElem?_eq_getElem hi) hrow.scheduled
    hrow.request hj
  obtain ⟨_, hid'⟩ := List.getElem?_eq_some_iff.mp hid
  obtain ⟨_, htarget'⟩ := List.getElem?_eq_some_iff.mp htarget
  obtain ⟨st, hmm, hready⟩ := h.ready _ n r hrow.scheduled hrow.request
  rw [List.get_eq_getElem, List.get_eq_getElem, hid', htarget',
    rowAt_isSome (by omega) (hmm ▸ hready.outputs) (h.fits _ r hrow.request)]
  exact hm _ n r _ t hrow.scheduled hrow.request (by omega) (by omega) ht

/-- **Rows that match** are where they belong. -/
theorem WindowOutputs.lands (h : WindowOutputs s out w) (hb : BatchOf s out w rows ns)
    (hin : Windows p.kv s rows ns inputs) :
    Lands s out w.encoderCache rows ns (List.zipWith Embedding.ofRow inputs.inputIds
      (rows.map (rowTargets s out w.encoderCache)).flatten) := by
  -- what stands at position `q` of a window
  have hat : ∀ a id n r q, rows[a]? = some id → out.numScheduledTokens.get? id = some n →
      s.requests.get? id = some r → r.numComputedTokens ≤ q → q < r.numComputedTokens + n →
      ∃ t, r.allTokenIds[q]? = some t ∧ (List.zipWith Embedding.ofRow inputs.inputIds
        (rows.map (rowTargets s out w.encoderCache)).flatten)[offset ns a +
          (q - r.numComputedTokens)]? =
            some (Embedding.ofRow t (rowAt (cachedOutput w.encoderCache id) r.mmPositions 0 q)) := by
    intro a id n r q ha hn hr h1 h2
    obtain ⟨j, rfl⟩ := Nat.exists_eq_add_of_le h1
    obtain ⟨n', r', hn', hrow⟩ := hb.row a id ha
    obtain rfl := Option.some.inj (hn.symm.trans hrow.scheduled)
    obtain ⟨t, ht, hid⟩ := (hin.2 a id n r j ha hn' hr (by omega)).inputId
    refine ⟨t, ht, ?_⟩
    rw [Nat.add_sub_cancel_left, List.getElem?_zipWith, hid,
      hb.target_at w.encoderCache ha hn hr (by omega)]
  refine ⟨fun a id n r i pos k ha hn hr hi hk h1 h2 => ?_, fun a id n r q ha hn hr h1 h2 hnot => ?_⟩
  · obtain ⟨t, -, hget⟩ := hat a id n r _ ha hn hr h1 h2
    obtain ⟨st, hmm, hready⟩ := h.ready id n r hn hr
    obtain ⟨output, ho⟩ := hready.outputs i pos (hmm ▸ hi) (by omega) (by omega)
    have hlt : k < output.length := (h.fits id r hr i pos output hi ho).symm ▸ hk
    rw [Nat.zero_add] at ho
    rw [rowAt_item (h.placed id r hr) hi hk, Nat.zero_add, ho, Option.bind_some,
      List.getElem?_eq_getElem hlt] at hget
    exact ⟨output, _, ho, List.getElem?_eq_getElem hlt, hget⟩
  · obtain ⟨t, ht, hget⟩ := hat a id n r q ha hn hr h1 h2
    obtain ⟨st, hmm, hready⟩ := h.ready id n r hn hr
    have hnone : rowAt (cachedOutput w.encoderCache id) r.mmPositions 0 q = none := by
      rw [← Option.not_isSome_iff_eq_none, rowAt_isSome ⟨h1, h2⟩ (hmm ▸ hready.outputs)
        (h.fits id r hr)]
      exact hnot
    rw [hnone] at hget
    exact ⟨t, ht, hget⟩

/-- **Rows that are where they belong** are on image and video tokens, and on all of them. -/
theorem Lands.marked {cache : Dict ReqId (Dict ℕ (List ρ))} {embeds : List (Embedding ρ)}
    {gathered : List (List ρ)} (h : Lands s out cache rows ns embeds) (hb : BatchOf s out w rows ns)
    (hin : Windows p.kv s rows ns inputs)
    (hm : mergeMultimodalEmbeddings inputs.inputIds (inputs.inputIds.map .text) gathered c.ids =
      .ok embeds) : Marked c s out := by
  intro id n r q t hn hr h1 h2 ht
  obtain ⟨a, ha⟩ := List.mem_iff_getElem?.mp (hb.perm.mem_iff.mpr (Dict.mem_keys_of_get? hn))
  obtain ⟨n', r', hn', hrow⟩ := hb.row a id ha
  obtain rfl := Option.some.inj (hn.symm.trans hrow.scheduled)
  obtain ⟨t', ht', hid⟩ := (hin.2 a id n r (q - r.numComputedTokens) ha hn' hr (by omega)).inputId
  rw [show r.numComputedTokens + (q - r.numComputedTokens) = q by omega, ht] at ht'
  obtain rfl := Option.some.inj ht'
  obtain ⟨hrows, htext⟩ := merge_row hm hid
  constructor
  · intro hmem
    by_contra hnot
    obtain ⟨row, hget⟩ := hrows hmem
    obtain ⟨t', -, hget'⟩ := h.text a id n r q ha hn hr h1 h2 hnot
    rw [hget] at hget'
    cases hget'
  · rintro ⟨pos, hpos, h3, h4⟩
    by_contra hnot
    obtain ⟨i, hi⟩ := List.mem_iff_getElem?.mp hpos
    obtain ⟨k, rfl⟩ := Nat.exists_eq_add_of_le h3
    obtain ⟨output, row, -, -, hget⟩ := h.item a id n r i pos k ha hn hr hi (by omega) h1 h2
    rw [htext hnot] at hget
    cases hget

/-! ## Runs -/

namespace EngineRun

/-- The runs with requests that the `Processor` has accepted, and encoder outputs with one row for each
placeholder of their inputs. -/
def AcceptedRun (positions : ReqId → List PlaceholderRange) (p : SchedulerParams) :
    EngineRun (GPUModelRunner (List ρ)) → Prop :=
  Reachable (fun σ e => step p (uniProcExecutor ρ p.maxNumRunningReqs) σ e)
    (fun σ e => σ.core.Orderly e ∧ UniqueIds σ.log.seen e ∧ Placed positions e ∧
      Fitting positions e ∧ AcceptedPrompt p e)
    (init p (.init p.maxNumRunningReqs))

variable {positions : ReqId → List PlaceholderRange} {σ : EngineRun (GPUModelRunner (List ρ))}

theorem AcceptedRun.unique (h : AcceptedRun positions p σ) : UniqueRun p σ :=
  h.mono fun _ _ he => ⟨he.1, he.2.1⟩

theorem AcceptedRun.short (h : AcceptedRun positions p σ) : Short p σ.core.scheduler := by
  have hprompt : PromptRun p σ := h.mono fun _ _ he => ⟨he.1, he.2.1, he.2.2.2.2⟩
  exact hprompt.short

/-- What an execution finds in such a run. -/
theorem AcceptedRun.windows (h : AcceptedRun positions p σ) {polled : Option (EncoderResult (List ρ))}
    (hs : σ.core.scheduler.schedule p (σ.core.available (uniProcExecutor ρ p.maxNumRunningReqs)) =
      .ok (out, s))
    (hh : EngineCore.handle (uniProcExecutor ρ p.maxNumRunningReqs) σ.core.executor polled = .ok w)
    (hfit : ∀ res ∈ polled, Fits positions res) :
    ∃ changed w₁ rows ns, w.updateStates p.maxNumRunningReqs out = .ok (changed, w₁) ∧
      BatchOf s out w₁ rows ns ∧ WindowOutputs s out w₁ := by
  have hplaced : PlacedRun positions p σ := h.mono fun σ e he => ⟨he.1, he.2.1, he.2.2.1⟩
  have hfitting : FittingRun positions p σ :=
    h.mono fun σ e he => ⟨he.1, he.2.1, he.2.2.1, he.2.2.2.1⟩
  obtain ⟨hreq, hbatch, -⟩ := handle_uniProc hh
  obtain ⟨changed, w₁, rows, ns, hup, hb⟩ := h.unique.refinementInv.batch hs hreq hbatch
  obtain ⟨_, _, hup', hready⟩ := hplaced.outputInv.ready hs hh
  rw [hup] at hup'
  cases hup'
  have hpos := hplaced.outputInv.placedAfter hs
  refine ⟨changed, w₁, rows, ns, hup, hb, ⟨fun id r hr => ?_, fun id n r hn hr => ?_,
    fun id r hr => ?_⟩⟩
  · rw [(hpos id r hr).1]
    exact (hpos id r hr).2
  · obtain ⟨st, r', hr', hmm, hrow⟩ := hready.ready id n hn
    obtain rfl := Option.some.inj (hr.symm.trans hr')
    exact ⟨st, hmm, hrow⟩
  · rw [(hpos id r hr).1]
    intro i pos v hi hv
    rw [GPUModelRunner.cachedOutput_updateStates hup] at hv
    split_ifs at hv
    exact hfitting.cacheFits.handled hh hfit id i pos v hi hv

/-- **Every row lands on its own placeholder**, and nothing is raised, if and only if in the scheduled
windows the image and video tokens are exactly those in a placeholder range. -/
theorem embeddings_land_iff (h : AcceptedRun positions p σ)
    {polled : Option (EncoderResult (List ρ))}
    (hs : σ.core.scheduler.schedule p (σ.core.available (uniProcExecutor ρ p.maxNumRunningReqs)) =
      .ok (out, s))
    (hh : EngineCore.handle (uniProcExecutor ρ p.maxNumRunningReqs) σ.core.executor polled = .ok w)
    (hfit : ∀ res ∈ polled, Fits positions res) (useCascade : ℤ → List ℕ → Bool)
    (c : PlaceholderTokens) :
    ∃ changed w₁ rows ns gathered, w.updateStates p.maxNumRunningReqs out = .ok (changed, w₁) ∧
      BatchOf s out w₁ rows ns ∧ w₁.gatherEncoderOutputs out = .ok gathered ∧
      (gathered ≠ [] → ((∃ embeds, w₁.embedInputs p.kv useCascade c out = .ok embeds ∧
        Lands s out w₁.encoderCache rows ns embeds) ↔ Marked c s out)) := by
  have hsound := h.unique.refinementInv.sound
  obtain ⟨changed, w₁, rows, ns, hup, hb, hwin⟩ := h.windows hs hh hfit
  obtain ⟨gathered, hg, hflat, hnil⟩ := hwin.gathered_targets hb
  refine ⟨changed, w₁, rows, ns, gathered, hup, hb, hg, fun hne => ?_⟩
  obtain ⟨inputs, hprep, hlen, -, hat⟩ := hb.prepareInputs (mt hnil hne) (h.short.schedule hsound hs)
    (hsound.blocks.schedule hsound.wf hs).1 useCascade
  have hin : Windows p.kv s rows ns inputs := ⟨hlen, hat⟩
  have hembed : w₁.embedInputs p.kv useCascade c out = mergeMultimodalEmbeddings inputs.inputIds
      (inputs.inputIds.map .text) gathered c.ids := by
    rw [GPUModelRunner.embedInputs, hg, ok_bind, hprep, ok_bind, if_neg hne]
    rfl
  rw [hembed]
  constructor
  · rintro ⟨embeds, hok, hlands⟩
    exact hlands.marked hb hin hok
  · intro hm
    exact ⟨_, merge_matching (hwin.matching hb hin hm) hflat, hwin.lands hb hin⟩

end EngineRun

end

namespace EngineRun

open SchedulerRun (smallParams)

/-- What the next execution gathers and embeds, with image token 5 and video token 7. -/
def embeddedNext (σ : EngineRun (GPUModelRunner (List ℕ))) :
    Except Exn ((SchedulerOutput × Scheduler) × List (List ℕ) × Except Exn (List (Embedding ℕ))) := do
  let (out, s) ← σ.core.scheduler.schedule smallParams (σ.core.available smallExecutor)
  let (_, w) ← σ.core.executor.updateStates smallParams.maxNumRunningReqs out
  let gathered ← w.gatherEncoderOutputs out
  .ok ((out, s), gathered, w.embedInputs smallParams.kv (fun _ _ => false) ⟨5, 7⟩ out)

/-- Only the first request has an image. -/
def firstHasImage (id : ReqId) : List PlaceholderRange := if id = "a" then [⟨0, 1⟩] else []

theorem embeddedNext_eq_ok {σ : EngineRun (GPUModelRunner (List ℕ))} {out : SchedulerOutput}
    {s : Scheduler} {gathered : List (List ℕ)} {embeds : Except Exn (List (Embedding ℕ))}
    (h : σ.embeddedNext = .ok ((out, s), gathered, embeds)) :
    σ.core.scheduler.schedule smallParams (σ.core.available smallExecutor) = .ok (out, s) ∧
    ∃ changed w, σ.core.executor.updateStates smallParams.maxNumRunningReqs out = .ok (changed, w) ∧
      w.gatherEncoderOutputs out = .ok gathered ∧
      w.embedInputs smallParams.kv (fun _ _ => false) ⟨5, 7⟩ out = embeds := by
  simp only [embeddedNext, bind_eq_ok] at h
  obtain ⟨⟨out', s'⟩, hs, ⟨changed, w⟩, hup, gathered', hg, h⟩ := h
  simp only [Except.ok.injEq, Prod.mk.injEq] at h
  obtain ⟨⟨rfl, rfl⟩, rfl, rfl⟩ := h
  exact ⟨hs, changed, w, hup, hg, rfl⟩

theorem marked_one_image {out : SchedulerOutput} {s : Scheduler}
    (htok : out.numScheduledTokens.entries = [("a", 2)])
    (hreq : (s.requests.get? "a").map (fun r => (r.numComputedTokens, r.allTokenIds, r.mmPositions)) =
      some (0, [5, 6], [⟨0, 1⟩])) :
    Marked ⟨5, 7⟩ s out := by
  intro id n r q t hn hr _ h2 ht
  have hmem := (out.numScheduledTokens.mem_entries id n).mpr hn
  rw [htok, List.mem_singleton] at hmem
  obtain ⟨rfl, rfl⟩ := Prod.mk.inj hmem
  rw [hr, Option.map_some, Option.some.injEq, Prod.mk.injEq, Prod.mk.injEq] at hreq
  obtain ⟨h0, hall, hmm⟩ := hreq
  rw [hall] at ht
  rw [h0] at h2
  rw [hmm]
  obtain rfl | rfl : q = 0 ∨ q = 1 := by omega
  · obtain rfl := Option.some.inj ht
    decide
  · obtain rfl := Option.some.inj ht
    decide

theorem embeddings_land_iff_one_image : ∃ (σ : EngineRun (GPUModelRunner (List ℕ)))
    (out : SchedulerOutput) (s : Scheduler) (changed : Bool) (w₁ : GPUModelRunner (List ℕ))
    (rows : List ReqId) (ns : List ℕ) (embeds : List (Embedding ℕ)),
    AcceptedRun firstHasImage smallParams σ ∧
    σ.core.scheduler.schedule smallParams (σ.core.available smallExecutor) = .ok (out, s) ∧
    out.numScheduledTokens.entries = [("a", 2)] ∧
    σ.core.executor.updateStates smallParams.maxNumRunningReqs out = .ok (changed, w₁) ∧
    w₁.gatherEncoderOutputs out = .ok [[42]] ∧ BatchOf s out w₁ rows ns ∧
    w₁.embedInputs smallParams.kv (fun _ _ => false) ⟨5, 7⟩ out = .ok embeds ∧
    Lands s out w₁.encoderCache rows ns embeds := by
  obtain ⟨σ, hrun, hnext⟩ := exists_reachable (fun σ e => step smallParams smallExecutor σ e)
    (fun σ e => σ.core.Orderly e ∧ UniqueIds σ.log.seen e ∧ Placed firstHasImage e ∧
      Fitting firstHasImage e ∧ AcceptedPrompt smallParams e)
    (init smallParams (.init smallParams.maxNumRunningReqs))
    [.addRequest (.ofPrompt "a" [5, 6] [⟨0, 1⟩]), .encoderResult (oneResult "a" 0 [42])]
    (fun σ => σ.embeddedNext.toOption.any (fun x => decide (
      x.1.1.numScheduledTokens.entries = [("a", 2)] ∧ x.2.1 = [[42]] ∧
      (x.1.2.requests.get? "a").map (fun r => (r.numComputedTokens, r.allTokenIds, r.mmPositions)) =
        some (0, [5, 6], [⟨0, 1⟩]))) = true) (by decide +kernel)
  obtain ⟨⟨⟨out, s⟩, gathered, embeds⟩, hok, hx⟩ := exists_ok_of_any hnext
  obtain ⟨htok, hgathered, hreq⟩ := of_decide_eq_true hx
  obtain rfl : gathered = [[42]] := hgathered
  obtain ⟨hs, changed, w₁, hup, hg, -⟩ := embeddedNext_eq_ok hok
  obtain ⟨_, _, rows, ns, _, hup', hb, hg', hiff⟩ := embeddings_land_iff hrun hs
    (EngineCore.handle_none smallExecutor _)
    (fun res hres => by cases hres) (fun _ _ => false) ⟨5, 7⟩
  rw [hup] at hup'
  cases hup'
  rw [hg] at hg'
  cases hg'
  obtain ⟨embeds', hok', hlands⟩ := (hiff (List.cons_ne_nil _ _)).mpr (marked_one_image htok hreq)
  exact ⟨σ, out, s, changed, w₁, rows, ns, embeds', hrun, hs, htok, hup, hg, hb, hok', hlands⟩

/-- A text prompt with an image token makes the merge of an image in the same batch fail. -/
theorem embeddings_fail_image_token_in_text : ∃ (σ : EngineRun (GPUModelRunner (List ℕ)))
    (out : SchedulerOutput) (s : Scheduler) (changed : Bool) (w₁ : GPUModelRunner (List ℕ)),
    AcceptedRun firstHasImage smallParams σ ∧
    σ.core.scheduler.schedule smallParams (σ.core.available smallExecutor) = .ok (out, s) ∧
    out.numScheduledTokens.entries = [("a", 2), ("b", 1)] ∧
    σ.core.executor.updateStates smallParams.maxNumRunningReqs out = .ok (changed, w₁) ∧
    w₁.gatherEncoderOutputs out = .ok [[42]] ∧
    w₁.embedInputs smallParams.kv (fun _ _ => false) ⟨5, 7⟩ out = .error (.valueError
      "Attempted to assign 1 = 1 multimodal tokens to 2 placeholders") := by
  obtain ⟨σ, hrun, hnext⟩ := exists_reachable (fun σ e => step smallParams smallExecutor σ e)
    (fun σ e => σ.core.Orderly e ∧ UniqueIds σ.log.seen e ∧ Placed firstHasImage e ∧
      Fitting firstHasImage e ∧ AcceptedPrompt smallParams e)
    (init smallParams (.init smallParams.maxNumRunningReqs))
    [.addRequest (.ofPrompt "a" [5, 6] [⟨0, 1⟩]), .addRequest (.ofPrompt "b" [5] []),
      .encoderResult (oneResult "a" 0 [42])]
    (fun σ => σ.embeddedNext.toOption.any (fun x => decide (
      x.1.1.numScheduledTokens.entries = [("a", 2), ("b", 1)] ∧ x.2.1 = [[42]] ∧
      x.2.2 = .error (.valueError "Attempted to assign 1 = 1 multimodal tokens to 2 placeholders")))
      = true) (by decide +kernel)
  obtain ⟨⟨⟨out, s⟩, gathered, embeds⟩, hok, hx⟩ := exists_ok_of_any hnext
  obtain ⟨htok, hgathered, hembeds⟩ := of_decide_eq_true hx
  obtain rfl : gathered = [[42]] := hgathered
  obtain ⟨hs, changed, w₁, hup, hg, he⟩ := embeddedNext_eq_ok hok
  exact ⟨σ, out, s, changed, w₁, hrun, hs, htok, hup, hg, he.trans hembeds⟩

end EngineRun

end SpaceServe
