import SpaceServe.Engine.Cascade
import SpaceServe.Scheduler.Contents
import SpaceServe.Worker.MergeStates

/-!
# The forward pass in runs of the engine

The rows of a batch that `_prepare_inputs` was called for are those of the attention layers: their
lengths are those of the requests, and the blocks that cascade attention takes from the first row are
those of every row.

* `rowText`, `rowComputed`: the requests in the rows; **`BatchOf.rowLengths`**, **`BatchOf.feeds`**;
* `BatchOf.placed`, `BatchOf.window_mem`, **`BatchOf.forward`**: what a forward pass computes and stores;
* **`cascade_attention_exact`**: in every run of the engine a batch gets from cascade attention what
  regular attention would give it.
-/

set_option autoImplicit false

namespace SpaceServe

open Py

/-- Cascade attention is used when it was found to pay. -/
theorem GPUModelRunner.prepareInputs_cascade {V : Type} {p : KVCacheParams} {useCascade : ℤ → List ℕ → Bool}
    {w : GPUModelRunner V} {out : SchedulerOutput} {inputs : ModelInputs}
    (h : w.prepareInputs p useCascade out = .ok inputs) :
    ∀ l ∈ inputs.suffixKvLens, ∃ queryLens, useCascade inputs.commonPrefixLen queryLens = true := by
  unfold prepareInputs at h
  simp only [bind_eq_ok] at h
  obtain ⟨_, -, _, -, ns, -, _, -, h⟩ := h
  split at h
  · cases h
  · cases h
    intro l hl
    simp only [Option.mem_def] at hl
    split_ifs at hl with hc
    exact ⟨ns, hc.2⟩

section

variable {ρ : Type} {p : SchedulerParams} {s : Scheduler} {out : SchedulerOutput}
  {w : GPUModelRunner (List ρ)} {rows : List ReqId} {ns : List ℕ} {inputs : ModelInputs}

/-! ## The rows -/

/-- The tokens of the request in a row. -/
def rowText (s : Scheduler) (rows : List ReqId) (i : ℕ) : List TokenId :=
  (rows[i]?.bind s.requests.get?).elim [] Request.allTokenIds

/-- The number of its computed tokens. -/
def rowComputed (s : Scheduler) (rows : List ReqId) (i : ℕ) : ℕ :=
  (rows[i]?.bind s.requests.get?).elim 0 Request.numComputedTokens

theorem rowText_eq {i : ℕ} {id : ReqId} {r : Request} (hi : rows[i]? = some id)
    (hr : s.requests.get? id = some r) : rowText s rows i = r.allTokenIds := by
  rw [rowText, hi, Option.bind_some, hr, Option.elim_some]

theorem rowComputed_eq {i : ℕ} {id : ReqId} {r : Request} (hi : rows[i]? = some id)
    (hr : s.requests.get? id = some r) : rowComputed s rows i = r.numComputedTokens := by
  rw [rowComputed, hi, Option.bind_some, hr, Option.elim_some]

/-- The row with the given number of scheduled tokens. -/
theorem BatchOf.rowAt (h : BatchOf s out w rows ns) {i n : ℕ} (hi : ns[i]? = some n) :
    ∃ id r, rows[i]? = some id ∧ RowOf s out w.inputBatch i id n r := by
  have hlt : i < rows.length := by
    rw [h.scheduled.tokens.length_eq]
    exact (List.getElem?_eq_some_iff.mp hi).1
  obtain ⟨n', r, hn, hrow⟩ := h.row i _ (List.getElem?_eq_getElem hlt)
  obtain rfl := Option.some.inj (hi.symm.trans hn)
  exact ⟨_, r, List.getElem?_eq_getElem hlt, hrow⟩

/-- **The lengths of the rows**, and the blocks with which all of them begin. -/
theorem BatchOf.rowLengths (h : BatchOf s out w rows ns)
    (hp : GPUModelRunner.Prepared p.kv w.inputBatch out ns inputs)
    (hc : CascadeInputs p.kv s out rows inputs) (hshared : SharedPrefix s out.numCommonPrefixBlocks)
    (hpos : ∀ l ∈ inputs.suffixKvLens, 0 < inputs.commonPrefixLen) :
    RowLengths p.kv.blockSize w.inputBatch.blockTable (rowComputed s rows) ns inputs := by
  have hbs := p.kv.blockSize_pos
  refine ⟨hp.queryStartLoc, fun i n hi => ?_, fun l hl => ⟨hp.suffixKvLens l hl, ?_⟩⟩
  · obtain ⟨id, r, hid, hrow⟩ := h.rowAt hi
    obtain ⟨r', n', hr', hn', hseq, -⟩ := hc.seqLens i id hid
    obtain rfl := Option.some.inj (hrow.request.symm.trans hr')
    obtain rfl := Option.some.inj (hrow.scheduled.symm.trans hn')
    rw [hseq, rowComputed_eq hid hrow.request, Nat.cast_add]
  · have hpos' := hpos l hl
    have hle := hc.le_blocks
    have hdvd := hc.dvd
    obtain ⟨m, hm⟩ := Int.eq_ofNat_of_zero_le hc.nonneg
    rw [hm, Int.natCast_dvd_natCast] at hdvd
    obtain ⟨c, rfl⟩ := hdvd
    rw [Nat.mul_comm] at hm
    rw [hm, Int.natCast_pos] at hpos'
    rw [hm, ← Nat.cast_mul, Int.ofNat_le] at hle
    have hcn := Nat.le_of_mul_le_mul_right hle hbs
    refine ⟨c, Nat.pos_of_mul_pos_right hpos', hm, fun i hi => ?_⟩
    -- the blocks of a row are those of the first running request
    have hblocks : ∀ i < ns.length, ∃ first ∈ s.running.head?, ∀ b < c,
        some (w.inputBatch.blockTable i b) = (s.kv.blocksOf first)[b]? := by
      intro i hi
      obtain ⟨id, r, hid, hrow⟩ := h.rowAt (List.getElem?_eq_getElem hi)
      cases hfirst : s.running.head? with
      | none =>
        rw [List.head?_eq_none_iff] at hfirst
        have hrun := hrow.running
        rw [hfirst] at hrun
        cases hrun
      | some first =>
        refine ⟨first, rfl, fun b hb => ?_⟩
        obtain ⟨hlen, htake⟩ := hshared first hfirst id hrow.running
        have hget : (s.kv.blocksOf id)[b]? = (s.kv.blocksOf first)[b]? := by
          rw [← List.getElem?_take_of_lt (Nat.lt_of_lt_of_le hb hcn), htake,
            List.getElem?_take_of_lt (Nat.lt_of_lt_of_le hb hcn)]
        rw [← hget, List.getElem?_eq_getElem (by omega),
          hrow.blocks b _ (List.getElem?_eq_getElem (by omega))]
    obtain ⟨id, r, hid, hrow⟩ := h.rowAt (List.getElem?_eq_getElem hi)
    refine ⟨?_, fun b hb => ?_⟩
    · have hcomp := hc.le_computed id (List.mem_of_getElem? hid) r hrow.request
      rw [hm, Int.ofNat_le] at hcomp
      rw [rowComputed_eq hid hrow.request]
      exact hcomp
    · obtain ⟨first, hfirst, hrow⟩ := hblocks i hi
      obtain ⟨first', hfirst', hzero⟩ := hblocks 0 (Nat.lt_of_le_of_lt (Nat.zero_le i) hi)
      obtain rfl := Option.some.inj (hfirst.symm.trans hfirst')
      exact Option.some.inj ((hrow b hb).trans (hzero b hb).symm)

/-- **The rows are fed** the tokens of their requests. -/
theorem BatchOf.feeds (h : BatchOf s out w rows ns)
    (hp : GPUModelRunner.Prepared p.kv w.inputBatch out ns inputs)
    (hl : RowLengths p.kv.blockSize w.inputBatch.blockTable (rowComputed s rows) ns inputs)
    (hshort : Short p s) (hb : BlocksInv p s fun id => (out.numScheduledTokens.get? id).getD 0) :
    Feeds p.kv.blockSize w.inputBatch.blockTable (rowText s rows) (rowComputed s rows) ns inputs := by
  have hwindow : ∀ (i n j : ℕ), ns[i]? = some n → j < n → ∃ id r, rows[i]? = some id ∧
      RowOf s out w.inputBatch i id n r ∧ rowComputed s rows i = r.numComputedTokens ∧
      rowText s rows i = r.allTokenIds ∧
      WindowAt p.kv s.kv inputs id r (r.numComputedTokens + j) (offset ns i + j) := by
    intro i n j hi hj
    obtain ⟨id, r, hid, hrow⟩ := h.rowAt hi
    exact ⟨id, r, hid, hrow, rowComputed_eq hid hrow.request, rowText_eq hid hrow.request,
      hrow.windowAt hshort hb hj (hp.token i n j hi hj)⟩
  refine ⟨hl, fun i n hi => ?_, hp.positions_length, hp.inputIds_length, hp.slotMapping_length,
    fun i n j hi hj => ?_, fun i n j hi hj => ?_, fun i n j hi hj => ?_⟩
  · obtain ⟨id, r, hid, hrow⟩ := h.rowAt hi
    rw [rowComputed_eq hid hrow.request, rowText_eq hid hrow.request]
    exact hrow.within
  · obtain ⟨id, r, -, -, hnc, -, hat⟩ := hwindow i n j hi hj
    rw [hnc]
    exact hat.position
  · obtain ⟨id, r, -, -, hnc, htext, hat⟩ := hwindow i n j hi hj
    obtain ⟨t, ht, hin⟩ := hat.inputId
    rw [hnc, htext, ht, hin]
  · obtain ⟨id, r, -, hrow, hnc, -, hat⟩ := hwindow i n j hi hj
    obtain ⟨block, hblock, hslot⟩ := hat.slot
    rw [hnc, hslot, hrow.blocks _ _ hblock]

/-! ## What the memory holds -/

section Memory

open CausalModel

variable {H K : Type} {kvCaches : ℕ → ℕ × ℕ → K}

/-- The tokens of a batch. -/
def rowItems (p : SchedulerParams) (s : Scheduler) (w : GPUModelRunner (List ρ)) (rows : List ReqId)
    (ns : List ℕ) : List (Item TokenId (ℕ × ℕ)) :=
  batchItems p.kv.blockSize w.inputBatch.blockTable (rowText s rows) (rowComputed s rows) ns

/-- **The slots of a batch** are for the tokens that it writes and reads. -/
theorem BatchOf.placed (h : BatchOf s out w rows ns)
    (hset : Settled p s fun id => (out.numScheduledTokens.get? id).getD 0) :
    CausalModel.Placed (content p.kv.blockSize s.history) (rowItems p s w rows ns) := by
  have hslot : ∀ (i n q : ℕ), ns[i]? = some n → q < rowComputed s rows i + n →
      content p.kv.blockSize s.history (slotAt p.kv.blockSize (w.inputBatch.blockTable i) q) =
        some ((rowText s rows i).take q, (rowText s rows i).getD q 0) := by
    intro i n q hi hq
    obtain ⟨id, r, hid, hrow⟩ := h.rowAt hi
    have hgot : n = (out.numScheduledTokens.get? id).getD 0 := by rw [hrow.scheduled, Option.getD_some]
    rw [rowComputed_eq hid hrow.request, hgot] at hq
    obtain ⟨b, hb, hcontent⟩ := hset id r q hrow.running hrow.request hq
    rw [slotAt, hrow.blocks _ _ hb, rowText_eq hid hrow.request]
    exact hcontent
  refine ⟨fun it hit => ?_, fun it hit => ?_⟩
  · obtain ⟨i, n, j, hi, hj, rfl⟩ := mem_batchItems hit
    exact hslot i n _ hi (Nat.add_lt_add_left hj _)
  · obtain ⟨i, n, j, hi, hj, rfl⟩ := mem_batchItems hit
    obtain ⟨id, r, hid, hrow⟩ := h.rowAt hi
    have hlen : rowComputed s rows i + j < (rowText s rows i).length := by
      rw [rowComputed_eq hid hrow.request, rowText_eq hid hrow.request]
      exact Nat.lt_of_lt_of_le (Nat.add_lt_add_left hj _) hrow.within
    have hup : (itemAt p.kv.blockSize w.inputBatch.blockTable (rowText s rows) i
        (rowComputed s rows i + j)).upTo = (rowText s rows i).take (rowComputed s rows i + j + 1) := by
      rw [Item.upTo, itemAt, List.take_add_one, List.getD_eq_getElem?_getD, List.getElem?_eq_getElem hlen]
      rfl
    rw [hup, itemAt, List.map_map]
    apply List.ext_getElem?
    intro k
    rw [List.getElem?_map, List.getElem?_mapIdx]
    by_cases hk : k < rowComputed s rows i + j + 1
    · rw [List.getElem?_range hk, List.getElem?_take_of_lt hk, List.getElem?_eq_getElem (by omega),
        Option.map_some, Option.map_some, Function.comp_apply, hslot i n k hi (by omega),
        List.take_take, Nat.min_eq_left (by omega), List.getD_eq_getElem?_getD,
        List.getElem?_eq_getElem (by omega)]
      rfl
    · rw [List.getElem?_eq_none (by rw [List.length_range]; omega),
        List.getElem?_eq_none (by rw [List.length_take]; omega)]
      rfl

/-- **The windows that were granted** are written. -/
theorem BatchOf.window_mem (h : BatchOf s out w rows ns) {slot : ℕ × ℕ}
    (hwin : Window p.kv.blockSize s out.numScheduledTokens slot) :
    slot ∈ (rowItems p s w rows ns).map Item.slot := by
  obtain ⟨id, n, r, q, hn, hr, hle, hlt, hblock, hmod⟩ := hwin
  obtain ⟨i, hi⟩ := List.mem_iff_getElem?.mp (h.perm.mem_iff.mpr (Dict.mem_keys_of_get? hn))
  obtain ⟨n', r', hn', hrow⟩ := h.row i id hi
  obtain rfl := Option.some.inj (hn.symm.trans hrow.scheduled)
  obtain rfl := Option.some.inj (hr.symm.trans hrow.request)
  obtain ⟨j, rfl⟩ := Nat.exists_eq_add_of_le hle
  have hitem : (rowItems p s w rows ns)[offset ns i + j]? = some (itemAt p.kv.blockSize
      w.inputBatch.blockTable (rowText s rows) i (rowComputed s rows i + j)) :=
    getElem?_batchItems hn' (Nat.lt_of_add_lt_add_left hlt)
  refine List.mem_map.mpr ⟨_, List.mem_of_getElem? hitem, ?_⟩
  rw [rowComputed_eq hi hr]
  exact Prod.ext (hrow.blocks _ _ hblock) hmod

/-- **A forward pass computes the states of the model on whole sequences**, and leaves every slot with the
entry that it is for. -/
theorem BatchOf.forward {Q S O : Type} {D : DecoderModel H Q K S O} (h : BatchOf s out w rows ns)
    (hf : Feeds p.kv.blockSize w.inputBatch.blockTable (rowText s rows) (rowComputed s rows) ns inputs)
    (hset : Settled p s fun id => (out.numScheduledTokens.get? id).getD 0) {before : List BlockEvent}
    (hpending : ∀ slot x, content p.kv.blockSize s.history slot = some x →
      content p.kv.blockSize before slot = some x ∨ Window p.kv.blockSize s out.numScheduledTokens slot)
    (hmem : ∀ l < D.numLayers, CausalModel.Holds D.causal (content p.kv.blockSize before) l (kvCaches l)) :
    ∃ kvCaches', D.forward p.kv.blockSize w.inputBatch.blockTable inputs kvCaches =
        .ok ((rowItems p s w rows ns).map fun it => D.causal.state D.numLayers it.behind it.token,
          kvCaches') ∧
      ∀ l < D.numLayers, CausalModel.Holds D.causal (content p.kv.blockSize s.history) l (kvCaches' l) := by
  have hsafe : ∀ l < D.numLayers, ∀ slot ts t, content p.kv.blockSize s.history slot = some (ts, t) →
      slot ∉ (rowItems p s w rows ns).map Item.slot → kvCaches l slot = D.causal.stored l ts t := by
    intro l hl slot ts t hcontent hslot
    obtain hold | hwin := hpending slot (ts, t) hcontent
    · exact hmem l hl slot ts t hold
    · exact absurd (h.window_mem hwin) hslot
  obtain ⟨h1, h2, -⟩ := run_spec (h.placed hset) hsafe
  refine ⟨(D.causal.run (rowItems p s w rows ns) kvCaches D.numLayers).2, ?_, h2⟩
  rw [DecoderModel.forward_eq_run hf p.kv.blockSize_pos, ← h1]
  rfl

end Memory

namespace EngineRun

/-- **Cascade attention is exact.** Whenever the engine executes, and whenever the device finds that a
positive prefix is worth it, merging the states over the common prefix and the rest gives every token the
output and the cache that attention over all of its entries would, whatever the kernel. -/
theorem cascade_attention_exact {F V Q K : Type} [Field F] [LinearOrder F] [IsStrictOrderedRing F]
    [AddCommGroup V] [Module F V] (E : Exponential F) (numHeads : ℕ) (score : Fin numHeads → Q → K → F)
    (value : Fin numHeads → K → V) (flash : FlashAttn (softmaxAttend E numHeads score value))
    (hinj : Function.Injective p.kv.hash) (hzero : ∀ x, p.kv.hash x ≠ 0)
    {useCascade : ℤ → List ℕ → Bool} (hpos : ∀ n queryLens, useCascade n queryLens = true → 0 < n)
    {σ : EngineRun (GPUModelRunner (List ρ))} (h : UniqueRun p σ) {available : ReqId → ℕ → Bool}
    {polled : Option (EncoderResult (List ρ))}
    (hs : σ.core.scheduler.schedule p available = .ok (out, s))
    (hh : EngineCore.handle (uniProcExecutor ρ p.maxNumRunningReqs) σ.core.executor polled = .ok w)
    (hz : out.totalNumScheduledTokens ≠ 0) :
    ∃ changed w₁ inputs, w.updateStates p.maxNumRunningReqs out = .ok (changed, w₁) ∧
      w₁.prepareInputs p.kv useCascade out = .ok inputs ∧
      ∀ (query : List Q) (key : List K) (kvCache : ℕ × ℕ → K),
        query.length = out.totalNumScheduledTokens →
          (softmaxAttention E numHeads score value flash).forward p.kv.blockSize w₁.inputBatch.blockTable
              inputs query key kvCache =
            (softmaxAttention E numHeads score value flash).forward p.kv.blockSize w₁.inputBatch.blockTable
              { inputs with suffixKvLens := none } query key kvCache := by
  obtain ⟨hshared, changed, w₁, rows, ns, inputs, hup, hb, hok, hc⟩ :=
    (cascade_prefix_sound hinj hzero).2 σ h available polled out s w useCascade hs hh hz
  obtain ⟨_, hok', hp⟩ :=
    GPUModelRunner.prepareInputs_spec p.kv useCascade hb.scheduled (hb.ne_nil hz)
  cases hok.symm.trans hok'
  have hl := hb.rowLengths hp hc hshared fun l hl =>
    (GPUModelRunner.prepareInputs_cascade hok l hl).elim fun queryLens hq => hpos _ queryLens hq
  refine ⟨changed, w₁, inputs, hup, hok, fun query key kvCache hq => ?_⟩
  rw [Attention.forward_cascade hl p.kv.blockSize_pos (hq.trans hb.scheduled.total)]
  rfl

end EngineRun

end

namespace EngineRun

open SchedulerRun (smallParams)

/-- Every common prefix is worth it. -/
def positivePrefix (commonPrefixLen : ℤ) (_queryLens : List ℕ) : Bool := decide (0 < commonPrefixLen)

theorem positivePrefix_pos (n : ℤ) (queryLens : List ℕ) (h : positivePrefix n queryLens = true) : 0 < n :=
  of_decide_eq_true h

/-- The inputs of the next execution, with cascade attention whenever there is a common prefix. -/
def cascadeNext (σ : EngineRun (GPUModelRunner (List ℕ))) :
    Except Exn (SchedulerOutput × Scheduler × ModelInputs) := do
  let (out, s) ← σ.core.scheduler.schedule smallParams (σ.core.available smallExecutor)
  let (_, w) ← σ.core.executor.updateStates smallParams.maxNumRunningReqs out
  let inputs ← w.prepareInputs smallParams.kv positivePrefix out
  .ok (out, s, inputs)

theorem cascade_attention_exact_shared_block : ∃ (σ : EngineRun (GPUModelRunner (List ℕ)))
    (out : SchedulerOutput) (changed : Bool) (w₁ : GPUModelRunner (List ℕ)) (inputs : ModelInputs),
    UniqueRun smallParams σ ∧
    σ.core.executor.updateStates smallParams.maxNumRunningReqs out = .ok (changed, w₁) ∧
    w₁.prepareInputs smallParams.kv positivePrefix out = .ok inputs ∧
    inputs.suffixKvLens = some [2, 1] ∧
    ∀ (query key : List ℝ) (kvCache : ℕ × ℕ → ℝ), query.length = out.totalNumScheduledTokens →
      (softmaxAttention .real 1 (fun _ q k => q * k) (fun _ k => k) (.reference _)).forward 2
          w₁.inputBatch.blockTable inputs query key kvCache =
        (softmaxAttention .real 1 (fun _ q k => q * k) (fun _ k => k) (.reference _)).forward 2
          w₁.inputBatch.blockTable { inputs with suffixKvLens := none } query key kvCache := by
  obtain ⟨σ, hσ, hnext⟩ := exists_reachable (fun σ e => step smallParams smallExecutor σ e)
    (fun σ e => σ.core.Orderly e ∧ UniqueIds σ.log.seen e)
    (init smallParams (.init smallParams.maxNumRunningReqs)) sharedBlockRun
    (fun σ => σ.cascadeNext.toOption.any (fun x => decide (x.1.totalNumScheduledTokens ≠ 0 ∧
      x.2.2.suffixKvLens = some [2, 1])) = true) (by decide +kernel)
  obtain ⟨x, hok, hx⟩ := exists_ok_of_any hnext
  simp only [cascadeNext, bind_eq_ok] at hok
  obtain ⟨⟨out, s⟩, hs, ⟨changed, w₁⟩, hup, inputs, hprep, hok⟩ := hok
  obtain rfl := Except.ok.inj hok
  obtain ⟨hz, hsuffix⟩ := of_decide_eq_true hx
  obtain ⟨_, _, _, hup', hprep', hexact⟩ := cascade_attention_exact Exponential.real 1
    (fun _ q k => q * k) (fun _ k => k) (.reference _) (ρ := ℕ) (p := smallParams)
    pairingHash_injective pairingHash_ne_zero positivePrefix_pos hσ hs (EngineCore.handle_none smallExecutor _) hz
  cases hup.symm.trans hup'
  cases hprep.symm.trans hprep'
  exact ⟨σ, out, changed, w₁, inputs, hσ, hup, hprep, hsuffix, hexact⟩

end EngineRun

end SpaceServe
