import SpaceServe.Engine.Inputs
import SpaceServe.Scheduler.Shared

/-!
# Cascade attention over the common prefix

The blocks that the scheduler counts as common are the first blocks of every running request, and the
length that `_prepare_inputs` derives from their number is within the computed tokens of every row, so
that the suffix of every row has a token to attend with.

* `CascadeInputs`, **`BatchOf.cascadeInputs`**: the lengths of a batch;
* **`cascade_prefix_sound`**.
-/

set_option autoImplicit false

namespace SpaceServe

open Py

section

variable {ρ : Type} {p : SchedulerParams} {s : Scheduler} {out : SchedulerOutput}
  {w : GPUModelRunner (List ρ)} {rows : List ReqId} {ns : List ℕ}

/-- The length of the common prefix is a multiple of the block size within the common blocks and the
computed tokens of every row, and every suffix has a token. -/
structure CascadeInputs (p : KVCacheParams) (s : Scheduler) (out : SchedulerOutput) (rows : List ReqId)
    (inputs : ModelInputs) : Prop where
  nonneg : 0 ≤ inputs.commonPrefixLen
  dvd : (p.blockSize : ℤ) ∣ inputs.commonPrefixLen
  le_blocks : inputs.commonPrefixLen ≤ out.numCommonPrefixBlocks * p.blockSize
  le_computed : ∀ id ∈ rows, ∀ r, s.requests.get? id = some r →
    inputs.commonPrefixLen ≤ r.numComputedTokens
  seqLens : ∀ (i : ℕ) id, rows[i]? = some id → ∃ r n, s.requests.get? id = some r ∧
    out.numScheduledTokens.get? id = some n ∧
    inputs.seqLens[i]? = some ((r.numComputedTokens : ℤ) + n) ∧
    0 < (r.numComputedTokens : ℤ) + n - inputs.commonPrefixLen
  suffix : ∀ l ∈ inputs.suffixKvLens, l.length = rows.length ∧ ∀ len ∈ l, 0 < len

/-- **The lengths of a batch** whose rows hold what the scheduler has. -/
theorem BatchOf.cascadeInputs (h : BatchOf s out w rows ns) (hne : rows ≠ [])
    (useCascade : ℤ → List ℕ → Bool) :
    ∃ inputs, w.prepareInputs p.kv useCascade out = .ok inputs ∧
      CascadeInputs p.kv s out rows inputs := by
  obtain ⟨inputs, hok, hp⟩ := GPUModelRunner.prepareInputs_spec p.kv useCascade h.scheduled hne
  have hrows : rows.length = w.inputBatch.numReqs := h.scheduled.length
  -- the computed tokens of the rows
  have hcomputed : ∀ i id, rows[i]? = some id → ∃ n r, ns[i]? = some n ∧
      RowOf s out w.inputBatch i id n r ∧
      ((List.range w.inputBatch.numReqs).map w.inputBatch.numComputedTokensCpu)[i]? =
        some (r.numComputedTokens : ℤ) := by
    intro i id hi
    obtain ⟨n, r, hn, hrow⟩ := h.row i id hi
    have hlt : i < w.inputBatch.numReqs := hrows ▸ (List.getElem?_eq_some_iff.mp hi).1
    refine ⟨n, r, hn, hrow, ?_⟩
    rw [List.getElem?_map, List.getElem?_range hlt, Option.map_some, hrow.computed]
  have hcs : ∀ c ∈ (List.range w.inputBatch.numReqs).map w.inputBatch.numComputedTokensCpu,
      0 ≤ c := by
    intro c hc
    obtain ⟨i, hi, rfl⟩ := List.mem_map.mp hc
    rw [List.mem_range, ← hrows] at hi
    obtain ⟨n, r, -, hrow⟩ := h.row i _ (List.getElem?_eq_getElem hi)
    rw [hrow.computed]
    exact Int.natCast_nonneg _
  obtain ⟨h1, h2, h3, h4⟩ := commonPrefixLen_spec (n := out.numCommonPrefixBlocks)
    p.kv.blockSize_pos hcs
  rw [← hp.commonPrefixLen] at h1 h2 h3 h4
  have hseqLens : ∀ (i : ℕ) id, rows[i]? = some id → ∃ r n, s.requests.get? id = some r ∧
      out.numScheduledTokens.get? id = some n ∧
      inputs.seqLens[i]? = some ((r.numComputedTokens : ℤ) + n) ∧
      0 < (r.numComputedTokens : ℤ) + n - inputs.commonPrefixLen := by
    intro i id hi
    obtain ⟨n, r, hn, hrow, hc⟩ := hcomputed i id hi
    have hle := h4 _ (List.mem_of_getElem? hc)
    have hpos := h.scheduled.pos n (List.mem_of_getElem? hn)
    refine ⟨r, n, hrow.request, hrow.scheduled, ?_, by omega⟩
    rw [hp.seqLens, List.getElem?_zipWith, hc, hn]
  have hlenSeq : inputs.seqLens.length = rows.length := by
    rw [hp.seqLens, List.length_zipWith, List.length_map, List.length_range, h.scheduled.length_eq,
      Nat.min_self, hrows]
  refine ⟨inputs, hok, h1, h2, h3, fun id hid r hr => ?_, hseqLens, fun l hl => ?_⟩
  · obtain ⟨i, hi⟩ := List.mem_iff_getElem?.mp hid
    obtain ⟨n, r', -, hrow, hc⟩ := hcomputed i id hi
    obtain rfl := Option.some.inj (hr.symm.trans hrow.request)
    exact h4 _ (List.mem_of_getElem? hc)
  · rw [hp.suffixKvLens l hl]
    refine ⟨by rw [List.length_map, hlenSeq], fun len hmem => ?_⟩
    obtain ⟨seqLen, hseqLen, rfl⟩ := List.mem_map.mp hmem
    obtain ⟨i, hi⟩ := List.mem_iff_getElem?.mp hseqLen
    have hlt : i < rows.length := hlenSeq ▸ (List.getElem?_eq_some_iff.mp hi).1
    obtain ⟨r, n, -, -, hget, hpos⟩ := hseqLens i _ (List.getElem?_eq_getElem hlt)
    obtain rfl := Option.some.inj (hi.symm.trans hget)
    exact hpos

namespace EngineRun

/-- **The common prefix is sound.** With injective hashing every running request begins with the blocks
that a call of `schedule` counts as common, and when its output is executed the length that is derived
from them leaves every suffix a token. -/
theorem cascade_prefix_sound (hinj : Function.Injective p.kv.hash) (hzero : ∀ x, p.kv.hash x ≠ 0) :
    (∀ σ, SchedulerRun.FreshRun p σ → ∀ available out s, σ.sched.schedule p available = .ok (out, s) →
      SharedPrefix s out.numCommonPrefixBlocks) ∧
    ∀ σ : EngineRun (GPUModelRunner (List ρ)), UniqueRun p σ → ∀ available polled out s w useCascade,
      σ.core.scheduler.schedule p available = .ok (out, s) →
      EngineCore.handle (uniProcExecutor ρ p.maxNumRunningReqs) σ.core.executor polled = .ok w →
      out.totalNumScheduledTokens ≠ 0 → SharedPrefix s out.numCommonPrefixBlocks ∧
      ∃ changed w₁ rows ns inputs, w.updateStates p.maxNumRunningReqs out = .ok (changed, w₁) ∧
        BatchOf s out w₁ rows ns ∧ w₁.prepareInputs p.kv useCascade out = .ok inputs ∧
        CascadeInputs p.kv s out rows inputs := by
  refine ⟨fun σ h available out s hs => ?_,
    fun σ h available polled out s w useCascade hs hh hz => ?_⟩
  · obtain ⟨hw, hb⟩ := h.blocksInv
    exact schedule_sharedPrefix hw (hb.mono fun _ _ => Nat.zero_le _) hinj hzero hs
  · have hinv := h.refinementInv
    obtain ⟨hreq, hbatch, -⟩ := handle_uniProc hh
    obtain ⟨changed, w₁, rows, ns, hup, hb⟩ := hinv.batch hs hreq hbatch
    obtain ⟨inputs, hok, hcascade⟩ := hb.cascadeInputs (hb.ne_nil hz) useCascade
    exact ⟨schedule_sharedPrefix hinv.sound.wf hinv.sound.blocks hinj hzero hs, changed, w₁, rows, ns,
      inputs, hup, hb, hok, hcascade⟩

end EngineRun

end

namespace EngineRun

open SchedulerRun (smallParams sharedPrefixRun)

theorem cascade_prefix_sound_shared_block : ∃ (τ : SchedulerRun) (out₀ : SchedulerOutput)
    (s₀ : Scheduler) (σ : EngineRun (GPUModelRunner (List ℕ))) (out : SchedulerOutput) (s : Scheduler)
    (changed : Bool) (w₁ : GPUModelRunner (List ℕ)) (rows : List ReqId) (inputs : ModelInputs),
    SchedulerRun.FreshRun smallParams τ ∧
    τ.sched.schedule smallParams (fun _ _ => false) = .ok (out₀, s₀) ∧
    s₀.running = ["a", "b"] ∧ SharedPrefix s₀ 1 ∧ UniqueRun smallParams σ ∧
    σ.core.scheduler.schedule smallParams (σ.core.available smallExecutor) = .ok (out, s) ∧
    σ.core.executor.updateStates smallParams.maxNumRunningReqs out = .ok (changed, w₁) ∧
    w₁.prepareInputs smallParams.kv (fun _ _ => true) out = .ok inputs ∧
    inputs.commonPrefixLen = 2 ∧ inputs.suffixKvLens = some [2, 1] ∧
    CascadeInputs smallParams.kv s out rows inputs := by
  obtain ⟨τ, hτ, hnext₀⟩ := exists_reachable (fun σ e => SchedulerRun.step smallParams σ e)
    SchedulerRun.Fresh (SchedulerRun.init smallParams) sharedPrefixRun
    (fun τ => (τ.sched.schedule smallParams (fun _ _ => false)).toOption.any (fun x => decide
      (x.1.numCommonPrefixBlocks = 1 ∧ x.2.running = ["a", "b"])) = true) (by decide +kernel)
  obtain ⟨⟨out₀, s₀⟩, hs₀, hx₀⟩ := exists_ok_of_any hnext₀
  obtain ⟨hn, hrun⟩ := of_decide_eq_true hx₀
  obtain ⟨σ, hσ, hnext⟩ := exists_reachable (fun σ e => step smallParams smallExecutor σ e)
    (fun σ e => σ.core.Orderly e ∧ UniqueIds σ.log.seen e)
    (init smallParams (.init smallParams.maxNumRunningReqs)) sharedBlockRun
    (fun σ => σ.preparedNext.toOption.any (fun x => decide (x.1.1.totalNumScheduledTokens ≠ 0 ∧
      x.2.commonPrefixLen = 2 ∧ x.2.suffixKvLens = some [2, 1])) = true) (by decide +kernel)
  obtain ⟨⟨⟨out, s⟩, inputs⟩, hok, hx⟩ := exists_ok_of_any hnext
  obtain ⟨hz, hlen, hsuffix⟩ := of_decide_eq_true hx
  obtain ⟨hs, changed, w₁, hup, hprep⟩ := preparedNext_eq_ok hok
  obtain ⟨hshared, hcascade⟩ := cascade_prefix_sound (ρ := ℕ) (p := smallParams)
    pairingHash_injective pairingHash_ne_zero
  obtain ⟨-, _, _, rows, ns, _, hup', hb, hprep', hc⟩ := hcascade σ hσ _ none out s _ (fun _ _ => true)
    hs (EngineCore.handle_none smallExecutor _) hz
  rw [hup] at hup'
  cases hup'
  rw [hprep] at hprep'
  cases hprep'
  have hone := hshared τ hτ _ out₀ s₀ hs₀
  rw [show out₀.numCommonPrefixBlocks = 1 from hn] at hone
  exact ⟨τ, out₀, s₀, σ, out, s, changed, w₁, rows, inputs, hτ, hs₀, hrun, hone, hσ, hs, hup, hprep,
    hlen, hsuffix, hc⟩

end EngineRun

end SpaceServe
