import SpaceServe.Engine.Model
import SpaceServe.Worker.Batch

/-!
# The encoder cache

Which outputs the encoder cache holds after results were merged into it and after a step of the
worker, which drops the outputs of finished requests and those that the scheduler has released.

* `cachedOutput_mergeOutput`, **`cachedOutput_mergeResult`**;
* `cachedOutput_freeOutput`, `updateStates_encoderCache`, **`cachedOutput_executeModel`**.
-/

set_option autoImplicit false

namespace SpaceServe

open Py

section

variable {V : Type} {cache cache' : Dict ReqId (Dict ℕ V)}

theorem cachedOutput_set (id : ReqId) (d : Dict ℕ V) (id' : ReqId) (i : ℕ) :
    cachedOutput (cache.set id d) id' i = if id' = id then d.get? i else cachedOutput cache id' i := by
  unfold cachedOutput
  rw [Dict.get?_set]
  split_ifs <;> rfl

theorem cachedOutput_pop (id id' : ReqId) (i : ℕ) :
    cachedOutput (cache.pop id) id' i = if id' = id then none else cachedOutput cache id' i := by
  unfold cachedOutput
  rw [Dict.get?_pop]
  split_ifs <;> rfl

/-! ## Merging results -/

theorem cachedOutput_mergeOutput (id : ReqId) (y : ℕ × V) (id' : ReqId) (i : ℕ) :
    cachedOutput (mergeOutput id cache y) id' i =
      if (id', i) = (id, y.1) then some y.2 else cachedOutput cache id' i := by
  simp only [Prod.mk.injEq]
  unfold mergeOutput
  cases hg : cache.get? id with
  | none =>
    simp only
    rw [cachedOutput_set]
    by_cases hid : id' = id
    · subst hid
      have hnone : cachedOutput cache id' i = none := by rw [cachedOutput, hg]; rfl
      simp [Dict.get?_set, hnone]
    · simp [hid]
  | some outputs =>
    simp only
    rw [cachedOutput_set]
    by_cases hid : id' = id
    · subst hid
      have hsome : cachedOutput cache id' i = outputs.get? i := by rw [cachedOutput, hg]; rfl
      simp [Dict.get?_set, hsome]
    · simp [hid]

/-- The outputs of a result are added one by one. -/
theorem mergeResult_eq_ok : ∀ {res : EncoderResult V} {cache : Dict ReqId (Dict ℕ V)},
    mergeResult cache res = .ok cache' →
    cache' = res.outputs.foldl (fun cache y => mergeOutput y.1.1 cache (y.1.2, y.2)) cache
  | [], cache, h => by cases h; rfl
  | item :: res, cache, h => by
    rw [mergeResult, List.foldlM_cons, bind_eq_ok] at h
    obtain ⟨cache₁, h₁, h⟩ := h
    cases item with
    | none => cases h₁
    | some d =>
      cases h₁
      have houts : EncoderResult.outputs (some d :: res) =
          (d.entries.flatMap fun x => x.2.entries.map fun y => ((x.1, y.1), y.2)) ++
            EncoderResult.outputs res := rfl
      rw [mergeResult_eq_ok h, houts, List.foldl_append, List.foldl_flatMap]
      simp only [List.foldl_map]

/-- **What a result adds**: its outputs, and every pair it holds is there afterwards. -/
theorem cachedOutput_mergeResult {res : EncoderResult V} (h : mergeResult cache res = .ok cache')
    (id : ReqId) (i : ℕ) :
    (∀ v, cachedOutput cache' id i = some v →
      cachedOutput cache id i = some v ∨ ((id, i), v) ∈ res.outputs) ∧
    ((cachedOutput cache' id i).isSome = true ↔
      (cachedOutput cache id i).isSome = true ∨ (id, i) ∈ res.pairs) := by
  rw [mergeResult_eq_ok h, EncoderResult.pairs]
  clear h
  generalize res.outputs = outs
  induction outs generalizing cache with
  | nil => simp
  | cons y outs ih =>
    obtain ⟨ih₁, ih₂⟩ := @ih (mergeOutput y.1.1 cache (y.1.2, y.2))
    simp only [List.foldl_cons, List.map_cons, List.mem_cons]
    rw [ih₂]
    rw [cachedOutput_mergeOutput] at ih₁ ⊢
    split_ifs at ih₁ ⊢ with he
    · refine ⟨fun v hv => ?_, by simp [he]⟩
      obtain hv | hv := ih₁ v hv
      · cases hv
        exact Or.inr (Or.inl (by rw [he]))
      · exact Or.inr (Or.inr hv)
    · refine ⟨fun v hv => (ih₁ v hv).imp_right Or.inr, ?_⟩
      have hne : ¬ (id, i) = y.1 := he
      simp [hne]

/-! ## Dropping outputs -/

theorem cachedOutput_freeOutput (pair : ReqId × ℕ) (id : ReqId) (i : ℕ) :
    cachedOutput (GPUModelRunner.freeOutput cache pair) id i =
      if (id, i) = pair then none else cachedOutput cache id i := by
  obtain ⟨id', i'⟩ := pair
  simp only [Prod.mk.injEq]
  unfold GPUModelRunner.freeOutput
  cases hg : cache.get? id' with
  | none =>
    have hnone : cachedOutput cache id' i = none := by rw [cachedOutput, hg]; rfl
    split_ifs with he
    · obtain ⟨rfl, -⟩ := he
      exact hnone
    · rfl
  | some outputs =>
    have hsome : cachedOutput cache id' i = outputs.get? i := by rw [cachedOutput, hg]; rfl
    simp only
    split_ifs with hemp he he
    · rw [cachedOutput_pop, if_pos he.1]
    · rw [cachedOutput_pop]
      split_ifs with hid
      · -- the last output of the request was dropped
        subst hid
        have hkey : i ∉ (outputs.pop i').keys := by rw [hemp]; exact List.not_mem_nil
        rw [Dict.mem_keys_pop] at hkey
        rw [hsome, eq_comm, Dict.get?_eq_none]
        exact fun hk => hkey ⟨fun e => he ⟨rfl, e⟩, hk⟩
      · rfl
    · rw [cachedOutput_set, if_pos he.1, he.2, Dict.get?_pop_self]
    · rw [cachedOutput_set]
      split_ifs with hid
      · subst hid
        rw [hsome, Dict.get?_pop_ne _ fun e => he ⟨rfl, e⟩]
      · rfl

theorem cachedOutput_foldl_freeOutput (id : ReqId) (i : ℕ) : ∀ (pairs : List (ReqId × ℕ))
    (cache : Dict ReqId (Dict ℕ V)),
    cachedOutput (pairs.foldl GPUModelRunner.freeOutput cache) id i =
      if (id, i) ∈ pairs then none else cachedOutput cache id i
  | [], cache => rfl
  | pair :: pairs, cache => by
    rw [List.foldl_cons, cachedOutput_foldl_freeOutput id i pairs, cachedOutput_freeOutput]
    simp only [List.mem_cons]
    split_ifs <;> simp_all

theorem cachedOutput_foldl_pop (ids : List ReqId) (id : ReqId) (i : ℕ) :
    cachedOutput (ids.foldl (fun d id => d.pop id) cache) id i =
      if id ∈ ids then none else cachedOutput cache id i := by
  rw [cachedOutput, Dict.get?_foldl_pop]
  split_ifs <;> rfl

namespace GPUModelRunner

/-- What `_update_states` does to the encoder cache. -/
theorem updateStates_encoderCache {w w' : GPUModelRunner V} {m : ℕ} {out : SchedulerOutput}
    {changed : Bool} (h : w.updateStates m out = .ok (changed, w')) :
    w'.encoderCache = out.freeEncoderInputIds.foldl freeOutput
      (out.finishedReqIds.foldl (fun d id => d.pop id) w.encoderCache) := by
  unfold updateStates at h
  simp only [bind_eq_ok] at h
  obtain ⟨⟨toAdd, w₁⟩, h₁, ⟨removed, b⟩, -, b', -, h⟩ := h
  cases h
  refine foldlM_invariant (P := fun x : List ReqId × GPUModelRunner V => x.2.encoderCache =
    out.freeEncoderInputIds.foldl freeOutput
      (out.finishedReqIds.foldl (fun d id => d.pop id) w.encoderCache)) ?_ rfl h₁
  rintro x data x' - hx hs
  unfold updateCached at hs
  simp only [bind_eq_ok] at hs
  obtain ⟨state, -, ids, -, hs⟩ := hs
  split at hs <;> cases hs <;> exact hx

theorem cachedOutput_updateStates {w w' : GPUModelRunner V} {m : ℕ} {out : SchedulerOutput}
    {changed : Bool} (h : w.updateStates m out = .ok (changed, w')) (id : ReqId) (i : ℕ) :
    cachedOutput w'.encoderCache id i =
      if id ∈ out.finishedReqIds ∨ (id, i) ∈ out.freeEncoderInputIds then none
      else cachedOutput w.encoderCache id i := by
  rw [updateStates_encoderCache h, cachedOutput_foldl_freeOutput, cachedOutput_foldl_pop]
  split_ifs <;> simp_all

end GPUModelRunner

end

section

variable {ρ : Type} {w w' : GPUModelRunner (List ρ)} {m : ℕ} {out : SchedulerOutput}
  {sampled : List TokenId}

namespace GPUModelRunner

/-- What handing out a sampled token changes. -/
theorem appendSampled_eq_ok {row : Option ReqId × ℕ} (h : appendSampled out sampled w row = .ok w') :
    w'.encoderCache = w.encoderCache ∧ w'.inputBatch.reqIds = w.inputBatch.reqIds ∧
      w'.inputBatch.reqIdToIndex = w.inputBatch.reqIdToIndex ∧
      (w'.requests = w.requests ∨ ∃ id state tokens, w.requests.get? id = some state ∧
        w'.requests = w.requests.set id { state with outputTokenIds := tokens }) := by
  unfold appendSampled at h
  split at h
  · cases h
  · rename_i reqId hrow
    simp only [bind_eq_ok] at h
    obtain ⟨state, hst, n, -, _, -, h⟩ := h
    rw [ofOption_eq_ok] at hst
    split_ifs at h
    · rw [bind_eq_ok] at h
      obtain ⟨tokenId, -, h⟩ := h
      cases h
      exact ⟨rfl, rfl, rfl, Or.inr ⟨reqId, state, _, hst, rfl⟩⟩
    · cases h
      exact ⟨rfl, rfl, rfl, Or.inl rfl⟩

/-- How `execute_model` has run: after `_update_states` only the sampled tokens change. -/
theorem executeModel_eq_ok {mo : ModelRunnerOutput} (h : w.executeModel m out sampled = .ok (mo, w')) :
    ∃ changed w₁ gathered, w.updateStates m out = .ok (changed, w₁) ∧
      w₁.gatherEncoderOutputs out = .ok gathered ∧ w'.encoderCache = w₁.encoderCache ∧
      w'.inputBatch.reqIds = w₁.inputBatch.reqIds ∧
      w'.inputBatch.reqIdToIndex = w₁.inputBatch.reqIdToIndex ∧
      ∀ id, (w'.requests.get? id).map (fun st => { st with outputTokenIds := [] }) =
        (w₁.requests.get? id).map fun st => { st with outputTokenIds := [] } := by
  unfold executeModel at h
  simp only [bind_eq_ok] at h
  obtain ⟨⟨changed, w₁⟩, h₁, gathered, hg, ⟨metadata, w₂⟩, hp, w₃, h₂, h⟩ := h
  cases h
  refine ⟨changed, w₁, gathered, h₁, hg, ?_⟩
  obtain rfl := prepareSampling_eq_ok hp
  have hids : (if changed = true then w₁.inputBatch.copyToDevice else w₁.inputBatch).reqIds =
      w₁.inputBatch.reqIds ∧
      (if changed = true then w₁.inputBatch.copyToDevice else w₁.inputBatch).reqIdToIndex =
        w₁.inputBatch.reqIdToIndex := by
    split_ifs
    · exact InputBatch.copyToDevice_reqIds _
    · exact ⟨rfl, rfl⟩
  refine foldlM_invariant (P := fun w' : GPUModelRunner (List ρ) =>
    w'.encoderCache = w₁.encoderCache ∧ w'.inputBatch.reqIds = w₁.inputBatch.reqIds ∧
    w'.inputBatch.reqIdToIndex = w₁.inputBatch.reqIdToIndex ∧
    ∀ id, (w'.requests.get? id).map (fun st => { st with outputTokenIds := [] }) =
      (w₁.requests.get? id).map fun st => { st with outputTokenIds := [] }) ?_ ?_ h₂
  swap
  · exact ⟨rfl, hids.1, hids.2, fun _ => rfl⟩
  rintro w₃ row w₄ - ⟨i1, i2, i3, i4⟩ hs
  obtain ⟨j1, j2, j3, hreq⟩ := appendSampled_eq_ok hs
  refine ⟨j1.trans i1, j2.trans i2, j3.trans i3, fun id => ?_⟩
  rw [← i4 id]
  obtain hreq | ⟨id', state, tokens, hst, hreq⟩ := hreq
  · rw [hreq]
  · rw [hreq, Dict.get?_set]
    split_ifs with he
    · rw [he, hst]
      rfl
    · rfl

/-- **What a step of the worker leaves in the encoder cache.** -/
theorem cachedOutput_executeModel {mo : ModelRunnerOutput}
    (h : w.executeModel m out sampled = .ok (mo, w')) (id : ReqId) (i : ℕ) :
    cachedOutput w'.encoderCache id i =
      if id ∈ out.finishedReqIds ∨ (id, i) ∈ out.freeEncoderInputIds then none
      else cachedOutput w.encoderCache id i := by
  obtain ⟨changed, w₁, _, h₁, -, henc, -⟩ := executeModel_eq_ok h
  rw [henc, cachedOutput_updateStates h₁]

end GPUModelRunner

end

end SpaceServe
