import SpaceServe.Worker.Update

/-!
# The device's copy of the sampling parameters

`make_sampling_metadata` copies the sampling parameters of the rows to the device, unless
`_update_states` says that the batch has not changed. It says so also when only finished requests
have left; `condense` may then have moved rows.

* `DeviceSynced`: the device holds the parameters of the rows; `copyToDevice_synced`;
* `SameArrays`: neither the arrays nor the device have changed; `DeviceSynced.same`;
* `FinishedLast`: finished requests leave the last rows, unless the batch changes otherwise;
* **`updateStates_unchanged`**: then the rows keep their requests when nothing is copied.
-/

set_option autoImplicit false

namespace SpaceServe

open Py

namespace InputBatch

/-- A row of the prompt tensor: the prompt, then pads. -/
def PromptRow (b : InputBatch) (i : ℕ) (row : List (Option TokenId)) : Prop :=
  ∀ j, row[j]?.join = if j < b.numPromptTokens i then some (b.tokenIdsCpu i j) else none

/-- The device holds the sampling parameters of the rows, and what penalties need if a request asks
for them. -/
structure DeviceSynced (b : InputBatch) : Prop where
  params : ∀ i < b.numReqs, b.temperature i = b.temperatureCpu i ∧ b.topP i = b.topPCpu i ∧
    b.topK i = b.topKCpu i
  penalties : b.noPenalties = false → ∀ i < b.numReqs,
    b.frequencyPenalties i = b.frequencyPenaltiesCpu i ∧
    b.presencePenalties i = b.presencePenaltiesCpu i ∧
    b.repetitionPenalties i = b.repetitionPenaltiesCpu i
  prompts : b.noPenalties = false → ∃ tensor, b.promptTokenIds = some tensor ∧
    ∀ i < b.numReqs, ∃ row, tensor[i]? = some row ∧ b.PromptRow i row

theorem DeviceSynced.init (m : ℕ) : (InputBatch.init m).DeviceSynced := by
  have hpen : (InputBatch.init m).noPenalties = true := by
    simp [noPenalties, InputBatch.init]
  refine ⟨fun i hi => absurd hi (Nat.not_lt_zero i), fun h => ?_, fun h => ?_⟩
  · rw [hpen] at h
    cases h
  · rw [hpen] at h
    cases h

variable {b b' b'' : InputBatch}

/-- The rows of a new prompt tensor. -/
theorem makePromptTokenIdsTensor_row (b : InputBatch) {i : ℕ} (hi : i < b.numReqs) :
    ∃ row, b.makePromptTokenIdsTensor[i]? = some row ∧ b.PromptRow i row := by
  unfold makePromptTokenIdsTensor
  simp only
  rw [List.getElem?_map, List.getElem?_range hi, Option.map_some]
  refine ⟨_, rfl, fun j => ?_⟩
  have hmax : b.numPromptTokens i ≤ (Finset.range b.numReqs).sup b.numPromptTokens :=
    Finset.le_sup (Finset.mem_range.mpr hi)
  rw [List.getElem?_map]
  by_cases hj : j < (Finset.range b.numReqs).sup b.numPromptTokens
  · rw [List.getElem?_range hj]
    rfl
  · rw [List.getElem?_eq_none (by simpa using Nat.le_of_not_lt hj), if_neg (by omega)]
    rfl

/-- **After a copy** the device holds the parameters of the rows. -/
theorem copyToDevice_synced (b : InputBatch) : b.copyToDevice.DeviceSynced := by
  have hcopy : ∀ {α : Type} (c a : ℕ → α) {i : ℕ}, i < b.numReqs → copyFirst b.numReqs c a i = c i :=
    fun c a i hi => if_pos hi
  unfold copyToDevice
  simp only
  split_ifs with hpen
  · refine ⟨fun i hi => ⟨hcopy _ _ hi, hcopy _ _ hi, hcopy _ _ hi⟩, fun h => ?_, fun h => ?_⟩
    · exact absurd (h.symm.trans hpen) Bool.false_ne_true
    · exact absurd (h.symm.trans hpen) Bool.false_ne_true
  · exact ⟨fun i hi => ⟨hcopy _ _ hi, hcopy _ _ hi, hcopy _ _ hi⟩,
      fun _ i hi => ⟨hcopy _ _ hi, hcopy _ _ hi, hcopy _ _ hi⟩,
      fun _ => ⟨_, rfl, fun i hi => b.makePromptTokenIdsTensor_row hi⟩⟩

/-! ## Batches with the same arrays -/

/-- Neither the arrays of the parameters and of the prompts nor the device have changed, and no
request asks for a penalty that did not before. -/
structure SameArrays (b b' : InputBatch) : Prop where
  temperature : b'.temperatureCpu = b.temperatureCpu ∧ b'.temperature = b.temperature
  topP : b'.topPCpu = b.topPCpu ∧ b'.topP = b.topP
  topK : b'.topKCpu = b.topKCpu ∧ b'.topK = b.topK
  frequency : b'.frequencyPenaltiesCpu = b.frequencyPenaltiesCpu ∧
    b'.frequencyPenalties = b.frequencyPenalties
  presence : b'.presencePenaltiesCpu = b.presencePenaltiesCpu ∧
    b'.presencePenalties = b.presencePenalties
  repetition : b'.repetitionPenaltiesCpu = b.repetitionPenaltiesCpu ∧
    b'.repetitionPenalties = b.repetitionPenalties
  prompts : b'.numPromptTokens = b.numPromptTokens ∧ b'.promptTokenIds = b.promptTokenIds ∧
    ∀ i j, j < b.numPromptTokens i → b'.tokenIdsCpu i j = b.tokenIdsCpu i j
  noPenalties : b.noPenalties = true → b'.noPenalties = true

theorem SameArrays.refl (b : InputBatch) : SameArrays b b :=
  ⟨⟨rfl, rfl⟩, ⟨rfl, rfl⟩, ⟨rfl, rfl⟩, ⟨rfl, rfl⟩, ⟨rfl, rfl⟩, ⟨rfl, rfl⟩,
    ⟨rfl, rfl, fun _ _ _ => rfl⟩, fun h => h⟩

theorem SameArrays.trans (h : SameArrays b b') (h' : SameArrays b' b'') : SameArrays b b'' where
  temperature := ⟨h'.temperature.1.trans h.temperature.1, h'.temperature.2.trans h.temperature.2⟩
  topP := ⟨h'.topP.1.trans h.topP.1, h'.topP.2.trans h.topP.2⟩
  topK := ⟨h'.topK.1.trans h.topK.1, h'.topK.2.trans h.topK.2⟩
  frequency := ⟨h'.frequency.1.trans h.frequency.1, h'.frequency.2.trans h.frequency.2⟩
  presence := ⟨h'.presence.1.trans h.presence.1, h'.presence.2.trans h.presence.2⟩
  repetition := ⟨h'.repetition.1.trans h.repetition.1, h'.repetition.2.trans h.repetition.2⟩
  prompts := by
    obtain ⟨h1, h2, h3⟩ := h.prompts
    obtain ⟨h1', h2', h3'⟩ := h'.prompts
    refine ⟨h1'.trans h1, h2'.trans h2, fun i j hj => ?_⟩
    rw [h3' i j (by rw [h1]; exact hj), h3 i j hj]
  noPenalties := fun hp => h'.noPenalties (h.noPenalties hp)

/-- **The device stays right** when the arrays are the same and no rows are added. -/
theorem DeviceSynced.same (h : b.DeviceSynced) (hs : SameArrays b b') (hle : b'.numReqs ≤ b.numReqs) :
    b'.DeviceSynced := by
  have hpen : b'.noPenalties = false → b.noPenalties = false := by
    intro hp
    cases hb : b.noPenalties with
    | false => rfl
    | true =>
      rw [hs.noPenalties hb] at hp
      cases hp
  refine ⟨fun i hi => ?_, fun hp i hi => ?_, fun hp => ?_⟩
  · rw [hs.temperature.1, hs.temperature.2, hs.topP.1, hs.topP.2, hs.topK.1, hs.topK.2]
    exact h.params i (Nat.lt_of_lt_of_le hi hle)
  · rw [hs.frequency.1, hs.frequency.2, hs.presence.1, hs.presence.2, hs.repetition.1,
      hs.repetition.2]
    exact h.penalties (hpen hp) i (Nat.lt_of_lt_of_le hi hle)
  · obtain ⟨h1, h2, h3⟩ := hs.prompts
    obtain ⟨tensor, ht, hrows⟩ := h.prompts (hpen hp)
    refine ⟨tensor, h2.trans ht, fun i hi => ?_⟩
    obtain ⟨row, hrow, hprompt⟩ := hrows i (Nat.lt_of_lt_of_le hi hle)
    refine ⟨row, hrow, fun j => ?_⟩
    rw [hprompt j, h1]
    split_ifs with hj
    · rw [h3 i j hj]
    · rfl

theorem SameArrays.removeRequest (b : InputBatch) (id : ReqId) :
    SameArrays b (b.removeRequest id).2 := by
  unfold InputBatch.removeRequest
  split
  · exact SameArrays.refl b
  · refine ⟨⟨rfl, rfl⟩, ⟨rfl, rfl⟩, ⟨rfl, rfl⟩, ⟨rfl, rfl⟩, ⟨rfl, rfl⟩, ⟨rfl, rfl⟩,
      ⟨rfl, rfl, fun _ _ _ => rfl⟩, fun h => ?_⟩
    simp only [InputBatch.noPenalties, decide_eq_true_eq] at h ⊢
    obtain ⟨h1, h2, h3⟩ := h
    simp [h1, h2, h3]

theorem SameArrays.appendRow (b : InputBatch) (i start : ℕ) (ids : List ℕ) :
    SameArrays b (b.appendRow i start ids) := by
  unfold InputBatch.appendRow
  split_ifs
  · exact SameArrays.refl b
  · exact ⟨⟨rfl, rfl⟩, ⟨rfl, rfl⟩, ⟨rfl, rfl⟩, ⟨rfl, rfl⟩, ⟨rfl, rfl⟩, ⟨rfl, rfl⟩,
      ⟨rfl, rfl, fun _ _ _ => rfl⟩, fun h => h⟩

end InputBatch

/-! ## Updates that report no change -/

namespace GPUModelRunner

open InputBatch

variable {V : Type} {m n : ℕ} {out : SchedulerOutput}

/-- If no request joins the batch and none leaves it but finished ones, then these stand behind all
others. -/
def FinishedLast (b : InputBatch) (out : SchedulerOutput) : Prop :=
  (∀ id ∈ b.reqIdToIndex.keys, id ∉ out.finishedReqIds → id ∈ out.numScheduledTokens.keys) →
  (∀ id ∈ out.numScheduledTokens.keys, id ∈ b.reqIdToIndex.keys ∧ id ∉ out.finishedReqIds) →
  ∀ id ∈ out.finishedReqIds, ∀ i ∈ b.reqIdToIndex.get? id, ∀ id' ∈ b.reqIdToIndex.keys,
    id' ∉ out.finishedReqIds → ∀ j ∈ b.reqIdToIndex.get? id', j < i

instance (b : InputBatch) (out : SchedulerOutput) : Decidable (FinishedLast b out) := by
  unfold FinishedLast; infer_instance

/-- Removing requests from the batch leaves the arrays and the other rows. -/
theorem removeRows_same : ∀ (ids : List ReqId) (holes : List ℕ) (b : InputBatch),
    SameArrays b (removeRows ids (holes, b)).2 ∧
      ∀ id, (removeRows ids (holes, b)).2.reqIdToIndex.get? id =
        if id ∈ ids then none else b.reqIdToIndex.get? id
  | [], holes, b => ⟨SameArrays.refl b, fun id => by simp [removeRows]⟩
  | x :: ids, holes, b => by
    have hone : SameArrays b (b.removeRequest x).2 ∧ ∀ id,
        (b.removeRequest x).2.reqIdToIndex.get? id =
          if id = x then none else b.reqIdToIndex.get? id := by
      refine ⟨SameArrays.removeRequest b x, fun id => ?_⟩
      unfold InputBatch.removeRequest
      cases hi : b.reqIdToIndex.get? x with
      | none =>
        simp only
        split_ifs with he
        · rw [he, hi]
        · rfl
      | some i =>
        simp only
        rw [Dict.get?_pop]
    have hfold : ∀ holes', SameArrays b (removeRows ids (holes', (b.removeRequest x).2)).2 ∧
        ∀ id, (removeRows ids (holes', (b.removeRequest x).2)).2.reqIdToIndex.get? id =
          if id ∈ x :: ids then none else b.reqIdToIndex.get? id := by
      intro holes'
      obtain ⟨hsame, hget⟩ := removeRows_same ids holes' (b.removeRequest x).2
      refine ⟨hone.1.trans hsame, fun id => ?_⟩
      rw [hget, hone.2]
      by_cases hx : id = x
      · simp [hx]
      · simp [hx]
    rw [removeRows, List.foldl_cons]
    generalize b.removeRequest x = y at hfold ⊢
    obtain ⟨o, b₁⟩ := y
    cases o with
    | none => exact hfold holes
    | some i => exact hfold (holes ++ [i])

/-- One round of the loop over the running and resumed requests. -/
theorem updateCached_same {x y : List ReqId × GPUModelRunner V} {data : CachedRequestData}
    (h : updateCached x data = .ok y) : SameArrays x.2.inputBatch y.2.inputBatch ∧
      y.2.inputBatch.reqIds = x.2.inputBatch.reqIds ∧
      y.2.inputBatch.reqIdToIndex = x.2.inputBatch.reqIdToIndex ∧
      (y.1 = [] → x.1 = [] ∧ data.reqId ∈ x.2.inputBatch.reqIdToIndex.keys) := by
  simp only [updateCached, bind_eq_ok] at h
  obtain ⟨state, -, blockIds, -, h⟩ := h
  split at h
  · cases h
    exact ⟨SameArrays.refl _, rfl, rfl, fun hnil => by simp at hnil⟩
  · rename_i i hi
    cases h
    have hset : SameArrays x.2.inputBatch { x.2.inputBatch with
        numComputedTokensCpu :=
          Function.update x.2.inputBatch.numComputedTokensCpu i data.numComputedTokens } :=
      ⟨⟨rfl, rfl⟩, ⟨rfl, rfl⟩, ⟨rfl, rfl⟩, ⟨rfl, rfl⟩, ⟨rfl, rfl⟩, ⟨rfl, rfl⟩,
        ⟨rfl, rfl, fun _ _ _ => rfl⟩, fun h => h⟩
    exact ⟨hset.trans (SameArrays.appendRow _ _ _ _), (appendRow_reqIds _ _ _ _).1,
      (appendRow_reqIds _ _ _ _).2, fun hnil => ⟨hnil, Dict.mem_keys_of_get? hi⟩⟩

theorem foldlM_updateCached_same : ∀ {datas : List CachedRequestData}
    {x y : List ReqId × GPUModelRunner V}, datas.foldlM updateCached x = .ok y →
    SameArrays x.2.inputBatch y.2.inputBatch ∧
      y.2.inputBatch.reqIds = x.2.inputBatch.reqIds ∧
      y.2.inputBatch.reqIdToIndex = x.2.inputBatch.reqIdToIndex ∧
      (y.1 = [] → x.1 = [] ∧ ∀ data ∈ datas, data.reqId ∈ x.2.inputBatch.reqIdToIndex.keys)
  | [], x, y, h => by
    cases h
    exact ⟨SameArrays.refl _, rfl, rfl, fun hnil => ⟨hnil, fun d hd => (List.not_mem_nil hd).elim⟩⟩
  | data :: datas, x, y, h => by
    rw [List.foldlM_cons, bind_eq_ok] at h
    obtain ⟨x₁, h₁, h⟩ := h
    obtain ⟨hs₁, hr₁, hi₁, hn₁⟩ := updateCached_same h₁
    obtain ⟨hs, hr, hi, hn⟩ := foldlM_updateCached_same h
    refine ⟨hs₁.trans hs, hr.trans hr₁, hi.trans hi₁, fun hnil => ?_⟩
    obtain ⟨hnil₁, hall⟩ := hn hnil
    obtain ⟨hnil₀, hdata⟩ := hn₁ hnil₁
    refine ⟨hnil₀, fun d hd => ?_⟩
    obtain rfl | hd := List.mem_cons.mp hd
    · exact hdata
    · rw [← hi₁]
      exact hall d hd

/-- Holes behind all rows are not filled. -/
theorem condense_of_behind {b : InputBatch} {holes : List ℕ} (hinv : b.Inv m n holes)
    (hs : holes.Pairwise (· < ·)) (hlt : ∀ i ∈ holes, i < n)
    (hbehind : ∀ e ∈ holes, ∀ id i, b.reqIdToIndex.get? id = some i → i < e) :
    b.condense holes = .ok b := by
  unfold InputBatch.condense
  split_ifs with hz
  · rfl
  rw [hinv.length_add_holes (hs.imp fun hab => Nat.ne_of_lt hab) hlt]
  cases holes with
  | nil => rfl
  | cons e rest =>
    obtain ⟨h1, -, -, h4⟩ := lastNonEmpty_spec (e :: rest) n
    rw [condenseLoop, if_pos]
    by_contra hgt
    obtain ⟨last, hlast⟩ := Int.eq_ofNat_of_zero_le (by omega : 0 ≤ lastNonEmpty (e :: rest) n)
    rw [hlast] at h1 h4 hgt
    rw [Int.toNat_natCast] at h4
    obtain ⟨id, hid⟩ := hinv.filled last (by omega) (h4 (by omega))
    have := hbehind e List.mem_cons_self id last ((hinv.index last id).mp hid)
    omega

/-- **The rows keep their requests** when no change is reported and finished requests leave the last
rows. -/
theorem updateStates_unchanged {w w' : GPUModelRunner V} (hinv : w.inputBatch.Inv m n [])
    (hsent : SentTo m w out) (hlast : FinishedLast w.inputBatch out)
    (h : w.updateStates m out = .ok (false, w')) :
    SameArrays w.inputBatch w'.inputBatch ∧ ∀ id i, w'.inputBatch.reqIdToIndex.get? id = some i →
      w.inputBatch.reqIdToIndex.get? id = some i := by
  unfold updateStates at h
  simp only [bind_eq_ok] at h
  obtain ⟨⟨toAdd, w₃⟩, hrun₃, ⟨removed, b₄⟩, hrun₄, b₅, hrun₅, h⟩ := h
  -- the finished requests leave the batch
  obtain ⟨hsame₁, hget₁⟩ := removeRows_same out.finishedReqIds [] w.inputBatch
  obtain ⟨holes, b₁, hr₁, hinv₁, hnd₁, hlt₁, -, -⟩ := removeRows_spec out.finishedReqIds hinv
    List.nodup_nil fun i hi => (List.not_mem_nil hi).elim
  have hr₁' : removeRows out.finishedReqIds ([], (w.removeFinished out.finishedReqIds).inputBatch) =
    (holes, b₁) := hr₁
  rw [hr₁] at hsame₁ hget₁
  simp only [hr₁'] at hrun₃ hrun₄ h
  obtain ⟨hflag, hw'⟩ := Prod.mk.inj (Except.ok.inj h)
  subst hw'
  rw [decide_eq_false_iff_not, not_or, Nat.not_lt, Nat.not_lt, Nat.le_zero, Nat.le_zero,
    List.length_eq_zero_iff, List.length_eq_zero_iff] at hflag
  obtain ⟨hunsch, rfl⟩ := hflag
  simp only [hunsch, removeRows, List.foldl_nil] at hrun₃ hrun₄
  obtain ⟨hsame₃, hrow₃, hidx₃, hnil⟩ := foldlM_updateCached_same hrun₃
  obtain ⟨hnew, hcached⟩ := hnil rfl
  simp only at hsame₃ hrow₃ hidx₃ hnew hcached
  cases hrun₄
  -- the finished requests stood behind the others
  have hbehind : ∀ e ∈ holes, ∀ id i, b₁.reqIdToIndex.get? id = some i → i < e := by
    intro e he id i hi
    obtain ⟨id₀, hid₀⟩ := hinv.filled e (hlt₁ e he) List.not_mem_nil
    have hidx₀ := (hinv.index e id₀).mp hid₀
    have hfin : id₀ ∈ out.finishedReqIds := by
      by_contra hnot
      have h1 := hget₁ id₀
      rw [if_neg hnot, hidx₀] at h1
      exact hinv₁.not_mem_holes h1 he
    have hold : ∀ id' j, b₁.reqIdToIndex.get? id' = some j → id' ∉ out.finishedReqIds ∧
        w.inputBatch.reqIdToIndex.get? id' = some j := by
      intro id' j hj
      rw [hget₁] at hj
      split_ifs at hj with hin
      exact ⟨hin, hj⟩
    obtain ⟨hnot, hidx⟩ := hold id i hi
    refine hlast (fun id' hk hnot' => ?_) (fun id' hk => ?_) id₀ hfin e hidx₀ id
      (Dict.mem_keys_of_get? hidx) hnot i hidx
    · by_contra hns
      obtain ⟨j, hj⟩ := Dict.exists_get?_of_mem hk
      have hmem : id' ∈ b₁.reqIdToIndex.keys.filter
          fun id => decide (id ∉ out.numScheduledTokens.keys) := by
        rw [List.mem_filter, decide_eq_true_eq]
        refine ⟨?_, hns⟩
        have hj₁ := hget₁ id'
        rw [if_neg hnot', hj] at hj₁
        exact Dict.mem_keys_of_get? hj₁
      rw [hunsch] at hmem
      cases hmem
    · rw [← hsent.scheduled.mem_iff, hnew, List.nil_append] at hk
      obtain ⟨data, hdata, rfl⟩ := List.mem_map.mp hk
      obtain ⟨j, hj⟩ := Dict.exists_get?_of_mem (hcached data hdata)
      obtain ⟨hnot', hj'⟩ := hold _ j hj
      exact ⟨Dict.mem_keys_of_get? hj', hnot'⟩
  have hperm := List.perm_insertionSort (· ≤ ·) holes
  have hb₅ : b₅ = w₃.inputBatch := by
    split_ifs at hrun₅ with he
    · exact (Except.ok.inj hrun₅).symm
    · rw [condense_of_behind ((hinv₁.perm hperm).congr hrow₃ hidx₃)
        (pairwise_lt_insertionSort hnd₁)
        (fun i hi => hlt₁ i (hperm.mem_iff.mp hi))
        (fun e he id i hi => hbehind e (hperm.mem_iff.mp he) id i (hidx₃ ▸ hi))] at hrun₅
      exact (Except.ok.inj hrun₅).symm
  subst hb₅
  refine ⟨hsame₁.trans hsame₃, fun id i hi => ?_⟩
  simp only [hidx₃] at hi
  rw [hget₁] at hi
  split_ifs at hi
  exact hi

end GPUModelRunner

end SpaceServe
