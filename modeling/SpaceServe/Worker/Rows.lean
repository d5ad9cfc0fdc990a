import SpaceServe.Worker.Batch

/-!
# What the rows of the persistent batch hold

The row of a request holds its tokens, its blocks, its sampling parameters and its generator, each in
an array of its own; the requests that ask for something are collected in sets. Removing, adding and
moving rows keep all of this.

* `Row`, `row`, `Row.Holds`: a row and the state it holds;
* `SamplingGroup`, `members`, `Asks`: the sets;
* `Faithful`: every row holds the state of its request;
* `Faithful.removeRequest`, `Faithful.addRequest`, `Faithful.updateRow`, `Faithful.moveRow`,
  **`Faithful.condense`**.
-/

set_option autoImplicit false

namespace SpaceServe

open Py

/-- The sampling parameters that stand in a row. -/
structure SamplingRow where
  temperature : ℚ
  topP : ℚ
  topK : ℤ
  frequencyPenalty : ℚ
  presencePenalty : ℚ
  repetitionPenalty : ℚ
  minTokens : ℕ
  stopTokenIds : List TokenId

/-- The row that a request asks for. -/
def SamplingParams.row (sp : SamplingParams) : SamplingRow where
  temperature := sp.temperature
  topP := sp.topP
  topK := sp.topK
  frequencyPenalty := sp.frequencyPenalty
  presencePenalty := sp.presencePenalty
  repetitionPenalty := sp.repetitionPenalty
  minTokens := sp.minTokens
  stopTokenIds := sp.allStopTokenIds

/-- The number of log probabilities that a request asks for, if it does. -/
def SamplingParams.askedLogprobs (sp : SamplingParams) : Option ℕ :=
  match sp.logprobs with
  | some (n + 1) => some (n + 1)
  | _ => none

/-- The blocks of a running or resumed request after an update. -/
def CachedRequestState.updatedBlocks (st : CachedRequestState) (data : CachedRequestData) : List ℕ :=
  if data.resumedFromPreemption = true then data.newBlockIds
  else st.blockIds.getD [] ++ data.newBlockIds

theorem CachedRequestState.le_updatedBlocks (st : CachedRequestState) (data : CachedRequestData) :
    data.newBlockIds.length ≤ (st.updatedBlocks data).length := by
  unfold CachedRequestState.updatedBlocks
  split_ifs
  · exact Nat.le_refl _
  · rw [List.length_append]
    exact Nat.le_add_left _ _

/-- The state of a running or resumed request after an update. -/
def CachedRequestState.updated (st : CachedRequestState) (data : CachedRequestData) :
    CachedRequestState :=
  { st with
    numComputedTokens := data.numComputedTokens
    blockIds := some (st.updatedBlocks data) }

/-- The requests that are collected in a set of the batch. -/
inductive SamplingGroup
  | greedy
  | random
  | topP
  | topK
  | frequencyPenalties
  | presencePenalties
  | repetitionPenalties
  | promptLogprob

/-- When a request belongs to a group. -/
def SamplingGroup.Asks (sp : SamplingParams) : SamplingGroup → Prop
  | greedy => sp.samplingType = .greedy
  | random => sp.samplingType ≠ .greedy
  | topP => sp.topP < 1
  | topK => 0 < sp.topK
  | frequencyPenalties => sp.frequencyPenalty ≠ 0
  | presencePenalties => sp.presencePenalty ≠ 0
  | repetitionPenalties => sp.repetitionPenalty ≠ 1
  | promptLogprob => 0 < sp.promptLogprobs.getD 0

namespace InputBatch

/-- What a batch holds in one row. -/
structure Row where
  tokenIds : ℕ → TokenId
  numTokens : ℕ
  numPromptTokens : ℕ
  numComputedTokens : ℤ
  blockIds : ℕ → ℕ
  numBlocks : ℕ
  sampling : SamplingRow
  generator : Option Generator

variable (b : InputBatch)

/-- Row `i`. -/
def row (i : ℕ) : Row where
  tokenIds := b.tokenIdsCpu i
  numTokens := b.numTokens i
  numPromptTokens := b.numPromptTokens i
  numComputedTokens := b.numComputedTokensCpu i
  blockIds := b.blockTable i
  numBlocks := b.numBlocksPerRow i
  sampling :=
    { temperature := b.temperatureCpu i
      topP := b.topPCpu i
      topK := b.topKCpu i
      frequencyPenalty := b.frequencyPenaltiesCpu i
      presencePenalty := b.presencePenaltiesCpu i
      repetitionPenalty := b.repetitionPenaltiesCpu i
      minTokens := b.minTokens i
      stopTokenIds := b.stopTokenIds i }
  generator := b.generators.get? i

/-- The set of a group. -/
def members : SamplingGroup → Finset ReqId
  | .greedy => b.greedyReqs
  | .random => b.randomReqs
  | .topP => b.topPReqs
  | .topK => b.topKReqs
  | .frequencyPenalties => b.frequencyPenaltiesReqs
  | .presencePenalties => b.presencePenaltiesReqs
  | .repetitionPenalties => b.repetitionPenaltiesReqs
  | .promptLogprob => b.promptLogprobReqs

/-- A row that holds the state of a request: the tokens up to their number, the blocks that the
request has, and all that the sampler reads. -/
structure Row.Holds (row : Row) (st : CachedRequestState) : Prop where
  tokens : ∀ j t, (st.promptTokenIds ++ st.outputTokenIds)[j]? = some t → row.tokenIds j = t
  numTokens : row.numTokens = st.numTokens
  numPromptTokens : row.numPromptTokens = st.promptTokenIds.length
  numComputedTokens : row.numComputedTokens = st.numComputedTokens
  blocks : ∀ j k, (st.blockIds.getD [])[j]? = some k → row.blockIds j = k
  numBlocks : (st.blockIds.getD []).length ≤ row.numBlocks
  sampling : row.sampling = st.samplingParams.row
  generator : row.generator = st.generator

/-- **Every row holds the state of its request**, only these rows have a generator, and the groups
are those of the requests in the batch. -/
structure Faithful (requests : Dict ReqId CachedRequestState) : Prop where
  rows : ∀ id i, b.reqIdToIndex.get? id = some i →
    ∃ st, requests.get? id = some st ∧ (b.row i).Holds st
  generators : ∀ i g, b.generators.get? i = some g → ∃ id, b.reqIdToIndex.get? id = some i
  members : ∀ (g : SamplingGroup) (id : ReqId), id ∈ b.members g ↔ id ∈ b.reqIdToIndex.keys ∧
    ∃ st, requests.get? id = some st ∧ g.Asks st.samplingParams
  logprobs : ∀ id, b.numLogprobs.get? id = if id ∈ b.reqIdToIndex.keys then
    (requests.get? id).bind fun st => st.samplingParams.askedLogprobs else none

variable {b} {m n : ℕ} {holes : List ℕ} {requests requests' : Dict ReqId CachedRequestState}

theorem Faithful.init (m : ℕ) : (InputBatch.init m).Faithful requests where
  rows id i h := by cases h
  generators i g h := by cases h
  members g id := by cases g <;> simp [InputBatch.init, InputBatch.members]
  logprobs id := by simp [InputBatch.init]

/-- Only the states of the requests in the batch matter. -/
theorem Faithful.congr (h : b.Faithful requests)
    (hreq : ∀ id ∈ b.reqIdToIndex.keys, requests'.get? id = requests.get? id) :
    b.Faithful requests' where
  rows id i hi := by
    rw [hreq id (Dict.mem_keys_of_get? hi)]
    exact h.rows id i hi
  generators := h.generators
  members g id := by
    rw [h.members g id]
    refine and_congr_right fun hid => ?_
    rw [hreq id hid]
  logprobs id := by
    rw [h.logprobs id]
    split_ifs with hid
    · rw [hreq id hid]
    · rfl

/-! ## Removing -/

/-- **Removing a request** leaves the other rows. -/
theorem Faithful.removeRequest (h : b.Faithful requests) (hinv : b.Inv m n holes) (id : ReqId) :
    (b.removeRequest id).2.Faithful requests := by
  unfold InputBatch.removeRequest
  cases hi : b.reqIdToIndex.get? id with
  | none => exact h
  | some i =>
    have hne : ∀ {id' j}, b.reqIdToIndex.get? id' = some j → id' ≠ id → j ≠ i := by
      rintro id' j hj hid rfl
      have h1 := (hinv.index j id').mpr hj
      rw [(hinv.index j id).mpr hi] at h1
      exact hid (Option.some.inj (Option.some.inj h1)).symm
    refine ⟨fun id' j hj => ?_, fun j g hg => ?_, fun g id' => ?_, fun id' => ?_⟩
    · rw [Dict.get?_pop] at hj
      split_ifs at hj with hid
      obtain ⟨st, hst, hrow⟩ := h.rows id' j hj
      refine ⟨st, hst, ?_⟩
      have hgen : (b.generators.pop i).get? j = b.generators.get? j := by
        rw [Dict.get?_pop, if_neg (hne hj hid)]
      simp only [row, hgen]
      exact hrow
    · simp only [Dict.get?_pop] at hg
      split_ifs at hg with hji
      obtain ⟨id', hid'⟩ := h.generators j g hg
      refine ⟨id', ?_⟩
      rw [Dict.get?_pop, if_neg]
      · exact hid'
      · rintro rfl
        rw [hi] at hid'
        exact hji (Option.some.inj hid').symm
    · have hmem : ∀ s : Finset ReqId, (id' ∈ s ↔ id' ∈ b.reqIdToIndex.keys ∧ ∃ st,
          requests.get? id' = some st ∧ g.Asks st.samplingParams) →
          (id' ∈ s.erase id ↔ id' ∈ (b.reqIdToIndex.pop id).keys ∧ ∃ st,
            requests.get? id' = some st ∧ g.Asks st.samplingParams) := by
        intro s hs
        rw [Finset.mem_erase, hs, Dict.mem_keys_pop, and_assoc]
      have hg := h.members g id'
      cases g <;> exact hmem _ hg
    · simp only [Dict.get?_pop, Dict.mem_keys_pop]
      by_cases hid : id' = id
      · rw [if_pos hid, if_neg fun hc => hc.1 hid]
      · rw [if_neg hid, h.logprobs id']
        simp only [hid, ne_eq, not_false_eq_true, true_and]

/-! ## Adding -/

theorem mem_addIf {c : Prop} [Decidable c] {x y : ReqId} {s : Finset ReqId} :
    y ∈ addIf c x s ↔ (y = x ∧ c) ∨ y ∈ s := by
  unfold addIf
  split_ifs with hc
  · simp [hc]
  · simp [hc]

theorem mem_members_addSampling (i : ℕ) (st : CachedRequestState) (g : SamplingGroup) (id : ReqId) :
    id ∈ (b.addSampling i st).members g ↔
      (id = st.reqId ∧ g.Asks st.samplingParams) ∨ id ∈ b.members g := by
  cases g <;> exact mem_addIf

theorem numLogprobs_addSampling (b : InputBatch) (i : ℕ) (st : CachedRequestState) :
    (b.addSampling i st).numLogprobs = match st.samplingParams.logprobs with
      | some (n + 1) => b.numLogprobs.set st.reqId (n + 1)
      | _ => b.numLogprobs := rfl

theorem row_addSampling_of_ne {i j : ℕ} (hne : j ≠ i) (st : CachedRequestState) :
    (b.addSampling i st).row j = b.row j := by
  have hgen : (b.addSampling i st).generators.get? j = b.generators.get? j := by
    simp only [addSampling]
    split
    · rw [Dict.get?_set, if_neg hne]
    · rfl
  simp only [row, hgen]
  simp only [addSampling, Function.update_of_ne hne]

theorem writeRow_of_ne {α : Type} {i j : ℕ} (hne : j ≠ i) (a : ℕ → ℕ → α) (start : ℕ)
    (values : List α) : writeRow a i start values j = a j := by
  funext c
  simp [writeRow, hne]

theorem copyRow_of_ne {α : Type} {i j : ℕ} (hne : j ≠ i) (a : ℕ → ℕ → α) (src n : ℕ) :
    copyRow a src i n j = a j := by
  funext c
  simp [copyRow, hne]

theorem row_appendRow_of_ne {i j : ℕ} (hne : j ≠ i) (start : ℕ) (ids : List ℕ) :
    (b.appendRow i start ids).row j = b.row j := by
  unfold appendRow
  split_ifs
  · rfl
  · simp only [row, writeRow_of_ne hne, Function.update_of_ne hne]

/-- What writing a row leaves in it. -/
theorem writeRow_of_getElem? {α : Type} {a : ℕ → ℕ → α} {i start j : ℕ} {values : List α} {v : α}
    (hj : values[j]? = some v) : writeRow a i start values i (start + j) = v := by
  simp [writeRow, hj]

/-- The part of `add_request` that is not about sampling. -/
theorem addRequest_eq {st : CachedRequestState} {reqIndex : Option ℕ} {b' : InputBatch} {i : ℕ}
    (hi : reqIndex.getD b.numReqs = i) (h : b.addRequest m st reqIndex = .ok b') :
    b' = (({ b with
      reqIds := b.reqIds.set i (some st.reqId)
      reqIdToIndex := b.reqIdToIndex.set st.reqId i
      numPromptTokens := Function.update b.numPromptTokens i st.promptTokenIds.length
      tokenIdsCpu := writeRow b.tokenIdsCpu i 0 (st.promptTokenIds ++ st.outputTokenIds)
      numTokens := Function.update b.numTokens i st.numTokens
      numComputedTokensCpu := Function.update b.numComputedTokensCpu i st.numComputedTokens } :
        InputBatch).appendRow i 0 (st.blockIds.getD [])).addSampling i st := by
  subst hi
  unfold InputBatch.addRequest at h
  rw [bind_eq_ok] at h
  obtain ⟨_, -, h⟩ := h
  exact (Except.ok.inj h).symm

/-- A request without a row joins the batch in row `i`. -/
theorem Faithful.put (h : b.Faithful requests) {st : CachedRequestState} {i : ℕ} {b' : InputBatch}
    (hid : b.reqIdToIndex.get? st.reqId = none) (hst : requests.get? st.reqId = some st)
    (hi : ∀ id, b.reqIdToIndex.get? id ≠ some i)
    (hidx : b'.reqIdToIndex = b.reqIdToIndex.set st.reqId i)
    (hrow : (b'.row i).Holds st) (hother : ∀ j, j ≠ i → b'.row j = b.row j)
    (hmem : ∀ g id, id ∈ b'.members g ↔
      (id = st.reqId ∧ SamplingGroup.Asks st.samplingParams g) ∨ id ∈ b.members g)
    (hlog : b'.numLogprobs = match st.samplingParams.logprobs with
      | some (n + 1) => b.numLogprobs.set st.reqId (n + 1)
      | _ => b.numLogprobs) : b'.Faithful requests := by
  have hkey : st.reqId ∉ b.reqIdToIndex.keys := (b.reqIdToIndex.get?_eq_none _).mp hid
  refine ⟨fun id j hj => ?_, fun j g hg => ?_, fun g id => ?_, fun id => ?_⟩
  · rw [hidx, Dict.get?_set] at hj
    split_ifs at hj with he
    · cases hj
      exact ⟨st, he ▸ hst, hrow⟩
    · rw [hother j fun hji => hi id (hji ▸ hj)]
      exact h.rows id j hj
  · rw [hidx]
    by_cases hji : j = i
    · exact ⟨st.reqId, by rw [Dict.get?_set_self, hji]⟩
    · have hgen := congrArg Row.generator (hother j hji)
      obtain ⟨id, hj⟩ := h.generators j g (hgen.symm.trans hg)
      refine ⟨id, ?_⟩
      rw [Dict.get?_set, if_neg]
      · exact hj
      · rintro rfl
        rw [hid] at hj
        cases hj
  · rw [hmem, h.members g id, hidx, Dict.mem_keys_set]
    constructor
    · rintro (⟨rfl, ha⟩ | ⟨hk, ha⟩)
      · exact ⟨Or.inl rfl, st, hst, ha⟩
      · exact ⟨Or.inr hk, ha⟩
    · rintro ⟨rfl | hk, st', hst', ha⟩
      · rw [hst] at hst'
        cases hst'
        exact Or.inl ⟨rfl, ha⟩
      · exact Or.inr ⟨hk, st', hst', ha⟩
  · have hold := h.logprobs id
    rw [hlog, hidx]
    simp only [Dict.mem_keys_set]
    by_cases he : id = st.reqId
    · subst he
      rw [if_neg hkey] at hold
      rw [if_pos (Or.inl rfl), hst, Option.bind_some, SamplingParams.askedLogprobs]
      split
      · rw [Dict.get?_set_self]
      · exact hold
    · simp only [he, false_or]
      rw [← hold]
      split
      · rw [Dict.get?_set, if_neg he]
      · rfl

/-- What `add_request` writes into its row. -/
theorem row_addRequest {st : CachedRequestState} {reqIndex : Option ℕ} {b' : InputBatch} {i : ℕ}
    (hi : reqIndex.getD b.numReqs = i) (h : b.addRequest m st reqIndex = .ok b')
    (hgen : b.generators.get? i = none) : (b'.row i).Holds st := by
  have hb := addRequest_eq hi h
  have htok : ∀ j t, (st.promptTokenIds ++ st.outputTokenIds)[j]? = some t →
      writeRow b.tokenIdsCpu i 0 (st.promptTokenIds ++ st.outputTokenIds) i j = t := by
    intro j t hj
    have hread : writeRow b.tokenIdsCpu i 0 (st.promptTokenIds ++ st.outputTokenIds) i (0 + j) = t :=
      writeRow_of_getElem? hj
    rwa [Nat.zero_add] at hread
  have hgen' : ∀ b₁ : InputBatch, b₁.generators.get? i = none →
      ((b₁.addSampling i st).row i).generator = st.generator := by
    intro b₁ hb₁
    simp only [row, addSampling]
    cases st.generator with
    | none => exact hb₁
    | some g => exact Dict.get?_set_self _ _ _
  rw [hb]
  unfold appendRow
  split_ifs with hnil
  · refine ⟨htok, ?_, ?_, ?_, fun j k hk => ?_, ?_, ?_, ?_⟩
    · exact Function.update_self _ _ _
    · exact Function.update_self _ _ _
    · exact Function.update_self _ _ _
    · rw [hnil] at hk
      cases hk
    · rw [hnil]
      exact Nat.zero_le _
    · simp [row, addSampling, SamplingParams.row]
    · exact hgen' _ hgen
  · refine ⟨htok, ?_, ?_, ?_, fun j k hk => ?_, ?_, ?_, ?_⟩
    · exact Function.update_self _ _ _
    · exact Function.update_self _ _ _
    · exact Function.update_self _ _ _
    · have hread : writeRow b.blockTable i 0 (st.blockIds.getD []) i (0 + j) = k :=
        writeRow_of_getElem? hk
      rwa [Nat.zero_add] at hread
    · simp [row, addSampling]
    · simp [row, addSampling, SamplingParams.row]
    · exact hgen' _ hgen

/-- **Adding a request** writes its row and leaves the others. -/
theorem Faithful.addRequest (h : b.Faithful requests) {st : CachedRequestState}
    {reqIndex : Option ℕ} {b' : InputBatch} {i : ℕ} (hi : reqIndex.getD b.numReqs = i)
    (hfree : ∀ id, b.reqIdToIndex.get? id ≠ some i)
    (hid : b.reqIdToIndex.get? st.reqId = none) (hst : requests.get? st.reqId = some st)
    (hadd : b.addRequest m st reqIndex = .ok b') : b'.Faithful requests := by
  have hgen : b.generators.get? i = none := by
    cases hg : b.generators.get? i with
    | none => rfl
    | some g =>
      obtain ⟨id, hid⟩ := h.generators i g hg
      exact absurd hid (hfree id)
  have hb := addRequest_eq hi hadd
  refine h.put hid hst hfree ?_ (row_addRequest hi hadd hgen) ?_ ?_ ?_
  · rw [hb]
    exact (appendRow_reqIds _ _ _ _).2
  · intro j hj
    rw [hb, row_addSampling_of_ne hj, row_appendRow_of_ne hj]
    simp only [row, writeRow_of_ne hj, Function.update_of_ne hj]
  · intro g id
    have hsame : ∀ (b₁ : InputBatch) (start : ℕ) (ids : List ℕ),
        (b₁.appendRow i start ids).members g = b₁.members g := by
      intro b₁ start ids
      unfold appendRow
      split_ifs <;> cases g <;> rfl
    rw [hb, mem_members_addSampling, hsame]
    cases g <;> exact Iff.rfl
  · have hsame : ∀ (b₁ : InputBatch) (start : ℕ) (ids : List ℕ),
        (b₁.appendRow i start ids).numLogprobs = b₁.numLogprobs := by
      intro b₁ start ids
      unfold appendRow
      split_ifs <;> rfl
    have hlog := (congrArg InputBatch.numLogprobs hb).trans (numLogprobs_addSampling _ i st)
    rw [hsame] at hlog
    exact hlog

/-! ## Updating -/

/-- Row `i` after an update of its request. -/
def updateRow (b : InputBatch) (i : ℕ) (st : CachedRequestState) (data : CachedRequestData) :
    InputBatch :=
  let b := { b with
    numComputedTokensCpu := Function.update b.numComputedTokensCpu i data.numComputedTokens }
  b.appendRow i ((st.updatedBlocks data).length - data.newBlockIds.length) data.newBlockIds

/-- What an update leaves in the row: the new blocks stand behind the old ones, or in their place. -/
theorem Row.Holds.update {i : ℕ} {st : CachedRequestState} (h : (b.row i).Holds st)
    (data : CachedRequestData) : ((b.updateRow i st data).row i).Holds (st.updated data) := by
  have hcomp : Function.update b.numComputedTokensCpu i (data.numComputedTokens : ℤ) i =
      data.numComputedTokens := Function.update_self _ _ _
  unfold updateRow appendRow
  split_ifs with hnil
  · refine ⟨h.tokens, h.numTokens, h.numPromptTokens, hcomp, fun j k hk => ?_, ?_, h.sampling,
      h.generator⟩
    · simp only [CachedRequestState.updated, CachedRequestState.updatedBlocks, hnil,
        List.append_nil, Option.getD_some] at hk
      split_ifs at hk
      · cases hk
      · exact h.blocks j k hk
    · simp only [CachedRequestState.updated, CachedRequestState.updatedBlocks, hnil,
        List.append_nil, Option.getD_some]
      split_ifs
      · exact Nat.zero_le _
      · exact h.numBlocks
  · have hlen : (st.updatedBlocks data).length - data.newBlockIds.length + data.newBlockIds.length =
        (st.updatedBlocks data).length := Nat.sub_add_cancel (st.le_updatedBlocks data)
    refine ⟨h.tokens, h.numTokens, h.numPromptTokens, hcomp, fun j k hk => ?_, ?_, h.sampling,
      h.generator⟩
    · simp only [CachedRequestState.updated, Option.getD_some] at hk
      simp only [row]
      by_cases hj : (st.updatedBlocks data).length - data.newBlockIds.length ≤ j
      · obtain ⟨d, rfl⟩ := Nat.exists_eq_add_of_le hj
        refine writeRow_of_getElem? ?_
        rw [← hk]
        unfold CachedRequestState.updatedBlocks
        split_ifs
        · rw [Nat.sub_self, Nat.zero_add]
        · rw [List.length_append, Nat.add_sub_cancel, List.getElem?_append_right (by omega)]
          congr 1
          omega
      · have hold : (st.blockIds.getD [])[j]? = some k := by
          unfold CachedRequestState.updatedBlocks at hk hj
          split_ifs at hk hj with hres
          · omega
          · rw [List.length_append] at hj
            rwa [List.getElem?_append_left (by omega)] at hk
        rw [writeRow, if_neg (by omega)]
        exact h.blocks j k hold
    · simp only [row, Function.update_self, hlen]
      exact Nat.le_refl _

/-- **Updating a request** updates its row and leaves the others. -/
theorem Faithful.updateRow (h : b.Faithful requests) (hinv : b.Inv m n holes)
    {st : CachedRequestState} {data : CachedRequestData} {i : ℕ}
    (hst : requests.get? data.reqId = some st) (hi : b.reqIdToIndex.get? data.reqId = some i) :
    (b.updateRow i st data).Faithful (requests.set data.reqId (st.updated data)) := by
  have hsame : (b.updateRow i st data).reqIdToIndex = b.reqIdToIndex ∧
      (b.updateRow i st data).generators = b.generators ∧
      (∀ g, (b.updateRow i st data).members g = b.members g) ∧
      (b.updateRow i st data).numLogprobs = b.numLogprobs := by
    unfold InputBatch.updateRow appendRow
    split_ifs
    · exact ⟨rfl, rfl, fun g => by cases g <;> rfl, rfl⟩
    · exact ⟨rfl, rfl, fun g => by cases g <;> rfl, rfl⟩
  obtain ⟨hidx, hgen, hmem, hlog⟩ := hsame
  refine ⟨fun id j hj => ?_, fun j g hg => ?_, fun g id => ?_, fun id => ?_⟩
  · rw [hidx] at hj
    by_cases he : id = data.reqId
    · subst he
      rw [hi] at hj
      cases hj
      obtain ⟨st', hst', hrow⟩ := h.rows _ i hi
      rw [hst] at hst'
      cases hst'
      exact ⟨_, Dict.get?_set_self _ _ _, hrow.update data⟩
    · have hne : j ≠ i := by
        rintro rfl
        have h1 := (hinv.index j id).mpr hj
        rw [(hinv.index j data.reqId).mpr hi] at h1
        exact he (Option.some.inj (Option.some.inj h1)).symm
      rw [Dict.get?_set_ne _ he]
      unfold InputBatch.updateRow
      rw [row_appendRow_of_ne hne]
      simp only [row, Function.update_of_ne hne]
      exact h.rows id j hj
  · rw [hgen] at hg
    rw [hidx]
    exact h.generators j g hg
  · rw [hmem, h.members g id, hidx]
    refine and_congr_right fun _ => ?_
    rw [Dict.get?_set]
    split_ifs with he
    · subst he
      rw [hst]
      constructor
      · rintro ⟨st', hst', ha⟩
        cases hst'
        exact ⟨_, rfl, ha⟩
      · rintro ⟨st', hst', ha⟩
        cases hst'
        exact ⟨_, rfl, ha⟩
    · rfl
  · rw [hlog, h.logprobs id, hidx, Dict.get?_set]
    split_ifs with hk he
    · rw [he, hst]
      rfl
    · rfl
    · rfl

/-! ## Condensing -/

theorem members_moveRow (id : ReqId) (last e : ℕ) (g : SamplingGroup) :
    (b.moveRow id last e).members g = b.members g := by
  cases g <;> rfl

/-- **Moving a row** moves all that it holds. -/
theorem Faithful.moveRow (h : b.Faithful requests) {id : ReqId} {last e : ℕ}
    (hlast : b.reqIdToIndex.get? id = some last) (hlt : e < last)
    (hindex : ∀ id', b.reqIdToIndex.get? id' = some last → id' = id)
    (he : ∀ id', b.reqIdToIndex.get? id' ≠ some e) : (b.moveRow id last e).Faithful requests := by
  have hgen : ∀ j, (b.moveRow id last e).generators.get? j =
      if j = e then b.generators.get? last else if j = last then none else b.generators.get? j := by
    have hnone : b.generators.get? e = none := by
      cases hg : b.generators.get? e with
      | none => rfl
      | some g =>
        obtain ⟨id', hid'⟩ := h.generators e g hg
        exact absurd hid' (he id')
    intro j
    simp only [InputBatch.moveRow]
    cases hg : b.generators.get? last with
    | none =>
      by_cases hje : j = e
      · rw [if_pos hje, Dict.get?_pop, if_neg (by omega), hje, hnone]
      · rw [if_neg hje, Dict.get?_pop]
    | some g =>
      simp only [Dict.get?_set, Dict.get?_pop]
  have hkeys : ∀ id', id' ∈ (b.moveRow id last e).reqIdToIndex.keys ↔ id' ∈ b.reqIdToIndex.keys := by
    intro id'
    change id' ∈ (b.reqIdToIndex.set id e).keys ↔ _
    rw [Dict.mem_keys_set]
    refine ⟨fun hk => hk.elim (fun heq => ?_) fun h' => h', Or.inr⟩
    exact heq ▸ Dict.mem_keys_of_get? hlast
  refine ⟨fun id' j hj => ?_, fun j g hg => ?_, fun g id' => ?_, fun id' => ?_⟩
  · change (b.reqIdToIndex.set id e).get? id' = some j at hj
    rw [Dict.get?_set] at hj
    split_ifs at hj with hid
    · cases hj
      subst hid
      obtain ⟨st, hst, hrow⟩ := h.rows id' last hlast
      refine ⟨st, hst, fun j t hj => ?_, ?_, ?_, ?_, fun j k hk => ?_, ?_, ?_, ?_⟩
      · have hlt' : j < b.numTokens last := by
          have hn : b.numTokens last = _ := hrow.numTokens
          rw [hn, CachedRequestState.numTokens, ← List.length_append]
          exact (List.getElem?_eq_some_iff.mp hj).1
        simp only [row, InputBatch.moveRow, copyRow, hlt', and_self, if_true]
        exact hrow.tokens j t hj
      · exact (Function.update_self _ _ _).trans hrow.numTokens
      · exact (Function.update_self _ _ _).trans hrow.numPromptTokens
      · exact (Function.update_self _ _ _).trans hrow.numComputedTokens
      · have hlt' : j < b.numBlocksPerRow last :=
          Nat.lt_of_lt_of_le (List.getElem?_eq_some_iff.mp hk).1 hrow.numBlocks
        simp only [row, InputBatch.moveRow, copyRow, hlt', and_self, if_true]
        exact hrow.blocks j k hk
      · simp only [row, InputBatch.moveRow, Function.update_self]
        exact hrow.numBlocks
      · simp only [row, InputBatch.moveRow, Function.update_self]
        exact hrow.sampling
      · change (b.moveRow id' last e).generators.get? e = _
        rw [hgen, if_pos rfl]
        exact hrow.generator
    · have hje : j ≠ e := fun heq => he id' (heq ▸ hj)
      have hjl : j ≠ last := fun heq => hid (hindex id' (heq ▸ hj))
      have hsame : (b.moveRow id last e).row j = b.row j := by
        have hg : (b.moveRow id last e).generators.get? j = b.generators.get? j := by
          rw [hgen, if_neg hje, if_neg hjl]
        simp only [row, hg]
        simp only [InputBatch.moveRow, copyRow_of_ne hje, Function.update_of_ne hje]
      rw [hsame]
      exact h.rows id' j hj
  · rw [hgen] at hg
    change ∃ id', (b.reqIdToIndex.set id e).get? id' = some j
    split_ifs at hg with h1 h2
    · exact ⟨id, by rw [Dict.get?_set_self, h1]⟩
    · obtain ⟨id', hid'⟩ := h.generators j g hg
      refine ⟨id', ?_⟩
      rw [Dict.get?_set, if_neg]
      · exact hid'
      · rintro rfl
        rw [hlast] at hid'
        exact h2 (Option.some.inj hid').symm
  · rw [members_moveRow, hkeys, h.members]
  · rw [show (b.moveRow id last e).numLogprobs = b.numLogprobs from rfl, h.logprobs]
    simp only [hkeys]

/-- The loop of `condense`. -/
theorem Faithful.condenseLoop : ∀ {holes : List ℕ} {n : ℕ} {b b' : InputBatch},
    b.Faithful requests → b.Inv m n holes → holes.Pairwise (· < ·) →
    condenseLoop holes n b = .ok b' → b'.Faithful requests
  | [], n, b, b', h, _, _, hc => by
    cases hc
    exact h
  | e :: rest, n, b, b', h, hinv, hs, hc => by
    obtain ⟨h1, h2, h3, h4⟩ := lastNonEmpty_spec (e :: rest) n
    rw [InputBatch.condenseLoop] at hc
    by_cases hle : lastNonEmpty (e :: rest) n ≤ e
    · rw [if_pos hle] at hc
      cases hc
      exact h
    · rw [if_neg hle] at hc
      obtain ⟨last, hlast⟩ := Int.eq_ofNat_of_zero_le (by omega : 0 ≤ lastNonEmpty (e :: rest) n)
      rw [hlast] at h1 h3 h4 hle hc
      rw [Int.toNat_natCast] at h4 hc
      obtain ⟨id, hid⟩ := hinv.filled last (by omega) (h4 (by omega))
      rw [hid] at hc
      have hmove := hinv.moveRow rfl (hs.imp fun hab => Nat.ne_of_lt hab) hid (by omega)
        (fun i hi hlt => h3 i hi (by omega))
      refine Faithful.condenseLoop (h.moveRow ((hinv.index last id).mp hid) (by omega) ?_ ?_) hmove
        (List.pairwise_cons.mp hs).2 hc
      · intro id' hid'
        have h5 := (hinv.index last id').mpr hid'
        rw [hid] at h5
        exact (Option.some.inj (Option.some.inj h5)).symm
      · exact fun id' hid' => hinv.not_mem_holes hid' List.mem_cons_self

/-- **Condensing keeps what the rows hold.** -/
theorem Faithful.condense (h : b.Faithful requests) (hinv : b.Inv m n holes)
    (hs : holes.Pairwise (· < ·)) (hlt : ∀ i ∈ holes, i < n) {b' : InputBatch}
    (hc : b.condense holes = .ok b') : b'.Faithful requests := by
  have hcount := hinv.length_add_holes (hs.imp fun hab => Nat.ne_of_lt hab) hlt
  unfold InputBatch.condense at hc
  split_ifs at hc with hz
  · cases hc
    exact h
  · rw [hcount] at hc
    exact h.condenseLoop hinv hs hc

end InputBatch

end SpaceServe
