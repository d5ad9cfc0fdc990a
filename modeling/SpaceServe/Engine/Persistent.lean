import SpaceServe.Engine.Cache
import SpaceServe.Scheduler.Deltas
import SpaceServe.Scheduler.Notices
import SpaceServe.Scheduler.Runs
import SpaceServe.Scheduler.Safety
import SpaceServe.Scheduler.Sent
import SpaceServe.Worker.Update

/-!
# The persistent batch in runs of a scheduler

A worker that is given every output of a scheduler: requests come and go in any order, with ids that
may be those of finished requests, and tokens are sampled in between. After each `_update_states` the
rows of the batch are exactly the scheduled requests, without holes, and hold their states.

* `appendSampled_faithful`, `appendRows_spec`: sampled tokens reach the state and the row;
* `Told`: what the worker has been told; `Told.sentTo`, `Told.schedule`;
* `BatchRun`, `BatchEvent`, `step`, `HandedRun`: the runs;
* `Persistent`, **`persistent_batch`**.
-/

set_option autoImplicit false

namespace SpaceServe

open Py

/-! ## Sampled tokens -/

namespace GPUModelRunner

variable {ρ : Type} {w w' : GPUModelRunner (List ρ)} {out : SchedulerOutput}
  {sampled : List TokenId} {m n : ℕ}

/-- A sampled token is written behind the others. -/
theorem holds_append {b : InputBatch} {i : ℕ} {st : CachedRequestState} (h : (b.row i).Holds st)
    (tokenId : TokenId) : (({ b with
      numTokens := Function.update b.numTokens i (b.numTokens i + 1)
      tokenIdsCpu := writeRow b.tokenIdsCpu i st.numTokens [tokenId] } : InputBatch).row i).Holds
        { st with outputTokenIds := st.outputTokenIds ++ [tokenId] } := by
  have hlen : st.numTokens = (st.promptTokenIds ++ st.outputTokenIds).length := by
    rw [List.length_append]
    rfl
  have hnum : b.numTokens i = st.numTokens := h.numTokens
  refine ⟨fun j t hj => ?_, ?_, h.numPromptTokens, h.numComputedTokens, h.blocks, h.numBlocks,
    h.sampling, h.generator⟩
  · simp only [InputBatch.row]
    change (st.promptTokenIds ++ (st.outputTokenIds ++ [tokenId]))[j]? = some t at hj
    rw [← List.append_assoc] at hj
    by_cases hlt : j < st.numTokens
    · rw [List.getElem?_append_left (by omega)] at hj
      rw [writeRow, if_neg (by omega)]
      exact h.tokens j t hj
    · rw [List.getElem?_append_right (by omega)] at hj
      obtain ⟨d, rfl⟩ := Nat.exists_eq_add_of_le (Nat.le_of_not_lt hlt)
      refine InputBatch.writeRow_of_getElem? ?_
      rw [← hj]
      congr 1
      omega
  · simp only [InputBatch.row, Function.update_self, hnum]
    simp only [CachedRequestState.numTokens, List.length_append, List.length_singleton]
    omega

/-- What one round of the loop of `execute_model` over the rows leaves. -/
theorem appendSampled_faithful (hf : w.inputBatch.Faithful w.requests)
    (hinv : w.inputBatch.Inv m n []) {reqId : ReqId} {i : ℕ}
    (hi : w.inputBatch.reqIdToIndex.get? reqId = some i)
    (h : appendSampled out sampled w (some reqId, i) = .ok w') :
    w'.inputBatch.Faithful w'.requests := by
  simp only [appendSampled, bind_eq_ok, ofOption_eq_ok] at h
  obtain ⟨st, hst, k, -, _, -, h⟩ := h
  split_ifs at h with heq
  · simp only [bind_eq_ok] at h
    obtain ⟨tokenId, -, h⟩ := h
    cases h
    have hpos : (st.numComputedTokens + (k : ℤ)).toNat = st.numTokens := by omega
    rw [hpos]
    refine ⟨fun id j hj => ?_, hf.generators, fun g id => ?_, fun id => ?_⟩
    · by_cases he : id = reqId
      · subst he
        rw [hi] at hj
        cases hj
        obtain ⟨st', hst', hrow⟩ := hf.rows id i hi
        rw [hst] at hst'
        cases hst'
        exact ⟨_, Dict.get?_set_self _ _ _, holds_append hrow tokenId⟩
      · have hne : j ≠ i := by
          rintro rfl
          have h1 := (hinv.index j id).mpr hj
          rw [(hinv.index j reqId).mpr hi] at h1
          exact he (Option.some.inj (Option.some.inj h1)).symm
        rw [Dict.get?_set_ne _ he]
        simp only [InputBatch.row, InputBatch.writeRow_of_ne hne, Function.update_of_ne hne]
        exact hf.rows id j hj
    · refine (hf.members g id).trans (and_congr_right fun _ => ?_)
      rw [Dict.get?_set]
      split_ifs with he
      · rw [he, hst]
        simp only [Option.some.injEq, exists_eq_left']
      · rfl
    · refine (hf.logprobs id).trans ?_
      rw [Dict.get?_set]
      split_ifs with hk he
      · rw [he, hst]
        rfl
      · rfl
      · rfl
  · cases h
    exact hf

/-- The loop of `execute_model` over the rows. -/
def appendRows (w : GPUModelRunner (List ρ)) (out : SchedulerOutput) (sampled : List TokenId) :
    Except Exn (GPUModelRunner (List ρ)) :=
  (w.inputBatch.reqIds.take w.inputBatch.numReqs).zipIdx.foldlM (appendSampled out sampled) w

/-- **Sampled tokens reach the states and the rows alike.** -/
theorem appendRows_spec (hinv : w.inputBatch.Inv m n []) (h : w.appendRows out sampled = .ok w') :
    w'.inputBatch.reqIds = w.inputBatch.reqIds ∧
      w'.inputBatch.reqIdToIndex = w.inputBatch.reqIdToIndex ∧
      (∀ id, (w'.requests.get? id).map (fun st => { st with outputTokenIds := [] }) =
        (w.requests.get? id).map fun st => { st with outputTokenIds := [] }) ∧
      (w.inputBatch.Faithful w.requests → w'.inputBatch.Faithful w'.requests) := by
  refine foldlM_invariant (P := fun w' : GPUModelRunner (List ρ) =>
    w'.inputBatch.reqIds = w.inputBatch.reqIds ∧
    w'.inputBatch.reqIdToIndex = w.inputBatch.reqIdToIndex ∧
    (∀ id, (w'.requests.get? id).map (fun st => { st with outputTokenIds := [] }) =
      (w.requests.get? id).map fun st => { st with outputTokenIds := [] }) ∧
    (w.inputBatch.Faithful w.requests → w'.inputBatch.Faithful w'.requests)) ?_
    ⟨rfl, rfl, fun _ => rfl, fun hf => hf⟩ h
  rintro w₁ ⟨row, i⟩ w₂ hrow ⟨h1, h2, h3, h4⟩ hs
  obtain ⟨-, j1, j2, hreq⟩ := appendSampled_eq_ok hs
  refine ⟨j1.trans h1, j2.trans h2, fun id => ?_, fun hf => ?_⟩
  · rw [← h3 id]
    obtain hreq | ⟨id', state, tokens, hst, hreq⟩ := hreq
    · rw [hreq]
    · rw [hreq, Dict.get?_set]
      split_ifs with he
      · rw [he, hst]
        rfl
      · rfl
  · cases row with
    | none => cases hs
    | some reqId =>
      refine appendSampled_faithful (h4 hf) (hinv.congr h1 h2) ?_ hs
      rw [h2]
      exact hinv.get?_of_mem_zipIdx hrow

/-- The parts of `execute_model`. -/
theorem executeModel_parts {mo : ModelRunnerOutput} (h : w.executeModel m out sampled = .ok (mo, w')) :
    ∃ changed w₁ gathered metadata w₂, w.updateStates m out = .ok (changed, w₁) ∧
      w₁.gatherEncoderOutputs out = .ok gathered ∧
      w₁.prepareSampling changed = .ok (metadata, w₂) ∧ w₂.appendRows out sampled = .ok w' ∧
      mo = { reqIdToIndex := w'.inputBatch.reqIdToIndex, sampledTokenIds := sampled } := by
  unfold executeModel at h
  simp only [bind_eq_ok] at h
  obtain ⟨⟨changed, w₁⟩, h₁, gathered, hg, ⟨metadata, w₂⟩, hp, w₃, h₂, h⟩ := h
  cases h
  exact ⟨changed, w₁, gathered, metadata, w₂, h₁, hg, hp, h₂, rfl⟩

/-- The copy to the device changes no row. -/
theorem prepareSampling_spec {changed : Bool} {metadata : SamplingMetadata}
    (h : w.prepareSampling changed = .ok (metadata, w')) : w'.requests = w.requests ∧
      w'.inputBatch.reqIds = w.inputBatch.reqIds ∧
      w'.inputBatch.reqIdToIndex = w.inputBatch.reqIdToIndex ∧
      (w.inputBatch.Faithful w.requests → w'.inputBatch.Faithful w'.requests) := by
  obtain rfl := prepareSampling_eq_ok h
  cases changed with
  | false => exact ⟨rfl, rfl, rfl, fun hf => hf⟩
  | true =>
    obtain ⟨h1, h2⟩ := InputBatch.copyToDevice_reqIds w.inputBatch
    refine ⟨rfl, h1, h2, fun hf => ?_⟩
    simp only [if_true, InputBatch.copyToDevice]
    split_ifs
    · refine ⟨hf.rows, hf.generators, fun g id => ?_, hf.logprobs⟩
      have hg := hf.members g id
      cases g <;> exact hg
    · refine ⟨hf.rows, hf.generators, fun g id => ?_, hf.logprobs⟩
      have hg := hf.members g id
      cases g <;> exact hg

end GPUModelRunner

/-! ## What the worker has been told -/

section Told

variable {ρ : Type} (p : SchedulerParams)

/-- The requests that `schedule` takes to be known to the worker. -/
def sentIds (s : Scheduler) : List ReqId :=
  s.requests.keys.filter fun id => (s.requests.get? id).any fun r => decide (r.status ≠ .waiting)

theorem mem_sentIds {s : Scheduler} {id : ReqId} :
    id ∈ sentIds s ↔ ∃ r, s.requests.get? id = some r ∧ r.status ≠ .waiting := by
  rw [sentIds, List.mem_filter, Option.any_eq_true]
  simp only [decide_eq_true_eq]
  constructor
  · exact fun h => h.2
  · rintro ⟨r, hr, hst⟩
    exact ⟨Dict.mem_keys_of_get? hr, r, hr, hst⟩

/-- The worker has been told of the requests that were scheduled once, and a row is of such a request,
of one that has finished since, or of one that is gone without a notice. -/
structure Told (gone : ReqId → Prop) (s : Scheduler) (w : GPUModelRunner (List ρ)) : Prop where
  sent : ∀ id ∈ sentIds s, id ∈ w.requests.keys ∧ id ∉ s.finishedReqIds
  rows : ∀ id ∈ w.inputBatch.reqIdToIndex.keys, id ∈ sentIds s ∨ id ∈ s.finishedReqIds ∨ gone id
  states : ∀ id st, w.requests.get? id = some st → st.reqId = id ∧ st.blockIds.isSome = true
  batch : ∃ n, w.inputBatch.Inv p.maxNumRunningReqs n []

variable {p} {gone gone' : ReqId → Prop} {s s' : Scheduler} {w w' : GPUModelRunner (List ρ)}

/-- Only the states and the rows of the worker matter. -/
theorem Told.congr (h : Told p gone s w) (hreq : w'.requests = w.requests)
    (hids : w'.inputBatch.reqIds = w.inputBatch.reqIds)
    (hidx : w'.inputBatch.reqIdToIndex = w.inputBatch.reqIdToIndex) : Told p gone s w' := by
  obtain ⟨n, hinv⟩ := h.batch
  refine ⟨?_, ?_, ?_, n, hinv.congr hids hidx⟩
  · rw [hreq]; exact h.sent
  · rw [hidx]; exact h.rows
  · rw [hreq]; exact h.states

theorem Told.mono (h : Told p gone s w) (hg : ∀ id, gone id → gone' id) : Told p gone' s w :=
  ⟨h.sent, fun id hid => (h.rows id hid).imp_right (Or.imp_right (hg id)), h.states, h.batch⟩

/-- Requests that have left have left a notice. -/
theorem Told.onward (h : Told p gone s w) (ho : Scheduler.Onward s s')
    (hn : Scheduler.Noticed s s') : Told p gone s' w := by
  have hsent : ∀ id, id ∈ sentIds s' → id ∈ sentIds s := by
    intro id hid
    obtain ⟨r', hr', hst⟩ := mem_sentIds.mp hid
    obtain ⟨r, hr, -, -, he⟩ := ho.requests id r' hr'
    exact mem_sentIds.mpr ⟨r, hr, he ▸ hst⟩
  refine ⟨fun id hid => ⟨(h.sent id (hsent id hid)).1, fun hfin => ?_⟩, fun id hid => ?_, h.states,
    h.batch⟩
  · obtain hfin | ⟨-, hgone⟩ := ho.finished id hfin
    · exact (h.sent id (hsent id hid)).2 hfin
    · obtain ⟨r', hr', -⟩ := mem_sentIds.mp hid
      exact hgone (Dict.mem_keys_of_get? hr')
  · obtain hid | hid | hid := h.rows id hid
    · obtain ⟨r, hr, hst⟩ := mem_sentIds.mp hid
      obtain hk | hk := hn.left id (Dict.mem_keys_of_get? hr)
      · obtain ⟨r', hr'⟩ := Dict.exists_get?_of_mem hk
        obtain ⟨r₀, hr₀, -, -, he⟩ := ho.requests id r' hr'
        rw [hr] at hr₀
        cases hr₀
        exact Or.inl (mem_sentIds.mpr ⟨r', hr', he.symm ▸ hst⟩)
      · exact Or.inr (Or.inl hk)
    · exact Or.inr (Or.inl (hn.kept id hid))
    · exact Or.inr (Or.inr hid)

/-- A new request is not known to the worker. -/
theorem Told.addRequest (h : Told p gone s w) {r : Request} (hnew : r.IsNew)
    (hid : r.requestId ∉ s.requests.keys) : Told p gone (s.addRequest r) w := by
  have hsent : ∀ id, id ∈ sentIds (s.addRequest r) ↔ id ∈ sentIds s := by
    intro id
    rw [mem_sentIds, mem_sentIds]
    change (∃ r', (s.requests.set r.requestId r).get? id = some r' ∧ _) ↔ _
    rw [Dict.get?_set]
    split_ifs with he
    · subst he
      constructor
      · rintro ⟨r', hr', hst⟩
        cases hr'
        exact absurd hnew.1 hst
      · rintro ⟨r', hr', -⟩
        exact absurd (Dict.mem_keys_of_get? hr') hid
    · rfl
  exact ⟨fun id hid => h.sent id ((hsent id).mp hid),
    fun id hid => (h.rows id hid).imp_left (hsent id).mpr, h.states, h.batch⟩

/-- The requests that were scheduled once are what `schedule` takes to be known. -/
theorem knownTo_sentIds (hw : s.WF p) : KnownTo (sentIds s) s := by
  refine ⟨fun id r hr hst hid => ?_, fun id r hr hst => ?_, fun id hid => ?_⟩
  · obtain ⟨r', hr', hne⟩ := mem_sentIds.mp hid
    rw [hr] at hr'
    cases hr'
    exact hne hst
  · exact mem_sentIds.mpr ⟨r, hr, by rw [hst]; exact RequestStatus.noConfusion⟩
  · obtain ⟨r, hr⟩ := hw.get?_of_running hid
    refine mem_sentIds.mpr ⟨r, hr, ?_⟩
    rw [hw.running id r hid hr]
    exact RequestStatus.noConfusion

/-- The requests that are known after an output: it adds the new ones. -/
theorem schedule_sentIds (hw : s.WF p) {available : ReqId → ℕ → Bool} {out : SchedulerOutput}
    (hs : s.schedule p available = .ok (out, s')) (id : ReqId) :
    id ∈ sentIds s' ↔ id ∈ sentIds s ∨ id ∈ out.scheduledNewReqs.map (·.reqId) := by
  have hsent := schedule_sent hw (knownTo_sentIds hw) hs
  have hw' := Scheduler.schedule_wf hw hs
  constructor
  · intro hid
    obtain ⟨r, hr, hne⟩ := mem_sentIds.mp hid
    rw [← List.mem_append]
    obtain hrun | hwait := (hw'.known id).mp (Dict.mem_keys_of_get? hr)
    · exact hsent.known.running id hrun
    · exact hsent.known.preempted id r hr ((hw'.waiting id r hwait hr).1.resolve_left hne)
  · rw [← List.mem_append]
    intro hid
    have hkey : id ∈ s'.requests.keys := by
      obtain hid | hid := List.mem_append.mp hid
      · obtain ⟨r, hr, -⟩ := mem_sentIds.mp hid
        exact ((Scheduler.schedule_requests hw hs).1 id).mpr (Dict.mem_keys_of_get? hr)
      · obtain ⟨data, hdata, rfl⟩ := List.mem_map.mp hid
        obtain ⟨-, r, hr, -⟩ := hsent.new data hdata
        exact Dict.mem_keys_of_get? hr
    obtain ⟨r, hr⟩ := Dict.exists_get?_of_mem hkey
    exact mem_sentIds.mpr ⟨r, hr, fun hst => hsent.known.waiting id r hr hst hid⟩

/-- An output may be sent to the worker. -/
theorem Told.sentTo (h : Told p gone s w) (hw : s.WF p)
    (hgone : ∀ id, gone id → id ∉ s.requests.keys) {available : ReqId → ℕ → Bool}
    {out : SchedulerOutput} (hs : s.schedule p available = .ok (out, s')) :
    GPUModelRunner.SentTo p.maxNumRunningReqs w out := by
  have hsent := schedule_sent hw (knownTo_sentIds hw) hs
  have hfin : out.finishedReqIds = s.finishedReqIds := (Prod.mk.inj (schedule_notices hs).1).1
  refine ⟨h.states, hsent.scheduled, ?_, fun data hdata hrow => ?_, fun data hdata => ?_⟩
  · exact Nat.le_trans (out.numScheduledTokens.keys_nodup.subperm hsent.running).length_le
      (Scheduler.schedule_wf hw hs).running_le
  · rw [hfin]
    obtain ⟨hnew, r, hr, -⟩ := hsent.new data hdata
    have hkey := ((Scheduler.schedule_requests hw hs).1 _).mp (Dict.mem_keys_of_get? hr)
    exact ((h.rows _ hrow).resolve_left hnew).resolve_right fun hg => hgone _ hg hkey
  · rw [hfin]
    exact h.sent _ (hsent.cached data hdata).1

/-- What an output tells the worker. -/
theorem Told.schedule (h : Told p gone s w) (hw : s.WF p) {available : ReqId → ℕ → Bool}
    {out : SchedulerOutput} (hs : s.schedule p available = .ok (out, s'))
    (hup : GPUModelRunner.Updated p.maxNumRunningReqs w w' out) : Told p gone' s' w' := by
  have hsent := schedule_sent hw (knownTo_sentIds hw) hs
  have hfin : out.finishedReqIds = s.finishedReqIds := (Prod.mk.inj (schedule_notices hs).1).1
  have hnil : s'.finishedReqIds = [] := (Prod.mk.inj (schedule_notices hs).2).1
  have hw' := Scheduler.schedule_wf hw hs
  -- scheduled requests have a state
  have hstate : ∀ id ∈ out.numScheduledTokens.keys, ∃ st, w'.requests.get? id = some st ∧
      st.reqId = id ∧ st.blockIds.isSome = true := by
    intro id hid
    rw [← hsent.scheduled.mem_iff, List.mem_append] at hid
    obtain hid | hid := hid
    · obtain ⟨data, hdata, rfl⟩ := List.mem_map.mp hid
      exact ⟨_, hup.new data hdata, rfl, rfl⟩
    · obtain ⟨data, hdata, rfl⟩ := List.mem_map.mp hid
      obtain ⟨st, hst, hst'⟩ := hup.cached data hdata
      exact ⟨_, hst', (h.states _ st hst).1, rfl⟩
  refine ⟨fun id hid => ⟨?_, by rw [hnil]; exact List.not_mem_nil⟩, fun id hid => ?_,
    fun id st hst => ?_, hup.batch⟩
  · by_cases hsch : id ∈ out.numScheduledTokens.keys
    · obtain ⟨st, hst, -⟩ := hstate id hsch
      exact Dict.mem_keys_of_get? hst
    · -- not scheduled: it was known before, and has not finished
      have hK : id ∈ sentIds s := by
        refine ((schedule_sentIds hw hs id).mp hid).resolve_right fun hnew => hsch ?_
        rw [← hsent.scheduled.mem_iff]
        exact List.mem_append_left _ hnew
      obtain ⟨hk, hnot⟩ := h.sent id hK
      rw [Dict.mem_keys, hup.other id hsch, hfin, if_neg hnot]
      exact (Dict.mem_keys _ _).mp hk
  · have hrun := hsent.running id ((hup.rows id).mp hid)
    obtain ⟨r, hr⟩ := hw'.get?_of_running hrun
    refine Or.inl (mem_sentIds.mpr ⟨r, hr, ?_⟩)
    rw [hw'.running id r hrun hr]
    exact RequestStatus.noConfusion
  · by_cases hsch : id ∈ out.numScheduledTokens.keys
    · obtain ⟨st', hst', hid, hsome⟩ := hstate id hsch
      rw [hst] at hst'
      cases hst'
      exact ⟨hid, hsome⟩
    · rw [hup.other id hsch] at hst
      split_ifs at hst
      exact h.states id st hst

/-- What an output tells of a running or resumed request is what it has of blocks, if the worker had it
right. -/
theorem Deltas.updatedBlocks {out : SchedulerOutput} (hd : Deltas s s' out) {data : CachedRequestData}
    (hdata : data ∈ out.scheduledCachedReqs) {st : CachedRequestState}
    (h : data.reqId ∈ s.running → st.blockIds = some (s.kv.blocksOf data.reqId)) :
    st.updatedBlocks data = s'.kv.blocksOf data.reqId := by
  unfold CachedRequestState.updatedBlocks
  cases hres : data.resumedFromPreemption with
  | true => exact hd.resumed data hdata hres
  | false =>
    obtain ⟨hrun, hblocks⟩ := hd.added data hdata hres
    rw [h hrun]
    exact hblocks.symm

/-- Sampled tokens tell the worker of no request. -/
theorem Told.sample (h : Told p gone s w) {out : SchedulerOutput} {sampled : List TokenId}
    (hs : w.appendRows out sampled = .ok w') : Told p gone s w' := by
  obtain ⟨n, hinv⟩ := h.batch
  obtain ⟨h1, h2, h3, -⟩ := GPUModelRunner.appendRows_spec hinv hs
  have hkeys : ∀ id, id ∈ w'.requests.keys ↔ id ∈ w.requests.keys := by
    intro id
    have he := congrArg Option.isSome (h3 id)
    rw [Option.isSome_map, Option.isSome_map] at he
    rw [Dict.mem_keys, Dict.mem_keys, he]
  refine ⟨fun id hid => ?_, fun id hid => ?_, fun id st' hst' => ?_, n, hinv.congr h1 h2⟩
  · rw [hkeys]
    exact h.sent id hid
  · rw [h2] at hid
    exact h.rows id hid
  · have he := h3 id
    rw [hst', Option.map_some] at he
    obtain ⟨st, hst, heq⟩ := Option.map_eq_some_iff.mp he.symm
    obtain ⟨hid, hsome⟩ := h.states id st hst
    simp only [CachedRequestState.mk.injEq] at heq
    obtain ⟨hid', -, -, -, -, -, hblocks, -⟩ := heq
    exact ⟨hid'.symm.trans hid, hblocks ▸ hsome⟩

/-- An output without tokens that the worker never sees: the notices it carries are lost. -/
theorem Told.discard (h : Told p gone s w) (hw : s.WF p) {available : ReqId → ℕ → Bool}
    {out : SchedulerOutput} (hs : s.schedule p available = .ok (out, s'))
    (hz : out.totalNumScheduledTokens = 0) :
    Told p (fun id => gone id ∨ id ∈ s.finishedReqIds) s' w := by
  have hsent := schedule_sent hw (knownTo_sentIds hw) hs
  have hnil : s'.finishedReqIds = [] := (Prod.mk.inj (schedule_notices hs).2).1
  have hw' := Scheduler.schedule_wf hw hs
  have hempty := hsent.nothing hz
  have hnew : out.scheduledNewReqs.map (·.reqId) = [] := by
    have hperm := hsent.scheduled
    rw [hempty, List.perm_nil, List.append_eq_nil_iff] at hperm
    exact hperm.1
  have hiff : ∀ id, id ∈ sentIds s' ↔ id ∈ sentIds s := by
    intro id
    rw [schedule_sentIds hw hs, hnew, or_iff_left List.not_mem_nil]
  refine ⟨fun id hid => ?_, fun id hid => ?_, h.states, h.batch⟩
  · rw [hnil]
    exact ⟨(h.sent id ((hiff id).mp hid)).1, List.not_mem_nil⟩
  · obtain hid | hid | hid := h.rows id hid
    · exact Or.inl ((hiff id).mpr hid)
    · exact Or.inr (Or.inr (Or.inr hid))
    · exact Or.inr (Or.inr (Or.inl hid))

end Told

/-! ## Runs -/

/-- A scheduler with a worker that is given every output. -/
structure BatchRun (ρ : Type) where
  run : SchedulerRun
  worker : GPUModelRunner (List ρ)

/-- What can happen: a call of the scheduler, or the end of an execution. -/
inductive BatchEvent
  | call (e : SchedulerEvent)
  | sample (sampled : List TokenId)

namespace BatchRun

variable {ρ : Type} (p : SchedulerParams)

/-- A new scheduler with a new worker. -/
def init : BatchRun ρ := ⟨.init p, .init p.maxNumRunningReqs⟩

/-- One event: `_update_states` follows each call of `schedule`, and the tokens that are sampled for
the output that is being executed are appended. -/
def step (ω : BatchRun ρ) : BatchEvent → Except Exn (BatchRun ρ)
  | .call (.schedule available) => do
    let (out, _) ← ω.run.sched.schedule p available
    let (_, w) ← ω.worker.updateStates p.maxNumRunningReqs out
    let σ ← ω.run.step p (.schedule available)
    .ok ⟨σ, w⟩
  | .call e => do
    let σ ← ω.run.step p e
    .ok ⟨σ, ω.worker⟩
  | .sample sampled =>
    match ω.run.pending with
    | none => .ok ω
    | some out => do
      let w ← ω.worker.appendRows out sampled
      .ok { ω with worker := w }

/-- Requests are new, and their ids are not those of unfinished requests. -/
def Fresh (ω : BatchRun ρ) : BatchEvent → Prop
  | .call e => ω.run.Fresh e
  | .sample _ => True

instance (ω : BatchRun ρ) : (e : BatchEvent) → Decidable (ω.Fresh e)
  | .call e => inferInstanceAs (Decidable (ω.run.Fresh e))
  | .sample _ => inferInstanceAs (Decidable True)

/-- The runs in which the worker is given every output of the scheduler. -/
def HandedRun : BatchRun ρ → Prop :=
  Reachable (fun ω e => step p ω e) Fresh (init p)

variable {p} {s' : Scheduler} {w : GPUModelRunner (List ρ)}

variable (p) in
/-- What holds in every run: the worker has been told of all requests, and its rows are faithful. -/
structure Inv (ω : BatchRun ρ) : Prop where
  wf : ω.run.sched.WF p
  told : Told p (fun _ => False) ω.run.sched ω.worker
  faithful : ω.worker.inputBatch.Faithful ω.worker.requests

/-- `_update_states` of an output. -/
theorem Inv.updateStates {ω : BatchRun ρ} (h : Inv p ω) {available : ReqId → ℕ → Bool}
    {out : SchedulerOutput} (hs : ω.run.sched.schedule p available = .ok (out, s')) :
    ∃ changed w', ω.worker.updateStates p.maxNumRunningReqs out = .ok (changed, w') ∧
      GPUModelRunner.Updated p.maxNumRunningReqs ω.worker w' out := by
  obtain ⟨n, hinv⟩ := h.told.batch
  exact GPUModelRunner.updateStates_spec hinv (h.told.sentTo h.wf (fun _ hg => hg.elim) hs)

/-- **Every event keeps this.** -/
theorem Inv.step {ω ω' : BatchRun ρ} {e : BatchEvent} (h : Inv p ω) (hf : ω.Fresh e)
    (hs : step p ω e = .ok ω') : Inv p ω' := by
  cases e with
  | sample sampled =>
    unfold BatchRun.step at hs
    cases hp : ω.run.pending with
    | none =>
      simp only [hp] at hs
      cases hs
      exact h
    | some out =>
      simp only [hp, bind_eq_ok] at hs
      obtain ⟨w', hw', hs⟩ := hs
      cases hs
      obtain ⟨n, hinv⟩ := h.told.batch
      exact ⟨h.wf, h.told.sample hw', (GPUModelRunner.appendRows_spec hinv hw').2.2.2 h.faithful⟩
  | call e =>
    cases e with
    | schedule available =>
      simp only [BatchRun.step, bind_eq_ok] at hs
      obtain ⟨⟨out, s₁⟩, hsched, ⟨changed, w₁⟩, hup, σ, hσ, hs⟩ := hs
      cases hs
      obtain ⟨changed', w₂, hup', hupd⟩ := h.updateStates hsched
      rw [hup] at hup'
      cases hup'
      simp only [SchedulerRun.step, hsched, ok_bind] at hσ
      cases hσ
      exact ⟨Scheduler.schedule_wf h.wf hsched, h.told.schedule h.wf hsched hupd,
        hupd.faithful h.faithful⟩
    | addRequest r =>
      simp only [BatchRun.step, bind_eq_ok] at hs
      obtain ⟨σ, hσ, hs⟩ := hs
      cases hs
      have hf' : ω.run.Fresh (.addRequest r) := hf
      refine ⟨SchedulerRun.wf_step h.wf hf' hσ, ?_, h.faithful⟩
      cases hσ
      exact h.told.addRequest hf.1 hf.2
    | finishRequests ids status =>
      simp only [BatchRun.step, SchedulerRun.step, bind_eq_ok] at hs
      obtain ⟨σ, ⟨s₁, hfin, hσ⟩, hs⟩ := hs
      cases hσ
      cases hs
      obtain ⟨hw, ho⟩ := Scheduler.finishRequests_onward h.wf hfin
      exact ⟨hw, h.told.onward ho (Scheduler.finishRequests_noticed h.wf hfin), h.faithful⟩
    | updateFromOutput mo =>
      simp only [BatchRun.step, bind_eq_ok] at hs
      obtain ⟨σ, hσ, hs⟩ := hs
      cases hs
      unfold SchedulerRun.step at hσ
      cases hp : ω.run.pending with
      | none =>
        simp only [hp] at hσ
        cases hσ
        exact h
      | some out =>
        simp only [hp, bind_eq_ok] at hσ
        obtain ⟨⟨outputs, s₁⟩, hup, hσ⟩ := hσ
        cases hσ
        obtain ⟨hw, ho⟩ := Scheduler.updateFromOutput_onward h.wf hup
        exact ⟨hw, h.told.onward ho (Scheduler.updateFromOutput_noticed h.wf hup), h.faithful⟩
    | resetPrefixCache =>
      simp only [BatchRun.step, SchedulerRun.step, ok_bind] at hs
      cases hs
      have hw := h.wf
      exact ⟨⟨hw.requestId, hw.known, hw.nodup, hw.running, hw.waiting, hw.running_le⟩,
        ⟨h.told.sent, h.told.rows, h.told.states, h.told.batch⟩, h.faithful⟩

/-- **The invariant holds in every run.** -/
theorem HandedRun.inv {ω : BatchRun ρ} (h : HandedRun p ω) : Inv p ω := by
  refine h.invariant (P := fun ω : BatchRun ρ => Inv p ω) ?_ fun _ _ _ hω hf hs => hω.step hf hs
  refine ⟨SchedulerRun.wf_init p, ⟨fun id hid => ?_, fun id hid => ?_, fun id st hst => ?_, 0, ?_⟩, ?_⟩
  · cases hid
  · cases hid
  · cases hst
  · exact InputBatch.Inv.init _
  · exact InputBatch.Faithful.init _

/-- The rows of the batch are the scheduled requests, without holes: `req_ids` and `req_id_to_index`
are inverse to each other, the rows behind are empty, and every row holds the state of its request. -/
structure Persistent (m : ℕ) (w : GPUModelRunner (List ρ)) (out : SchedulerOutput) : Prop where
  length : w.inputBatch.reqIds.length = m
  occupied : ∀ i, (∃ id, w.inputBatch.reqIds[i]? = some (some id)) ↔ i < w.inputBatch.numReqs
  inverse : ∀ i id, w.inputBatch.reqIds[i]? = some (some id) ↔
    w.inputBatch.reqIdToIndex.get? id = some i
  empty : ∀ i < m, w.inputBatch.numReqs ≤ i → w.inputBatch.reqIds[i]? = some none
  scheduled : ∀ id, id ∈ w.inputBatch.reqIdToIndex.keys ↔ id ∈ out.numScheduledTokens.keys
  faithful : w.inputBatch.Faithful w.requests

/-- A dense batch of the scheduled requests. -/
theorem Persistent.of_updated {m n : ℕ} {out : SchedulerOutput} (hinv : w.inputBatch.Inv m n [])
    (hrows : ∀ id, id ∈ w.inputBatch.reqIdToIndex.keys ↔ id ∈ out.numScheduledTokens.keys)
    (hf : w.inputBatch.Faithful w.requests) : Persistent m w out := by
  have hn : w.inputBatch.numReqs = n :=
    hinv.length_add_holes List.nodup_nil fun i hi => (List.not_mem_nil hi).elim
  refine ⟨hinv.length, fun i => ⟨fun ⟨id, hid⟩ => ?_, fun hi => ?_⟩, hinv.index, fun i hi hle => ?_,
    hrows, hf⟩
  · rw [hn]
    exact hinv.lt id i ((hinv.index i id).mp hid)
  · exact hinv.filled i (hn ▸ hi) List.not_mem_nil
  · obtain ⟨o, ho⟩ : ∃ o, w.inputBatch.reqIds[i]? = some o :=
      ⟨_, List.getElem?_eq_getElem (by rw [hinv.length]; exact hi)⟩
    cases o with
    | none => exact ho
    | some id =>
      have hlt := hinv.lt id i ((hinv.index i id).mp ho)
      omega

/-- **The persistent batch stays dense and faithful**: in every run, `_update_states` of every output
of the scheduler returns, and leaves exactly the scheduled requests in the rows. -/
theorem persistent_batch {ω : BatchRun ρ} (h : HandedRun p ω) {available : ReqId → ℕ → Bool}
    {out : SchedulerOutput} (hs : ω.run.sched.schedule p available = .ok (out, s')) :
    ∃ changed w', ω.worker.updateStates p.maxNumRunningReqs out = .ok (changed, w') ∧
      Persistent p.maxNumRunningReqs w' out := by
  obtain ⟨changed, w', hup, hupd⟩ := h.inv.updateStates hs
  obtain ⟨n, hinv⟩ := hupd.batch
  exact ⟨changed, w', hup, .of_updated hinv hupd.rows (hupd.faithful h.inv.faithful)⟩

end BatchRun

end SpaceServe
