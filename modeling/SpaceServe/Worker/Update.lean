import SpaceServe.Worker.Rows

/-!
# Updating the worker's states

`_update_states` on an output of the scheduler: the batch ends up with exactly the scheduled
requests, in rows without holes, and each of them has the state the scheduler sent.

* `removeRows_spec`, `foldlM_updateCached`, `foldlM_addRow`: the loops;
* `SentTo`: what an output may assume of the worker; `Updated`: what it leaves;
* `rowsLeft`, `SentTo.states_updated`, `rowsAdded`, `condensed`: the phases;
* **`updateStates_spec`**.
-/

set_option autoImplicit false

namespace SpaceServe

open Py

namespace GPUModelRunner

section

variable {V : Type} {m : ℕ}

/-! ## The loops -/

/-- Removing requests from the batch leaves holes. -/
theorem removeRows_spec : ∀ (ids : List ReqId) {b : InputBatch} {n : ℕ} {holes : List ℕ},
    b.Inv m n holes → holes.Nodup → (∀ i ∈ holes, i < n) →
    ∃ holes' b', removeRows ids (holes, b) = (holes', b') ∧ b'.Inv m n holes' ∧ holes'.Nodup ∧
      (∀ i ∈ holes', i < n) ∧
      (∀ id, id ∈ b'.reqIdToIndex.keys ↔ id ∈ b.reqIdToIndex.keys ∧ id ∉ ids) ∧
      ∀ requests, b.Faithful requests → b'.Faithful requests
  | [], b, n, holes, h, hnd, hlt =>
    ⟨holes, b, rfl, h, hnd, hlt, fun id => by simp, fun _ hf => hf⟩
  | id :: ids, b, n, holes, h, hnd, hlt => by
    obtain ⟨hnone, hrem⟩ | ⟨i, b₁, hi, hrem, h₁, hpop⟩ := h.removeRequest id
    · obtain ⟨holes', b', hr, h', hnd', hlt', hkeys, hfaith⟩ := removeRows_spec ids h hnd hlt
      refine ⟨holes', b', ?_, h', hnd', hlt', fun id' => ?_, hfaith⟩
      · rw [removeRows, List.foldl_cons, hrem]
        exact hr
      · rw [hkeys, List.mem_cons, not_or]
        refine ⟨fun hk => ⟨hk.1, ?_, hk.2⟩, fun hk => ⟨hk.1, hk.2.2⟩⟩
        rintro rfl
        exact (b.reqIdToIndex.get?_eq_none id').mp hnone hk.1
    · have hnd₁ : (holes ++ [i]).Nodup := by
        rw [← List.concat_eq_append]
        exact hnd.concat (h.not_mem_holes hi)
      have hlt₁ : ∀ j ∈ holes ++ [i], j < n := by
        intro j hj
        rw [List.mem_append, List.mem_singleton] at hj
        obtain hj | rfl := hj
        · exact hlt j hj
        · exact h.lt id j hi
      obtain ⟨holes', b', hr, h', hnd', hlt', hkeys, hfaith⟩ := removeRows_spec ids h₁ hnd₁ hlt₁
      refine ⟨holes', b', ?_, h', hnd', hlt', fun id' => ?_, fun requests hf => ?_⟩
      · rw [removeRows, List.foldl_cons, hrem]
        exact hr
      · rw [hkeys, hpop, Dict.mem_keys_pop, List.mem_cons, not_or]
        tauto
      · have hf₁ := hf.removeRequest h id
        rw [hrem] at hf₁
        exact hfaith requests hf₁

/-- The states that an update takes: that of a resumed request, or one with block ids. -/
theorem updated_of_ok {toAdd toAdd' : List ReqId} {w w' : GPUModelRunner V} {data : CachedRequestData}
    (h : updateCached (toAdd, w) data = .ok (toAdd', w')) :
    ∃ st, w.requests.get? data.reqId = some st ∧
      (data.resumedFromPreemption = true ∨ ∃ ids, st.blockIds = some ids) := by
  simp only [updateCached, bind_eq_ok, ofOption_eq_ok] at h
  obtain ⟨st, hst, blockIds, hblocks, -⟩ := h
  refine ⟨st, hst, ?_⟩
  split_ifs at hblocks with hres
  · exact Or.inl hres
  · cases hb : st.blockIds with
    | none =>
      rw [hb] at hblocks
      cases hblocks
    | some ids => exact Or.inr ⟨ids, rfl⟩

theorem updateCached_eq {w : GPUModelRunner V} {data : CachedRequestData} {st : CachedRequestState}
    (hst : w.requests.get? data.reqId = some st)
    (hb : data.resumedFromPreemption = true ∨ ∃ ids, st.blockIds = some ids) (toAdd : List ReqId) :
    updateCached (toAdd, w) data =
      match w.inputBatch.reqIdToIndex.get? data.reqId with
      | none => .ok (toAdd ++ [data.reqId],
          { w with requests := w.requests.set data.reqId (st.updated data) })
      | some i => .ok (toAdd, { w with
          requests := w.requests.set data.reqId (st.updated data)
          inputBatch := w.inputBatch.updateRow i st data }) := by
  unfold updateCached CachedRequestState.updated InputBatch.updateRow
    CachedRequestState.updatedBlocks
  simp only [hst, ofOption_some, ok_bind]
  split_ifs with hres
  · rfl
  · obtain ⟨ids, hids⟩ := hb.resolve_left hres
    rw [hids]
    rfl

/-- One round of the loop over the running and resumed requests. -/
theorem updateCached_spec (toAdd : List ReqId) {w : GPUModelRunner V} {data : CachedRequestData}
    {st : CachedRequestState} (hget : w.requests.get? data.reqId = some st)
    (hsome : st.blockIds.isSome = true) :
    ∃ w', updateCached (toAdd, w) data =
        .ok (if data.reqId ∈ w.inputBatch.reqIdToIndex.keys then toAdd else toAdd ++ [data.reqId],
          w') ∧
      w'.inputBatch.reqIds = w.inputBatch.reqIds ∧
      w'.inputBatch.reqIdToIndex = w.inputBatch.reqIdToIndex ∧
      w'.encoderCache = w.encoderCache ∧
      w'.requests = w.requests.set data.reqId (st.updated data) ∧
      ∀ n holes, w.inputBatch.Inv m n holes → w.inputBatch.Faithful w.requests →
        w'.inputBatch.Faithful w'.requests := by
  rw [updateCached_eq hget (Or.inr (Option.isSome_iff_exists.mp hsome))]
  cases hi : w.inputBatch.reqIdToIndex.get? data.reqId with
  | none =>
    have hnot := (w.inputBatch.reqIdToIndex.get?_eq_none _).mp hi
    rw [if_neg hnot]
    refine ⟨{ w with requests := w.requests.set data.reqId (st.updated data) }, rfl, rfl,
      rfl, rfl, rfl, fun n holes _ hf => hf.congr fun id hid => ?_⟩
    have hne : id ≠ data.reqId := fun he => hnot (he ▸ hid)
    simp only [Dict.get?_set_ne _ hne]
  | some i =>
    rw [if_pos (Dict.mem_keys_of_get? hi)]
    exact ⟨{ w with
        requests := w.requests.set data.reqId (st.updated data)
        inputBatch := w.inputBatch.updateRow i st data }, rfl,
      (InputBatch.appendRow_reqIds _ _ _ _).1, (InputBatch.appendRow_reqIds _ _ _ _).2, rfl, rfl,
      fun n holes hinv hf => hf.updateRow hinv hget hi⟩

/-- The states of running and resumed requests are updated; those without a row are to be added. -/
theorem foldlM_updateCached : ∀ (datas : List CachedRequestData) (toAdd : List ReqId)
    {w : GPUModelRunner V}, (datas.map (·.reqId)).Nodup →
    (∀ data ∈ datas, ∃ st, w.requests.get? data.reqId = some st ∧ st.blockIds.isSome = true) →
    ∃ w', datas.foldlM updateCached (toAdd, w) =
        .ok (toAdd ++ (datas.map (·.reqId)).filter
          (fun id => decide (id ∉ w.inputBatch.reqIdToIndex.keys)), w') ∧
      w'.inputBatch.reqIds = w.inputBatch.reqIds ∧
      w'.inputBatch.reqIdToIndex = w.inputBatch.reqIdToIndex ∧
      w'.encoderCache = w.encoderCache ∧
      (∀ data ∈ datas, ∃ st, w.requests.get? data.reqId = some st ∧
        w'.requests.get? data.reqId = some (st.updated data)) ∧
      (∀ id, id ∉ datas.map (·.reqId) → w'.requests.get? id = w.requests.get? id) ∧
      ∀ n holes, w.inputBatch.Inv m n holes → w.inputBatch.Faithful w.requests →
        w'.inputBatch.Faithful w'.requests
  | [], toAdd, w, _, _ =>
    ⟨w, by rw [List.map_nil, List.filter_nil, List.append_nil]; rfl, rfl, rfl, rfl,
      fun data hd => (List.not_mem_nil hd).elim, fun _ _ => rfl, fun _ _ _ hf => hf⟩
  | data :: datas, toAdd, w, hnd, hst => by
    rw [List.map_cons, List.nodup_cons] at hnd
    obtain ⟨st, hget, hsome⟩ := hst data List.mem_cons_self
    obtain ⟨w₁, hrun, hrow, hidx, henc, hreq, hfaith₁⟩ := updateCached_spec (m := m) toAdd hget hsome
    have hst₁ : ∀ d ∈ datas, ∃ st', w₁.requests.get? d.reqId = some st' ∧
        st'.blockIds.isSome = true := by
      intro d hd
      obtain ⟨st', h1, h2⟩ := hst d (List.mem_cons_of_mem _ hd)
      refine ⟨st', ?_, h2⟩
      rw [hreq, Dict.get?_set_ne _ ?_]
      · exact h1
      · intro he
        exact hnd.1 (he ▸ List.mem_map_of_mem hd)
    obtain ⟨w', hw', hrow', hidx', henc', hdata, hother, hfaith'⟩ := foldlM_updateCached datas
      (if data.reqId ∈ w.inputBatch.reqIdToIndex.keys then toAdd else toAdd ++ [data.reqId])
      hnd.2 hst₁
    refine ⟨w', ?_, hrow'.trans hrow, hidx'.trans hidx, henc'.trans henc, ?_, ?_, ?_⟩
    · rw [List.foldlM_cons, hrun, ok_bind, hw', hidx, List.map_cons]
      congr 2
      by_cases hk : data.reqId ∈ w.inputBatch.reqIdToIndex.keys
      · rw [if_pos hk, List.filter_cons_of_neg (by simpa using hk)]
      · rw [if_neg hk, List.filter_cons_of_pos (by simpa using hk), List.append_assoc]
        rfl
    · intro d hd
      obtain rfl | hd := List.mem_cons.mp hd
      · refine ⟨st, hget, ?_⟩
        rw [hother _ hnd.1, hreq, Dict.get?_set_self]
      · obtain ⟨st', h1, h2⟩ := hdata d hd
        refine ⟨st', ?_, h2⟩
        rw [hreq, Dict.get?_set_ne _ ?_] at h1
        · exact h1
        · intro he
          exact hnd.1 (he ▸ List.mem_map_of_mem hd)
    · intro id hid
      rw [List.map_cons, List.mem_cons, not_or] at hid
      rw [hother id hid.2, hreq, Dict.get?_set_ne _ hid.1]
    · exact fun n holes hinv hf => hfaith' n holes (hinv.congr hrow hidx) (hfaith₁ n holes hinv hf)

/-- Requests that are not in the batch are added, the holes first. -/
theorem foldlM_addRow (requests : Dict ReqId CachedRequestState) : ∀ {toAdd : List ReqId}
    {b : InputBatch} {n : ℕ} {holes : List ℕ}, b.Inv m n holes → holes.Pairwise (· < ·) →
    (∀ i ∈ holes, i < n) → toAdd.Nodup → (∀ id ∈ toAdd, id ∉ b.reqIdToIndex.keys) →
    (∀ id ∈ toAdd, ∃ st, requests.get? id = some st ∧ st.reqId = id) →
    b.numReqs + toAdd.length ≤ m →
    ∃ holes' b' n', toAdd.foldlM (addRow m requests) (holes, b) = .ok (holes', b') ∧
      b'.Inv m n' holes' ∧ holes'.Pairwise (· < ·) ∧ (∀ i ∈ holes', i < n') ∧
      (∀ id, id ∈ b'.reqIdToIndex.keys ↔ id ∈ b.reqIdToIndex.keys ∨ id ∈ toAdd) ∧
      (b.Faithful requests → b'.Faithful requests)
  | [], b, n, holes, h, hs, hlt, _, _, _, _ =>
    ⟨holes, b, n, rfl, h, hs, hlt, fun id => by simp, fun hf => hf⟩
  | id :: toAdd, b, n, holes, h, hs, hlt, hnd, hout, hreq, hroom => by
    have hholes : holes.Nodup := hs.imp fun hab => Nat.ne_of_lt hab
    have hcount := h.length_add_holes hholes hlt
    rw [List.length_cons] at hroom
    obtain ⟨st, hst, hid⟩ := hreq id List.mem_cons_self
    have hnone : b.reqIdToIndex.get? st.reqId = none := by
      rw [hid]
      exact (b.reqIdToIndex.get?_eq_none id).mpr (hout id List.mem_cons_self)
    obtain ⟨b₁, n₁, hadd, h₁, hn, hkeys⟩ := h.addRequest hholes hlt hnone (fun he => by
      rw [he, List.length_nil] at hcount
      omega)
    have hs₁ : holes.tail.Pairwise (· < ·) := hs.sublist (List.tail_sublist holes)
    have hlt₁ : ∀ i ∈ holes.tail, i < n₁ := fun i hi =>
      Nat.lt_of_lt_of_le (hlt i (List.mem_of_mem_tail hi)) hn
    have hmem₁ : ∀ id', id' ∈ b₁.reqIdToIndex.keys ↔ id' = id ∨ id' ∈ b.reqIdToIndex.keys := by
      intro id'
      rw [hkeys, Dict.mem_keys_set, hid]
    have hnum : b₁.numReqs = b.numReqs + 1 := by
      rw [InputBatch.numReqs, hkeys, Dict.keys_set, if_neg, List.length_append]
      · rfl
      · exact (b.reqIdToIndex.get?_eq_none _).mp hnone
    rw [List.nodup_cons] at hnd
    obtain ⟨holes', b', n', hrun, h', hs', hlt', hkeys', hfaith'⟩ := foldlM_addRow requests h₁ hs₁ hlt₁
      hnd.2
      (fun id' hid' hk => by
        obtain rfl | hk := (hmem₁ id').mp hk
        · exact hnd.1 hid'
        · exact hout id' (List.mem_cons_of_mem _ hid') hk)
      (fun id' hid' => hreq id' (List.mem_cons_of_mem _ hid')) (by omega)
    refine ⟨holes', b', n', ?_, h', hs', hlt', fun id' => ?_, fun hf => hfaith' ?_⟩
    · rw [List.foldlM_cons]
      simp only [addRow, hst, ofOption_some, ok_bind, hadd]
      exact hrun
    · rw [hkeys', hmem₁, List.mem_cons]
      tauto
    · refine hf.addRequest rfl (fun id' hi => ?_) hnone (hid ▸ hst) hadd
      exact h.free_row hholes hlt id' hi

/-! ## The whole update -/

/-- What an output may assume of the worker it is sent to: the scheduled requests are either new and
without a row, unless it says that the request of that row has finished, or known and not finished;
they fit the batch. -/
structure SentTo (m : ℕ) (w : GPUModelRunner V) (out : SchedulerOutput) : Prop where
  states : ∀ id st, w.requests.get? id = some st → st.reqId = id ∧ st.blockIds.isSome = true
  scheduled : (out.scheduledNewReqs.map (·.reqId) ++ out.scheduledCachedReqs.map (·.reqId)).Perm
    out.numScheduledTokens.keys
  room : out.numScheduledTokens.keys.length ≤ m
  new : ∀ data ∈ out.scheduledNewReqs, data.reqId ∈ w.inputBatch.reqIdToIndex.keys →
    data.reqId ∈ out.finishedReqIds
  cached : ∀ data ∈ out.scheduledCachedReqs, data.reqId ∈ w.requests.keys ∧
    data.reqId ∉ out.finishedReqIds

/-- What `_update_states` leaves: a batch of exactly the scheduled requests, without holes, and the
states that the output asks for; rows that were faithful stay so. -/
structure Updated (m : ℕ) (w w' : GPUModelRunner V) (out : SchedulerOutput) : Prop where
  batch : ∃ n, w'.inputBatch.Inv m n []
  rows : ∀ id, id ∈ w'.inputBatch.reqIdToIndex.keys ↔ id ∈ out.numScheduledTokens.keys
  encoderCache : w'.encoderCache = out.freeEncoderInputIds.foldl freeOutput
    (out.finishedReqIds.foldl (fun d id => d.pop id) w.encoderCache)
  new : ∀ data ∈ out.scheduledNewReqs, w'.requests.get? data.reqId = some (newState data)
  cached : ∀ data ∈ out.scheduledCachedReqs, ∃ st, w.requests.get? data.reqId = some st ∧
    w'.requests.get? data.reqId = some (st.updated data)
  other : ∀ id, id ∉ out.numScheduledTokens.keys →
    w'.requests.get? id = if id ∈ out.finishedReqIds then none else w.requests.get? id
  faithful : w.inputBatch.Faithful w.requests → w'.inputBatch.Faithful w'.requests

/-! ## Its phases -/

variable {w w₃ : GPUModelRunner V} {out : SchedulerOutput} {n : ℕ} {holes : List ℕ} {b : InputBatch}

/-- The batch after finished and unscheduled requests have left it. -/
structure RowsLeft (m n : ℕ) (w : GPUModelRunner V) (out : SchedulerOutput) (holes : List ℕ)
    (b : InputBatch) : Prop where
  inv : b.Inv m n holes
  nodup : holes.Nodup
  lt : ∀ i ∈ holes, i < n
  keys : ∀ id, id ∈ b.reqIdToIndex.keys ↔ id ∈ w.inputBatch.reqIdToIndex.keys ∧
    id ∉ out.finishedReqIds ∧ id ∈ out.numScheduledTokens.keys
  faithful : ∀ requests, w.inputBatch.Faithful requests → b.Faithful requests

/-- **Finished and unscheduled requests** leave the batch. -/
theorem rowsLeft (hb : w.inputBatch.Inv m n []) (out : SchedulerOutput) : ∃ holes₁ b₁ holes b,
    removeRows out.finishedReqIds ([], w.inputBatch) = (holes₁, b₁) ∧
    removeRows (b₁.reqIdToIndex.keys.filter fun id => decide (id ∉ out.numScheduledTokens.keys))
      (holes₁, b₁) = (holes, b) ∧ RowsLeft m n w out holes b := by
  obtain ⟨holes₁, b₁, hr₁, hb₁, hnd₁, hlt₁, hk₁, hf₁⟩ := removeRows_spec out.finishedReqIds hb
    List.nodup_nil (fun i hi => (List.not_mem_nil hi).elim)
  obtain ⟨holes, b, hr, hb, hnd, hlt, hk, hf⟩ := removeRows_spec
    (b₁.reqIdToIndex.keys.filter fun id => decide (id ∉ out.numScheduledTokens.keys)) hb₁ hnd₁ hlt₁
  refine ⟨holes₁, b₁, holes, b, hr₁, hr, hb, hnd, hlt, fun id => ?_, fun _ hw => hf _ (hf₁ _ hw)⟩
  rw [hk, hk₁, List.mem_filter, decide_eq_true_eq, hk₁]
  tauto

/-- The states of new requests join those of the requests that have not finished. -/
def joinedStates (w : GPUModelRunner V) (out : SchedulerOutput) : Dict ReqId CachedRequestState :=
  out.scheduledNewReqs.foldl (fun d data => d.set data.reqId (newState data))
    (w.removeFinished out.finishedReqIds).requests

/-- Before the states of running and resumed requests are updated. -/
def beforeCached (w : GPUModelRunner V) (out : SchedulerOutput) (b : InputBatch) : GPUModelRunner V where
  requests := joinedStates w out
  inputBatch := b
  encoderCache := out.freeEncoderInputIds.foldl freeOutput
    (w.removeFinished out.finishedReqIds).encoderCache

/-- The requests that are to join the batch. -/
def rowsToAdd (out : SchedulerOutput) (b : InputBatch) : List ReqId :=
  out.scheduledNewReqs.map (·.reqId) ++ (out.scheduledCachedReqs.map (·.reqId)).filter
    (fun id => decide (id ∉ b.reqIdToIndex.keys))

/-- Unless it is new, a request keeps its state or has finished. -/
theorem joinedStates_get? {id : ReqId} (hne : ∀ d ∈ out.scheduledNewReqs, d.reqId ≠ id) :
    (joinedStates w out).get? id = if id ∈ out.finishedReqIds then none else w.requests.get? id :=
  (Dict.get?_foldl_set_of_not_mem hne _).trans (Dict.get?_foldl_pop id _ _)

section Sent

variable (h : SentTo m w out)
include h

theorem SentTo.nodup :
    (out.scheduledNewReqs.map (·.reqId) ++ out.scheduledCachedReqs.map (·.reqId)).Nodup :=
  h.scheduled.nodup_iff.mpr out.numScheduledTokens.keys_nodup

theorem SentTo.mem_keys (id : ReqId) : id ∈ out.numScheduledTokens.keys ↔
    id ∈ out.scheduledNewReqs.map (·.reqId) ∨ id ∈ out.scheduledCachedReqs.map (·.reqId) := by
  rw [← h.scheduled.mem_iff, List.mem_append]

/-- A running or resumed request has the state it had. -/
theorem SentTo.joined {data : CachedRequestData} (hdata : data ∈ out.scheduledCachedReqs) :
    ∃ st, w.requests.get? data.reqId = some st ∧ (joinedStates w out).get? data.reqId = some st := by
  obtain ⟨hk, hfin⟩ := h.cached data hdata
  obtain ⟨st, hst⟩ := Dict.exists_get?_of_mem hk
  obtain ⟨-, -, hdisj⟩ := List.nodup_append.mp h.nodup
  have hne : ∀ d ∈ out.scheduledNewReqs, d.reqId ≠ data.reqId := fun d hd =>
    hdisj d.reqId (List.mem_map_of_mem hd) data.reqId (List.mem_map_of_mem hdata)
  exact ⟨st, hst, by rw [joinedStates_get? hne, if_neg hfin, hst]⟩

/-- **The states** the output asks for. -/
theorem SentTo.states_updated (b : InputBatch) : ∃ w₃,
    out.scheduledCachedReqs.foldlM updateCached
      (out.scheduledNewReqs.map (·.reqId), beforeCached w out b) = .ok (rowsToAdd out b, w₃) ∧
    w₃.inputBatch.reqIds = b.reqIds ∧ w₃.inputBatch.reqIdToIndex = b.reqIdToIndex ∧
    w₃.encoderCache = (beforeCached w out b).encoderCache ∧
    (∀ data ∈ out.scheduledNewReqs, w₃.requests.get? data.reqId = some (newState data)) ∧
    (∀ data ∈ out.scheduledCachedReqs, ∃ st, w.requests.get? data.reqId = some st ∧
      w₃.requests.get? data.reqId = some (st.updated data)) ∧
    (∀ id, id ∉ out.numScheduledTokens.keys →
      w₃.requests.get? id = if id ∈ out.finishedReqIds then none else w.requests.get? id) ∧
    ∀ n holes, b.Inv m n holes → b.Faithful (joinedStates w out) →
      w₃.inputBatch.Faithful w₃.requests := by
  obtain ⟨hndNew, hndCached, hdisj⟩ := List.nodup_append.mp h.nodup
  obtain ⟨w₃, hrun, hrow, hidx, henc, hdata, hother, hfaith⟩ := foldlM_updateCached (m := m)
    out.scheduledCachedReqs (out.scheduledNewReqs.map (·.reqId)) (w := beforeCached w out b) hndCached
    (fun data hdata => by
      obtain ⟨st, h1, h2⟩ := h.joined hdata
      exact ⟨st, h2, (h.states data.reqId st h1).2⟩)
  refine ⟨w₃, hrun, hrow, hidx, henc, fun data hdata => ?_, fun data hmem => ?_, fun id hid => ?_,
    hfaith⟩
  · rw [hother data.reqId fun hm => hdisj _ (List.mem_map_of_mem hdata) _ hm rfl]
    exact Dict.get?_foldl_set_of_mem hndNew hdata _
  · obtain ⟨st, h1, h2⟩ := h.joined hmem
    obtain ⟨st', h3, h4⟩ := hdata data hmem
    obtain rfl := Option.some.inj (h2.symm.trans h3)
    exact ⟨st, h1, h4⟩
  · have hnot := mt (h.mem_keys id).mpr hid
    rw [not_or] at hnot
    have hne : ∀ d ∈ out.scheduledNewReqs, d.reqId ≠ id :=
      fun d hd he => hnot.1 (he ▸ List.mem_map_of_mem hd)
    rw [hother id hnot.2]
    exact joinedStates_get? hne

theorem SentTo.rowsToAdd_nodup (b : InputBatch) : (rowsToAdd out b).Nodup :=
  h.nodup.sublist (List.Sublist.append (List.Sublist.refl _) List.filter_sublist)

theorem SentTo.mem_rowsToAdd {id : ReqId} (hid : id ∈ rowsToAdd out b) :
    id ∈ out.numScheduledTokens.keys := by
  rw [rowsToAdd, List.mem_append, List.mem_filter] at hid
  exact (h.mem_keys id).mpr (hid.imp_right And.left)

/-- The requests that are to join the batch have no rows. -/
theorem SentTo.rowsToAdd_not_mem (hleft : RowsLeft m n w out holes b) {id : ReqId}
    (hid : id ∈ rowsToAdd out b) : id ∉ b.reqIdToIndex.keys := by
  intro hk
  rw [rowsToAdd, List.mem_append, List.mem_filter, decide_eq_true_eq] at hid
  obtain hid | ⟨-, hid⟩ := hid
  · obtain ⟨data, hdata, rfl⟩ := List.mem_map.mp hid
    obtain ⟨hk₀, hfin, -⟩ := (hleft.keys _).mp hk
    exact hfin (h.new data hdata hk₀)
  · exact hid hk

/-- There is room for them. -/
theorem SentTo.room_rowsToAdd (hleft : RowsLeft m n w out holes b) :
    b.reqIdToIndex.keys.length + (rowsToAdd out b).length ≤ m := by
  rw [← List.length_append]
  refine Nat.le_trans (List.Subperm.length_le (List.Nodup.subperm ?_ ?_)) h.room
  · exact List.nodup_append.mpr ⟨b.reqIdToIndex.keys_nodup, h.rowsToAdd_nodup b,
      fun x hx y hy he => h.rowsToAdd_not_mem hleft hy (he ▸ hx)⟩
  · intro id hid
    obtain hid | hid := List.mem_append.mp hid
    · exact ((hleft.keys id).mp hid).2.2
    · exact h.mem_rowsToAdd hid

/-- The rows that are left and those that join are the scheduled requests. -/
theorem SentTo.mem_keys_or_rowsToAdd (hleft : RowsLeft m n w out holes b) (id : ReqId) :
    id ∈ b.reqIdToIndex.keys ∨ id ∈ rowsToAdd out b ↔ id ∈ out.numScheduledTokens.keys := by
  constructor
  · rintro (hid | hid)
    · exact ((hleft.keys id).mp hid).2.2
    · exact h.mem_rowsToAdd hid
  · intro hid
    by_cases hk : id ∈ b.reqIdToIndex.keys
    · exact Or.inl hk
    · rw [rowsToAdd, List.mem_append, List.mem_filter, decide_eq_true_eq]
      exact Or.inr (((h.mem_keys id).mp hid).imp_right fun h' => ⟨h', hk⟩)

/-- The states of the requests that keep their rows have not changed when these are updated. -/
theorem SentTo.faithful_joined (hleft : RowsLeft m n w out holes b)
    (hf : w.inputBatch.Faithful w.requests) : b.Faithful (joinedStates w out) := by
  refine (hleft.faithful _ hf).congr fun id hid => ?_
  obtain ⟨-, hfin, -⟩ := (hleft.keys id).mp hid
  have hne : ∀ d ∈ out.scheduledNewReqs, d.reqId ≠ id := by
    rintro d hd rfl
    exact h.rowsToAdd_not_mem hleft (List.mem_append_left _ (List.mem_map_of_mem hd)) hid
  exact (joinedStates_get? hne).trans (if_neg hfin)

end Sent

theorem pairwise_lt_insertionSort (hnd : holes.Nodup) :
    (holes.insertionSort (· ≤ ·)).Pairwise (· < ·) :=
  ((List.pairwise_insertionSort (· ≤ ·) holes).and
    ((List.perm_insertionSort (· ≤ ·) holes).nodup_iff.mpr hnd)).imp
      fun hab => Nat.lt_of_le_of_ne hab.1 hab.2

/-- **New and resumed requests** join the batch, the lowest holes first. -/
theorem rowsAdded (h : SentTo m w out) (hleft : RowsLeft m n w out holes b)
    (hrow : w₃.inputBatch.reqIds = b.reqIds) (hidx : w₃.inputBatch.reqIdToIndex = b.reqIdToIndex)
    (hstates : ∀ id ∈ rowsToAdd out b, ∃ st, w₃.requests.get? id = some st ∧ st.reqId = id) :
    ∃ holes' b' n', (rowsToAdd out b).foldlM (addRow m w₃.requests)
        (holes.insertionSort (· ≤ ·), w₃.inputBatch) = .ok (holes', b') ∧
      b'.Inv m n' holes' ∧ holes'.Pairwise (· < ·) ∧ (∀ i ∈ holes', i < n') ∧
      (∀ id, id ∈ b'.reqIdToIndex.keys ↔ id ∈ out.numScheduledTokens.keys) ∧
      (w₃.inputBatch.Faithful w₃.requests → b'.Faithful w₃.requests) := by
  have hperm := List.perm_insertionSort (· ≤ ·) holes
  have hinv : w₃.inputBatch.Inv m n (holes.insertionSort (· ≤ ·)) :=
    (hleft.inv.perm hperm).congr hrow hidx
  have hkeys : w₃.inputBatch.reqIdToIndex.keys = b.reqIdToIndex.keys := by rw [hidx]
  have hout : ∀ id ∈ rowsToAdd out b, id ∉ w₃.inputBatch.reqIdToIndex.keys := by
    rw [hkeys]
    exact fun id hid => h.rowsToAdd_not_mem hleft hid
  obtain ⟨holes', b', n', hrun, hb', hs', hlt', hk', hf'⟩ := foldlM_addRow w₃.requests hinv
    (pairwise_lt_insertionSort hleft.nodup) (fun i hi => hleft.lt i (hperm.mem_iff.mp hi)) (h.rowsToAdd_nodup b) hout hstates
    (by rw [InputBatch.numReqs, hkeys]; exact h.room_rowsToAdd hleft)
  refine ⟨holes', b', n', hrun, hb', hs', hlt', fun id => ?_, hf'⟩
  rw [hk', hkeys]
  exact h.mem_keys_or_rowsToAdd hleft id

/-- The holes that are left are closed. -/
theorem condensed (requests : Dict ReqId CachedRequestState) (hb : b.Inv m n holes)
    (hs : holes.Pairwise (· < ·)) (hlt : ∀ i ∈ holes, i < n) :
    ∃ b' n', (if holes = [] then .ok b else b.condense holes) = (.ok b' : Except Exn InputBatch) ∧
      b'.Inv m n' [] ∧ (∀ id, id ∈ b'.reqIdToIndex.keys ↔ id ∈ b.reqIdToIndex.keys) ∧
      (b.Faithful requests → b'.Faithful requests) := by
  split_ifs with he
  · subst he
    exact ⟨b, n, rfl, hb, fun _ => Iff.rfl, fun hf => hf⟩
  · obtain ⟨b', n', hc, hb', hk'⟩ := InputBatch.condense_dense hb hs hlt
    exact ⟨b', n', hc, hb', hk', fun hf => hf.condense hb hs hlt hc⟩

/-- **What `_update_states` does.** -/
theorem updateStates_spec {w : GPUModelRunner V} {out : SchedulerOutput} {n : ℕ}
    (hb : w.inputBatch.Inv m n []) (h : SentTo m w out) :
    ∃ changed w', w.updateStates m out = .ok (changed, w') ∧ Updated m w w' out := by
  obtain ⟨holes₁, b₁, holes₂, b₂, hr₁, hr₂, hleft⟩ := rowsLeft hb out
  obtain ⟨w₃, hrun₃, hrow₃, hidx₃, henc₃, hnew₃, hcached₃, hother₃, hf₃⟩ := h.states_updated b₂
  have hstates : ∀ id ∈ rowsToAdd out b₂, ∃ st, w₃.requests.get? id = some st ∧ st.reqId = id := by
    intro id hid
    rw [rowsToAdd, List.mem_append, List.mem_filter] at hid
    obtain hid | ⟨hid, -⟩ := hid
    · obtain ⟨data, hdata, rfl⟩ := List.mem_map.mp hid
      exact ⟨_, hnew₃ data hdata, rfl⟩
    · obtain ⟨data, hdata, rfl⟩ := List.mem_map.mp hid
      obtain ⟨st, h1, h2⟩ := hcached₃ data hdata
      exact ⟨_, h2, (h.states _ st h1).1⟩
  obtain ⟨holes₄, b₄, n₄, hrun₄, hb₄, hs₄, hlt₄, hk₄, hf₄⟩ := rowsAdded h hleft hrow₃ hidx₃ hstates
  obtain ⟨b₅, n₅, hrun₅, hb₅, hk₅, hf₅⟩ := condensed w₃.requests hb₄ hs₄ hlt₄
  have hrun : ∃ changed, w.updateStates m out = .ok (changed, { w₃ with inputBatch := b₅ }) := by
    unfold updateStates
    have hr₁' : removeRows out.finishedReqIds ([], (w.removeFinished out.finishedReqIds).inputBatch)
        = (holes₁, b₁) := hr₁
    unfold beforeCached joinedStates at hrun₃
    simp only [hr₁', hr₂, hrun₃, ok_bind, hrun₄, hrun₅]
    exact ⟨_, rfl⟩
  obtain ⟨changed, hrun⟩ := hrun
  exact ⟨changed, _, hrun, ⟨n₅, hb₅⟩, fun id => (hk₅ id).trans (hk₄ id), henc₃, hnew₃, hcached₃,
    hother₃, fun hf => hf₅ (hf₄ (hf₃ n holes₂ hleft.inv (h.faithful_joined hleft hf)))⟩

end

end GPUModelRunner

end SpaceServe
