import SpaceServe.Worker.Update

/-!
# The arrays of the persistent batch

The token ids and the block ids of a request stand in a row of a fixed width, and its sampling
parameters in arrays of `float32`. The batch with such arrays is the batch without bounds and without
rounding, seen through its arrays, as long as no list is refused.

* `ArrayFormat`: the widths and the rounding; `writeSlice`: an assignment to a slice;
* `ArrayFormat.addRequest`, `updateStates`, `appendRows`: the batch on such arrays;
* `ArrayFormat.store`: the arrays that hold a batch;
* `addRequest_store`, `updateCached_store`, **`updateStates_store`**, `appendRows_store`.
-/

set_option autoImplicit false

namespace SpaceServe

open Py

/-- The arrays of `InputBatch`: what an element of a `float32` array holds after an assignment, and
the columns of `token_ids_cpu` and of the block table. Integers are taken to fit `int32`. -/
structure ArrayFormat where
  float32 : ℚ → ℚ
  maxModelLen : ℕ
  maxNumBlocksPerReq : ℕ
  maxModelLen_pos : 0 < maxModelLen

/-- `a[row, start:start+len(values)] = values` with `width` columns. The slice ends with the row; a
list of another length is refused, but a single value is broadcast, to no column at all. -/
def writeSlice {α : Type} (width : ℕ) (a : ℕ → ℕ → α) (row start : ℕ) (values : List α) :
    Except Exn (ℕ → ℕ → α) :=
  if start + values.length ≤ width then .ok (writeRow a row start values)
  else if values.length ≤ 1 then .ok a
  else .error (.valueError (s!"could not broadcast input array from shape ({values.length},) " ++
    s!"into shape ({width - start},)"))

namespace ArrayFormat

variable (a : ArrayFormat)

/-! ## The batch on its arrays -/

/-- `block_table.append_row`. -/
def appendRow (b : InputBatch) (rowIdx start : ℕ) (blockIds : List ℕ) : Except Exn InputBatch :=
  if blockIds = [] then .ok b
  else do
    let blockTable ← writeSlice a.maxNumBlocksPerReq b.blockTable rowIdx start blockIds
    .ok { b with
      blockTable := blockTable
      numBlocksPerRow := Function.update b.numBlocksPerRow rowIdx (start + blockIds.length) }

/-- The part of `add_request` that is about sampling. The sets are filled from the parameters of the
request, not from the arrays. -/
def addSampling (b : InputBatch) (i : ℕ) (request : CachedRequestState) : InputBatch :=
  let sp := request.samplingParams
  { b.addSampling i request with
    temperatureCpu := Function.update b.temperatureCpu i (a.float32 sp.temperature)
    topPCpu := Function.update b.topPCpu i (a.float32 sp.topP)
    frequencyPenaltiesCpu :=
      Function.update b.frequencyPenaltiesCpu i (a.float32 sp.frequencyPenalty)
    presencePenaltiesCpu := Function.update b.presencePenaltiesCpu i (a.float32 sp.presencePenalty)
    repetitionPenaltiesCpu :=
      Function.update b.repetitionPenaltiesCpu i (a.float32 sp.repetitionPenalty) }

/-- `add_request`. -/
def addRequest (b : InputBatch) (maxNumReqs : ℕ) (request : CachedRequestState)
    (reqIndex : Option ℕ) : Except Exn InputBatch := do
  let i := reqIndex.getD b.numReqs
  assert (i < maxNumReqs) ""
  let startIdx := request.promptTokenIds.length
  let tokenIdsCpu ← writeSlice a.maxModelLen b.tokenIdsCpu i 0 request.promptTokenIds
  let tokenIdsCpu ← writeSlice a.maxModelLen tokenIdsCpu i startIdx request.outputTokenIds
  let b := { b with
    reqIds := b.reqIds.set i (some request.reqId)
    reqIdToIndex := b.reqIdToIndex.set request.reqId i
    numPromptTokens := Function.update b.numPromptTokens i startIdx
    tokenIdsCpu := tokenIdsCpu
    numTokens := Function.update b.numTokens i request.numTokens
    numComputedTokensCpu := Function.update b.numComputedTokensCpu i request.numComputedTokens }
  let b ← a.appendRow b i 0 (request.blockIds.getD [])
  .ok (a.addSampling b i request)

variable {V : Type}

/-- Update the state of a running or resumed request, and its row if it has one. -/
def updateCached (x : List ReqId × GPUModelRunner V) (data : CachedRequestData) :
    Except Exn (List ReqId × GPUModelRunner V) := do
  let state ← ofOption .keyError (x.2.requests.get? data.reqId)
  let blockIds ← (if data.resumedFromPreemption = true then .ok data.newBlockIds
    else match state.blockIds with
      | some ids => .ok (ids ++ data.newBlockIds)
      | none => .error (.attributeError "'NoneType' object has no attribute 'extend'"))
  let state := { state with
    numComputedTokens := data.numComputedTokens
    blockIds := some blockIds }
  let w := { x.2 with requests := x.2.requests.set data.reqId state }
  match w.inputBatch.reqIdToIndex.get? data.reqId with
  | none => .ok (x.1 ++ [data.reqId], w)
  | some i => do
    let b := { w.inputBatch with
      numComputedTokensCpu :=
        Function.update w.inputBatch.numComputedTokensCpu i data.numComputedTokens }
    let b ← a.appendRow b i (blockIds.length - data.newBlockIds.length) data.newBlockIds
    .ok (x.1, { w with inputBatch := b })

/-- Add a request to the batch, in the smallest empty row if there is one. -/
def addRow (maxNumReqs : ℕ) (requests : Dict ReqId CachedRequestState) (x : List ℕ × InputBatch)
    (id : ReqId) : Except Exn (List ℕ × InputBatch) := do
  let state ← ofOption .keyError (requests.get? id)
  let b ← a.addRequest x.2 maxNumReqs state x.1.head?
  .ok (x.1.tail, b)

/-- `_update_states`. Only what writes to the arrays differs from the batch without bounds: rows are
removed and moved as there. -/
def updateStates (w : GPUModelRunner V) (maxNumReqs : ℕ) (out : SchedulerOutput) :
    Except Exn (Bool × GPUModelRunner V) := do
  let w := w.removeFinished out.finishedReqIds
  let (removed, b) := GPUModelRunner.removeRows out.finishedReqIds ([], w.inputBatch)
  let encoderCache := out.freeEncoderInputIds.foldl GPUModelRunner.freeOutput w.encoderCache
  let unscheduled := b.reqIdToIndex.keys.filter fun id => decide (id ∉ out.numScheduledTokens.keys)
  let (removed, b) := GPUModelRunner.removeRows unscheduled (removed, b)
  let requests := out.scheduledNewReqs.foldl
    (fun d data => d.set data.reqId (GPUModelRunner.newState data)) w.requests
  let w := { w with requests := requests, inputBatch := b, encoderCache := encoderCache }
  let (toAdd, w) ← out.scheduledCachedReqs.foldlM a.updateCached
    (out.scheduledNewReqs.map fun data => data.reqId, w)
  let (removed, b) ← toAdd.foldlM (a.addRow maxNumReqs w.requests)
    (removed.insertionSort (· ≤ ·), w.inputBatch)
  let b ← (if removed = [] then .ok b else b.condense removed)
  .ok (decide (0 < unscheduled.length ∨ 0 < toAdd.length), { w with inputBatch := b })

/-- One round of the loop of `execute_model` that hands out the sampled tokens. -/
def appendSampled (out : SchedulerOutput) (sampled : List TokenId) (w : GPUModelRunner V)
    (row : Option ReqId × ℕ) : Except Exn (GPUModelRunner V) :=
  match row.1 with
  | none => .error (.assertionError "")
  | some reqId => do
    let state ← ofOption .keyError (w.requests.get? reqId)
    let n ← ofOption .keyError (out.numScheduledTokens.get? reqId)
    let seqLen := state.numComputedTokens + n
    assert (seqLen ≤ state.numTokens) ""
    if seqLen = state.numTokens then do
      let tokenId ← ofOption (.indexError "list index out of range") sampled[row.2]?
      if a.maxModelLen ≤ seqLen.toNat then .error (.indexError
        s!"index {seqLen} is out of bounds for axis 1 with size {a.maxModelLen}")
      else .ok { w with
        requests := w.requests.set reqId
          { state with outputTokenIds := state.outputTokenIds ++ [tokenId] }
        inputBatch := { w.inputBatch with
          numTokens := Function.update w.inputBatch.numTokens row.2
            (w.inputBatch.numTokens row.2 + 1)
          tokenIdsCpu := writeRow w.inputBatch.tokenIdsCpu row.2 seqLen.toNat [tokenId] } }
    else .ok w

/-- The loop over the rows. -/
def appendRows (w : GPUModelRunner V) (out : SchedulerOutput) (sampled : List TokenId) :
    Except Exn (GPUModelRunner V) :=
  (w.inputBatch.reqIds.take w.inputBatch.numReqs).zipIdx.foldlM (a.appendSampled out sampled) w

/-! ## What the arrays hold -/

/-- The columns of an array; there is nothing behind them. -/
def clip (width : ℕ) (c : ℕ → ℕ → ℕ) : ℕ → ℕ → ℕ := fun i j => if j < width then c i j else 0

/-- The arrays that hold a batch. -/
def store (b : InputBatch) : InputBatch :=
  { b with
    tokenIdsCpu := clip a.maxModelLen b.tokenIdsCpu
    blockTable := clip a.maxNumBlocksPerReq b.blockTable
    temperatureCpu := a.float32 ∘ b.temperatureCpu
    topPCpu := a.float32 ∘ b.topPCpu
    frequencyPenaltiesCpu := a.float32 ∘ b.frequencyPenaltiesCpu
    presencePenaltiesCpu := a.float32 ∘ b.presencePenaltiesCpu
    repetitionPenaltiesCpu := a.float32 ∘ b.repetitionPenaltiesCpu }

/-- A runner with such arrays. -/
def storeRunner (w : GPUModelRunner V) : GPUModelRunner V :=
  { w with inputBatch := a.store w.inputBatch }

@[simp] theorem store_reqIdToIndex (b : InputBatch) : (a.store b).reqIdToIndex = b.reqIdToIndex := rfl

/-! ## Assignments -/

theorem clip_writeRow {width : ℕ} (c : ℕ → ℕ → ℕ) (row : ℕ) {start : ℕ} {values : List ℕ}
    (h : start + values.length ≤ width) :
    writeRow (clip width c) row start values = clip width (writeRow c row start values) := by
  funext i j
  by_cases hj : j < width
  · simp [writeRow, clip, hj]
  · have hnone : values[j - start]? = none := List.getElem?_eq_none (by omega)
    simp [writeRow, clip, hj, hnone]

theorem clip_writeRow_of_le {width : ℕ} (c : ℕ → ℕ → ℕ) (row : ℕ) {start : ℕ} (values : List ℕ)
    (h : width ≤ start) : clip width (writeRow c row start values) = clip width c := by
  funext i j
  by_cases hj : j < width
  · simp [writeRow, clip, hj, Nat.not_le.mpr (Nat.lt_of_lt_of_le hj h)]
  · simp [clip, hj]

/-- An assignment to a slice writes what the row has room for, or is refused. -/
theorem writeSlice_clip (width : ℕ) (c : ℕ → ℕ → ℕ) (row start : ℕ) (values : List ℕ) :
    (writeSlice width (clip width c) row start values =
        .ok (clip width (writeRow c row start values)) ∧
      (start + values.length ≤ width ∨ values.length ≤ 1)) ∨
    (∃ msg, writeSlice width (clip width c) row start values = .error (.valueError msg)) ∧
      width < start + values.length := by
  unfold writeSlice
  split_ifs with h1 h2
  · exact Or.inl ⟨by rw [clip_writeRow c row h1], Or.inl h1⟩
  · refine Or.inl ⟨?_, Or.inr h2⟩
    obtain hnil | hle : values = [] ∨ width ≤ start := by
      cases values with
      | nil => exact Or.inl rfl
      | cons v vs =>
        rw [List.length_cons] at h1 h2
        exact Or.inr (by omega)
    · subst hnil
      have hw : writeRow c row start [] = c := by
        funext i j
        simp [writeRow]
      rw [hw]
    · rw [clip_writeRow_of_le c row values hle]
  · exact Or.inr ⟨⟨_, rfl⟩, Nat.lt_of_not_le h1⟩

theorem writeRow_append {α : Type} (c : ℕ → ℕ → α) (row : ℕ) (xs ys : List α) :
    writeRow (writeRow c row 0 xs) row xs.length ys = writeRow c row 0 (xs ++ ys) := by
  funext i j
  simp only [writeRow, Nat.zero_le, and_true, Nat.sub_zero]
  by_cases hi : i = row
  · by_cases hj : xs.length ≤ j
    · simp [hi, hj, List.getElem?_append_right hj]
    · simp [hi, hj, List.getElem?_append_left (Nat.lt_of_not_le hj)]
  · simp [hi]

theorem copyRow_clip (width : ℕ) (c : ℕ → ℕ → ℕ) (src tgt n : ℕ) :
    copyRow (clip width c) src tgt n = clip width (copyRow c src tgt n) := by
  funext i j
  by_cases hj : j < width
  · simp [copyRow, clip, hj]
  · simp [copyRow, clip, hj]

/-! ## Removing and moving -/

theorem removeRequest_store (b : InputBatch) (id : ReqId) : (a.store b).removeRequest id =
    ((b.removeRequest id).1, a.store (b.removeRequest id).2) := by
  unfold InputBatch.removeRequest
  have h : (a.store b).reqIdToIndex.get? id = b.reqIdToIndex.get? id := rfl
  rw [h]
  cases b.reqIdToIndex.get? id with
  | none => rfl
  | some i => rfl

theorem removeRows_store : ∀ (ids : List ReqId) (holes : List ℕ) (b : InputBatch),
    GPUModelRunner.removeRows ids (holes, a.store b) =
      ((GPUModelRunner.removeRows ids (holes, b)).1,
        a.store (GPUModelRunner.removeRows ids (holes, b)).2)
  | [], _, _ => rfl
  | id :: ids, holes, b => by
    have hstep := removeRequest_store a b id
    simp only [GPUModelRunner.removeRows, List.foldl_cons, hstep]
    obtain ⟨o, b₁⟩ := b.removeRequest id
    cases o with
    | none => exact removeRows_store ids holes b₁
    | some i => exact removeRows_store ids (holes ++ [i]) b₁

theorem moveRow_store (b : InputBatch) (reqId : ReqId) (last e : ℕ) :
    (a.store b).moveRow reqId last e = a.store (b.moveRow reqId last e) := by
  simp only [InputBatch.moveRow, store, copyRow_clip, Function.comp_update, Function.comp_apply]

theorem condenseLoop_store : ∀ (holes : List ℕ) (n : ℕ) (b : InputBatch),
    InputBatch.condenseLoop holes n (a.store b) = (InputBatch.condenseLoop holes n b).map a.store
  | [], _, _ => rfl
  | e :: rest, n, b => by
    unfold InputBatch.condenseLoop
    have hids : (a.store b).reqIds = b.reqIds := rfl
    simp only [hids]
    split_ifs with hle
    · rfl
    · cases b.reqIds[(InputBatch.lastNonEmpty (e :: rest) n).toNat]? with
      | none => rfl
      | some o =>
        cases o with
        | none => rfl
        | some reqId =>
          simp only [moveRow_store]
          exact condenseLoop_store rest _ _

theorem condense_store (b : InputBatch) (holes : List ℕ) :
    (a.store b).condense holes = (b.condense holes).map a.store := by
  unfold InputBatch.condense
  have hn : (a.store b).numReqs = b.numReqs := rfl
  rw [hn]
  split_ifs with h
  · rfl
  · exact condenseLoop_store a holes _ b

/-! ## Adding -/

theorem appendRow_store (b : InputBatch) (i start : ℕ) (ids : List ℕ) :
    a.appendRow (a.store b) i start ids = .ok (a.store (b.appendRow i start ids)) ∨
    (∃ msg, a.appendRow (a.store b) i start ids = .error (.valueError msg)) ∧
      a.maxNumBlocksPerReq < start + ids.length := by
  unfold appendRow InputBatch.appendRow
  split_ifs with hnil
  · exact Or.inl rfl
  · obtain ⟨h, -⟩ | ⟨⟨msg, h⟩, hlt⟩ := writeSlice_clip a.maxNumBlocksPerReq b.blockTable i start ids
    · have h' : writeSlice a.maxNumBlocksPerReq (a.store b).blockTable i start ids = _ := h
      rw [h']
      exact Or.inl rfl
    · have h' : writeSlice a.maxNumBlocksPerReq (a.store b).blockTable i start ids = _ := h
      rw [h']
      exact Or.inr ⟨⟨msg, rfl⟩, hlt⟩

theorem addSampling_store (b : InputBatch) (i : ℕ) (st : CachedRequestState) :
    a.addSampling (a.store b) i st = a.store (b.addSampling i st) := by
  simp only [addSampling, InputBatch.addSampling, store, Function.comp_update]

/-- **Adding a request** fills a row of the arrays, or a list is refused that is longer than it. -/
theorem addRequest_store {b b₁ : InputBatch} {m : ℕ} {st : CachedRequestState} {idx : Option ℕ}
    (h : b.addRequest m st idx = .ok b₁) :
    (a.addRequest (a.store b) m st idx = .ok (a.store b₁) ∧
      st.promptTokenIds.length ≤ a.maxModelLen) ∨
    (∃ msg, a.addRequest (a.store b) m st idx = .error (.valueError msg)) ∧
      (a.maxModelLen < st.numTokens ∨ a.maxNumBlocksPerReq < (st.blockIds.getD []).length) := by
  have hpos := a.maxModelLen_pos
  simp only [InputBatch.addRequest, bind_eq_ok] at h
  obtain ⟨_, hlt, h⟩ := h
  cases h
  have hn : (a.store b).numReqs = b.numReqs := rfl
  unfold addRequest
  rw [hn]
  simp only [hlt, ok_bind]
  generalize idx.getD b.numReqs = i
  obtain ⟨hw, hfit⟩ | ⟨⟨msg, hw⟩, hover⟩ :=
    writeSlice_clip a.maxModelLen b.tokenIdsCpu i 0 st.promptTokenIds
  · have hprompt : st.promptTokenIds.length ≤ a.maxModelLen := by omega
    have hw' : writeSlice a.maxModelLen (a.store b).tokenIdsCpu i 0 st.promptTokenIds = _ := hw
    simp only [hw', ok_bind]
    obtain ⟨hw₂, -⟩ | ⟨⟨msg, hw₂⟩, hover⟩ := writeSlice_clip a.maxModelLen
      (writeRow b.tokenIdsCpu i 0 st.promptTokenIds) i st.promptTokenIds.length st.outputTokenIds
    · simp only [hw₂, ok_bind, writeRow_append]
      -- what is left to write is the row of the block table
      obtain hrow | ⟨⟨msg, hrow⟩, hover⟩ := appendRow_store a { b with
          reqIds := b.reqIds.set i (some st.reqId)
          reqIdToIndex := b.reqIdToIndex.set st.reqId i
          numPromptTokens := Function.update b.numPromptTokens i st.promptTokenIds.length
          tokenIdsCpu := writeRow b.tokenIdsCpu i 0 (st.promptTokenIds ++ st.outputTokenIds)
          numTokens := Function.update b.numTokens i st.numTokens
          numComputedTokensCpu := Function.update b.numComputedTokensCpu i st.numComputedTokens }
        i 0 (st.blockIds.getD [])
      · refine Or.inl ⟨?_, hprompt⟩
        simp only [store] at hrow ⊢
        rw [hrow, ok_bind]
        exact congrArg Except.ok (addSampling_store a _ i st)
      · refine Or.inr ⟨⟨msg, ?_⟩, Or.inr (by omega)⟩
        simp only [store] at hrow ⊢
        rw [hrow, error_bind]
    · exact Or.inr ⟨⟨msg, by simp only [hw₂, error_bind]⟩, Or.inl hover⟩
  · have hw' : writeSlice a.maxModelLen (a.store b).tokenIdsCpu i 0 st.promptTokenIds = _ := hw
    refine Or.inr ⟨⟨msg, by simp only [hw', error_bind]⟩, Or.inl ?_⟩
    unfold CachedRequestState.numTokens
    omega

/-- The loop over the requests that join the batch. -/
theorem foldlM_addRow_store {m : ℕ} {requests : Dict ReqId CachedRequestState} :
    ∀ {toAdd : List ReqId} {holes holes' : List ℕ} {b b' : InputBatch},
    toAdd.foldlM (GPUModelRunner.addRow m requests) (holes, b) = .ok (holes', b') →
    (toAdd.foldlM (a.addRow m requests) (holes, a.store b) = .ok (holes', a.store b') ∧
      ∀ id ∈ toAdd, ∀ st, requests.get? id = some st → st.promptTokenIds.length ≤ a.maxModelLen) ∨
    (∃ msg, toAdd.foldlM (a.addRow m requests) (holes, a.store b) = .error (.valueError msg)) ∧
      ∃ id ∈ toAdd, ∃ st, requests.get? id = some st ∧
        (a.maxModelLen < st.numTokens ∨ a.maxNumBlocksPerReq < (st.blockIds.getD []).length)
  | [], holes, holes', b, b', h => by
    cases h
    exact Or.inl ⟨rfl, fun id hid => (List.not_mem_nil hid).elim⟩
  | id :: toAdd, holes, holes', b, b', h => by
    simp only [List.foldlM_cons, GPUModelRunner.addRow, bind_eq_ok, ofOption_eq_ok] at h
    obtain ⟨⟨holes₁, b₁⟩, ⟨st, hst, b₂, hadd, hpair⟩, hrest⟩ := h
    cases hpair
    have hrow : ∀ x, a.addRequest (a.store b) m st holes.head? = x →
        a.addRow m requests (holes, a.store b) id = x.map fun b => (holes.tail, b) := by
      rintro x rfl
      simp only [addRow, hst, ofOption_some, ok_bind]
      cases a.addRequest (a.store b) m st holes.head? with
      | error e => rfl
      | ok b => rfl
    obtain ⟨hstore, hlen⟩ | ⟨⟨msg, hstore⟩, hover⟩ := addRequest_store a hadd
    · obtain ⟨hok, hall⟩ | ⟨⟨msg, herr⟩, id', hid', hover⟩ := foldlM_addRow_store hrest
      · refine Or.inl ⟨by rw [List.foldlM_cons, hrow _ hstore]; exact hok, fun id' hid' st' hst' => ?_⟩
        obtain rfl | hid' := List.mem_cons.mp hid'
        · obtain rfl := Option.some.inj (hst.symm.trans hst')
          exact hlen
        · exact hall id' hid' st' hst'
      · exact Or.inr ⟨⟨msg, by rw [List.foldlM_cons, hrow _ hstore]; exact herr⟩, id',
          List.mem_cons_of_mem _ hid', hover⟩
    · exact Or.inr ⟨⟨msg, by rw [List.foldlM_cons, hrow _ hstore]; rfl⟩, id, List.mem_cons_self, st,
        hst, hover⟩

/-! ## Running and resumed requests -/

variable {w w' : GPUModelRunner V}

/-- Only the row of the block table is written with its width. -/
theorem updateCached_eq {data : CachedRequestData} {st : CachedRequestState}
    (hst : w.requests.get? data.reqId = some st)
    (hb : data.resumedFromPreemption = true ∨ ∃ ids, st.blockIds = some ids) (toAdd : List ReqId) :
    a.updateCached (toAdd, w) data =
      match w.inputBatch.reqIdToIndex.get? data.reqId with
      | none => .ok (toAdd ++ [data.reqId],
          { w with requests := w.requests.set data.reqId (st.updated data) })
      | some i => (a.appendRow { w.inputBatch with
            numComputedTokensCpu :=
              Function.update w.inputBatch.numComputedTokensCpu i data.numComputedTokens }
          i ((st.updatedBlocks data).length - data.newBlockIds.length) data.newBlockIds).map
        fun b => (toAdd, { w with
          requests := w.requests.set data.reqId (st.updated data)
          inputBatch := b }) := by
  unfold updateCached CachedRequestState.updated CachedRequestState.updatedBlocks
  simp only [hst, ofOption_some, ok_bind]
  split_ifs with hres
  · rfl
  · obtain ⟨ids, hids⟩ := hb.resolve_left hres
    rw [hids]
    rfl

/-- **A running or resumed request.** -/
theorem updateCached_store {toAdd toAdd' : List ReqId} {data : CachedRequestData}
    (h : GPUModelRunner.updateCached (toAdd, w) data = .ok (toAdd', w')) :
    a.updateCached (toAdd, a.storeRunner w) data = .ok (toAdd', a.storeRunner w') ∨
    (∃ msg, a.updateCached (toAdd, a.storeRunner w) data = .error (.valueError msg)) ∧
      ∃ st, w'.requests.get? data.reqId = some st ∧
        a.maxNumBlocksPerReq < (st.blockIds.getD []).length := by
  obtain ⟨st, hst, hb⟩ := GPUModelRunner.updated_of_ok h
  have hin := updateCached_eq a (w := a.storeRunner w) hst hb toAdd
  rw [GPUModelRunner.updateCached_eq hst hb toAdd] at h
  rw [hin]
  simp only [storeRunner, store_reqIdToIndex]
  cases hi : w.inputBatch.reqIdToIndex.get? data.reqId with
  | none =>
    rw [hi] at h
    cases h
    exact Or.inl rfl
  | some i =>
    rw [hi] at h
    cases h
    obtain hrow | ⟨⟨msg, hrow⟩, hover⟩ := appendRow_store a { w.inputBatch with
        numComputedTokensCpu :=
          Function.update w.inputBatch.numComputedTokensCpu i data.numComputedTokens }
      i ((st.updatedBlocks data).length - data.newBlockIds.length) data.newBlockIds
    · simp only [store] at hrow ⊢
      rw [hrow]
      exact Or.inl rfl
    · simp only [store] at hrow ⊢
      rw [hrow]
      refine Or.inr ⟨⟨msg, rfl⟩, _, Dict.get?_set_self _ _ _, ?_⟩
      rw [Nat.sub_add_cancel (st.le_updatedBlocks data)] at hover
      exact hover

/-- It touches its own state only, and is to be added at most. -/
theorem updateCached_other {toAdd toAdd' : List ReqId} {data : CachedRequestData}
    (h : GPUModelRunner.updateCached (toAdd, w) data = .ok (toAdd', w')) :
    (∀ id, id ≠ data.reqId → w'.requests.get? id = w.requests.get? id) ∧
      (toAdd' = toAdd ∨ toAdd' = toAdd ++ [data.reqId]) := by
  simp only [GPUModelRunner.updateCached, bind_eq_ok] at h
  obtain ⟨st, -, blockIds, -, h⟩ := h
  cases hi : w.inputBatch.reqIdToIndex.get? data.reqId with
  | none =>
    rw [hi] at h
    cases h
    exact ⟨fun id hne => Dict.get?_set_ne _ hne _, Or.inr rfl⟩
  | some i =>
    rw [hi] at h
    cases h
    exact ⟨fun id hne => Dict.get?_set_ne _ hne _, Or.inl rfl⟩

/-- The loop over the running and resumed requests touches their states only. -/
theorem foldlM_updateCached_other : ∀ {datas : List CachedRequestData} {toAdd toAdd' : List ReqId}
    {w w' : GPUModelRunner V},
    datas.foldlM GPUModelRunner.updateCached (toAdd, w) = .ok (toAdd', w') →
    (∀ id, id ∉ datas.map (·.reqId) → w'.requests.get? id = w.requests.get? id) ∧
      (∀ id ∈ toAdd, id ∈ toAdd') ∧ ∀ id ∈ toAdd', id ∈ toAdd ∨ id ∈ datas.map (·.reqId)
  | [], _, _, _, _, h => by
    cases h
    exact ⟨fun _ _ => rfl, fun _ hid => hid, fun _ hid => Or.inl hid⟩
  | data :: datas, toAdd, toAdd', w, w', h => by
    rw [List.foldlM_cons, bind_eq_ok] at h
    obtain ⟨⟨toAdd₁, w₁⟩, h₁, h₂⟩ := h
    obtain ⟨hother₁, hadd₁⟩ := updateCached_other h₁
    obtain ⟨hother, hsub, hfrom⟩ := foldlM_updateCached_other h₂
    refine ⟨fun id hid => ?_, fun id hid => hsub id ?_, fun id hid => ?_⟩
    · rw [List.map_cons, List.mem_cons, not_or] at hid
      rw [hother id hid.2, hother₁ id hid.1]
    · obtain rfl | rfl := hadd₁
      · exact hid
      · exact List.mem_append_left _ hid
    · rw [List.map_cons, List.mem_cons]
      obtain hid | hid := hfrom id hid
      · obtain rfl | rfl := hadd₁
        · exact Or.inl hid
        · rw [List.mem_append, List.mem_singleton] at hid
          exact hid.imp_right Or.inl
      · exact Or.inr (Or.inr hid)

theorem foldlM_updateCached_store : ∀ {datas : List CachedRequestData} {toAdd toAdd' : List ReqId}
    {w w' : GPUModelRunner V}, (datas.map (·.reqId)).Nodup →
    datas.foldlM GPUModelRunner.updateCached (toAdd, w) = .ok (toAdd', w') →
    datas.foldlM a.updateCached (toAdd, a.storeRunner w) = .ok (toAdd', a.storeRunner w') ∨
    (∃ msg, datas.foldlM a.updateCached (toAdd, a.storeRunner w) = .error (.valueError msg)) ∧
      ∃ data ∈ datas, ∃ st, w'.requests.get? data.reqId = some st ∧
        a.maxNumBlocksPerReq < (st.blockIds.getD []).length
  | [], _, _, _, _, _, h => by
    cases h
    exact Or.inl rfl
  | data :: datas, toAdd, toAdd', w, w', hnd, h => by
    rw [List.map_cons, List.nodup_cons] at hnd
    rw [List.foldlM_cons, bind_eq_ok] at h
    obtain ⟨⟨toAdd₁, w₁⟩, h₁, h₂⟩ := h
    rw [List.foldlM_cons]
    obtain hok | ⟨⟨msg, herr⟩, st, hst, hover⟩ := updateCached_store a h₁
    · rw [hok, ok_bind]
      obtain hrest | ⟨herr, d, hd, hover⟩ := foldlM_updateCached_store hnd.2 h₂
      · exact Or.inl hrest
      · exact Or.inr ⟨herr, d, List.mem_cons_of_mem _ hd, hover⟩
    · rw [herr]
      refine Or.inr ⟨⟨msg, rfl⟩, data, List.mem_cons_self, st, ?_, hover⟩
      rw [(foldlM_updateCached_other h₂).1 _ hnd.1, hst]

/-! ## The whole update -/

/-- **What `_update_states` does on the arrays**: what it does without bounds and rounding, unless a
list is refused because a scheduled request has more tokens or blocks than a row has columns. -/
theorem updateStates_store {m : ℕ} {out : SchedulerOutput} {changed : Bool}
    (hnd : (out.scheduledCachedReqs.map (·.reqId)).Nodup)
    (h : w.updateStates m out = .ok (changed, w')) :
    (a.updateStates (a.storeRunner w) m out = .ok (changed, a.storeRunner w') ∧
      ∀ data ∈ out.scheduledNewReqs, ∀ st, w'.requests.get? data.reqId = some st →
        st.promptTokenIds.length ≤ a.maxModelLen) ∨
    (∃ msg, a.updateStates (a.storeRunner w) m out = .error (.valueError msg)) ∧
      ∃ id, (id ∈ out.scheduledNewReqs.map (·.reqId) ∨ id ∈ out.scheduledCachedReqs.map (·.reqId)) ∧
        ∃ st, w'.requests.get? id = some st ∧
          (a.maxModelLen < st.numTokens ∨ a.maxNumBlocksPerReq < (st.blockIds.getD []).length) := by
  simp only [GPUModelRunner.updateStates, bind_eq_ok] at h
  obtain ⟨⟨toAdd, w₃⟩, hcached, ⟨holes₄, b₄⟩, hadd, b₅, hcond, h⟩ := h
  cases h
  have hinit : (a.storeRunner w).removeFinished out.finishedReqIds =
      a.storeRunner (w.removeFinished out.finishedReqIds) := rfl
  unfold updateStates
  simp only [hinit]
  have hbatch : (a.storeRunner (w.removeFinished out.finishedReqIds)).inputBatch =
      a.store (w.removeFinished out.finishedReqIds).inputBatch := rfl
  rw [hbatch]
  simp only [removeRows_store]
  obtain ⟨-, hsub, hfrom⟩ := foldlM_updateCached_other hcached
  have hcond' : (if holes₄ = [] then .ok (a.store b₄) else (a.store b₄).condense holes₄) =
      (.ok (a.store b₅) : Except Exn InputBatch) := by
    split_ifs at hcond ⊢ with hnil
    · cases hcond
      rfl
    · rw [condense_store, hcond]
      rfl
  obtain hc | ⟨⟨msg, hc⟩, data, hdata, st, hst, hover⟩ := foldlM_updateCached_store a hnd hcached
  · obtain ⟨ha, hlen⟩ | ⟨⟨msg, ha⟩, id, hid, st, hst, hover⟩ := foldlM_addRow_store a hadd
    · refine Or.inl ⟨?_, fun data hdata st hst => ?_⟩
      · simp only [storeRunner, store_reqIdToIndex] at hc ⊢
        simp only [hc, ok_bind, ha]
        rw [hcond']
        rfl
      · exact hlen _ (hsub _ (List.mem_map_of_mem hdata)) st hst
    · refine Or.inr ⟨⟨msg, ?_⟩, id, hfrom id hid, st, hst, hover⟩
      simp only [storeRunner, store_reqIdToIndex] at hc ⊢
      simp only [hc, ok_bind, ha, error_bind]
  · refine Or.inr ⟨⟨msg, ?_⟩, data.reqId, Or.inr (List.mem_map_of_mem hdata), st, hst, Or.inr hover⟩
    simp only [storeRunner, store_reqIdToIndex] at hc ⊢
    rw [hc, error_bind]

/-! ## Sampled tokens -/

/-- A sampled token is written where there is room, or the index is refused. -/
theorem appendSampled_store {ρ : Type} {w w' : GPUModelRunner (List ρ)} {out : SchedulerOutput}
    {sampled : List TokenId} {row : Option ReqId × ℕ}
    (h : a.appendSampled out sampled (a.storeRunner w) row = .ok w') :
    ∃ w₁, GPUModelRunner.appendSampled out sampled w row = .ok w₁ ∧ w' = a.storeRunner w₁ ∧
      ((∀ id st, w.requests.get? id = some st → st.numTokens ≤ a.maxModelLen) →
        ∀ id st, w₁.requests.get? id = some st → st.numTokens ≤ a.maxModelLen) := by
  obtain ⟨o, i⟩ := row
  cases o with
  | none => cases h
  | some reqId =>
    simp only [appendSampled, bind_eq_ok, ofOption_eq_ok] at h
    obtain ⟨st, hst, n, hn, u, hu, h⟩ := h
    have hst' : w.requests.get? reqId = some st := hst
    simp only [GPUModelRunner.appendSampled, hst', hn, ofOption_some, ok_bind, hu]
    by_cases heq : st.numComputedTokens + (n : ℤ) = st.numTokens
    · simp only [if_pos heq, bind_eq_ok, ofOption_eq_ok] at h ⊢
      obtain ⟨tokenId, htok, h⟩ := h
      split_ifs at h with hle
      cases h
      refine ⟨_, ⟨tokenId, htok, rfl⟩, ?_, fun hall id st' hst' => ?_⟩
      · simp only [storeRunner, store]
        rw [clip_writeRow _ _ (by rw [List.length_singleton]; omega)]
      · by_cases hid : id = reqId
        · subst hid
          rw [Dict.get?_set_self] at hst'
          cases hst'
          have hnum : (st.numComputedTokens + (n : ℤ)).toNat = st.numTokens := by omega
          simp only [CachedRequestState.numTokens, List.length_append, List.length_singleton] at *
          omega
        · rw [Dict.get?_set_ne _ hid] at hst'
          exact hall id st' hst'
    · rw [if_neg heq] at h ⊢
      cases h
      exact ⟨w, rfl, rfl, fun hall => hall⟩

/-- **Sampled tokens on the arrays.** -/
theorem appendRows_store {ρ : Type} {w w' : GPUModelRunner (List ρ)} {out : SchedulerOutput}
    {sampled : List TokenId} (h : a.appendRows (a.storeRunner w) out sampled = .ok w')
    (hall : ∀ id st, w.requests.get? id = some st → st.numTokens ≤ a.maxModelLen) :
    ∃ w₁, (w.inputBatch.reqIds.take w.inputBatch.numReqs).zipIdx.foldlM
        (GPUModelRunner.appendSampled out sampled) w = .ok w₁ ∧ w' = a.storeRunner w₁ ∧
      ∀ id st, w₁.requests.get? id = some st → st.numTokens ≤ a.maxModelLen := by
  have h' : (w.inputBatch.reqIds.take w.inputBatch.numReqs).zipIdx.foldlM
      (a.appendSampled out sampled) (a.storeRunner w) = .ok w' := h
  revert h' hall
  clear h
  generalize (w.inputBatch.reqIds.take w.inputBatch.numReqs).zipIdx = rows
  induction rows generalizing w with
  | nil =>
    intro hall h
    cases h
    exact ⟨w, rfl, rfl, hall⟩
  | cons row rows ih =>
    intro hall h
    rw [List.foldlM_cons, bind_eq_ok] at h
    obtain ⟨v, hv, h⟩ := h
    obtain ⟨w₁, h₁, rfl, hkeep⟩ := appendSampled_store a hv
    obtain ⟨w₂, h₂, heq, hall₂⟩ := ih (hkeep hall) h
    exact ⟨w₂, by rw [List.foldlM_cons, h₁]; exact h₂, heq, hall₂⟩

end ArrayFormat

end SpaceServe
