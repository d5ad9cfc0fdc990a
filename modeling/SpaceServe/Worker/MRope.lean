import SpaceServe.Worker.Inputs
import SpaceServe.Worker.Rotary

/-!
# M-RoPE positions of a batch

`_calc_mrope_positions` of `vllm/v1/worker/gpu_model_runner.py`. A loop over the rows keeps a write
pointer of its own and splits the scheduled tokens of a row at the end of the prompt: positions of prompt
tokens were computed with the request, those of completion tokens follow from `mrope_position_delta`.

The fields `mrope_positions` and `mrope_position_delta` of `CachedRequestState` are kept in dictionaries
of their own, without an entry where a field is `None`.

* `MRopeRunner`, `calcMropePositions`;
* `mropeColumn`: the positions of a token, whatever chunk it is scheduled in;
* `calcRow_spec`, `calcRows_spec`: a row and the loop over the rows;
* **`mrope_positions_chunked`**.
-/

set_option autoImplicit false

namespace SpaceServe

open Py

/-- `GPUModelRunner` of a model that uses M-RoPE. -/
structure MRopeRunner (V : Type) extends GPUModelRunner V where
  mropePositions : Dict ReqId (List MRopeColumn)
  mropePositionDelta : Dict ReqId ℤ
  mropePositionsCpu : List MRopeColumn

/-- `a[:, start:stop] = values`. -/
def assignColumns (a : List MRopeColumn) (start stop : ℕ) (values : List MRopeColumn) :
    Except Exn (List MRopeColumn) :=
  let width := ((a.take stop).drop start).length
  if values.length = width then .ok (a.take start ++ values ++ a.drop stop)
  else match values with
    -- a single column is broadcast
    | [c] => .ok (a.take start ++ List.replicate width c ++ a.drop stop)
    | _ => .error (.runtimeError ("The expanded size of the tensor (" ++ toString width ++
        ") must match the existing size (" ++ toString values.length ++
        ") at non-singleton dimension 1."))

namespace MRopeRunner

variable {V : Type}

/-- `prompt_part_len` and `completion_part_len`. -/
def partLens (numComputedTokens numScheduledTokens numPromptTokens : ℤ) : ℤ × ℤ :=
  if numPromptTokens < numComputedTokens + numScheduledTokens then
    let promptPartLen := max 0 (numPromptTokens - numComputedTokens)
    (promptPartLen, max 0 (numScheduledTokens - promptPartLen))
  else (numScheduledTokens, 0)

/-- The write pointer and `mrope_positions_cpu`. -/
abbrev Cursor := ℕ × List MRopeColumn

/-- Copy the positions of the prompt part of a row. -/
def writePrompt (positions : List MRopeColumn) (numComputedTokens promptPartLen : ℤ) (s : Cursor) :
    Except Exn Cursor :=
  if 0 < promptPartLen then do
    let a ← assignColumns s.2 s.1 (s.1 + promptPartLen.toNat)
      (sliceColumns positions numComputedTokens (some (numComputedTokens + promptPartLen)))
    .ok (s.1 + promptPartLen.toNat, a)
  else .ok s

/-- Compute the positions of the completion part of a row. -/
def writeCompletion (delta : Option ℤ) (contextLen completionPartLen : ℤ) (s : Cursor) :
    Except Exn Cursor :=
  if 0 < completionPartLen then do
    let delta ← ofOption (.typeError "unsupported operand type(s) for +: 'NoneType' and 'int'") delta
    let a ← assignColumns s.2 s.1 (s.1 + completionPartLen.toNat)
      (getNextInputPositionsTensor delta contextLen (contextLen + completionPartLen))
    .ok (s.1 + completionPartLen.toNat, a)
  else .ok s

/-- A row of the loop. -/
def calcRow (w : MRopeRunner V) (out : SchedulerOutput) (s : Cursor) : Option ReqId × ℕ →
    Except Exn Cursor
  | (none, _) => .error (.assertionError "")
  | (some reqId, index) => do
    let req ← ofOption .keyError (w.requests.get? reqId)
    let positions ← ofOption (.assertionError "") (w.mropePositions.get? reqId)
    let numComputedTokens := w.inputBatch.numComputedTokensCpu index
    let numScheduledTokens ← ofOption .keyError (out.numScheduledTokens.get? reqId)
    let (promptPartLen, completionPartLen) :=
      partLens numComputedTokens numScheduledTokens req.promptTokenIds.length
    assert ((numScheduledTokens : ℤ) = promptPartLen + completionPartLen) ""
    let s ← writePrompt positions numComputedTokens promptPartLen s
    writeCompletion (w.mropePositionDelta.get? reqId) (numComputedTokens + promptPartLen)
      completionPartLen s

/-- `_calc_mrope_positions`. -/
def calcMropePositions (w : MRopeRunner V) (out : SchedulerOutput) : Except Exn (MRopeRunner V) := do
  let s ← ((w.inputBatch.reqIds.take w.inputBatch.numReqs).zipIdx).foldlM (w.calcRow out)
    (0, w.mropePositionsCpu)
  .ok { w with mropePositionsCpu := s.2 }

/-! ## A row -/

/-- The positions of token `t` of a request, whatever chunk it is scheduled in: those of the prompt, then
those that follow it. -/
def mropeColumn (w : MRopeRunner V) (reqId : ReqId) (t : ℕ) : Option MRopeColumn := do
  let req ← w.requests.get? reqId
  let positions ← w.mropePositions.get? reqId
  let delta ← w.mropePositionDelta.get? reqId
  if t < req.promptTokenIds.length then positions[t]? else some (MRopeColumn.text (t + delta))

/-- A request whose positions were computed when it was added. -/
structure HasPositions (w : MRopeRunner V) (reqId : ReqId) (req : CachedRequestState)
    (positions : List MRopeColumn) (delta : ℤ) : Prop where
  request : w.requests.get? reqId = some req
  stored : w.mropePositions.get? reqId = some positions
  width : req.promptTokenIds.length ≤ positions.length
  delta : w.mropePositionDelta.get? reqId = some delta

/-- The columns `x` written from `k` on. -/
def written (a : List MRopeColumn) (k : ℕ) (x : List MRopeColumn) : List MRopeColumn :=
  a.take k ++ x ++ a.drop (k + x.length)

variable {a x y : List MRopeColumn} {k : ℕ}

theorem length_written (h : k + x.length ≤ a.length) : (written a k x).length = a.length := by
  rw [written, List.length_append, List.length_append, List.length_take, List.length_drop,
    Nat.min_eq_left (by omega)]
  omega

theorem written_nil : written a k [] = a := by
  rw [written, List.append_nil, List.length_nil, Nat.add_zero, List.take_append_drop]

/-- Two writes one behind the other. -/
theorem written_written (h : k + x.length ≤ a.length) :
    written (written a k x) (k + x.length) y = written a k (x ++ y) := by
  have hlen : (a.take k ++ x).length = k + x.length := by
    rw [List.length_append, List.length_take, Nat.min_eq_left (by omega)]
  have htake : (written a k x).take (k + x.length) = a.take k ++ x := by
    rw [written, ← hlen, List.take_left]
  have hdrop : (written a k x).drop (k + x.length + y.length) =
      a.drop (k + (x ++ y).length) := by
    rw [written, ← List.drop_drop, ← hlen, List.drop_left, List.drop_drop, hlen, List.length_append,
      Nat.add_assoc]
  rw [written, htake, hdrop, written, List.append_assoc (a.take k)]

theorem getElem?_written (h : k + x.length ≤ a.length) {j : ℕ} (hj : j < x.length) :
    (written a k x)[k + j]? = x[j]? := by
  have hlen : (a.take k).length = k := by rw [List.length_take, Nat.min_eq_left (by omega)]
  rw [written, List.append_assoc, List.getElem?_append_right (by omega), hlen, Nat.add_sub_cancel_left,
    List.getElem?_append_left hj]

theorem assignColumns_eq (h : k + x.length ≤ a.length) :
    assignColumns a k (k + x.length) x = .ok (written a k x) := by
  have hwidth : ((a.take (k + x.length)).drop k).length = x.length := by
    rw [List.length_drop, List.length_take, Nat.min_eq_left h]
    omega
  unfold assignColumns
  rw [if_pos hwidth.symm]
  rfl

/-- The split of `n` tokens at the end of the prompt. -/
theorem partLens_eq (nc n np : ℕ) :
    partLens nc n np = (((min n (np - nc) : ℕ) : ℤ), ((n - min n (np - nc) : ℕ) : ℤ)) := by
  unfold partLens
  split_ifs with h
  · refine Prod.ext ?_ ?_ <;> simp only <;> omega
  · refine Prod.ext ?_ ?_ <;> simp only <;> omega

/-- The columns of the prompt part. -/
def promptPart (positions : List MRopeColumn) (nc m : ℕ) : List MRopeColumn :=
  (positions.take (nc + m)).drop nc

theorem length_promptPart {positions : List MRopeColumn} {nc m : ℕ} (h : nc + m ≤ positions.length) :
    (promptPart positions nc m).length = m := by
  rw [promptPart, List.length_drop, List.length_take, Nat.min_eq_left h]
  omega

theorem sliceColumns_natCast {positions : List MRopeColumn} {nc m : ℕ} (h : nc + m ≤ positions.length) :
    sliceColumns positions nc (some ((nc : ℤ) + m)) = promptPart positions nc m := by
  have h1 : sliceBound positions.length ((nc : ℤ) + m) = nc + m := by
    rw [sliceBound, if_neg (by omega), ← Nat.cast_add, Int.toNat_natCast, Nat.min_eq_left h]
  have h2 : sliceBound positions.length (nc : ℤ) = nc := by
    rw [sliceBound, if_neg (by omega), Int.toNat_natCast, Nat.min_eq_left (by omega)]
  rw [sliceColumns, Option.elim_some, h1, h2]
  rfl

theorem writePrompt_eq (positions : List MRopeColumn) (nc : ℕ) {m : ℕ} (hm : 0 < m → nc + m ≤ positions.length)
    (h : k + m ≤ a.length) :
    ∃ x, x.length = m ∧ (∀ j < m, x[j]? = positions[nc + j]?) ∧
      writePrompt positions nc m (k, a) = .ok (k + m, written a k x) := by
  unfold writePrompt
  split_ifs with hpos
  · have hle := hm (by omega)
    have hlen := length_promptPart hle
    refine ⟨promptPart positions nc m, hlen, fun j hj => ?_, ?_⟩
    · rw [promptPart, List.getElem?_drop, List.getElem?_take_of_lt (by omega)]
    · rw [sliceColumns_natCast hle, Int.toNat_natCast]
      have hassign := assignColumns_eq (a := a) (k := k) (x := promptPart positions nc m) (by omega)
      rw [hlen] at hassign
      rw [hassign, ok_bind]
  · obtain rfl : m = 0 := by omega
    exact ⟨[], rfl, fun j hj => absurd hj (Nat.not_lt_zero j), by rw [written_nil]; rfl⟩

theorem writeCompletion_eq {delta : Option ℤ} {d : ℤ} {c m : ℕ} (hd : 0 < m → delta = some d)
    (h : k + m ≤ a.length) :
    ∃ y, y.length = m ∧ (∀ j < m, y[j]? = some (MRopeColumn.text ((c + j : ℕ) + d))) ∧
      writeCompletion delta c m (k, a) = .ok (k + m, written a k y) := by
  unfold writeCompletion
  split_ifs with hpos
  · have hlen : (getNextInputPositionsTensor d c ((c : ℤ) + m)).length = m := by
      rw [getNextInputPositionsTensor, List.length_map, List.length_range, add_sub_cancel_left,
        Int.toNat_natCast]
    refine ⟨_, hlen, fun j hj => ?_, ?_⟩
    · rw [getNextInputPositionsTensor, List.getElem?_map, add_sub_cancel_left, Int.toNat_natCast,
        List.getElem?_range hj, Option.map_some]
      congr 2
      omega
    · have hassign := assignColumns_eq (a := a) (k := k)
        (x := getNextInputPositionsTensor d c ((c : ℤ) + m)) (by omega)
      rw [hlen] at hassign
      rw [hd (by omega), ofOption_some, ok_bind, Int.toNat_natCast, hassign, ok_bind]
  · obtain rfl : m = 0 := by omega
    exact ⟨[], rfl, fun j hj => absurd hj (Nat.not_lt_zero j), by rw [written_nil]; rfl⟩

variable {w : MRopeRunner V} {out : SchedulerOutput}

theorem HasPositions.mropeColumn {id : ReqId} {req : CachedRequestState} {positions : List MRopeColumn}
    {delta : ℤ} (h : w.HasPositions id req positions delta) (t : ℕ) :
    w.mropeColumn id t = if t < req.promptTokenIds.length then positions[t]?
      else some (MRopeColumn.text (t + delta)) := by
  rw [MRopeRunner.mropeColumn, h.request, h.stored, h.delta]
  rfl

/-- **A row** writes the positions of its scheduled tokens behind the pointer. -/
theorem calcRow_spec {id : ReqId} {req : CachedRequestState} {positions : List MRopeColumn} {delta : ℤ}
    {i nc n : ℕ} (h : w.HasPositions id req positions delta)
    (hnc : w.inputBatch.numComputedTokensCpu i = (nc : ℤ))
    (hn : out.numScheduledTokens.get? id = some n) (hle : k + n ≤ a.length) :
    ∃ x, x.length = n ∧ (∀ j < n, x[j]? = w.mropeColumn id (nc + j)) ∧
      w.calcRow out (k, a) (some id, i) = .ok (k + n, written a k x) := by
  generalize hm : min n (req.promptTokenIds.length - nc) = m
  have hwidth := h.width
  obtain ⟨x, hxlen, hx, hwx⟩ := writePrompt_eq positions nc (m := m) (a := a)
    (k := k) (by omega) (by omega)
  obtain ⟨y, hylen, hy, hwy⟩ := writeCompletion_eq (a := written a k x) (k := k + m) (c := nc + m)
    (m := n - m) (fun _ => h.delta) (by rw [length_written (by omega)]; omega)
  refine ⟨x ++ y, by rw [List.length_append]; omega, fun j hj => ?_, ?_⟩
  · rw [h.mropeColumn]
    by_cases hjm : j < m
    · rw [List.getElem?_append_left (by omega), hx j hjm, if_pos (by omega)]
    · rw [List.getElem?_append_right (by omega), hxlen, hy (j - m) (by omega), if_neg (by omega)]
      congr 3
      omega
  · have hasm : (n : ℤ) = (m : ℤ) + ((n - m : ℕ) : ℤ) := by omega
    rw [calcRow, h.request, ofOption_some, ok_bind, h.stored, ofOption_some, ok_bind]
    simp only [hn, ofOption_some, ok_bind, hnc, partLens_eq, hm]
    rw [assert_of hasm, ok_bind, hwx, ok_bind, ← Nat.cast_add, hwy, ← hxlen, written_written (by omega)]
    congr 2
    omega

/-- **The loop over the rows** writes them one behind the other. -/
theorem calcRows_spec : ∀ {rows : List ReqId} {ns : List ℕ} (i₀ : ℕ) {k : ℕ} {a : List MRopeColumn},
    List.Forall₂ (fun id n => out.numScheduledTokens.get? id = some n) rows ns →
    (∀ id ∈ rows, ∃ req positions delta, w.HasPositions id req positions delta) →
    (∀ i < rows.length, 0 ≤ w.inputBatch.numComputedTokensCpu (i₀ + i)) → k + ns.sum ≤ a.length →
    ∃ xs : List (List MRopeColumn), xs.map List.length = ns ∧
      (∀ (i : ℕ) id x j, rows[i]? = some id → xs[i]? = some x → j < x.length →
        x[j]? = w.mropeColumn id ((w.inputBatch.numComputedTokensCpu (i₀ + i)).toNat + j)) ∧
      ((rows.map some).zipIdx i₀).foldlM (w.calcRow out) (k, a) =
        .ok (k + ns.sum, written a k xs.flatten)
  | [], [], i₀, k, a, _, _, _, _ => by
    refine ⟨[], rfl, fun i id x j hi => ?_, ?_⟩
    · cases hi
    · rw [List.flatten_nil, written_nil]
      rfl
  | id :: rows, n :: ns, i₀, k, a, htok, hpos, hnc, hle => by
    obtain ⟨hn, htok⟩ := List.forall₂_cons.mp htok
    rw [List.sum_cons] at hle
    obtain ⟨req, positions, delta, hhas⟩ := hpos id List.mem_cons_self
    have hnc₀ : w.inputBatch.numComputedTokensCpu i₀ =
        ((w.inputBatch.numComputedTokensCpu i₀).toNat : ℤ) :=
      (Int.toNat_of_nonneg (hnc 0 (Nat.succ_pos _))).symm
    obtain ⟨x, hxlen, hx, hcalc⟩ := calcRow_spec (a := a) (k := k) hhas hnc₀ hn (by omega)
    obtain ⟨xs, hxs, hat, hrest⟩ := calcRows_spec (i₀ + 1) (k := k + n) (a := written a k x) htok
      (fun id' hid' => hpos id' (List.mem_cons_of_mem _ hid'))
      (fun i hi => by
        have := hnc (i + 1) (Nat.succ_lt_succ hi)
        rwa [← Nat.add_assoc, Nat.add_right_comm] at this)
      (by rw [length_written (by omega)]; omega)
    refine ⟨x :: xs, by rw [List.map_cons, hxlen, hxs], fun i id' x' j hi hx' hj => ?_, ?_⟩
    · cases i with
      | zero =>
        obtain rfl := Option.some.inj hi
        obtain rfl := Option.some.inj hx'
        exact hx j (hxlen ▸ hj)
      | succ i =>
        have := hat i id' x' j hi hx' hj
        rwa [Nat.add_right_comm, Nat.add_assoc] at this
    · rw [List.map_cons, List.zipIdx_cons, List.foldlM_cons, hcalc, ok_bind, hrest, List.flatten_cons,
        ← hxlen, written_written (by omega), List.sum_cons, Nat.add_assoc]

/-! ## The batch -/

/-- The positions of every scheduled token stand where `_prepare_inputs` puts the token, and nothing else
is written. -/
structure MRopeWritten (w w' : MRopeRunner V) (rows : List ReqId) (ns : List ℕ) (inputs : ModelInputs) :
    Prop where
  length : w'.mropePositionsCpu.length = w.mropePositionsCpu.length
  token : ∀ (i : ℕ) id req n j, rows[i]? = some id → w.requests.get? id = some req →
    ns[i]? = some n → j < n →
    inputs.positions[offset ns i + j]? = some ((req.numComputedTokens.toNat + j : ℕ) : ℤ) ∧
    ∃ c, w.mropeColumn id (req.numComputedTokens.toNat + j) = some c ∧
      w'.mropePositionsCpu[offset ns i + j]? = some c
  covered : ∀ f < ns.sum, ∃ i n j, ns[i]? = some n ∧ j < n ∧ f = offset ns i + j ∧
    ∀ i' n' j', ns[i']? = some n' → j' < n' → f = offset ns i' + j' → i' = i ∧ j' = j
  rest : w'.mropePositionsCpu.drop ns.sum = w.mropePositionsCpu.drop ns.sum

theorem mropeColumn_isSome {id : ReqId} {req : CachedRequestState} {positions : List MRopeColumn}
    {delta : ℤ} (h : w.HasPositions id req positions delta) (t : ℕ) : ∃ c, w.mropeColumn id t = some c := by
  rw [h.mropeColumn]
  split_ifs with ht
  · exact ⟨_, List.getElem?_eq_getElem (Nat.lt_of_lt_of_le ht h.width)⟩
  · exact ⟨_, rfl⟩

/-- **M-RoPE positions do not depend on the chunks.** For every batch whose rows hold the states of the
scheduled requests, the positions of token `t` of a request are column `t` of its prompt or, behind the
prompt, `t + mrope_position_delta`, and stand where `_prepare_inputs` puts the token. -/
theorem mrope_positions_chunked {p : KVCacheParams} {m n₀ : ℕ} (hinv : w.inputBatch.Inv m n₀ [])
    (hf : w.inputBatch.Faithful w.requests) (hne : w.inputBatch.numReqs ≠ 0)
    (hkeys : ∀ id, id ∈ w.inputBatch.reqIdToIndex.keys ↔ id ∈ out.numScheduledTokens.keys)
    (hpos : ∀ id n, out.numScheduledTokens.get? id = some n → 0 < n)
    (htotal : out.totalNumScheduledTokens = Dict.total (fun n => n) out.numScheduledTokens)
    (hnc : ∀ id ∈ out.numScheduledTokens.keys, ∀ req, w.requests.get? id = some req →
      0 ≤ req.numComputedTokens)
    (hmrope : ∀ id ∈ out.numScheduledTokens.keys,
      ∃ req positions delta, w.HasPositions id req positions delta)
    (hroom : out.totalNumScheduledTokens ≤ w.mropePositionsCpu.length)
    (useCascade : ℤ → List ℕ → Bool) :
    ∃ rows ns inputs w', GPUModelRunner.ScheduledRows w.toGPUModelRunner out rows ns ∧
      (∀ i id, rows[i]? = some id ↔ w.inputBatch.reqIdToIndex.get? id = some i) ∧
      w.toGPUModelRunner.prepareInputs p useCascade out = .ok inputs ∧
      w.calcMropePositions out = .ok w' ∧ MRopeWritten w w' rows ns inputs := by
  obtain ⟨rows, ns, hsched, hperm, hget⟩ := GPUModelRunner.ScheduledRows.of_inv
    (w := w.toGPUModelRunner) hinv hkeys hpos htotal
  have hrows : rows ≠ [] := by
    rintro rfl
    exact hne hsched.length.symm
  obtain ⟨inputs, hok, hp⟩ := GPUModelRunner.prepareInputs_spec p useCascade hsched hrows
  have hcomputed : ∀ (i : ℕ) id req, rows[i]? = some id → w.requests.get? id = some req →
      w.inputBatch.numComputedTokensCpu i = (req.numComputedTokens.toNat : ℤ) := by
    intro i id req hi hreq
    obtain ⟨req', hreq', hholds⟩ := hf.rows id i ((hget i id).mp hi)
    obtain rfl := Option.some.inj (hreq.symm.trans hreq')
    rw [Int.toNat_of_nonneg (hnc id (hperm.mem_iff.mp (List.mem_of_getElem? hi)) req hreq)]
    exact hholds.numComputedTokens
  rw [hsched.total] at hroom
  obtain ⟨xs, hxs, hat, hcalc⟩ := calcRows_spec (w := w) 0 (k := 0) (a := w.mropePositionsCpu)
    hsched.tokens (fun id hid => hmrope id (hperm.mem_iff.mp hid))
    (fun i hi => by
      have hrow := List.getElem?_eq_getElem hi
      obtain ⟨req, hreq, -⟩ := hf.rows _ i ((hget i _).mp hrow)
      rw [Nat.zero_add, hcomputed i _ req hrow hreq]
      exact Int.natCast_nonneg _) (by omega)
  have hsum : xs.flatten.length = ns.sum := by rw [List.length_flatten, hxs]
  refine ⟨rows, ns, inputs, { w with mropePositionsCpu := written w.mropePositionsCpu 0 xs.flatten },
    hsched, hget, hok, ?_, ?_, fun i id req n j hi hreq hn hj => ⟨?_, ?_⟩, fun f hlt => ?_, ?_⟩
  · rw [calcMropePositions, hsched.reqIds, hcalc, ok_bind]
  · exact length_written (by omega)
  · rw [(hp.token i n j hn hj).position, hcomputed i id req hi hreq, ← Nat.cast_add]
  · obtain ⟨req', positions, delta, hhas⟩ := hmrope id (hperm.mem_iff.mp (List.mem_of_getElem? hi))
    obtain ⟨c, hc⟩ := mropeColumn_isSome hhas (req.numComputedTokens.toNat + j)
    refine ⟨c, hc, ?_⟩
    have hlen := hn
    rw [← hxs, List.getElem?_map] at hlen
    obtain ⟨x, hx, rfl⟩ := Option.map_eq_some_iff.mp hlen
    have hval := hat i id x j hi hx hj
    rw [Nat.zero_add, hcomputed i id req hi hreq, Int.toNat_natCast, hc] at hval
    have hflat := getElem?_flatten_offset hx hj
    rw [hxs, hval] at hflat
    have hlt := (List.getElem?_eq_some_iff.mp hflat).1
    have hw := getElem?_written (a := w.mropePositionsCpu) (k := 0) (x := xs.flatten) (by omega) hlt
    rw [Nat.zero_add] at hw
    exact hw.trans hflat
  · obtain ⟨i, n, j, hi, hj, rfl⟩ := exists_offset hlt
    refine ⟨i, n, j, hi, hj, rfl, fun i' n' j' hi' hj' he => ?_⟩
    obtain ⟨h1, h2⟩ := offset_inj hi hi' hj hj' he
    exact ⟨h1.symm, h2.symm⟩
  · rw [← hsum, written, List.take_zero, List.nil_append, Nat.zero_add, List.drop_left]

open GPUModelRunner (twoRows twoRows_spec twoStates twoScheduled twoScheduled_get twoScheduled_keys
  fiveTokens)

/-- The two rows with positions of their prompts and room for four columns. -/
def twoMropeRows (b : InputBatch) : MRopeRunner ℕ where
  requests := twoStates
  inputBatch := b
  encoderCache := .empty
  mropePositions := (Dict.empty.set "a" [⟨0, 0, 0⟩, ⟨1, 1, 2⟩]).set "b" [⟨0, 0, 0⟩]
  mropePositionDelta := (Dict.empty.set "a" 1).set "b" 0
  mropePositionsCpu := List.replicate 4 ⟨0, 0, 0⟩

theorem mrope_positions_chunked_two_rows : ∃ (b : InputBatch) (rows : List ReqId) (ns : List ℕ)
    (inputs : ModelInputs) (w' : MRopeRunner ℕ), twoRows = .ok b ∧
    (twoMropeRows b).toGPUModelRunner.prepareInputs fiveTokens (fun _ _ => false) twoScheduled =
      .ok inputs ∧ inputs.positions = [1, 2, 3] ∧
    (twoMropeRows b).calcMropePositions twoScheduled = .ok w' ∧
    w'.mropePositionsCpu = [⟨1, 1, 2⟩, ⟨3, 3, 3⟩, ⟨3, 3, 3⟩, ⟨0, 0, 0⟩] ∧
    MRopeWritten (twoMropeRows b) w' rows ns inputs := by
  obtain ⟨b, n, hb, hinv, hf, hidx⟩ := twoRows_spec
  have hrun : (do
      let b ← twoRows
      let inputs ← (twoMropeRows b).toGPUModelRunner.prepareInputs fiveTokens (fun _ _ => false)
        twoScheduled
      let w' ← (twoMropeRows b).calcMropePositions twoScheduled
      Except.ok (inputs.positions, w'.mropePositionsCpu)).toOption =
        some ([1, 2, 3], [⟨1, 1, 2⟩, ⟨3, 3, 3⟩, ⟨3, 3, 3⟩, ⟨0, 0, 0⟩]) := by
    decide +kernel
  have hhas : ∀ id ∈ twoScheduled.numScheduledTokens.keys,
      ∃ req positions delta, (twoMropeRows b).HasPositions id req positions delta := by
    intro id hid
    obtain ⟨n, hn⟩ := Dict.exists_get?_of_mem hid
    obtain ⟨rfl, -⟩ | ⟨rfl, -⟩ := twoScheduled_get hn
    · exact ⟨_, _, _, rfl, rfl, by decide, rfl⟩
    · exact ⟨_, _, _, rfl, rfl, by decide, rfl⟩
  obtain ⟨rows, ns, inputs, w', -, -, hprep, hcalc, hwritten⟩ := mrope_positions_chunked
    (w := twoMropeRows b) (p := fiveTokens) hinv hf
    (by rw [InputBatch.numReqs]; simp only [twoMropeRows, hidx]; decide) (twoScheduled_keys hidx)
    (fun id n hn => by obtain ⟨-, rfl⟩ | ⟨-, rfl⟩ := twoScheduled_get hn <;> decide) (by decide)
    (fun id hid req hreq => by
      obtain ⟨n, hn⟩ := Dict.exists_get?_of_mem hid
      obtain ⟨rfl, -⟩ | ⟨rfl, -⟩ := twoScheduled_get hn <;> cases hreq <;> decide) hhas
    (show 3 ≤ 4 by decide) fun _ _ => false
  rw [hb, ok_bind, hprep, ok_bind, hcalc, ok_bind] at hrun
  obtain ⟨hpos, hcols⟩ := Prod.mk.inj (Option.some.inj hrun)
  exact ⟨b, rows, ns, inputs, w', hb, hprep, hpos, hcalc, hcols, hwritten⟩

end MRopeRunner

end SpaceServe
