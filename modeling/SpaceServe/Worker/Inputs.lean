import SpaceServe.Lib.Segments
import SpaceServe.Worker.Rows

/-!
# The inputs of a forward pass

`_prepare_inputs` of `vllm/v1/worker/gpu_model_runner.py`. The scheduled tokens of all rows stand behind
each other in flat arrays, row by row; token `j` of row `i` is at position `num_computed_tokens + j` of
its request. The arrays of the batch are read through their flattened forms.

Copies to the device are left out. Whether cascade attention pays is decided by
`use_cascade_attention` from properties of the device, and is the argument `useCascade`.

* `ModelInputs`, `prepareInputs`, `commonPrefixLen`;
* `flatAt_eq`: a flattened array read inside its rows; `commonPrefixLen_spec`;
* `ScheduledRows`, **`prepareInputs_spec`**: the inputs of token `j` of row `i`;
* `CanRun`, `LoopInputs`, **`prepareInputs_loopInputs`**: they are those of a loop over the requests.
-/

set_option autoImplicit false

namespace SpaceServe

open Py

/-- What `_prepare_inputs` computes. -/
structure ModelInputs where
  positions : List ℤ
  inputIds : List TokenId
  slotMapping : List ℤ
  maxQueryLen : ℕ
  queryStartLoc : List ℕ
  maxSeqLen : ℤ
  seqLens : List ℤ
  commonPrefixLen : ℤ
  suffixKvLens : Option (List ℤ)
  logitsIndices : List ℤ

/-- `a.flatten()[k]` for an array with `m` columns. -/
def flatAt {α : Type} (a : ℕ → ℕ → α) (m k : ℕ) : α := a (k / m) (k % m)

theorem flatAt_eq {α : Type} (a : ℕ → ℕ → α) {m c : ℕ} (h : c < m) (r : ℕ) :
    flatAt a m (r * m + c) = a r c := by
  have hm : 0 < m := Nat.lt_of_le_of_lt (Nat.zero_le c) h
  rw [flatAt, Nat.add_comm, Nat.add_mul_div_right _ _ hm, Nat.add_mul_mod_self_right,
    Nat.div_eq_of_lt h, Nat.mod_eq_of_lt h, Nat.zero_add]

/-- A position below the length limit has a place in the block table. -/
theorem div_lt_maxNumBlocksPerReq {p : KVCacheParams} {q : ℕ} (h : q < p.maxModelLen) :
    q / p.blockSize < p.maxNumBlocksPerReq := by
  rw [Nat.div_lt_iff_lt_mul p.blockSize_pos, KVCacheParams.maxNumBlocksPerReq]
  exact Nat.lt_of_lt_of_le h (le_cdiv_mul p.blockSize_pos p.maxModelLen)

/-- The length of the common prefix: it is capped by the numbers of computed tokens, and is a multiple
of the block size. -/
def commonPrefixLen (blockSize numCommonPrefixBlocks : ℕ) (numComputedTokens : List ℤ) : ℤ :=
  if numCommonPrefixBlocks * blockSize = 0 then 0
  else numComputedTokens.foldl min ((numCommonPrefixBlocks * blockSize : ℕ) : ℤ) / blockSize * blockSize

theorem foldl_min_le : ∀ (cs : List ℤ) (m : ℤ), cs.foldl min m ≤ m ∧ ∀ c ∈ cs, cs.foldl min m ≤ c
  | [], m => ⟨le_refl m, fun c hc => (List.not_mem_nil hc).elim⟩
  | a :: cs, m => by
    obtain ⟨h1, h2⟩ := foldl_min_le cs (min m a)
    refine ⟨le_trans h1 (min_le_left m a), fun c hc => ?_⟩
    obtain rfl | hc := List.mem_cons.mp hc
    · exact le_trans h1 (min_le_right m c)
    · exact h2 c hc

theorem le_foldl_min {k : ℤ} : ∀ {cs : List ℤ} {m : ℤ}, k ≤ m → (∀ c ∈ cs, k ≤ c) → k ≤ cs.foldl min m
  | [], m, hm, _ => hm
  | a :: cs, m, hm, h => by
    rw [List.foldl_cons]
    exact le_foldl_min (le_min hm (h a List.mem_cons_self)) fun c hc =>
      h c (List.mem_cons_of_mem _ hc)

/-- **The length of the common prefix**: a multiple of the block size, within the common blocks and the
computed tokens. -/
theorem commonPrefixLen_spec {blockSize n : ℕ} (hbs : 0 < blockSize) {cs : List ℤ}
    (hcs : ∀ c ∈ cs, 0 ≤ c) : 0 ≤ commonPrefixLen blockSize n cs ∧
      (blockSize : ℤ) ∣ commonPrefixLen blockSize n cs ∧
      commonPrefixLen blockSize n cs ≤ n * blockSize ∧ ∀ c ∈ cs, commonPrefixLen blockSize n cs ≤ c := by
  unfold commonPrefixLen
  split_ifs with h0
  · exact ⟨le_refl 0, Int.dvd_zero _, Int.mul_nonneg (Int.natCast_nonneg n) (Int.natCast_nonneg _), hcs⟩
  · obtain ⟨h1, h2⟩ := foldl_min_le cs ((n * blockSize : ℕ) : ℤ)
    have hnonneg : 0 ≤ cs.foldl min ((n * blockSize : ℕ) : ℤ) :=
      le_foldl_min (Int.natCast_nonneg _) hcs
    generalize cs.foldl min ((n * blockSize : ℕ) : ℤ) = m at h1 h2 hnonneg
    have hle : m / blockSize * blockSize ≤ m := Int.ediv_mul_le m (by omega)
    refine ⟨?_, Int.dvd_mul_left _ _, ?_, fun c hc => le_trans hle (h2 c hc)⟩
    · exact Int.mul_nonneg (Int.ediv_nonneg hnonneg (Int.natCast_nonneg _)) (Int.natCast_nonneg _)
    · rw [← Int.natCast_mul]
      exact le_trans hle h1

namespace GPUModelRunner

variable {V : Type}

/-- The number of scheduled tokens of a row. -/
def numScheduledTokensOf (out : SchedulerOutput) : Option ReqId → Except Exn ℕ
  | none => .error (.assertionError "")
  | some reqId => ofOption .keyError (out.numScheduledTokens.get? reqId)

/-- `_prepare_inputs`. -/
def prepareInputs (p : KVCacheParams) (useCascade : ℤ → List ℕ → Bool) (w : GPUModelRunner V)
    (out : SchedulerOutput) : Except Exn ModelInputs := do
  let b := w.inputBatch
  let total := out.totalNumScheduledTokens
  assert (0 < total) ""
  let numReqs := b.numReqs
  assert (0 < numReqs) ""
  let numScheduledTokens ← (b.reqIds.take numReqs).mapM (numScheduledTokensOf out)
  let maxNumScheduledTokens := numScheduledTokens.foldl max 0
  assert (0 < maxNumScheduledTokens) ""
  let reqIndices := npRepeat (List.range numReqs) numScheduledTokens
  let cuNumTokens := npCumsum numScheduledTokens
  let cumsumsOffsets := npRepeat (List.zipWith (fun c n => c - n) cuNumTokens numScheduledTokens)
    numScheduledTokens
  if cumsumsOffsets.length ≠ total then
    .error (.valueError ("operands could not be broadcast together with shapes (" ++ toString total ++
      ",) (" ++ toString cumsumsOffsets.length ++ ",) "))
  else
    let arange := List.zipWith (fun k c => k - c) (List.range total) cumsumsOffsets
    let positions := List.zipWith (fun i (j : ℕ) => b.numComputedTokensCpu i + (j : ℤ)) reqIndices arange
    let tokenIndices := List.zipWith (fun pos i => pos + ((i * p.maxModelLen : ℕ) : ℤ)) positions
      reqIndices
    let blockTableIndices := List.zipWith
      (fun i pos => ((i * p.maxNumBlocksPerReq : ℕ) : ℤ) + pos / p.blockSize) reqIndices positions
    let blockNumbers := blockTableIndices.map fun k => flatAt b.blockTable p.maxNumBlocksPerReq k.toNat
    let computed := (List.range numReqs).map b.numComputedTokensCpu
    let seqLens := List.zipWith (fun c (n : ℕ) => c + (n : ℤ)) computed numScheduledTokens
    let prefixLen := commonPrefixLen p.blockSize out.numCommonPrefixBlocks computed
    .ok {
      positions
      inputIds := tokenIndices.map fun k => flatAt b.tokenIdsCpu p.maxModelLen k.toNat
      slotMapping := List.zipWith
        (fun number pos => ((number * p.blockSize : ℕ) : ℤ) + pos % p.blockSize) blockNumbers positions
      maxQueryLen := maxNumScheduledTokens
      queryStartLoc := 0 :: cuNumTokens
      maxSeqLen := seqLens.foldl max 0
      seqLens
      commonPrefixLen := prefixLen
      suffixKvLens := if out.numCommonPrefixBlocks * p.blockSize ≠ 0 ∧
          useCascade prefixLen numScheduledTokens = true then
        some (seqLens.map fun n => n - prefixLen) else none
      logitsIndices := cuNumTokens.map fun n : ℕ => (n : ℤ) - 1 }

/-! ## What it computes -/

variable {p : KVCacheParams} {useCascade : ℤ → List ℕ → Bool} {w : GPUModelRunner V}
  {out : SchedulerOutput}

/-- The numbers of scheduled tokens of the rows. -/
theorem mapM_numScheduledTokensOf : ∀ {rows : List ReqId} {ns : List ℕ},
    List.Forall₂ (fun id n => out.numScheduledTokens.get? id = some n) rows ns →
      (rows.map some).mapM (numScheduledTokensOf out) = .ok ns
  | [], [], _ => rfl
  | id :: rows, n :: ns, h => by
    obtain ⟨hn, hrest⟩ := List.forall₂_cons.mp h
    rw [List.map_cons, List.mapM_cons, mapM_numScheduledTokensOf hrest]
    simp only [numScheduledTokensOf, hn, ofOption_some, ok_bind]
    rfl

/-- The rows of a batch and the numbers of their scheduled tokens. -/
structure ScheduledRows (w : GPUModelRunner V) (out : SchedulerOutput) (rows : List ReqId)
    (ns : List ℕ) : Prop where
  reqIds : w.inputBatch.reqIds.take w.inputBatch.numReqs = rows.map some
  length : rows.length = w.inputBatch.numReqs
  tokens : List.Forall₂ (fun id n => out.numScheduledTokens.get? id = some n) rows ns
  pos : ∀ n ∈ ns, 0 < n
  total : out.totalNumScheduledTokens = ns.sum

theorem ScheduledRows.length_eq {rows : List ReqId} {ns : List ℕ} (h : ScheduledRows w out rows ns) :
    ns.length = w.inputBatch.numReqs := by
  rw [← h.tokens.length_eq, h.length]

theorem ScheduledRows.tokens_at {rows : List ReqId} {ns : List ℕ} (h : ScheduledRows w out rows ns)
    {i : ℕ} {id : ReqId} (hi : rows[i]? = some id) :
    ∃ n, ns[i]? = some n ∧ out.numScheduledTokens.get? id = some n := by
  obtain ⟨hlt, rfl⟩ := List.getElem?_eq_some_iff.mp hi
  have hlt' : i < ns.length := h.tokens.length_eq ▸ hlt
  exact ⟨ns[i], List.getElem?_eq_getElem hlt', (List.forall₂_iff_get.mp h.tokens).2 i hlt hlt'⟩

/-- **The rows of a batch** in which exactly the scheduled requests stand. -/
theorem ScheduledRows.of_inv {m n₀ : ℕ} (hinv : w.inputBatch.Inv m n₀ [])
    (hkeys : ∀ id, id ∈ w.inputBatch.reqIdToIndex.keys ↔ id ∈ out.numScheduledTokens.keys)
    (hpos : ∀ id n, out.numScheduledTokens.get? id = some n → 0 < n)
    (htotal : out.totalNumScheduledTokens = Dict.total (fun n => n) out.numScheduledTokens) :
    ∃ rows ns, ScheduledRows w out rows ns ∧ rows.Perm out.numScheduledTokens.keys ∧
      ∀ i id, rows[i]? = some id ↔ w.inputBatch.reqIdToIndex.get? id = some i := by
  obtain ⟨rows, htake, hnd, hmem⟩ := hinv.rows
  have hperm : rows.Perm out.numScheduledTokens.keys :=
    (List.perm_ext_iff_of_nodup hnd out.numScheduledTokens.keys_nodup).mpr fun id =>
      (hmem id).trans (hkeys id)
  have hget : ∀ id ∈ rows, out.numScheduledTokens.get? id =
      some ((out.numScheduledTokens.get? id).elim 0 fun n => n) := by
    intro id hid
    obtain ⟨n, hn⟩ := Dict.exists_get?_of_mem (hperm.mem_iff.mp hid)
    rw [hn]
    rfl
  have hlen : rows.length = w.inputBatch.numReqs :=
    ((List.perm_ext_iff_of_nodup hnd w.inputBatch.reqIdToIndex.keys_nodup).mpr hmem).length_eq
  refine ⟨rows, rows.map fun id => (out.numScheduledTokens.get? id).elim 0 fun n => n,
    ⟨htake, hlen, ?_, ?_, ?_⟩, hperm, hinv.getElem?_rows htake⟩
  · exact List.forall₂_map_right_iff.mpr (List.forall₂_same.mpr hget)
  · intro n hn
    obtain ⟨id, hid, rfl⟩ := List.mem_map.mp hn
    exact hpos id _ (hget id hid)
  · rw [htotal, Dict.sum_of_perm_keys _ hperm]

/-- The inputs of token `j` of row `i`. -/
structure InputsAt (p : KVCacheParams) (b : InputBatch) (inputs : ModelInputs) (i j k : ℕ) : Prop where
  position : inputs.positions[k]? = some (b.numComputedTokensCpu i + j)
  inputId : inputs.inputIds[k]? = some (flatAt b.tokenIdsCpu p.maxModelLen
    (b.numComputedTokensCpu i + j + ((i * p.maxModelLen : ℕ) : ℤ)).toNat)
  slot : inputs.slotMapping[k]? = some (((flatAt b.blockTable p.maxNumBlocksPerReq
    (((i * p.maxNumBlocksPerReq : ℕ) : ℤ) + (b.numComputedTokensCpu i + j) / p.blockSize).toNat *
      p.blockSize : ℕ) : ℤ) + (b.numComputedTokensCpu i + j) % p.blockSize)

theorem le_foldl_max : ∀ (ns : List ℕ) (m : ℕ), m ≤ ns.foldl max m ∧ ∀ n ∈ ns, n ≤ ns.foldl max m
  | [], m => ⟨Nat.le_refl m, fun n hn => (List.not_mem_nil hn).elim⟩
  | a :: ns, m => by
    obtain ⟨h1, h2⟩ := le_foldl_max ns (max m a)
    refine ⟨Nat.le_trans (Nat.le_max_left m a) h1, fun n hn => ?_⟩
    obtain rfl | hn := List.mem_cons.mp hn
    · exact Nat.le_trans (Nat.le_max_right m n) h1
    · exact h2 n hn

/-- What `_prepare_inputs` computes for a batch: the inputs of token `j` of row `i` stand behind those
of the rows before it. -/
structure Prepared (p : KVCacheParams) (b : InputBatch) (out : SchedulerOutput) (ns : List ℕ)
    (inputs : ModelInputs) : Prop where
  positions_length : inputs.positions.length = ns.sum
  inputIds_length : inputs.inputIds.length = ns.sum
  slotMapping_length : inputs.slotMapping.length = ns.sum
  token : ∀ i n j, ns[i]? = some n → j < n → InputsAt p b inputs i j (offset ns i + j)
  seqLens : inputs.seqLens = List.zipWith (fun c (n : ℕ) => c + (n : ℤ))
    ((List.range b.numReqs).map b.numComputedTokensCpu) ns
  commonPrefixLen : inputs.commonPrefixLen = commonPrefixLen p.blockSize out.numCommonPrefixBlocks
    ((List.range b.numReqs).map b.numComputedTokensCpu)
  suffixKvLens : ∀ l ∈ inputs.suffixKvLens, l = inputs.seqLens.map fun n => n - inputs.commonPrefixLen
  queryStartLoc : inputs.queryStartLoc = 0 :: npCumsum ns
  logitsIndices : inputs.logitsIndices = (npCumsum ns).map fun n : ℕ => (n : ℤ) - 1

variable (p useCascade) in
/-- **What `_prepare_inputs` computes** for a batch of scheduled rows. -/
theorem prepareInputs_spec {rows : List ReqId} {ns : List ℕ} (h : ScheduledRows w out rows ns)
    (hne : rows ≠ []) : ∃ inputs, w.prepareInputs p useCascade out = .ok inputs ∧
      Prepared p w.inputBatch out ns inputs := by
  have hlen := h.length_eq
  have hnpos : 0 < ns.length := by
    rw [hlen, ← h.length]
    exact List.length_pos_iff.mpr hne
  have hfirst := h.pos _ (List.getElem_mem hnpos)
  have hmax : 0 < ns.foldl max 0 :=
    Nat.lt_of_lt_of_le hfirst ((le_foldl_max ns 0).2 _ (List.getElem_mem hnpos))
  have hsum : 0 < ns.sum :=
    Nat.lt_of_le_of_lt (Nat.zero_le _) (offset_add_lt (List.getElem?_eq_getElem hnpos) hfirst)
  have hrange : (List.range w.inputBatch.numReqs).length = ns.length := by rw [List.length_range, hlen]
  have hcu : (List.zipWith (fun c n => c - n) (npCumsum ns) ns).length = ns.length := by
    rw [List.length_zipWith, length_npCumsum, Nat.min_self]
  unfold prepareInputs
  simp only [h.total, h.reqIds]
  rw [assert_of hsum, ok_bind, assert_of (by omega), ok_bind, mapM_numScheduledTokensOf h.tokens,
    ok_bind, assert_of hmax, ok_bind, length_npRepeat hcu, if_neg (by omega)]
  refine ⟨_, rfl, ?_, ?_, ?_, fun i n j hi hj => ?_, rfl, rfl, fun l hl => ?_, rfl, rfl⟩
  · simp [length_npRepeat hrange, length_npRepeat hcu]
  · simp [length_npRepeat hrange, length_npRepeat hcu]
  · simp [length_npRepeat hrange, length_npRepeat hcu]
  · have hlt : i < w.inputBatch.numReqs := by
      rw [← hlen]
      exact (List.getElem?_eq_some_iff.mp hi).1
    have hidx : (npRepeat (List.range w.inputBatch.numReqs) ns)[offset ns i + j]? = some i :=
      npRepeat_offset hrange (List.getElem?_range hlt) hi hj
    have hoff : (npRepeat (List.zipWith (fun c n => c - n) (npCumsum ns) ns) ns)[offset ns i + j]? =
        some (offset ns i) := by
      refine npRepeat_offset hcu ?_ hi hj
      rw [List.getElem?_zipWith, getElem?_npCumsum hi, hi]
      exact congrArg some (Nat.add_sub_cancel _ _)
    have hk : (List.range ns.sum)[offset ns i + j]? = some (offset ns i + j) :=
      List.getElem?_range (offset_add_lt hi hj)
    have harange : (List.zipWith (fun k c => k - c) (List.range ns.sum)
        (npRepeat (List.zipWith (fun c n => c - n) (npCumsum ns) ns) ns))[offset ns i + j]? =
          some j := by
      rw [List.getElem?_zipWith, hk, hoff]
      exact congrArg some (Nat.add_sub_cancel_left _ _)
    refine ⟨?_, ?_, ?_⟩
    · simp only [List.getElem?_zipWith, hidx, harange]
    · simp only [List.getElem?_map, List.getElem?_zipWith, hidx, harange, Option.map_some]
    · simp only [List.getElem?_map, List.getElem?_zipWith, hidx, harange, Option.map_some]
  · simp only [Option.mem_def] at hl
    split_ifs at hl
    exact (Option.some.inj hl).symm

/-! ## The loop over the requests -/

/-- A request has tokens and blocks for `n` more tokens, and its tokens fit into a row. -/
structure CanRun (p : KVCacheParams) (st : CachedRequestState) (n : ℕ) : Prop where
  computed : 0 ≤ st.numComputedTokens
  tokens : st.numComputedTokens + n ≤ st.numTokens
  width : st.numTokens ≤ p.maxModelLen
  blocks : st.numComputedTokens + n ≤ (((st.blockIds.getD []).length * p.blockSize : ℕ) : ℤ)

/-- Token `q` of a request: its position, its id and its slot stand at `k`. -/
structure TokenAt (p : KVCacheParams) (inputs : ModelInputs) (st : CachedRequestState) (q k : ℕ) :
    Prop where
  position : inputs.positions[k]? = some (q : ℤ)
  inputId : ∃ t, (st.promptTokenIds ++ st.outputTokenIds)[q]? = some t ∧ inputs.inputIds[k]? = some t
  slot : ∃ block, (st.blockIds.getD [])[q / p.blockSize]? = some block ∧
    inputs.slotMapping[k]? = some ((block * p.blockSize + q % p.blockSize : ℕ) : ℤ)

/-- What a loop over the requests of the rows would write. -/
structure LoopInputs (p : KVCacheParams) (w : GPUModelRunner V) (rows : List ReqId) (ns : List ℕ)
    (inputs : ModelInputs) : Prop where
  positions_length : inputs.positions.length = ns.sum
  inputIds_length : inputs.inputIds.length = ns.sum
  slotMapping_length : inputs.slotMapping.length = ns.sum
  token : ∀ (i : ℕ) id st n k, rows[i]? = some id → w.requests.get? id = some st → ns[i]? = some n →
    k < n → TokenAt p inputs st (st.numComputedTokens.toNat + k) (offset ns i + k)
  queryStartLoc : inputs.queryStartLoc = (List.range (ns.length + 1)).map (offset ns)
  seqLens_length : inputs.seqLens.length = ns.length
  seqLens : ∀ (i : ℕ) id st n, rows[i]? = some id → w.requests.get? id = some st → ns[i]? = some n →
    inputs.seqLens[i]? = some (st.numComputedTokens + n)
  logitsIndices_length : inputs.logitsIndices.length = ns.length
  logitsIndices : ∀ (i : ℕ) n, ns[i]? = some n →
    inputs.logitsIndices[i]? = some (((offset ns i + (n - 1) : ℕ)) : ℤ)

/-- The inputs of a token of a row that holds its request. -/
theorem InputsAt.tokenAt {b : InputBatch} {inputs : ModelInputs} {st : CachedRequestState}
    {i n j k : ℕ} (h : InputsAt p b inputs i j k) (hrow : (b.row i).Holds st) (hrun : CanRun p st n)
    (hj : j < n) : TokenAt p inputs st (st.numComputedTokens.toNat + j) k := by
  obtain ⟨hpos, hid, hslot⟩ := h
  have hnc : b.numComputedTokensCpu i = (st.numComputedTokens.toNat : ℤ) := by
    rw [Int.toNat_of_nonneg hrun.computed]
    exact hrow.numComputedTokens
  have htok := hrun.tokens
  have hwidth := hrun.width
  have hblocks := hrun.blocks
  rw [← Int.toNat_of_nonneg hrun.computed] at htok hblocks
  rw [CachedRequestState.numTokens] at htok hwidth
  generalize st.numComputedTokens.toNat = nc at hnc htok hblocks ⊢
  rw [hnc, ← Nat.cast_add] at hpos hid hslot
  have hmax : nc + j < p.maxModelLen := by omega
  have hq : nc + j < (st.promptTokenIds ++ st.outputTokenIds).length := by
    rw [List.length_append]
    omega
  have hb : (nc + j) / p.blockSize < (st.blockIds.getD []).length := by
    rw [Nat.div_lt_iff_lt_mul p.blockSize_pos]
    omega
  refine ⟨hpos, ⟨_, List.getElem?_eq_getElem hq, ?_⟩, _, List.getElem?_eq_getElem hb, ?_⟩
  · rw [← Nat.cast_add, Int.toNat_natCast, Nat.add_comm _ (i * _), flatAt_eq _ hmax] at hid
    rw [hid]
    exact congrArg some (hrow.tokens _ _ (List.getElem?_eq_getElem hq))
  · rw [← Int.natCast_ediv, ← Nat.cast_add, Int.toNat_natCast,
      flatAt_eq _ (div_lt_maxNumBlocksPerReq hmax), ← Int.natCast_emod, ← Nat.cast_add] at hslot
    rw [hslot, ← hrow.blocks _ _ (List.getElem?_eq_getElem hb)]
    rfl

/-- **The inputs are those of the loop over the requests.** -/
theorem Prepared.loopInputs {rows : List ReqId} {ns : List ℕ} {inputs : ModelInputs}
    (h : Prepared p w.inputBatch out ns inputs) (hsched : ScheduledRows w out rows ns)
    (hrow : ∀ (i : ℕ) id st n, rows[i]? = some id → w.requests.get? id = some st → ns[i]? = some n →
      (w.inputBatch.row i).Holds st ∧ CanRun p st n) : LoopInputs p w rows ns inputs := by
  have hlen : (List.range w.inputBatch.numReqs).length = ns.length := by
    rw [List.length_range, hsched.length_eq]
  refine ⟨h.positions_length, h.inputIds_length, h.slotMapping_length, fun i id st n k hi hst hn hk => ?_,
    ?_, ?_, fun i id st n hi hst hn => ?_, ?_, fun i n hn => ?_⟩
  · obtain ⟨hholds, hrun⟩ := hrow i id st n hi hst hn
    exact (h.token i n k hn hk).tokenAt hholds hrun hk
  · rw [h.queryStartLoc]
    exact (map_offset_range ns).symm
  · rw [h.seqLens, List.length_zipWith, List.length_map, hlen, Nat.min_self]
  · have hlt : i < w.inputBatch.numReqs := by
      rw [← hsched.length_eq]
      exact (List.getElem?_eq_some_iff.mp hn).1
    obtain ⟨hholds, -⟩ := hrow i id st n hi hst hn
    rw [h.seqLens, List.getElem?_zipWith, List.getElem?_map, List.getElem?_range hlt, hn, ←
      hholds.numComputedTokens]
    rfl
  · rw [h.logitsIndices, List.length_map, length_npCumsum]
  · have hpos := hsched.pos n (List.mem_of_getElem? hn)
    rw [h.logitsIndices, List.getElem?_map, getElem?_npCumsum hn, Option.map_some]
    congr 1
    omega

/-- **Vectorised preparation equals the loop over the requests**, for every batch whose rows hold the
states of the scheduled requests and every positive numbers of scheduled tokens that these have tokens
and blocks for. -/
theorem prepareInputs_loopInputs {m n₀ : ℕ} (hinv : w.inputBatch.Inv m n₀ [])
    (hf : w.inputBatch.Faithful w.requests) (hne : w.inputBatch.numReqs ≠ 0)
    (hkeys : ∀ id, id ∈ w.inputBatch.reqIdToIndex.keys ↔ id ∈ out.numScheduledTokens.keys)
    (hpos : ∀ id n, out.numScheduledTokens.get? id = some n → 0 < n)
    (htotal : out.totalNumScheduledTokens = Dict.total (fun n => n) out.numScheduledTokens)
    (hrun : ∀ id n st, out.numScheduledTokens.get? id = some n → w.requests.get? id = some st →
      CanRun p st n) (useCascade : ℤ → List ℕ → Bool) :
    ∃ rows ns inputs, ScheduledRows w out rows ns ∧
      (∀ i id, rows[i]? = some id ↔ w.inputBatch.reqIdToIndex.get? id = some i) ∧
      w.prepareInputs p useCascade out = .ok inputs ∧ LoopInputs p w rows ns inputs := by
  obtain ⟨rows, ns, hsched, -, hget⟩ := ScheduledRows.of_inv hinv hkeys hpos htotal
  have hrows : rows ≠ [] := by
    rintro rfl
    exact hne hsched.length.symm
  obtain ⟨inputs, hok, hp⟩ := prepareInputs_spec p useCascade hsched hrows
  refine ⟨rows, ns, inputs, hsched, hget, hok, hp.loopInputs hsched fun i id st n hi hst hn => ?_⟩
  obtain ⟨st', hst', hholds⟩ := hf.rows id i ((hget i id).mp hi)
  obtain rfl := Option.some.inj (hst.symm.trans hst')
  obtain ⟨n', hn', hn''⟩ := hsched.tokens_at hi
  obtain rfl := Option.some.inj (hn.symm.trans hn')
  exact ⟨hholds, hrun id n st hn'' hst⟩

/-- A request of which `nc` tokens are computed. -/
def textState (id : ReqId) (prompt output : List TokenId) (blocks : List ℕ) (nc : ℤ) :
    CachedRequestState where
  reqId := id
  promptTokenIds := prompt
  mmInputs := []
  mmPositions := []
  samplingParams := { maxTokens := 8, ignoreEos := false, stopTokenIds := [] }
  generator := none
  blockIds := some blocks
  numComputedTokens := nc
  outputTokenIds := output

/-- Rows of five tokens and three blocks. -/
def fiveTokens : KVCacheParams where
  blockSize := 2
  numGpuBlocks := 8
  maxModelLen := 5
  enableCaching := false
  hash := fun _ => 1
  blockSize_pos := Nat.two_pos
  numGpuBlocks_pos := by decide

/-- A resumed request whose window goes beyond its prompt, and a request that decodes. -/
def twoStates : Dict ReqId CachedRequestState :=
  (Dict.empty.set "a" (textState "a" [10, 11] [12] [4, 5] 1)).set "b"
    (textState "b" [20] [21, 22, 23] [7, 2] 3)

def twoRows : Except Exn InputBatch := do
  let b ← (InputBatch.init 2).addRequest 2 (textState "a" [10, 11] [12] [4, 5] 1) none
  b.addRequest 2 (textState "b" [20] [21, 22, 23] [7, 2] 3) none

def twoScheduled : SchedulerOutput where
  scheduledNewReqs := []
  scheduledCachedReqs := []
  numScheduledTokens := (Dict.empty.set "b" 1).set "a" 2
  totalNumScheduledTokens := 3
  scheduledEncoderInputs := .empty
  numCommonPrefixBlocks := 0
  finishedReqIds := []
  freeEncoderInputIds := []

/-- They hold their requests. -/
theorem twoRows_spec : ∃ b n, twoRows = .ok b ∧ b.Inv 2 n [] ∧ b.Faithful twoStates ∧
    b.reqIdToIndex = (Dict.empty.set "a" 0).set "b" 1 := by
  have hid₁ : (InputBatch.init 2).reqIdToIndex.get? (textState "a" [10, 11] [12] [4, 5] 1).reqId = none :=
    rfl
  obtain ⟨b₁, n₁, h₁, hinv₁, -, hidx₁⟩ :=
    (InputBatch.Inv.init 2).addRequest List.nodup_nil (by simp) hid₁ (by simp)
  have hf₁ : b₁.Faithful twoStates := (InputBatch.Faithful.init 2).addRequest (i := 0) rfl
    (fun id => by simp [InputBatch.init]) rfl rfl h₁
  have hn₁ : b₁.numReqs = n₁ := hinv₁.length_add_holes List.nodup_nil (by simp)
  have hone : b₁.numReqs = 1 := by
    rw [InputBatch.numReqs, hidx₁]
    rfl
  have hid₂ : b₁.reqIdToIndex.get? (textState "b" [20] [21, 22, 23] [7, 2] 3).reqId = none := by
    rw [hidx₁]
    rfl
  obtain ⟨b₂, n₂, h₂, hinv₂, -, hidx₂⟩ :=
    hinv₁.addRequest List.nodup_nil (by simp) hid₂ (by omega)
  have hfree := hinv₁.free_row List.nodup_nil (by simp)
  have hf₂ : b₂.Faithful twoStates := hf₁.addRequest rfl hfree hid₂ rfl h₂
  refine ⟨b₂, n₂, ?_, hinv₂, hf₂, ?_⟩
  · rw [twoRows, bind_eq_ok]
    exact ⟨b₁, h₁, h₂⟩
  · rw [hidx₂, hidx₁, ← hn₁, hone]
    rfl

theorem twoScheduled_get {id : ReqId} {n : ℕ} (h : twoScheduled.numScheduledTokens.get? id = some n) :
    (id = "b" ∧ n = 1) ∨ (id = "a" ∧ n = 2) := by
  have hid := Dict.mem_keys_of_get? h
  rw [show twoScheduled.numScheduledTokens.keys = ["b", "a"] by decide, List.mem_cons,
    List.mem_singleton] at hid
  obtain rfl | rfl := hid
  · cases h
    exact Or.inl ⟨rfl, rfl⟩
  · cases h
    exact Or.inr ⟨rfl, rfl⟩

theorem twoScheduled_keys {b : InputBatch} (h : b.reqIdToIndex = (Dict.empty.set "a" 0).set "b" 1)
    (id : ReqId) : id ∈ b.reqIdToIndex.keys ↔ id ∈ twoScheduled.numScheduledTokens.keys := by
  rw [h, show twoScheduled.numScheduledTokens.keys = ["b", "a"] by decide,
    show ((Dict.empty.set "a" 0).set "b" 1 : Dict ReqId ℕ).keys = ["a", "b"] by decide]
  simp [or_comm]

theorem prepareInputs_loopInputs_two_rows : ∃ (w : GPUModelRunner ℕ) (rows : List ReqId) (ns : List ℕ)
    (inputs : ModelInputs), twoRows = .ok w.inputBatch ∧ w.requests = twoStates ∧
    w.prepareInputs fiveTokens (fun _ _ => false) twoScheduled = .ok inputs ∧
    inputs.positions = [1, 2, 3] ∧ inputs.inputIds = [11, 12, 23] ∧ inputs.slotMapping = [9, 10, 5] ∧
    LoopInputs fiveTokens w rows ns inputs := by
  obtain ⟨b, n, hb, hinv, hf, hidx⟩ := twoRows_spec
  have hrun : (do
      let b ← twoRows
      GPUModelRunner.prepareInputs fiveTokens (fun _ _ => false) ⟨twoStates, b, (.empty : Dict _ (Dict _ ℕ))⟩
        twoScheduled).toOption.any (fun inputs : ModelInputs => decide (inputs.positions = [1, 2, 3] ∧
          inputs.inputIds = [11, 12, 23] ∧ inputs.slotMapping = [9, 10, 5])) = true := by
    decide +kernel
  obtain ⟨inputs, hok, hx⟩ := exists_ok_of_any hrun
  obtain ⟨hpos, hids, hslots⟩ := of_decide_eq_true hx
  rw [hb, ok_bind] at hok
  have hall : ∀ id n st, twoScheduled.numScheduledTokens.get? id = some n →
      twoStates.get? id = some st → CanRun fiveTokens st n := by
    intro id n st hn hst
    obtain ⟨rfl, rfl⟩ | ⟨rfl, rfl⟩ := twoScheduled_get hn
    · cases hst
      exact ⟨by decide, by decide, by decide, by decide⟩
    · cases hst
      exact ⟨by decide, by decide, by decide, by decide⟩
  obtain ⟨rows, ns, _, -, -, hok', hloop⟩ := prepareInputs_loopInputs
    (w := ⟨twoStates, b, (.empty : Dict _ (Dict _ ℕ))⟩) hinv hf
    (by rw [InputBatch.numReqs, hidx]; decide) (twoScheduled_keys hidx)
    (fun id n hn => by obtain ⟨-, rfl⟩ | ⟨-, rfl⟩ := twoScheduled_get hn <;> decide) (by decide) hall
    fun _ _ => false
  rw [hok] at hok'
  cases hok'
  exact ⟨_, rows, ns, inputs, hb, rfl, hok, hpos, hids, hslots, hloop⟩

end GPUModelRunner

end SpaceServe
