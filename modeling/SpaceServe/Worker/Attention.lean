import SpaceServe.Lib.Causal
import SpaceServe.Worker.Inputs

/-!
# Attention over the paged cache

`FlashAttentionImpl.forward` and `cascade_attention` of `vllm/v1/attention/backends/flash_attn.py`, which
store the entries of a batch in the slots of its slot mapping and read those of a sequence through its
row of the block table, and the layers around them, as those of `LlamaModel.forward`. The kernel
`flash_attn_varlen_func` is not part of the source: it is a parameter, which is to compute what
`ref_paged_attn` of `tests/kernels/test_flash_attn.py` computes. ALiBi, sliding windows, scales of the
cache and the padding for CUDA graphs are left out.

* `refPagedAttn`, `FlashAttn`: the reference and the kernel;
* `Attention`, `cascadeAttention`, `Attention.forward`;
* `CascadeConfig`, `useCascadeAttention`;
* `DecoderModel`, `decoderLayer`, `DecoderModel.forward`; `DecoderModel.causal`: the model on a whole sequence;
* `RowLengths`, **`forward_cascade`**: cascade attention computes what regular attention computes;
* `Feeds`, **`DecoderModel.forward_eq_run`**: a forward pass is a batch of the model.
-/

set_option autoImplicit false

namespace SpaceServe

open Py

variable {H Q K S O : Type}

/-! ## Attention -/

/-- Where position `pos` is in the cache, through a row of the block table. -/
def slotAt (blockSize : ℕ) (blockTable : ℕ → ℕ) (pos : ℕ) : ℕ × ℕ :=
  (blockTable (pos / blockSize), pos % blockSize)

/-- The entries of the first `n` positions. -/
def gatherEntries (blockSize : ℕ) (kvCache : ℕ × ℕ → K) (blockTable : ℕ → ℕ) (n : ℕ) : List K :=
  (List.range n).map fun pos => kvCache (slotAt blockSize blockTable pos)

/-- `reshape_and_cache_flash`; a token with a negative slot is padding. -/
def reshapeAndCacheFlash (blockSize : ℕ) (key : List K) (slotMapping : List ℤ) (kvCache : ℕ × ℕ → K) :
    ℕ × ℕ → K :=
  (slotMapping.zip key).foldl (fun kvCache x =>
    if x.1 < 0 then kvCache
    else Function.update kvCache (x.1.toNat / blockSize, x.1.toNat % blockSize) x.2) kvCache

/-- `ref_paged_attn`: the queries from `cuSeqlensQ[i]` to `cuSeqlensQ[i + 1]` see the first `sequsedK[i]`
entries of row `i` of the block table. With `causal` only the last query sees all of them, and each query
before it one less than the next. -/
def refPagedAttn (attend : Q → List K → S) (blockSize : ℕ) (kvCache : ℕ × ℕ → K) (q : List Q)
    (cuSeqlensQ : List ℕ) (sequsedK : List ℤ) (causal : Bool) (blockTable : ℕ → ℕ → ℕ) : List S :=
  (List.range (cuSeqlensQ.length - 1)).flatMap fun i =>
    let qs := slice q (cuSeqlensQ.getD i 0) (cuSeqlensQ.getD (i + 1) 0)
    let n := (sequsedK.getD i 0).toNat
    qs.mapIdx fun j x => attend x
      (gatherEntries blockSize kvCache (blockTable i) (if causal then n - (qs.length - (j + 1)) else n))

/-- Every sequence has a length, and with `causal` its queries are the last of its tokens. -/
def KvLens (ns : List ℕ) (lens : List ℤ) (causal : Bool) : Prop :=
  ∀ i n : ℕ, ns[i]? = some n → ∃ len : ℕ, lens[i]? = some (len : ℤ) ∧ (causal = true → n ≤ len)

/-- A kernel that computes what the reference computes. -/
structure FlashAttn (attend : Q → List K → S) where
  flashAttnVarlenFunc : ℕ → (ℕ × ℕ → K) → List Q → List ℕ → List ℤ → Bool → (ℕ → ℕ → ℕ) → List S
  eq_refPagedAttn : ∀ {blockSize : ℕ} {kvCache : ℕ × ℕ → K} {q : List Q} {ns : List ℕ} {lens : List ℤ}
    {causal : Bool} {blockTable : ℕ → ℕ → ℕ}, q.length = ns.sum → KvLens ns lens causal →
    flashAttnVarlenFunc blockSize kvCache q (0 :: npCumsum ns) lens causal blockTable =
      refPagedAttn attend blockSize kvCache q (0 :: npCumsum ns) lens causal blockTable

/-- The reference. -/
def FlashAttn.reference (attend : Q → List K → S) : FlashAttn attend :=
  ⟨refPagedAttn attend, fun _ _ => rfl⟩

/-- Attention of one layer: what a query gets from the keys and values that it sees, the kernel, its
output, and how `merge_attn_states` puts the states over two parts together. -/
structure Attention (Q K S O : Type) where
  attend : Q → List K → S
  flash : FlashAttn attend
  output : S → O
  mergeAttnStates : S → S → O
  merge_append : ∀ q ks ks', ks ≠ [] → ks' ≠ [] →
    mergeAttnStates (attend q ks) (attend q ks') = output (attend q (ks ++ ks'))

namespace Attention

variable (A : Attention Q K S O) (blockSize : ℕ) (blockTable : ℕ → ℕ → ℕ)

/-- `cascade_attention`. -/
def cascadeAttention (query : List Q) (kvCache : ℕ × ℕ → K) (cuQueryLens : List ℕ)
    (suffixKvLens : List ℤ) (commonPrefixLen : ℤ) : Except Exn (List O) := do
  assert (commonPrefixLen % blockSize = 0) ""
  let numCommonKvBlocks := commonPrefixLen / blockSize
  assert (0 < numCommonKvBlocks) ""
  -- the shared prefix, for all queries as one sequence, through the first row of the block table
  let prefixStates := A.flash.flashAttnVarlenFunc blockSize kvCache query [0, query.length]
    [commonPrefixLen] false blockTable
  let suffixStates := A.flash.flashAttnVarlenFunc blockSize kvCache query cuQueryLens suffixKvLens true
    fun i b => blockTable i (numCommonKvBlocks.toNat + b)
  .ok (List.zipWith A.mergeAttnStates prefixStates suffixStates)

/-- `FlashAttentionImpl.forward`. -/
def forward (inputs : ModelInputs) (query : List Q) (key : List K) (kvCache : ℕ × ℕ → K) :
    Except Exn (List O × (ℕ × ℕ → K)) := do
  let kvCache := reshapeAndCacheFlash blockSize key inputs.slotMapping kvCache
  match inputs.suffixKvLens with
  | none => .ok ((A.flash.flashAttnVarlenFunc blockSize kvCache query inputs.queryStartLoc inputs.seqLens
      true blockTable).map A.output, kvCache)
  | some suffixKvLens => do
    let output ← A.cascadeAttention blockSize blockTable query kvCache inputs.queryStartLoc suffixKvLens
      inputs.commonPrefixLen
    .ok (output, kvCache)

end Attention

/-- What `use_cascade_attention` knows of the model and the device. -/
structure CascadeConfig where
  numQueryHeads : ℕ
  numKvHeads : ℕ
  useAlibi : Bool
  useSlidingWindow : Bool
  numSms : ℕ

/-- `use_cascade_attention`. -/
def useCascadeAttention (c : CascadeConfig) (commonPrefixLen : ℤ) (queryLens : List ℕ) : Bool :=
  if commonPrefixLen < 256 then false
  else if c.useAlibi || c.useSlidingWindow then false
  else if queryLens.length < 8 then false
  else
    let numReqs := queryLens.length
    let numQueriesPerKv := c.numQueryHeads / c.numKvHeads
    let useFlashDecoding := decide (1 < numQueriesPerKv) && !c.useSlidingWindow && !c.useAlibi &&
      queryLens.all fun n => n == 1
    if !useFlashDecoding then true
    else
      let numPrefixTiles := cdiv commonPrefixLen.toNat 128
      let cascadeWaves := cdiv (c.numQueryHeads * cdiv numReqs 128) c.numSms
      let flashDecodingCtas := numReqs * c.numKvHeads * cdiv numQueriesPerKv 128 * numPrefixTiles
      decide (cascadeWaves * numPrefixTiles < cdiv flashDecodingCtas c.numSms)

/-! ## Decoders -/

/-- A decoder: the embedding of tokens, the query and the entry of the cache that a layer computes for a
state at a position, its attention, and what the rest of the layer makes of its output. -/
structure DecoderModel (H Q K S O : Type) where
  numLayers : ℕ
  embedTokens : TokenId → H
  query : ℕ → ℤ → H → Q
  key : ℕ → ℤ → H → K
  attn : ℕ → Attention Q K S O
  mlp : ℕ → H → O → H

namespace DecoderModel

variable (D : DecoderModel H Q K S O) (blockSize : ℕ) (blockTable : ℕ → ℕ → ℕ) (inputs : ModelInputs)

/-- The forward pass of layer `l`. -/
def decoderLayer (l : ℕ) (hiddenStates : List H) (kvCache : ℕ × ℕ → K) :
    Except Exn (List H × (ℕ × ℕ → K)) := do
  let query := List.zipWith (D.query l) inputs.positions hiddenStates
  let key := List.zipWith (D.key l) inputs.positions hiddenStates
  let (output, kvCache) ← (D.attn l).forward blockSize blockTable inputs query key kvCache
  .ok (List.zipWith (D.mlp l) hiddenStates output, kvCache)

/-- The first `n` layers, each with a cache of its own. -/
def layers (kvCaches : ℕ → ℕ × ℕ → K) : ℕ → Except Exn (List H × (ℕ → ℕ × ℕ → K))
  | 0 => .ok (inputs.inputIds.map D.embedTokens, kvCaches)
  | l + 1 => do
    let (hiddenStates, kvCaches) ← layers kvCaches l
    let (hiddenStates, kvCache) ← D.decoderLayer blockSize blockTable inputs l hiddenStates (kvCaches l)
    .ok (hiddenStates, Function.update kvCaches l kvCache)

/-- The forward pass of the model. -/
def forward (kvCaches : ℕ → ℕ × ℕ → K) : Except Exn (List H × (ℕ → ℕ × ℕ → K)) :=
  D.layers blockSize blockTable inputs kvCaches D.numLayers

/-- The model on a whole sequence, in which every position sees those up to it. -/
def causal : CausalModel TokenId H K where
  embed t _ := D.embedTokens t
  entry l pos h := D.key l pos h
  attend l pos h ks := D.mlp l h ((D.attn l).output ((D.attn l).attend (D.query l pos h) ks))

end DecoderModel

/-! ## The kernels -/

section Kernels

variable {blockSize : ℕ} {kvCache : ℕ × ℕ → K} {blockTable : ℕ → ℕ → ℕ} {attend : Q → List K → S}
  {ns : List ℕ} {q : List Q} {lens : List ℤ} {causal : Bool}

theorem gatherEntries_ne_nil {row : ℕ → ℕ} {n : ℕ} (hn : 0 < n) :
    gatherEntries blockSize kvCache row n ≠ [] := by
  simp [gatherEntries, Nat.ne_of_gt hn]

/-- The entries behind those of the first `c` blocks. -/
theorem gatherEntries_append (hbs : 0 < blockSize) {row row' : ℕ → ℕ} {c n : ℕ}
    (hrow : ∀ b < c, row' b = row b) (hle : c * blockSize ≤ n) :
    gatherEntries blockSize kvCache row' (c * blockSize) ++
        gatherEntries blockSize kvCache (fun b => row (c + b)) (n - c * blockSize) =
      gatherEntries blockSize kvCache row n := by
  obtain ⟨m, rfl⟩ := Nat.exists_eq_add_of_le hle
  simp only [gatherEntries, Nat.add_sub_cancel_left, List.range_add, List.map_append, List.map_map]
  congr 1
  · refine List.map_congr_left fun pos hpos => ?_
    rw [List.mem_range] at hpos
    rw [slotAt, slotAt, hrow _ ((Nat.div_lt_iff_lt_mul hbs).mpr hpos)]
  · refine List.map_congr_left fun pos _ => ?_
    simp only [Function.comp_apply, slotAt]
    rw [Nat.add_comm (c * blockSize) pos, Nat.add_mul_div_right _ _ hbs, Nat.add_mul_mod_self_right,
      Nat.add_comm c]

theorem getD_cumsum {i : ℕ} (hi : i ≤ ns.length) : (0 :: npCumsum ns).getD i 0 = offset ns i := by
  rw [← map_offset_range, List.getD_eq_getElem?_getD, List.getElem?_map,
    List.getElem?_range (Nat.lt_succ_of_le hi)]
  rfl

/-- The queries of a row. -/
theorem length_slice_offset (hq : q.length = ns.sum) {i n : ℕ} (hi : ns[i]? = some n) :
    (slice q (offset ns i) (offset ns (i + 1))).length = n := by
  have hle := offset_le_sum ns (i + 1)
  rw [offset_succ hi] at hle ⊢
  rw [length_slice]
  omega

/-- The rows of the reference. -/
theorem refPagedAttn_eq : refPagedAttn attend blockSize kvCache q (0 :: npCumsum ns) lens
      causal blockTable =
    (List.range ns.length).flatMap fun i =>
      (slice q (offset ns i) (offset ns (i + 1))).mapIdx fun j x => attend x
        (gatherEntries blockSize kvCache (blockTable i) (if causal then (lens.getD i 0).toNat -
          ((slice q (offset ns i) (offset ns (i + 1))).length - (j + 1)) else (lens.getD i 0).toNat)) := by
  rw [refPagedAttn, List.length_cons, length_npCumsum, Nat.add_sub_cancel]
  refine List.flatMap_congr fun i hi => ?_
  rw [List.mem_range] at hi
  simp only [getD_cumsum (Nat.le_of_lt hi), getD_cumsum (Nat.succ_le_of_lt hi)]

theorem length_refPagedAttn (hq : q.length = ns.sum) : (refPagedAttn attend blockSize
    kvCache q (0 :: npCumsum ns) lens causal blockTable).length = ns.sum := by
  rw [refPagedAttn_eq]
  refine length_flatMap_range fun i n hi => ?_
  rw [List.length_mapIdx, length_slice_offset hq hi]

/-- **What the reference computes** for query `j` of row `i`. -/
theorem getElem?_refPagedAttn (hq : q.length = ns.sum) {i n j len : ℕ} (hi : ns[i]? = some n)
    (hj : j < n) (hlen : lens[i]? = some (len : ℤ)) : (refPagedAttn attend blockSize kvCache q
      (0 :: npCumsum ns) lens causal blockTable)[offset ns i + j]? =
    q[offset ns i + j]?.map fun x => attend x (gatherEntries blockSize kvCache (blockTable i)
      (if causal then len - (n - (j + 1)) else len)) := by
  have hslice := fun i n (hi : ns[i]? = some n) => length_slice_offset (q := q) hq hi
  rw [refPagedAttn_eq, getElem?_flatMap_range (fun i n hi => by
    rw [List.length_mapIdx, hslice i n hi]) hi hj, List.getElem?_mapIdx, getElem?_slice, hslice i n hi,
    List.getD_eq_getElem?_getD, hlen, Option.getD_some, Int.toNat_natCast, offset_succ hi,
    Nat.add_sub_cancel_left, if_pos hj]

end Kernels

/-! ## Cascade attention -/

/-- The lengths of the rows of a batch: row `i` has `nc i` computed and `ns[i]` scheduled tokens. If
cascade attention is used, all rows begin with the same blocks, whose tokens are computed. -/
structure RowLengths (blockSize : ℕ) (blockTable : ℕ → ℕ → ℕ) (nc : ℕ → ℕ) (ns : List ℕ)
    (inputs : ModelInputs) : Prop where
  queryStartLoc : inputs.queryStartLoc = 0 :: npCumsum ns
  seqLens : ∀ (i n : ℕ), ns[i]? = some n → inputs.seqLens[i]? = some ((nc i + n : ℕ) : ℤ)
  suffixKvLens : ∀ l ∈ inputs.suffixKvLens,
    l = inputs.seqLens.map (fun n => n - inputs.commonPrefixLen) ∧
    ∃ c, 0 < c ∧ inputs.commonPrefixLen = ((c * blockSize : ℕ) : ℤ) ∧
      ∀ i < ns.length, c * blockSize ≤ nc i ∧ ∀ b < c, blockTable i b = blockTable 0 b

theorem RowLengths.kvLens {blockSize : ℕ} {blockTable : ℕ → ℕ → ℕ} {nc : ℕ → ℕ} {ns : List ℕ}
    {inputs : ModelInputs} (h : RowLengths blockSize blockTable nc ns inputs) :
    KvLens ns inputs.seqLens true :=
  fun i n hi => ⟨nc i + n, h.seqLens i n hi, fun _ => Nat.le_add_left n (nc i)⟩

namespace Attention

variable {A : Attention Q K S O} {blockSize : ℕ} {blockTable : ℕ → ℕ → ℕ} {nc : ℕ → ℕ} {ns : List ℕ}
  {inputs : ModelInputs} {query : List Q} {kvCache : ℕ × ℕ → K}

/-- **The prefix and the suffix of every query are merged** to what it gets from all of its entries. -/
theorem cascadeAttention_eq (h : RowLengths blockSize blockTable nc ns inputs) (hbs : 0 < blockSize)
    (hq : query.length = ns.sum) {l : List ℤ} (hl : inputs.suffixKvLens = some l) :
    A.cascadeAttention blockSize blockTable query kvCache inputs.queryStartLoc l inputs.commonPrefixLen =
      .ok ((A.flash.flashAttnVarlenFunc blockSize kvCache query inputs.queryStartLoc inputs.seqLens
        true blockTable).map A.output) := by
  obtain ⟨rfl, c, hc, hcommon, hrows⟩ := h.suffixKvLens l hl
  have hdiv : ((c * blockSize : ℕ) : ℤ) / (blockSize : ℤ) = c := by
    rw [← Int.natCast_ediv, Nat.mul_div_cancel _ hbs]
  have hmod : ((c * blockSize : ℕ) : ℤ) % (blockSize : ℤ) = 0 := by
    rw [← Int.natCast_emod, Nat.mul_mod_left]
    rfl
  have htotal : [0, query.length] = 0 :: npCumsum [query.length] := by
    simp [npCumsum, npCumsumFrom]
  have hsum : query.length = [query.length].sum := by simp
  unfold cascadeAttention
  rw [hcommon, h.queryStartLoc]
  simp only [assert_of hmod, hdiv, ok_bind, assert_of (Int.natCast_pos.mpr hc), Int.toNat_natCast, htotal]
  have hprefix : KvLens [query.length] [((c * blockSize : ℕ) : ℤ)] false := by
    intro i n hi
    obtain ⟨rfl, -⟩ : i = 0 ∧ n = query.length := by
      cases i with
      | zero => exact ⟨rfl, (Option.some.inj hi).symm⟩
      | succ i => cases hi
    exact ⟨c * blockSize, rfl, fun h => Bool.noConfusion h⟩
  have hsuffix : ∀ i n : ℕ, ns[i]? = some n →
      (inputs.seqLens.map fun m => m - ((c * blockSize : ℕ) : ℤ))[i]? =
        some ((nc i + n - c * blockSize : ℕ) : ℤ) := by
    intro i n hi
    obtain ⟨hle, -⟩ := hrows i (List.getElem?_eq_some_iff.mp hi).1
    rw [List.getElem?_map, h.seqLens i n hi, Option.map_some]
    congr 1
    omega
  have hlens : KvLens ns (inputs.seqLens.map fun m => m - ((c * blockSize : ℕ) : ℤ)) true := by
    intro i n hi
    obtain ⟨hle, -⟩ := hrows i (List.getElem?_eq_some_iff.mp hi).1
    exact ⟨_, hsuffix i n hi, fun _ => by omega⟩
  rw [A.flash.eq_refPagedAttn hsum hprefix, A.flash.eq_refPagedAttn hq hlens,
    A.flash.eq_refPagedAttn hq h.kvLens]
  congr 1
  have hp : (refPagedAttn A.attend blockSize kvCache query (0 :: npCumsum [query.length])
      [((c * blockSize : ℕ) : ℤ)] false blockTable).length = ns.sum := by
    rw [length_refPagedAttn hsum, ← hsum, hq]
  refine @ext_offset _ ns _ _ ?_ ?_ fun i n j hi hj => ?_
  · rw [List.length_zipWith, hp, length_refPagedAttn hq, Nat.min_self]
  · rw [List.length_map, length_refPagedAttn hq]
  have hlt := offset_add_lt hi hj
  obtain ⟨hle, hblocks⟩ := hrows i (List.getElem?_eq_some_iff.mp hi).1
  have hseq := h.seqLens i n hi
  have hfirst : (refPagedAttn A.attend blockSize kvCache query (0 :: npCumsum [query.length])
      [((c * blockSize : ℕ) : ℤ)] false blockTable)[offset [query.length] 0 + (offset ns i + j)]? =
      query[offset [query.length] 0 + (offset ns i + j)]?.map fun x => A.attend x
        (gatherEntries blockSize kvCache (blockTable 0) (c * blockSize)) :=
    getElem?_refPagedAttn hsum rfl (hq ▸ hlt) rfl
  rw [offset_zero, Nat.zero_add] at hfirst
  rw [List.getElem?_zipWith, hfirst, getElem?_refPagedAttn hq hi hj (hsuffix i n hi), List.getElem?_map,
    getElem?_refPagedAttn hq hi hj hseq]
  cases hx : query[offset ns i + j]? with
  | none => rfl
  | some x =>
    have hn : nc i + n - c * blockSize - (n - (j + 1)) = nc i + n - (n - (j + 1)) - c * blockSize := by
      omega
    simp only [Option.map_some, if_true, hn]
    rw [A.merge_append x _ _ (gatherEntries_ne_nil (Nat.mul_pos hc hbs)) (gatherEntries_ne_nil (by omega)),
      gatherEntries_append hbs (fun b hb => (hblocks b hb).symm) (by omega)]

/-- **Cascade attention computes what regular attention computes.** -/
theorem forward_cascade (h : RowLengths blockSize blockTable nc ns inputs) (hbs : 0 < blockSize)
    (hq : query.length = ns.sum) (key : List K) :
    A.forward blockSize blockTable inputs query key kvCache =
      .ok ((A.flash.flashAttnVarlenFunc blockSize
        (reshapeAndCacheFlash blockSize key inputs.slotMapping kvCache) query inputs.queryStartLoc
        inputs.seqLens true blockTable).map A.output,
        reshapeAndCacheFlash blockSize key inputs.slotMapping kvCache) := by
  unfold forward
  cases hl : inputs.suffixKvLens with
  | none => rfl
  | some l =>
    simp only [cascadeAttention_eq h hbs hq hl, ok_bind]

end Attention

/-! ## A forward pass as a batch of the model -/

section Batch

open CausalModel

variable (blockSize : ℕ) (blockTable : ℕ → ℕ → ℕ) (text : ℕ → List TokenId) (nc : ℕ → ℕ)

/-- The token at position `pos` of row `i`. -/
def itemAt (i pos : ℕ) : Item TokenId (ℕ × ℕ) where
  behind := (text i).take pos
  token := (text i).getD pos 0
  slot := slotAt blockSize (blockTable i) pos
  view := (List.range (pos + 1)).map (slotAt blockSize (blockTable i))

/-- The tokens of a batch, row by row. -/
def batchItems (ns : List ℕ) : List (Item TokenId (ℕ × ℕ)) :=
  (List.range ns.length).flatMap fun i =>
    (List.range (ns.getD i 0)).map fun j => itemAt blockSize blockTable text i (nc i + j)

/-- The inputs of a batch: row `i` holds the tokens `text i`, of which `nc i` are computed, and the next
`ns[i]` are fed. -/
structure Feeds (ns : List ℕ) (inputs : ModelInputs) : Prop
    extends RowLengths blockSize blockTable nc ns inputs where
  within : ∀ (i n : ℕ), ns[i]? = some n → nc i + n ≤ (text i).length
  positions_length : inputs.positions.length = ns.sum
  inputIds_length : inputs.inputIds.length = ns.sum
  slotMapping_length : inputs.slotMapping.length = ns.sum
  position : ∀ (i n j : ℕ), ns[i]? = some n → j < n →
    inputs.positions[offset ns i + j]? = some ((nc i + j : ℕ) : ℤ)
  inputId : ∀ (i n j : ℕ), ns[i]? = some n → j < n →
    inputs.inputIds[offset ns i + j]? = (text i)[nc i + j]?
  slot : ∀ (i n j : ℕ), ns[i]? = some n → j < n → inputs.slotMapping[offset ns i + j]? =
    some ((blockTable i ((nc i + j) / blockSize) * blockSize + (nc i + j) % blockSize : ℕ) : ℤ)

variable {blockSize blockTable text nc} {ns : List ℕ} {inputs : ModelInputs}

theorem length_map_itemAt (i n : ℕ) (h : ns[i]? = some n) :
    ((List.range (ns.getD i 0)).map fun j => itemAt blockSize blockTable text i (nc i + j)).length = n := by
  simp [List.getD_eq_getElem?_getD, h]

theorem length_batchItems : (batchItems blockSize blockTable text nc ns).length = ns.sum :=
  length_flatMap_range length_map_itemAt

theorem getElem?_batchItems {i n j : ℕ} (hi : ns[i]? = some n) (hj : j < n) :
    (batchItems blockSize blockTable text nc ns)[offset ns i + j]? =
      some (itemAt blockSize blockTable text i (nc i + j)) := by
  rw [batchItems, getElem?_flatMap_range length_map_itemAt hi hj, List.getElem?_map,
    List.getD_eq_getElem?_getD, hi, Option.getD_some, List.getElem?_range hj, Option.map_some]

/-- A token of a batch is at a place of a row. -/
theorem mem_batchItems {it : Item TokenId (ℕ × ℕ)} (h : it ∈ batchItems blockSize blockTable text nc ns) :
    ∃ i n j, ns[i]? = some n ∧ j < n ∧ it = itemAt blockSize blockTable text i (nc i + j) := by
  obtain ⟨k, hk⟩ := List.mem_iff_getElem?.mp h
  have hlt := (List.getElem?_eq_some_iff.mp hk).1
  rw [length_batchItems] at hlt
  obtain ⟨i, n, j, hi, hj, rfl⟩ := exists_offset hlt
  rw [getElem?_batchItems hi hj] at hk
  exact ⟨i, n, j, hi, hj, (Option.some.inj hk).symm⟩

namespace Feeds

variable (h : Feeds blockSize blockTable text nc ns inputs)
include h

theorem positions_eq : inputs.positions =
    (batchItems blockSize blockTable text nc ns).map fun it => (it.behind.length : ℤ) := by
  refine ext_offset h.positions_length (by rw [List.length_map, length_batchItems]) fun i n j hi hj => ?_
  have hle := h.within i n hi
  rw [h.position i n j hi hj, List.getElem?_map, getElem?_batchItems hi hj, Option.map_some, itemAt,
    List.length_take_of_le (by omega)]

theorem inputIds_eq : inputs.inputIds =
    (batchItems blockSize blockTable text nc ns).map Item.token := by
  refine ext_offset h.inputIds_length (by rw [List.length_map, length_batchItems]) fun i n j hi hj => ?_
  have hle := h.within i n hi
  rw [h.inputId i n j hi hj, List.getElem?_map, getElem?_batchItems hi hj, Option.map_some, itemAt,
    List.getD_eq_getElem?_getD, List.getElem?_eq_getElem (by omega), Option.getD_some]

theorem slotMapping_eq : inputs.slotMapping = (batchItems blockSize blockTable text nc ns).map
    fun it => ((it.slot.1 * blockSize + it.slot.2 : ℕ) : ℤ) := by
  refine ext_offset h.slotMapping_length (by rw [List.length_map, length_batchItems]) fun i n j hi hj => ?_
  rw [h.slot i n j hi hj, List.getElem?_map, getElem?_batchItems hi hj, Option.map_some, itemAt, slotAt]

omit h in
/-- Entries are stored in the slots of their tokens. -/
theorem reshapeAndCacheFlash_eq (hbs : 0 < blockSize) : ∀ {items : List (Item TokenId (ℕ × ℕ))}
    {key : List K} {kvCache : ℕ × ℕ → K}, (∀ it ∈ items, it.slot.2 < blockSize) →
      reshapeAndCacheFlash blockSize key
        (items.map fun it => ((it.slot.1 * blockSize + it.slot.2 : ℕ) : ℤ)) kvCache =
      store (List.zipWith (fun it k => (it.slot, k)) items key) kvCache
  | [], _, _, _ => rfl
  | _ :: _, [], _, _ => rfl
  | it :: items, k :: key, kvCache, hlt => by
    have hit := hlt it List.mem_cons_self
    have hdiv : (it.slot.1 * blockSize + it.slot.2) / blockSize = it.slot.1 := by
      rw [Nat.add_comm, Nat.add_mul_div_right _ _ hbs, Nat.div_eq_of_lt hit, Nat.zero_add]
    have hmod : (it.slot.1 * blockSize + it.slot.2) % blockSize = it.slot.2 := by
      rw [Nat.add_comm, Nat.add_mul_mod_self_right, Nat.mod_eq_of_lt hit]
    have ih : reshapeAndCacheFlash blockSize key
        (items.map fun it => ((it.slot.1 * blockSize + it.slot.2 : ℕ) : ℤ))
        (Function.update kvCache it.slot k) =
        store (List.zipWith (fun it k => (it.slot, k)) items key) (Function.update kvCache it.slot k) :=
      reshapeAndCacheFlash_eq hbs fun it' h' => hlt it' (List.mem_cons_of_mem _ h')
    rw [List.zipWith_cons_cons, store, List.foldl_cons]
    rw [store] at ih
    rw [← ih, reshapeAndCacheFlash, reshapeAndCacheFlash, List.map_cons, List.zip_cons_cons,
      List.foldl_cons, if_neg (by omega), Int.toNat_natCast, hdiv, hmod]

/-- Every query sees the view of its token. -/
theorem flashAttnVarlenFunc_eq {attend : Q → List K → S} (flash : FlashAttn attend) {query : List Q}
    {kvCache : ℕ × ℕ → K} (hq : query.length = ns.sum) :
    flash.flashAttnVarlenFunc blockSize kvCache query inputs.queryStartLoc inputs.seqLens true blockTable =
      List.zipWith (fun it x => attend x (it.view.map kvCache))
        (batchItems blockSize blockTable text nc ns) query := by
  rw [h.queryStartLoc, flash.eq_refPagedAttn hq h.toRowLengths.kvLens]
  refine ext_offset (length_refPagedAttn hq) ?_ fun i n j hi hj => ?_
  · rw [List.length_zipWith, length_batchItems, hq, Nat.min_self]
  rw [getElem?_refPagedAttn hq hi hj (h.seqLens i n hi), List.getElem?_zipWith,
    getElem?_batchItems hi hj]
  cases hx : query[offset ns i + j]? with
  | none => rfl
  | some x =>
    have hn : nc i + n - (n - (j + 1)) = nc i + j + 1 := by omega
    simp only [Option.map_some, if_true, hn, itemAt, List.map_map, gatherEntries]
    rfl

end Feeds

variable {D : DecoderModel H Q K S O} {hiddenStates : List H} {kvCache : ℕ × ℕ → K}

/-- **A layer over the paged cache** is a layer of the model. -/
theorem DecoderModel.decoderLayer_eq (h : Feeds blockSize blockTable text nc ns inputs) (hbs : 0 < blockSize)
    (hlen : hiddenStates.length = ns.sum) (l : ℕ) :
    D.decoderLayer blockSize blockTable inputs l hiddenStates kvCache =
      .ok (D.causal.layer l (batchItems blockSize blockTable text nc ns) hiddenStates kvCache) := by
  have hslots : ∀ it ∈ batchItems blockSize blockTable text nc ns, it.slot.2 < blockSize := by
    intro it hit
    obtain ⟨i, n, j, -, -, rfl⟩ := mem_batchItems hit
    exact Nat.mod_lt _ hbs
  have hq : (List.zipWith (D.query l) inputs.positions hiddenStates).length = ns.sum := by
    rw [List.length_zipWith, h.positions_length, hlen, Nat.min_self]
  unfold DecoderModel.decoderLayer
  simp only [Attention.forward_cascade h.toRowLengths hbs hq, ok_bind, h.flashAttnVarlenFunc_eq (D.attn l).flash hq]
  rw [h.slotMapping_eq, Feeds.reshapeAndCacheFlash_eq hbs hslots, h.positions_eq, layer]
  have hstore : List.zipWith (fun it k => (it.slot, k)) (batchItems blockSize blockTable text nc ns)
      (List.zipWith (D.key l) ((batchItems blockSize blockTable text nc ns).map fun it =>
        (it.behind.length : ℤ)) hiddenStates) =
      List.zipWith (fun it h => (it.slot, D.causal.entry l it.behind.length h))
        (batchItems blockSize blockTable text nc ns) hiddenStates := by
    apply List.ext_getElem?
    intro k
    simp only [List.getElem?_zipWith, List.getElem?_map]
    cases (batchItems blockSize blockTable text nc ns)[k]? <;> cases hiddenStates[k]? <;> rfl
  simp only [hstore]
  congr 2
  apply List.ext_getElem?
  intro k
  simp only [List.getElem?_zipWith, List.getElem?_map]
  cases (batchItems blockSize blockTable text nc ns)[k]? <;> cases hiddenStates[k]? <;> rfl

theorem length_run (n : ℕ) (items : List (Item TokenId (ℕ × ℕ))) (kvCaches : ℕ → ℕ × ℕ → K) :
    (D.causal.run items kvCaches n).1.length = items.length := by
  induction n with
  | zero => exact List.length_map _
  | succ n ih =>
    rw [run, layer, List.length_zipWith, ih, Nat.min_self]

/-- **A forward pass over the paged cache** is a batch of the model. -/
theorem DecoderModel.forward_eq_run (h : Feeds blockSize blockTable text nc ns inputs) (hbs : 0 < blockSize)
    (kvCaches : ℕ → ℕ × ℕ → K) : D.forward blockSize blockTable inputs kvCaches =
      .ok (D.causal.run (batchItems blockSize blockTable text nc ns) kvCaches D.numLayers) := by
  unfold DecoderModel.forward
  generalize D.numLayers = n
  induction n with
  | zero =>
    rw [DecoderModel.layers, h.inputIds_eq, List.map_map]
    rfl
  | succ n ih =>
    have hlen : (D.causal.run (batchItems blockSize blockTable text nc ns) kvCaches n).1.length = ns.sum := by
      rw [length_run, length_batchItems]
    rw [DecoderModel.layers, ih, ok_bind]
    simp only [DecoderModel.decoderLayer_eq h hbs hlen, ok_bind]
    rfl

end Batch

end SpaceServe
