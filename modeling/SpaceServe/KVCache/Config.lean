import Mathlib.Data.List.Dedup
import Mathlib.Algebra.Order.Group.Unbundled.Int
import Mathlib.Algebra.Order.BigOperators.Group.List
import Mathlib.Algebra.Group.Action.Defs
import Mathlib.Tactic.Ring
import SpaceServe.Lib.Dict
import SpaceServe.Request

/-!
# Sizing the KV cache

The KV cache configuration of `vllm/v1/core/kv_cache_utils.py` for models whose layers all have
the same kind of cache, and the layer specifications of `vllm/v1/kv_cache_interface.py`.

`check_enough_kv_cache_memory` asks for the memory of one request of the model's length, but of no
more than 4096 tokens; the number of blocks is then the available memory divided by the size of a
page and by the number of layers.

* `FullAttentionSpec`, `checkEnoughKvCacheMemory`, `getKvCacheConfig`: the source functions;
* `memoryFor`: the memory that a number of tokens takes in all layers;
* `getKvCacheConfig_eq_ok`: when a configuration is accepted, and which one;
* **`serves_full_length_iff`**: an accepted configuration holds one request of full length exactly
  if the memory is enough for it, or for not even the shortened request that is checked.
-/

set_option autoImplicit false

namespace SpaceServe

open Py

/-! ## Layer specifications -/

/-- The data types a KV cache is stored in. -/
inductive TorchDtype
  | half
  | bfloat16
  | float
  | uint8
deriving DecidableEq

/-- `get_dtype_size`. -/
def TorchDtype.getDtypeSize : TorchDtype → ℕ
  | half => 2
  | bfloat16 => 2
  | float => 4
  | uint8 => 1

/-- `FullAttentionSpec`. -/
structure FullAttentionSpec where
  blockSize : ℕ
  numKvHeads : ℕ
  headSize : ℕ
  dtype : TorchDtype
deriving DecidableEq

namespace FullAttentionSpec

variable (layer : FullAttentionSpec)

/-- `page_size_bytes`. -/
def pageSizeBytes : ℕ :=
  2 * layer.blockSize * layer.numKvHeads * layer.headSize * layer.dtype.getDtypeSize

/-- `type_id`. -/
def typeId : String :=
  "full_attention_" ++ toString layer.blockSize ++ "_" ++ toString layer.pageSizeBytes

/-- `bytes_for_tokens`. -/
def bytesForTokens (numTokens : ℕ) : Except Exn ℕ :=
  if layer.blockSize = 0 then .error .zeroDivisionError
  else .ok (cdiv numTokens layer.blockSize * layer.pageSizeBytes)

end FullAttentionSpec

/-- `KVCacheSpec`: the layers by their names. -/
abbrev KVCacheSpec := Dict String FullAttentionSpec

/-- `KVCacheTensor`. -/
structure KVCacheTensor where
  size : ℤ
deriving DecidableEq

/-- `KVCacheConfig`. -/
structure KVCacheConfig where
  numBlocks : ℤ
  tensors : Dict String KVCacheTensor
  groups : List (List String)
  kvCacheSpec : KVCacheSpec

/-- What the sizing reads of `VllmConfig`. -/
structure VllmConfig where
  maxModelLen : ℕ
  blockSize : ℕ
  numGpuBlocksOverride : Option ℕ

/-! ## The source functions -/

/-- `f"{n/1024/1024/1024:.2f}"`: rounded to the nearest hundredth, ties to even. -/
def formatGb (n : ℕ) : String :=
  let q := n * 100 / 2 ^ 30
  let rest := n * 100 % 2 ^ 30
  let r := if rest < 2 ^ 29 ∨ (rest = 2 ^ 29 ∧ q % 2 = 0) then q else q + 1
  toString (r / 100) ++ "." ++ toString (r % 100 / 10) ++ toString (r % 10)

/-- `check_enough_kv_cache_memory`. -/
def checkEnoughKvCacheMemory (config : VllmConfig) (spec : KVCacheSpec) (availableMemory : ℤ) :
    Except Exn Unit :=
  if availableMemory ≤ 0 then
    .error (.valueError ("No available memory for the cache blocks. " ++
      "Try increasing `gpu_memory_utilization` when initializing the engine."))
  else do
    -- longer models are checked for a request of 4096 tokens
    let maxModelLen := if 4096 < config.maxModelLen then 4096 else config.maxModelLen
    let neededMemory ← spec.values.foldlM (fun (neededMemory : ℕ) layer => do
      let bytes ← layer.bytesForTokens maxModelLen
      .ok (neededMemory + bytes)) 0
    if availableMemory < (neededMemory : ℤ) then
      .error (.valueError ("To serve at least one request with the models's max seq len (" ++
        toString maxModelLen ++ "), (" ++ formatGb neededMemory ++
        " GB KV cache is needed, which is larger than the available KV cache memory (" ++
        formatGb availableMemory.toNat ++ " GB). Try increasing `gpu_memory_utilization` or " ++
        "decreasing `max_model_len` when initializing the engine."))
    else .ok ()

/-- `is_kv_cache_type_uniform`. -/
def isKvCacheTypeUniform (spec : KVCacheSpec) : Bool :=
  decide ((spec.values.map FullAttentionSpec.typeId).dedup.length = 1)

/-- `_get_kv_cache_config_uniform_type`. -/
def getKvCacheConfigUniformType (config : VllmConfig) (spec : KVCacheSpec)
    (availableMemory : ℤ) : Except Exn KVCacheConfig :=
  match (spec.values.map FullAttentionSpec.pageSizeBytes).dedup with
  | [pageSize] =>
    if pageSize = 0 then .error .zeroDivisionError
    else
      let numBlocks := max (availableMemory / pageSize / spec.entries.length) 0
      let numBlocks := match config.numGpuBlocksOverride with
        | some n => (n : ℤ)
        | none => numBlocks
      -- the maximum concurrency that is logged divides by the model's length
      if config.maxModelLen = 0 then .error .zeroDivisionError
      else
        .ok { numBlocks := numBlocks
              tensors := spec.mapValues fun _ _ => ⟨pageSize * numBlocks⟩
              groups := [spec.keys]
              kvCacheSpec := spec }
  | _ => .error (.assertionError "")

/-- `get_kv_cache_config`. -/
def getKvCacheConfig (config : VllmConfig) (spec : KVCacheSpec) (availableMemory : ℤ) :
    Except Exn KVCacheConfig := do
  checkEnoughKvCacheMemory config spec availableMemory
  if isKvCacheTypeUniform spec = true then getKvCacheConfigUniformType config spec availableMemory
  else .error .notImplementedError

/-! ## Uniform layers -/

theorem toDigits_inj {a b : ℕ} (h : Nat.toDigits 10 a = Nat.toDigits 10 b) : a = b := by
  have := congrArg (Nat.ofDigitChars 10 · 0) h
  simpa only [Nat.ofDigitChars_toDigits (show 1 < 10 by decide) (Nat.le_refl 10)] using this

/-- The type of a layer tells its block size and its page size. -/
theorem FullAttentionSpec.typeId_inj {a b : FullAttentionSpec} (h : a.typeId = b.typeId) :
    a.blockSize = b.blockSize ∧ a.pageSizeBytes = b.pageSizeBytes := by
  delta typeId at h
  have hl := congrArg String.toList h
  simp only [String.toList_append, List.append_assoc, List.append_cancel_left_eq] at hl
  change (Nat.repr a.blockSize).toList ++ '_' :: (Nat.repr a.pageSizeBytes).toList =
    (Nat.repr b.blockSize).toList ++ '_' :: (Nat.repr b.pageSizeBytes).toList at hl
  simp only [Nat.toList_repr] at hl
  -- no digit is an underscore
  rw [List.append_cons_inj_of_notMem (by simp) (by simp)] at hl
  exact ⟨toDigits_inj hl.1, toDigits_inj hl.2.2⟩

theorem dedup_length_eq_one {α : Type} [DecidableEq α] {l : List α} {a : α} (ha : a ∈ l) :
    l.dedup.length = 1 ↔ ∀ b ∈ l, b = a := by
  rw [List.length_eq_one_iff]
  constructor
  · rintro ⟨c, hc⟩ b hb
    rw [← List.mem_dedup, hc, List.mem_singleton] at ha hb
    rw [ha, hb]
  · intro h
    refine ⟨a, ?_⟩
    rw [show l = List.replicate l.length a from List.eq_replicate_of_mem h,
      List.replicate_dedup (List.length_pos_of_mem ha).ne']

/-- Uniform layers share their block size and their page size with the first one. -/
theorem uniform_layers {spec : KVCacheSpec} (h : isKvCacheTypeUniform spec = true) :
    ∃ first ∈ spec.values, ∀ layer ∈ spec.values,
      layer.blockSize = first.blockSize ∧ layer.pageSizeBytes = first.pageSizeBytes := by
  rw [isKvCacheTypeUniform, decide_eq_true_eq] at h
  obtain ⟨id, hid⟩ := List.length_eq_one_iff.mp h
  have hmem : id ∈ spec.values.map FullAttentionSpec.typeId := by
    rw [← List.mem_dedup, hid]
    exact List.mem_singleton_self id
  obtain ⟨first, hfirst, hid'⟩ := List.mem_map.mp hmem
  refine ⟨first, hfirst, fun layer hlayer => FullAttentionSpec.typeId_inj ?_⟩
  rw [hid']
  exact (dedup_length_eq_one hmem).mp h _ (List.mem_map_of_mem hlayer)

/-! ## What is accepted -/

/-- The memory that `numTokens` tokens take in all layers, in bytes. -/
def memoryFor (spec : KVCacheSpec) (numTokens : ℕ) : ℕ :=
  (spec.values.map fun layer => cdiv numTokens layer.blockSize * layer.pageSizeBytes).sum

/-- The length of the request whose memory is checked. -/
def checkedLen (config : VllmConfig) : ℕ := min config.maxModelLen 4096

theorem foldlM_bytesForTokens (n : ℕ) : ∀ (layers : List FullAttentionSpec) (needed : ℕ),
    (∀ layer ∈ layers, layer.blockSize ≠ 0) →
    layers.foldlM (fun (needed : ℕ) layer => do
        let bytes ← layer.bytesForTokens n
        (.ok (needed + bytes) : Except Exn ℕ)) needed =
      .ok (needed + (layers.map fun layer => cdiv n layer.blockSize * layer.pageSizeBytes).sum)
  | [], needed, _ => rfl
  | layer :: layers, needed, h => by
    rw [List.foldlM_cons, FullAttentionSpec.bytesForTokens, if_neg (h layer List.mem_cons_self)]
    simp only [ok_bind]
    rw [foldlM_bytesForTokens n layers _ fun l hl => h l (List.mem_cons_of_mem _ hl)]
    simp [Nat.add_assoc]

section Uniform

variable {config : VllmConfig} {spec : KVCacheSpec} {availableMemory : ℤ}
  {first : FullAttentionSpec} (hfirst : first ∈ spec.values)
  (hsame : ∀ layer ∈ spec.values,
    layer.blockSize = first.blockSize ∧ layer.pageSizeBytes = first.pageSizeBytes)

include hsame

theorem memoryFor_eq (n : ℕ) : memoryFor spec n =
    cdiv n first.blockSize * (first.pageSizeBytes * spec.entries.length) := by
  have hmap : spec.values.map (fun layer => cdiv n layer.blockSize * layer.pageSizeBytes) =
      List.replicate spec.values.length (cdiv n first.blockSize * first.pageSizeBytes) := by
    rw [List.eq_replicate_iff]
    refine ⟨List.length_map _, fun x hx => ?_⟩
    obtain ⟨layer, hlayer, rfl⟩ := List.mem_map.mp hx
    rw [(hsame layer hlayer).1, (hsame layer hlayer).2]
  rw [memoryFor, hmap, List.sum_replicate, smul_eq_mul, Dict.values, List.length_map]
  ring

theorem checkEnoughKvCacheMemory_eq_ok (hpage : first.pageSizeBytes ≠ 0) :
    checkEnoughKvCacheMemory config spec availableMemory = .ok () ↔
      0 < availableMemory ∧ (memoryFor spec (checkedLen config) : ℤ) ≤ availableMemory := by
  have hblock : ∀ layer ∈ spec.values, layer.blockSize ≠ 0 := by
    intro layer hlayer h0
    rw [(hsame layer hlayer).1] at h0
    exact hpage (by simp [FullAttentionSpec.pageSizeBytes, h0])
  have hlen : (if 4096 < config.maxModelLen then 4096 else config.maxModelLen) =
      checkedLen config := by
    unfold checkedLen
    split_ifs <;> omega
  unfold checkEnoughKvCacheMemory
  rw [hlen]
  simp only [foldlM_bytesForTokens _ _ _ hblock, Nat.zero_add, ok_bind]
  change (if availableMemory ≤ 0 then _ else if availableMemory <
    (memoryFor spec (checkedLen config) : ℤ) then _ else _) = _ ↔ _
  split_ifs with h1 h2
  · simp only [false_iff]
    omega
  · simp only [false_iff]
    omega
  · simp only [true_iff]
    omega

include hfirst

/-- The page sizes are one size. -/
theorem pageSizes_eq :
    (spec.values.map FullAttentionSpec.pageSizeBytes).dedup = [first.pageSizeBytes] := by
  have hmem := List.mem_map_of_mem (f := FullAttentionSpec.pageSizeBytes) hfirst
  have hone : (spec.values.map FullAttentionSpec.pageSizeBytes).dedup.length = 1 := by
    rw [dedup_length_eq_one hmem]
    intro b hb
    obtain ⟨layer, hlayer, rfl⟩ := List.mem_map.mp hb
    exact (hsame layer hlayer).2
  obtain ⟨x, hx⟩ := List.length_eq_one_iff.mp hone
  rw [← List.mem_dedup, hx, List.mem_singleton] at hmem
  rw [hx, hmem]

/-- **When a configuration is accepted**, and which one. -/
theorem getKvCacheConfig_eq_ok (huniform : isKvCacheTypeUniform spec = true)
    (hoverride : config.numGpuBlocksOverride = none) {c : KVCacheConfig} :
    getKvCacheConfig config spec availableMemory = .ok c ↔
      first.pageSizeBytes ≠ 0 ∧ config.maxModelLen ≠ 0 ∧ 0 < availableMemory ∧
      (memoryFor spec (checkedLen config) : ℤ) ≤ availableMemory ∧
      c = { numBlocks := max (availableMemory / first.pageSizeBytes / spec.entries.length) 0
            tensors := spec.mapValues fun _ _ => ⟨first.pageSizeBytes *
              max (availableMemory / first.pageSizeBytes / spec.entries.length) 0⟩
            groups := [spec.keys]
            kvCacheSpec := spec } := by
  unfold getKvCacheConfig getKvCacheConfigUniformType
  rw [bind_eq_ok, pageSizes_eq hfirst hsame, hoverride]
  simp only [huniform, if_true]
  by_cases hpage : first.pageSizeBytes = 0
  · simp [hpage]
  · simp only [if_neg hpage, checkEnoughKvCacheMemory_eq_ok hsame hpage]
    by_cases hlen : config.maxModelLen = 0
    · simp [hlen]
    · simp only [if_neg hlen, Except.ok.injEq]
      constructor
      · rintro ⟨-, hcheck, rfl⟩
        exact ⟨hpage, hlen, hcheck.1, hcheck.2, rfl⟩
      · rintro ⟨-, -, h1, h2, rfl⟩
        exact ⟨(), ⟨h1, h2⟩, rfl⟩

omit hsame in
/-- The number of blocks is the memory in pages of all layers. -/
theorem le_numBlocks_iff (hpage : first.pageSizeBytes ≠ 0) (hpos : 0 < availableMemory) (k : ℕ) :
    (k : ℤ) ≤ max (availableMemory / first.pageSizeBytes / spec.entries.length) 0 ↔
      ((k * (first.pageSizeBytes * spec.entries.length) : ℕ) : ℤ) ≤ availableMemory := by
  have hlayers : 0 < spec.entries.length := by
    have := List.length_pos_of_mem hfirst
    rwa [Dict.values, List.length_map] at this
  have hprod : (0 : ℤ) < first.pageSizeBytes * spec.entries.length :=
    Int.mul_pos (by omega) (by omega)
  rw [Int.ediv_ediv_of_nonneg (by omega), Nat.cast_mul, Nat.cast_mul]
  rw [← Int.le_ediv_iff_mul_le hprod]
  have hdiv := Int.ediv_nonneg hpos.le hprod.le
  rw [max_eq_left hdiv]

end Uniform

/-! ## One request of full length -/

/-- An accepted configuration has room for one request of full length, in the memory there is. -/
def ServesFullLength (config : VllmConfig) (spec : KVCacheSpec) (availableMemory : ℤ) : Prop :=
  ∀ c, getKvCacheConfig config spec availableMemory = .ok c →
    (∀ layer ∈ spec.values, (config.maxModelLen : ℤ) ≤ c.numBlocks * layer.blockSize ∧
      (cdiv config.maxModelLen layer.blockSize : ℤ) ≤ c.numBlocks) ∧
    (c.tensors.values.map KVCacheTensor.size).sum ≤ availableMemory

section Serves

variable {config : VllmConfig} {spec : KVCacheSpec} {availableMemory : ℤ}

/-- Memory that lies between the two needs is accepted. -/
theorem accepted_of_between {first : FullAttentionSpec}
    (hsame : ∀ layer ∈ spec.values,
      layer.blockSize = first.blockSize ∧ layer.pageSizeBytes = first.pageSizeBytes)
    (hle : (memoryFor spec (checkedLen config) : ℤ) ≤ availableMemory)
    (hlt : availableMemory < (memoryFor spec config.maxModelLen : ℤ)) :
    first.pageSizeBytes ≠ 0 ∧ config.maxModelLen ≠ 0 ∧ 0 < availableMemory := by
  rw [memoryFor_eq hsame] at hle hlt
  have hmem : 0 < cdiv config.maxModelLen first.blockSize *
      (first.pageSizeBytes * spec.entries.length) := by omega
  have hcdiv := Nat.pos_of_mul_pos_right hmem
  have hprod := Nat.pos_of_mul_pos_left hmem
  have hpage : 0 < first.pageSizeBytes := Nat.pos_of_mul_pos_right hprod
  have hblock : 0 < first.blockSize := by
    by_contra h0
    rw [FullAttentionSpec.pageSizeBytes, Nat.eq_zero_of_not_pos h0] at hpage
    simp at hpage
  have hlen : 0 < config.maxModelLen := by
    rw [lt_cdiv_iff hblock] at hcdiv
    omega
  have hchecked : 0 < cdiv (checkedLen config) first.blockSize := by
    rw [lt_cdiv_iff hblock, checkedLen]
    omega
  have := Nat.mul_pos hchecked hprod
  exact ⟨hpage.ne', hlen.ne', by omega⟩

/-- **An accepted configuration serves a request of full length exactly if the memory does.** The
shortened request decides what is accepted, so the memory may lie between the two needs. -/
theorem serves_full_length_iff (huniform : isKvCacheTypeUniform spec = true)
    (hoverride : config.numGpuBlocksOverride = none) :
    ServesFullLength config spec availableMemory ↔
      availableMemory < memoryFor spec (checkedLen config) ∨
        (memoryFor spec config.maxModelLen : ℤ) ≤ availableMemory := by
  obtain ⟨first, hfirst, hsame⟩ := uniform_layers huniform
  constructor
  · intro h
    by_contra hcon
    rw [not_or, not_lt, not_le] at hcon
    obtain ⟨hle, hlt⟩ := hcon
    obtain ⟨hpage, hlen, hpos⟩ := accepted_of_between hsame hle hlt
    have hserve := h _ ((getKvCacheConfig_eq_ok hfirst hsame huniform hoverride).mpr
      ⟨hpage, hlen, hpos, hle, rfl⟩)
    have hblocks := (hserve.1 first hfirst).2
    rw [le_numBlocks_iff hfirst hpage hpos, ← memoryFor_eq hsame] at hblocks
    omega
  · intro h c hc
    obtain ⟨hpage, hlen, hpos, hle, rfl⟩ :=
      (getKvCacheConfig_eq_ok hfirst hsame huniform hoverride).mp hc
    have hfull : (memoryFor spec config.maxModelLen : ℤ) ≤ availableMemory := by omega
    have hblock : 0 < first.blockSize := by
      by_contra h0
      exact hpage (by simp [FullAttentionSpec.pageSizeBytes, Nat.eq_zero_of_not_pos h0])
    rw [memoryFor_eq hsame, ← le_numBlocks_iff hfirst hpage hpos] at hfull
    refine ⟨fun layer hlayer => ?_, ?_⟩
    · rw [(hsame layer hlayer).1]
      refine ⟨?_, hfull⟩
      have hcover := le_cdiv_mul hblock config.maxModelLen
      have hscale := Int.mul_le_mul_of_nonneg_right hfull (Int.natCast_nonneg first.blockSize)
      rw [← Nat.cast_mul] at hscale
      exact (Int.ofNat_le.mpr hcover).trans hscale
    · -- every layer has the same tensor
      obtain ⟨k, hk⟩ := Int.eq_ofNat_of_zero_le (le_max_right
        (availableMemory / first.pageSizeBytes / spec.entries.length) 0)
      have hfits := (le_numBlocks_iff hfirst hpage hpos k).mp hk.ge
      rw [hk]
      have hsum : ((spec.mapValues fun _ _ =>
          KVCacheTensor.mk (first.pageSizeBytes * (k : ℤ))).values.map KVCacheTensor.size).sum =
            (k * (first.pageSizeBytes * spec.entries.length) : ℕ) := by
        simp only [Dict.values, Dict.mapValues, List.map_map, Function.comp_def, List.map_const',
          List.map_replicate, List.sum_replicate, nsmul_eq_mul, Nat.cast_mul]
        ring
      rw [hsum]
      exact hfits

end Serves

/-- A model of one layer with pages of 64 bytes for 16 tokens. -/
def oneLayer : KVCacheSpec := Dict.empty.set "model.layers.0.self_attn" ⟨16, 1, 1, .half⟩

/-- A model of `n` tokens with blocks of 16. -/
def modelOfLength (n : ℕ) : VllmConfig := ⟨n, 16, none⟩

theorem serves_full_length_2048 : isKvCacheTypeUniform oneLayer = true ∧
    (∃ c, getKvCacheConfig (modelOfLength 2048) oneLayer 10000 = .ok c) ∧
    ServesFullLength (modelOfLength 2048) oneLayer 10000 :=
  ⟨by decide +kernel, ⟨_, rfl⟩,
    (serves_full_length_iff (by decide +kernel) rfl).mpr (Or.inr (by decide))⟩

/-- The memory of 4096 tokens is accepted for a model of 8192. -/
theorem not_servesFullLength_8192 : ¬ ServesFullLength (modelOfLength 8192) oneLayer 16384 := by
  intro h
  have hserve := (h _ rfl).1 ⟨16, 1, 1, .half⟩ (by decide +kernel)
  exact absurd hserve.1 (by decide +kernel)

end SpaceServe
