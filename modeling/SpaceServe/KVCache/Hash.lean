import Mathlib.Logic.Equiv.List
import SpaceServe.Request

/-!
# Block hashes

The hash chain of `vllm/v1/core/kv_cache_utils.py`: the hash of a full block covers the hash of
the block before it, its own tokens and, for multi-modal requests, extra keys.

The interpreter's `hash` is a parameter, a function on the objects the code hashes: the string
`'None'` and the tuples `(parent_block_hash, token_ids, extra_keys)`.

* `generateBlockHashExtraKeys`, `hashBlockTokens`, `hashRequestTokens`: the source functions;
* `chainHash ts j`: the hash of block `j` of a text-only token sequence; **`hashRequestTokens_text`**:
  hashing a text-only request lists its chain;
* **`chainHash_inj`**: if `hash` is injective and never `0`, equal hashes mean equal block indices
  and equal tokens up to the end of the block;
* `Chained`: the chain of any request; **`Chained.index`**: under the same assumptions the hash of a
  block tells its index; **`hashRequestTokens_cases`**.
-/

set_option autoImplicit false

namespace SpaceServe

open Py

/-- The objects passed to `hash`. -/
inductive HashInput
  | noneStr
  | tuple (parent : ℤ) (tokenIds : List TokenId) (extraKeys : Option (List String))
deriving DecidableEq

/-! ## The source functions -/

/-- The loop of `generate_block_hash_extra_keys`, over the inputs from `currMmIdx` on. -/
def extraKeysLoop (startTokenIdx endTokenIdx : ℕ) :
    List (PlaceholderRange × String) → ℤ → List String → List String × ℤ
  | [], currMmIdx, extraKeys => (extraKeys, currMmIdx)
  | (pos, mmHash) :: rest, currMmIdx, extraKeys =>
    if pos.offset < endTokenIdx then
      if pos.offset + pos.length < startTokenIdx then
        -- this block has passed the current input
        extraKeysLoop startTokenIdx endTokenIdx rest (currMmIdx + 1) extraKeys
      else if pos.offset + pos.length ≤ endTokenIdx then
        extraKeysLoop startTokenIdx endTokenIdx rest (currMmIdx + 1) (extraKeys ++ [mmHash])
      else (extraKeys ++ [mmHash], currMmIdx)
    else (extraKeys, currMmIdx)

/-- `generate_block_hash_extra_keys`. -/
def generateBlockHashExtraKeys (request : Request) (startTokenIdx endTokenIdx : ℕ)
    (startMmIdx : ℤ) : Except Exn (Option (List String) × ℤ) :=
  match request.mmPositions.getLast? with
  | none => .ok (none, startMmIdx)
  | some last =>
    if request.mmPositions.length ≠ request.mmHashes.length then
      .error (.valueError
        "The number of multi-modal positions and hashes must match. This is likely because you do not enable MM preprocessor hashing. Please set disable_mm_preprocessor_cache=False.")
    else if last.offset + last.length < startTokenIdx then .ok (none, startMmIdx)
    else if startMmIdx < 0 ∧ request.mmPositions.length < -startMmIdx then
      .error (.assertionError "")
    else
      -- a negative index counts from the last input
      let curr := if startMmIdx < 0 then request.mmPositions.length + startMmIdx else startMmIdx
      let (extraKeys, next) := extraKeysLoop startTokenIdx endTokenIdx
        ((request.mmPositions.zip request.mmHashes).drop curr.toNat) curr []
      .ok (some extraKeys, next)

/-- `hash_block_tokens`. A parent hash of `0` is falsy and counts as no parent. -/
def hashBlockTokens (hash : HashInput → ℤ) (parentBlockHash : Option ℤ) (tokenIds : List TokenId)
    (extraKeys : Option (List String)) : BlockHashType :=
  let parent := match parentBlockHash with
    | some h => if h = 0 then hash .noneStr else h
    | none => hash .noneStr
  { hashValue := hash (.tuple parent tokenIds extraKeys), tokenIds := tokenIds,
    extraKeys := extraKeys }

/-- The loop of `hash_request_tokens` over the block starts. -/
def hashRequestLoop (hash : HashInput → ℤ) (blockSize : ℕ) (request : Request) :
    List ℕ → Option ℤ → ℤ → List BlockHashType → Except Exn (List BlockHashType)
  | [], _, _, ret => .ok ret
  | start :: rest, parent, currMmIdx, ret =>
    let blockTokenIds := slice request.allTokenIds start (start + blockSize)
    if blockTokenIds.length < blockSize then .ok ret
    else do
      let (extraKeys, currMmIdx) ← (if request.mmPositions ≠ [] then
          generateBlockHashExtraKeys request start (start + blockSize) currMmIdx
        else .ok (none, currMmIdx))
      let blockHash := hashBlockTokens hash parent blockTokenIds extraKeys
      hashRequestLoop hash blockSize request rest (some blockHash.hashValue) currMmIdx
        (ret ++ [blockHash])

/-- `hash_request_tokens`. -/
def hashRequestTokens (hash : HashInput → ℤ) (blockSize : ℕ) (request : Request) :
    Except Exn (List BlockHashType) :=
  if request.mmPositions ≠ [] ∧ request.mmPositions.length ≠ request.mmHashes.length then
    .error (.valueError "The number of multi-modal positions and hashes must match.")
  else
    hashRequestLoop hash blockSize request
      ((List.range (cdiv request.numTokens blockSize)).map (· * blockSize)) none 0 []

/-! ## The chain of a text-only sequence -/

section Chain

variable (hash : HashInput → ℤ) (bs : ℕ)

/-- The hash of block `j` of the token sequence `ts`. -/
def chainHash (ts : List TokenId) : ℕ → BlockHashType
  | 0 => hashBlockTokens hash none (slice ts 0 bs) none
  | j + 1 => hashBlockTokens hash (some (chainHash ts j).hashValue)
      (slice ts ((j + 1) * bs) ((j + 2) * bs)) none

/-- The parent hash of block `j`. -/
def chainParent (ts : List TokenId) : ℕ → Option ℤ
  | 0 => none
  | j + 1 => some (chainHash hash bs ts j).hashValue

theorem chainHash_eq (ts : List TokenId) (j : ℕ) :
    chainHash hash bs ts j = hashBlockTokens hash (chainParent hash bs ts j)
      (slice ts (j * bs) ((j + 1) * bs)) none := by
  cases j with
  | zero => simp [chainHash, chainParent]
  | succ j => rfl

theorem slice_append_left {α : Type} (l m : List α) {a b : ℕ} (hb : b ≤ l.length) :
    slice (l ++ m) a b = slice l a b := by
  unfold slice
  rw [List.drop_append, List.take_append_of_le_length]
  rw [List.length_drop]
  omega

/-- The chain only depends on the tokens up to the end of the block. -/
theorem chainHash_append (ts us : List TokenId) {j : ℕ} (hj : (j + 1) * bs ≤ ts.length) :
    chainHash hash bs (ts ++ us) j = chainHash hash bs ts j := by
  induction j with
  | zero =>
    simp only [chainHash]
    rw [slice_append_left ts us (by omega)]
  | succ j ih =>
    have hle : (j + 1) * bs ≤ (j + 2) * bs := Nat.mul_le_mul_right bs (by omega)
    simp only [chainHash]
    rw [ih (hle.trans hj), slice_append_left ts us hj]

/-- The loop appends the rest of the chain. -/
theorem hashRequestLoop_text {request : Request} (ht : request.TextOnly) (hbs : 0 < bs) (m : ℤ) :
    ∀ (n k : ℕ) (ret : List BlockHashType),
      hashRequestLoop hash bs request ((List.range' k n).map (· * bs))
        (chainParent hash bs request.allTokenIds k) m ret =
      .ok (ret ++ ((List.range' k (min n (request.numTokens / bs - k))).map
        (chainHash hash bs request.allTokenIds)))
  | 0, k, ret => by simp [hashRequestLoop]
  | n + 1, k, ret => by
    have hpos : request.mmPositions = [] := ht
    rw [List.range'_succ, List.map_cons, hashRequestLoop]
    have hlen : (slice request.allTokenIds (k * bs) (k * bs + bs)).length =
        min bs (request.numTokens - k * bs) := by
      rw [length_slice]; simp [Request.numTokens]
    by_cases hk : k < request.numTokens / bs
    · have hkb : (k + 1) * bs ≤ request.numTokens :=
        (Nat.le_div_iff_mul_le hbs).mp hk
      rw [Nat.succ_mul] at hkb
      rw [if_neg (by rw [hlen]; omega)]
      simp only [hpos, ne_eq, not_true_eq_false, if_false, ok_bind]
      have he : hashBlockTokens hash (chainParent hash bs request.allTokenIds k)
          (slice request.allTokenIds (k * bs) (k * bs + bs)) none =
            chainHash hash bs request.allTokenIds k := by
        rw [chainHash_eq, Nat.succ_mul]
      rw [he]
      have ih := hashRequestLoop_text ht hbs m n (k + 1)
        (ret ++ [chainHash hash bs request.allTokenIds k])
      simp only [chainParent] at ih
      rw [ih, show min (n + 1) (request.numTokens / bs - k) =
        min n (request.numTokens / bs - (k + 1)) + 1 by omega, List.range'_succ]
      simp
    · have hkb : request.numTokens < (k + 1) * bs := (Nat.div_lt_iff_lt_mul hbs).mp (by omega)
      rw [Nat.succ_mul] at hkb
      rw [if_pos (by rw [hlen]; omega), show request.numTokens / bs - k = 0 by omega]
      simp

/-- **Hashing a text-only request lists the chain of its full blocks.** -/
theorem hashRequestTokens_text {request : Request} (ht : request.TextOnly) (hbs : 0 < bs) :
    hashRequestTokens hash bs request =
      .ok ((List.range (request.numTokens / bs)).map (chainHash hash bs request.allTokenIds)) := by
  have hpos : request.mmPositions = [] := ht
  unfold hashRequestTokens
  rw [if_neg (by simp [hpos]), List.range_eq_range', List.range_eq_range']
  have h := hashRequestLoop_text hash bs ht hbs 0 (cdiv request.numTokens bs) 0 []
  simp only [chainParent] at h
  rw [h, Nat.sub_zero, List.nil_append]
  congr 3
  have h1 : request.numTokens / bs ≤ cdiv request.numTokens bs := by
    by_contra hc
    have h2 := (Nat.le_div_iff_mul_le hbs).mp (Nat.lt_of_not_le hc)
    have h3 := le_cdiv_mul hbs request.numTokens
    rw [Nat.succ_mul] at h2
    omega
  omega

end Chain

/-! ## Injectivity -/

section Injective

variable {hash : HashInput → ℤ} {bs : ℕ} (hinj : Function.Injective hash)
  (hzero : ∀ x, hash x ≠ 0)

theorem hashBlockTokens_some (hzero : ∀ x, hash x ≠ 0) (x : HashInput) (ts : List TokenId)
    (ek : Option (List String)) :
    (hashBlockTokens hash (some (hash x)) ts ek).hashValue = hash (.tuple (hash x) ts ek) := by
  simp [hashBlockTokens, hzero x]

/-- The object whose hash block `j` carries. -/
def chainInput (hash : HashInput → ℤ) (bs : ℕ) (ts : List TokenId) : ℕ → HashInput
  | 0 => .tuple (hash .noneStr) (slice ts 0 bs) none
  | j + 1 => .tuple (chainHash hash bs ts j).hashValue (slice ts ((j + 1) * bs) ((j + 2) * bs)) none

include hzero in
theorem chainHash_hashValue (ts : List TokenId) (j : ℕ) :
    (chainHash hash bs ts j).hashValue = hash (chainInput hash bs ts j) := by
  induction j with
  | zero => rfl
  | succ j ih =>
    simp only [chainHash, chainInput]
    rw [ih, hashBlockTokens_some hzero]

theorem take_succ_block (ts : List TokenId) (j : ℕ) :
    ts.take ((j + 1) * bs) = ts.take (j * bs) ++ slice ts (j * bs) ((j + 1) * bs) := by
  rw [slice, Nat.succ_mul, Nat.add_sub_cancel_left, ← List.take_add]

include hinj hzero in
/-- **Equal block hashes stand for equal prefixes at the same block index.** -/
theorem chainHash_inj (ts us : List TokenId) :
    ∀ (i j : ℕ), (chainHash hash bs ts i).hashValue = (chainHash hash bs us j).hashValue →
      i = j ∧ ts.take ((i + 1) * bs) = us.take ((i + 1) * bs)
  | 0, 0, h => by
    rw [chainHash_hashValue hzero, chainHash_hashValue hzero] at h
    have h' := hinj h
    simp only [chainInput, HashInput.tuple.injEq] at h'
    refine ⟨rfl, ?_⟩
    simpa [slice] using h'.2.1
  | 0, j + 1, h => by
    rw [chainHash_hashValue hzero, chainHash_hashValue hzero] at h
    have h' := hinj h
    simp only [chainInput, HashInput.tuple.injEq] at h'
    rw [chainHash_hashValue hzero] at h'
    have := hinj h'.1
    cases j <;> simp [chainInput] at this
  | i + 1, 0, h => by
    rw [chainHash_hashValue hzero, chainHash_hashValue hzero] at h
    have h' := hinj h
    simp only [chainInput, HashInput.tuple.injEq] at h'
    rw [chainHash_hashValue hzero] at h'
    have := hinj h'.1
    cases i <;> simp [chainInput] at this
  | i + 1, j + 1, h => by
    rw [chainHash_hashValue hzero, chainHash_hashValue hzero] at h
    have h' := hinj h
    simp only [chainInput, HashInput.tuple.injEq] at h'
    obtain ⟨rfl, ht⟩ := chainHash_inj ts us i j h'.1
    refine ⟨rfl, ?_⟩
    rw [take_succ_block ts (i + 1), take_succ_block us (i + 1), ht, h'.2.1]

end Injective

/-! ## The chain of any request -/

section Chained

variable (hash : HashInput → ℤ)

/-- The hash value that block `j` is chained to. -/
def prevValue (hs : List BlockHashType) : ℕ → Option ℤ
  | 0 => none
  | j + 1 => hs[j]?.map BlockHashType.hashValue

/-- Each hash covers the hash before it. -/
def Chained (hs : List BlockHashType) : Prop :=
  ∀ j h, hs[j]? = some h → ∃ ts ek, h = hashBlockTokens hash (prevValue hs j) ts ek

theorem chained_nil : Chained hash [] := fun j h hj => by cases hj

theorem prevValue_append {hs : List BlockHashType} {j : ℕ} (hj : j ≤ hs.length)
    (hs' : List BlockHashType) : prevValue (hs ++ hs') j = prevValue hs j := by
  cases j with
  | zero => rfl
  | succ j => simp only [prevValue, List.getElem?_append_left (show j < hs.length by omega)]

variable {hash}

theorem Chained.append {hs : List BlockHashType} (h : Chained hash hs) (ts : List TokenId)
    (ek : Option (List String)) :
    Chained hash (hs ++ [hashBlockTokens hash (prevValue hs hs.length) ts ek]) := by
  intro j x hj
  by_cases hlt : j < hs.length
  · rw [List.getElem?_append_left hlt] at hj
    rw [prevValue_append (by omega)]
    exact h j x hj
  · have hlen := (List.getElem?_eq_some_iff.mp hj).1
    rw [List.length_append, List.length_singleton] at hlen
    obtain rfl : j = hs.length := by omega
    rw [List.getElem?_concat_length] at hj
    cases hj
    exact ⟨ts, ek, by rw [prevValue_append (Nat.le_refl _)]⟩

/-- What a hash of a chain was computed from. -/
theorem Chained.parent (hzero : ∀ x, hash x ≠ 0) {hs : List BlockHashType} (h : Chained hash hs) :
    ∀ {j : ℕ} {x : BlockHashType}, hs[j]? = some x → ∃ parent ts ek,
      x.hashValue = hash (.tuple parent ts ek) ∧ (j = 0 → parent = hash .noneStr) ∧
      ∀ i, j = i + 1 → ∃ y, hs[i]? = some y ∧ parent = y.hashValue
  | 0, x, hx => by
    obtain ⟨ts, ek, rfl⟩ := h 0 x hx
    exact ⟨_, ts, ek, rfl, fun _ => rfl, fun i hi => by cases hi⟩
  | j + 1, x, hx => by
    obtain ⟨ts, ek, rfl⟩ := h (j + 1) x hx
    have hlt : j < hs.length := by
      have := (List.getElem?_eq_some_iff.mp hx).1
      omega
    have hy : hs[j]? = some hs[j] := List.getElem?_eq_getElem hlt
    obtain ⟨parent, ts', ek', hval, -⟩ := Chained.parent hzero h hy
    refine ⟨hs[j].hashValue, ts, ek, ?_, fun hj => absurd hj (Nat.succ_ne_zero j), fun i hi => ?_⟩
    · simp only [hashBlockTokens, prevValue, hy, Option.map_some, hval, if_neg (hzero _)]
    · cases hi
      exact ⟨hs[j], hy, rfl⟩

/-- **The hash of a block tells its index.** -/
theorem Chained.index (hinj : Function.Injective hash) (hzero : ∀ x, hash x ≠ 0)
    {hs us : List BlockHashType} (hhs : Chained hash hs) (hus : Chained hash us) :
    ∀ (i j : ℕ) {x y : BlockHashType}, hs[i]? = some x → us[j]? = some y →
      x.hashValue = y.hashValue → i = j := by
  intro i
  induction i with
  | zero =>
    intro j x y hx hy he
    obtain ⟨a, ts, ek, hxv, h0, -⟩ := hhs.parent hzero hx
    obtain ⟨b, us', ek', hyv, -, hs⟩ := hus.parent hzero hy
    rw [hxv, hyv] at he
    have hab : a = b := (HashInput.tuple.inj (hinj he)).1
    cases j with
    | zero => rfl
    | succ j =>
      obtain ⟨z, hz, hbz⟩ := hs j rfl
      obtain ⟨c, ts₂, ek₂, hzv, -⟩ := hus.parent hzero hz
      rw [h0 rfl, hbz, hzv] at hab
      cases hinj hab
  | succ i ih =>
    intro j x y hx hy he
    obtain ⟨a, ts, ek, hxv, -, hs⟩ := hhs.parent hzero hx
    obtain ⟨b, us', ek', hyv, h0, hs'⟩ := hus.parent hzero hy
    rw [hxv, hyv] at he
    have hab : a = b := (HashInput.tuple.inj (hinj he)).1
    obtain ⟨z, hz, haz⟩ := hs i rfl
    cases j with
    | zero =>
      obtain ⟨c, ts₂, ek₂, hzv, -⟩ := hhs.parent hzero hz
      rw [h0 rfl, haz, hzv] at hab
      cases hinj hab
    | succ j =>
      obtain ⟨z', hz', hbz⟩ := hs' j rfl
      rw [ih j hz hz' (by rw [← haz, ← hbz, hab])]

/-- The hashes of the multi-modal inputs of a request are missing. -/
def MissingHashes (request : Request) : Prop :=
  request.mmPositions.length ≠ request.mmHashes.length

theorem extraKeysLoop_le (a b : ℕ) : ∀ (l : List (PlaceholderRange × String)) (m : ℤ)
    (keys : List String), m ≤ (extraKeysLoop a b l m keys).2
  | [], m, keys => Int.le_refl _
  | (pos, x) :: l, m, keys => by
    rw [extraKeysLoop]
    split_ifs
    · exact Int.le_trans (by omega) (extraKeysLoop_le a b l (m + 1) keys)
    · exact Int.le_trans (by omega) (extraKeysLoop_le a b l (m + 1) _)
    · exact Int.le_refl _
    · exact Int.le_refl _

/-- Extra keys are found, unless the hashes are missing. -/
theorem generateBlockHashExtraKeys_cases (request : Request) (a b : ℕ) {m : ℤ} (hm : -1 ≤ m) :
    (∃ ek m', generateBlockHashExtraKeys request a b m = .ok (ek, m') ∧ (0 ≤ m → 0 ≤ m')) ∨
    (MissingHashes request ∧ ∃ msg, generateBlockHashExtraKeys request a b m =
      .error (.valueError msg)) := by
  unfold generateBlockHashExtraKeys
  cases hlast : request.mmPositions.getLast? with
  | none => exact Or.inl ⟨_, _, rfl, id⟩
  | some last =>
    simp only
    split_ifs with h1 h2 h3 h4
    · exact Or.inr ⟨h1, _, rfl⟩
    · exact Or.inl ⟨_, _, rfl, id⟩
    · have hne : request.mmPositions ≠ [] := by
        intro he
        rw [he] at hlast
        cases hlast
      have := List.length_pos_iff.mpr hne
      omega
    · exact Or.inl ⟨_, _, rfl, fun h0 => by omega⟩
    · exact Or.inl ⟨_, _, rfl, fun h0 => Int.le_trans h0 (extraKeysLoop_le _ _ _ _ _)⟩

/-- The loop of `hash_request_tokens` extends the chain. -/
theorem hashRequestLoop_cases (hash : HashInput → ℤ) {bs : ℕ} {request : Request} :
    ∀ (n : ℕ) {m : ℤ} {ret : List BlockHashType}, 0 ≤ m → Chained hash ret →
      ret.length * bs ≤ request.numTokens →
      (∃ hs, hashRequestLoop hash bs request ((List.range' ret.length n).map (· * bs))
          (prevValue ret ret.length) m ret = .ok hs ∧ Chained hash hs ∧
        hs.length * bs ≤ request.numTokens) ∨
      (MissingHashes request ∧ ∃ msg, hashRequestLoop hash bs request
        ((List.range' ret.length n).map (· * bs)) (prevValue ret ret.length) m ret =
          .error (.valueError msg))
  | 0, m, ret, _, hc, hlen => Or.inl ⟨ret, rfl, hc, hlen⟩
  | n + 1, m, ret, hm, hc, hlen => by
    rw [List.range'_succ, List.map_cons, hashRequestLoop]
    have hsl : (slice request.allTokenIds (ret.length * bs) (ret.length * bs + bs)).length =
        min bs (request.numTokens - ret.length * bs) := by
      rw [length_slice]
      simp [Request.numTokens]
    by_cases hshort : (slice request.allTokenIds (ret.length * bs)
        (ret.length * bs + bs)).length < bs
    · rw [if_pos hshort]
      exact Or.inl ⟨ret, rfl, hc, hlen⟩
    rw [if_neg hshort]
    rw [hsl] at hshort
    have hnext : (ret.length + 1) * bs ≤ request.numTokens := by
      rw [Nat.succ_mul]
      omega
    -- the extra keys, whichever way they are found
    have hkeys : (∃ ek m', (if request.mmPositions ≠ [] then generateBlockHashExtraKeys request
          (ret.length * bs) (ret.length * bs + bs) m else .ok (none, m)) = .ok (ek, m') ∧ 0 ≤ m') ∨
        (MissingHashes request ∧ ∃ msg, (if request.mmPositions ≠ [] then
          generateBlockHashExtraKeys request (ret.length * bs) (ret.length * bs + bs) m
          else .ok (none, m)) = .error (.valueError msg)) := by
      split_ifs
      · obtain ⟨ek, m', h1, h2⟩ | h := generateBlockHashExtraKeys_cases request
          (ret.length * bs) (ret.length * bs + bs) (show -1 ≤ m by omega)
        · exact Or.inl ⟨ek, m', h1, h2 hm⟩
        · exact Or.inr h
      · exact Or.inl ⟨none, m, rfl, hm⟩
    obtain ⟨ek, m', hk, hm'⟩ | ⟨hmiss, msg, hk⟩ := hkeys
    · rw [hk, ok_bind]
      have ih := hashRequestLoop_cases hash n hm' (hc.append (slice request.allTokenIds
        (ret.length * bs) (ret.length * bs + bs)) ek) (by
          rw [List.length_append, List.length_singleton]; exact hnext)
      rw [List.length_append, List.length_singleton] at ih
      simp only [prevValue, List.getElem?_concat_length, Option.map_some] at ih
      exact ih
    · rw [hk]
      exact Or.inr ⟨hmiss, msg, rfl⟩

/-- **Hashing a request** gives a chain over its full blocks, unless the hashes are missing. -/
theorem hashRequestTokens_cases (hash : HashInput → ℤ) (bs : ℕ) (request : Request) :
    (∃ hs, hashRequestTokens hash bs request = .ok hs ∧ Chained hash hs ∧
      hs.length * bs ≤ request.numTokens) ∨
    (MissingHashes request ∧ ∃ msg, hashRequestTokens hash bs request =
      .error (.valueError msg)) := by
  unfold hashRequestTokens
  split_ifs with h
  · exact Or.inr ⟨h.2, _, rfl⟩
  · rw [List.range_eq_range']
    exact hashRequestLoop_cases hash _ (Int.le_refl 0) (chained_nil hash) (by simp)

end Chained

/-! ## A hash that meets the assumptions -/

/-- The extra keys as lists of character codes. -/
def extraKeyCodes : Option (List String) → Option (List (List ℕ)) :=
  Option.map (List.map fun s => s.toList.map Char.toNat)

/-- A hash without collisions that is never `0`. -/
def pairingHash : HashInput → ℤ
  | .noneStr => 1
  | .tuple parent tokenIds extraKeys =>
    (Encodable.encode (parent, tokenIds, extraKeyCodes extraKeys) + 2 : ℕ)

theorem extraKeyCodes_injective : Function.Injective extraKeyCodes := by
  refine Option.map_injective (List.map_injective_iff.mpr fun s t h => ?_)
  have hchar : Function.Injective Char.toNat := fun a b hab => Char.ext (UInt32.toNat_inj.mp hab)
  exact String.toList_inj.mp (List.map_injective_iff.mpr hchar h)

theorem pairingHash_injective : Function.Injective pairingHash
  | .noneStr, .noneStr, _ => rfl
  | .noneStr, .tuple _ _ _, h => by simp only [pairingHash] at h; omega
  | .tuple _ _ _, .noneStr, h => by simp only [pairingHash] at h; omega
  | .tuple a ts ks, .tuple b us ls, h => by
    simp only [pairingHash] at h
    have h' := Encodable.encode_injective (Nat.add_right_cancel (Int.ofNat.inj h))
    simp only [Prod.mk.injEq] at h'
    rw [h'.1, h'.2.1, extraKeyCodes_injective h'.2.2]

theorem pairingHash_ne_zero : ∀ x, pairingHash x ≠ 0
  | .noneStr => by decide
  | .tuple _ _ _ => by simp only [pairingHash]; omega

end SpaceServe
