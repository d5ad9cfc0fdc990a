import SpaceServe.KVCache.ExtraKeys
import SpaceServe.KVCache.Allocate

/-!
# Hashing block by block

A request is hashed in one go when it is admitted; the blocks that its generated tokens complete are
hashed one at a time by `_cache_full_blocks`, which looks at the last image only.

* `lastKeys`: the extra keys of a block hashed later; `newBlockHash_eq`;
* `cacheAsGenerated`: tokens are generated and the blocks they complete are cached;
  **`cacheAsGenerated_spec`**: the chain that results;
* `LastOnly`: a block is behind the last image, reaches into no other, and does not start where it
  ends; `batchKeys_eq_lastKeys_iff`: exactly then the two ways find the same keys;
* **`incremental_eq_batch_iff`**: the hashes agree with those computed in one go exactly if every
  block hashed later is such a block.
-/

set_option autoImplicit false

namespace SpaceServe

open Py

/-! ## The keys of one block -/

section Keys

/-- The extra keys of a block that is hashed later, from the last image. -/
def lastKeys (r : Request) (a b : ℕ) : Option (List String) :=
  match r.mmItems.getLast? with
  | none => none
  | some (last, mmHash) =>
    if last.offset + last.length < a then none
    else some (if last.offset < b then [mmHash] else [])

variable {r : Request} {a b : ℕ}

theorem getLast?_mmItems (hlen : r.mmPositions.length = r.mmHashes.length) :
    r.mmItems.getLast?.map Prod.fst = r.mmPositions.getLast? := by
  rw [← List.getLast?_map, Request.mmItems, List.map_fst_zip (by omega)]

theorem extraKeysLoop_single {last : PlaceholderRange} {mmHash : String} (m : ℤ)
    (hend : ¬ last.offset + last.length < a) :
    (extraKeysLoop a b [(last, mmHash)] m []).1 = if last.offset < b then [mmHash] else [] := by
  simp only [extraKeysLoop, if_neg hend, List.nil_append]
  split_ifs <;> rfl

/-- With the index `-1` only the last image is looked at. -/
theorem generateBlockHashExtraKeys_last (hlen : r.mmPositions.length = r.mmHashes.length) :
    ∃ m, generateBlockHashExtraKeys r a b (-1) = .ok (lastKeys r a b, m) := by
  unfold generateBlockHashExtraKeys lastKeys
  have hlast := getLast?_mmItems hlen
  cases hitem : r.mmItems.getLast? with
  | none =>
    rw [hitem] at hlast
    rw [← hlast]
    exact ⟨_, rfl⟩
  | some item =>
    obtain ⟨last, mmHash⟩ := item
    rw [hitem] at hlast
    obtain ⟨init, hinit⟩ := List.getLast?_eq_some_iff.mp hitem
    have hsize : init.length + 1 = r.mmHashes.length := by
      have := congrArg List.length hinit
      rw [Request.mmItems, List.length_zip, List.length_append, List.length_singleton] at this
      omega
    have hdrop : r.mmItems.drop ((r.mmHashes.length : ℤ) + -1).toNat = [(last, mmHash)] := by
      rw [show ((r.mmHashes.length : ℤ) + -1).toNat = init.length by omega, hinit, List.drop_left]
    rw [← hlast]
    simp only [Option.map_some, ne_eq, hlen, not_true_eq_false, if_false]
    by_cases hbehind : last.offset + last.length < a
    · exact ⟨-1, by rw [if_pos hbehind, if_pos hbehind]⟩
    · rw [if_neg hbehind, if_neg hbehind, if_neg (by omega)]
      rw [if_pos (show (-1 : ℤ) < 0 by decide), ← Request.mmItems, hdrop,
        extraKeysLoop_single _ hbehind]
      exact ⟨_, rfl⟩

/-- A block that the last image alone decides: it is behind the last image; or the last image reaches
into it and every other image ends before it; or it ends before the last image and no image reaches
into it. -/
def LastOnly (poss : List PlaceholderRange) (a b : ℕ) : Prop :=
  ∀ last, poss.getLast? = some last → last.offset + last.length < a ∨
    (last.Meets a b ∧ ∀ pos ∈ poss.dropLast, pos.passed ≤ a) ∨
    (b ≤ last.offset ∧ ∀ pos ∈ poss, ¬ pos.Meets a b)

/-- **The two ways find the same keys** in exactly these blocks. -/
theorem batchKeys_eq_lastKeys_iff (hsep : Separated r.mmPositions)
    (hlen : r.mmPositions.length = r.mmHashes.length) :
    batchKeys r a b = lastKeys r a b ↔ LastOnly r.mmPositions a b := by
  have hlast := getLast?_mmItems hlen
  unfold batchKeys lastKeys LastOnly
  cases hitem : r.mmItems.getLast? with
  | none =>
    rw [hitem] at hlast
    simp [← hlast]
  | some item =>
    obtain ⟨last, mmHash⟩ := item
    rw [hitem, Option.map_some] at hlast
    obtain ⟨init, hinit⟩ := List.getLast?_eq_some_iff.mp hitem
    have hposs : r.mmPositions = init.map Prod.fst ++ [last] := by
      have := congrArg (List.map Prod.fst) hinit
      rwa [Request.mmItems, List.map_fst_zip (by omega), List.map_append, List.map_singleton] at this
    rw [Separated, hposs] at hsep
    have hbefore : ∀ item ∈ init, item.1.offset + item.1.length ≤ last.offset := fun item hi =>
      (List.pairwise_append.mp hsep).2.2 _ (List.mem_map_of_mem hi) last (by simp)
    have hkeys : keysIn r.mmItems a b =
        keysIn init a b ++ if last.Meets a b then [mmHash] else [] := by
      rw [hinit, keysIn, List.filter_append, List.map_append, ← keysIn]
      by_cases hm : last.Meets a b
      · simp [hm]
      · simp [hm]
    have hnil : keysIn init a b = [] ↔ ∀ item ∈ init, ¬ item.1.Meets a b := by
      simp [keysIn, List.filter_eq_nil_iff]
    rw [← hlast]
    simp only [Option.some.injEq, forall_eq', hposs, List.dropLast_concat]
    by_cases hbehind : last.offset + last.length < a
    · simp [hbehind]
    · rw [if_neg hbehind, if_neg hbehind, Option.some.injEq, hkeys, or_iff_right hbehind]
      have hpassed := last.offset_lt_passed
      by_cases hoff : last.offset < b
      · rw [if_pos hoff]
        have hothers : (∀ item ∈ init, ¬ item.1.Meets a b) ↔
            ∀ pos ∈ init.map Prod.fst, pos.passed ≤ a := by
          simp only [List.forall_mem_map, PlaceholderRange.Meets, not_and, not_lt]
          refine forall₂_congr fun item hi => ⟨fun h => h ?_, fun h _ => h⟩
          have := hbefore item hi
          omega
        rw [or_iff_left (fun h => absurd h.1 (Nat.not_le.mpr hoff)), ← hothers, ← hnil]
        by_cases hm : last.Meets a b
        · simp [hm]
        · have hpa : last.passed ≤ a := Nat.le_of_not_lt fun h => hm ⟨hoff, h⟩
          have hinitnil : keysIn init a b = [] := keysIn_eq_nil fun item hi hmeet => by
            have h1 := Separated.passed_le (hbefore item hi)
            have h2 := hmeet.2
            omega
          simp [hm, hinitnil]
      · have hm : ¬ last.Meets a b := fun h => hoff h.1
        rw [if_neg hoff, if_neg hm, List.append_nil, hnil]
        simp only [hm, false_and, false_or, Nat.le_of_not_lt hoff, true_and, List.forall_mem_append,
          List.forall_mem_map, List.forall_mem_singleton, not_false_eq_true, and_true]

end Keys

/-! ## Blocks completed by generated tokens -/

section Generated

variable (p : KVCacheParams)

/-- Tokens are generated, and the block that they complete is cached, one block after the other. -/
def cacheAsGenerated : List (List TokenId × ℕ) → Option ℕ → KVCacheManager → Request →
    Except Exn (KVCacheManager × Request)
  | [], _, kv, request => .ok (kv, request)
  | (tokens, b) :: rest, prevBlock, kv, request => do
    let request := tokens.foldl Request.appendOutputTokenIds request
    let (kv, request) ← kv.cacheFullBlocks p request request.kvBlockHashes.length [b] prevBlock
    cacheAsGenerated rest (some b) kv request

/-- With `j` blocks hashed and `n` tokens, each step completes the next block. -/
def Completes : ℕ → ℕ → List (List TokenId × ℕ) → Prop
  | _, _, [] => True
  | j, n, (tokens, _) :: rest =>
    (j + 1) * p.blockSize ≤ n + tokens.length ∧ Completes (j + 1) (n + tokens.length) rest

theorem foldl_appendOutputTokenIds (tokens : List TokenId) (r : Request) :
    tokens.foldl Request.appendOutputTokenIds r =
      { r with outputTokenIds := r.outputTokenIds ++ tokens } := by
  induction tokens generalizing r with
  | nil => simp
  | cons t tokens ih =>
    rw [List.foldl_cons, ih]
    simp [Request.appendOutputTokenIds]

variable {p}

/-- One new full block is hashed with the keys of the last image. -/
theorem cacheFullBlocks_single {kv : KVCacheManager} {r : Request} {b : ℕ} {prevBlock : Option ℕ}
    {prev : Option ℤ} (hlen : r.mmPositions.length = r.mmHashes.length)
    (hnone : kv.hashOf b = none) (hprev : kv.prevHashValue prevBlock = .ok prev)
    (hfull : (r.kvBlockHashes.length + 1) * p.blockSize ≤ r.numTokens) :
    kv.cacheFullBlocks p r r.kvBlockHashes.length [b] prevBlock =
      .ok (kv.cacheBlock b (hashBlockTokens p.hash prev (slice r.allTokenIds
          (r.kvBlockHashes.length * p.blockSize) ((r.kvBlockHashes.length + 1) * p.blockSize))
          (lastKeys r (r.kvBlockHashes.length * p.blockSize)
            ((r.kvBlockHashes.length + 1) * p.blockSize))),
        r.appendKvBlockHashes (hashBlockTokens p.hash prev (slice r.allTokenIds
          (r.kvBlockHashes.length * p.blockSize) ((r.kvBlockHashes.length + 1) * p.blockSize))
          (lastKeys r (r.kvBlockHashes.length * p.blockSize)
            ((r.kvBlockHashes.length + 1) * p.blockSize)))) := by
  have hblock : (kv.blocks b).blockHash = none := hnone
  have hsl : (slice r.allTokenIds (r.kvBlockHashes.length * p.blockSize)
      ((r.kvBlockHashes.length + 1) * p.blockSize)).length = p.blockSize := by
    rw [length_slice, Nat.succ_mul, Nat.add_sub_cancel_left]
    rw [Nat.succ_mul, Request.numTokens] at hfull
    omega
  obtain ⟨m, hkeys⟩ := generateBlockHashExtraKeys_last (r := r)
    (a := r.kvBlockHashes.length * p.blockSize)
    (b := (r.kvBlockHashes.length + 1) * p.blockSize) hlen
  simp [KVCacheManager.cacheFullBlocks, hprev, KVCacheManager.skipCached, hblock,
    KVCacheManager.cacheLoop, assert_of, KVCacheManager.blockHashAt, KVCacheManager.newBlockHash,
    hsl, hkeys]

/-- Later tokens do not change the hashes of full blocks. -/
theorem map_keyedHash_append {ts us : List TokenId} {j : ℕ} {keys : ℕ → Option (List String)}
    (hash : HashInput → ℤ) {bs : ℕ} (h : j * bs ≤ ts.length) :
    (List.range j).map (keyedHash hash bs (ts ++ us) keys) =
      (List.range j).map (keyedHash hash bs ts keys) := by
  refine List.map_congr_left fun i hi => keyedHash_congr hash bs fun i' hi' => ⟨?_, rfl⟩
  have hlt := List.mem_range.mp hi
  have hle : (i' + 1) * bs ≤ j * bs := Nat.mul_le_mul_right bs (by omega)
  exact slice_append_of_le (by omega)

/-- The chain that has been hashed so far, with the value that the next block is chained to. -/
structure HashedTo (p : KVCacheParams) (kv : KVCacheManager) (r : Request)
    (keys : ℕ → Option (List String)) (prevBlock : Option ℕ) : Prop where
  matching : r.mmPositions.length = r.mmHashes.length
  full : r.kvBlockHashes.length * p.blockSize ≤ r.numTokens
  hashes : r.kvBlockHashes = (List.range r.kvBlockHashes.length).map
    (keyedHash p.hash p.blockSize r.allTokenIds keys)
  prev : kv.prevHashValue prevBlock =
    .ok (keyedParent p.hash p.blockSize r.allTokenIds keys r.kvBlockHashes.length)

section Steps

variable {kv : KVCacheManager} {r : Request} {keys : ℕ → Option (List String)}
  {prevBlock : Option ℕ}

theorem keyedParent_append {ts us : List TokenId} {j : ℕ} {hash : HashInput → ℤ} {bs : ℕ}
    (h : j * bs ≤ ts.length) :
    keyedParent hash bs (ts ++ us) keys j = keyedParent hash bs ts keys j := by
  cases j with
  | zero => rfl
  | succ j =>
    have hmap : (List.range (j + 1)).map (keyedHash hash bs (ts ++ us) keys) =
      (List.range (j + 1)).map (keyedHash hash bs ts keys) := map_keyedHash_append hash h
    have := List.map_inj_left.mp hmap j (List.mem_range.mpr (Nat.lt_succ_self j))
    simp only [keyedParent, this]

/-- Generated tokens leave the chain. -/
theorem HashedTo.generate (h : HashedTo p kv r keys prevBlock) (tokens : List TokenId) :
    HashedTo p kv { r with outputTokenIds := r.outputTokenIds ++ tokens } keys prevBlock := by
  have htok : Request.allTokenIds { r with outputTokenIds := r.outputTokenIds ++ tokens } =
      r.allTokenIds ++ tokens := by
    simp [Request.allTokenIds]
  have hfull : r.kvBlockHashes.length * p.blockSize ≤ r.allTokenIds.length := h.full
  refine ⟨h.matching, ?_, ?_, ?_⟩
  · rw [Request.numTokens, htok, List.length_append]
    exact Nat.le_add_right_of_le h.full
  · rw [htok, map_keyedHash_append p.hash hfull]
    exact h.hashes
  · rw [htok, keyedParent_append hfull]
    exact h.prev

/-- **One block** is hashed with the keys of the last image and continues the chain. -/
theorem HashedTo.cache (h : HashedTo p kv r keys prevBlock) {b : ℕ} (hnone : kv.hashOf b = none)
    (hfull : (r.kvBlockHashes.length + 1) * p.blockSize ≤ r.numTokens)
    (hkeys : keys r.kvBlockHashes.length = lastKeys r (r.kvBlockHashes.length * p.blockSize)
      ((r.kvBlockHashes.length + 1) * p.blockSize)) :
    ∃ kv' x, kv.cacheFullBlocks p r r.kvBlockHashes.length [b] prevBlock =
        .ok (kv', r.appendKvBlockHashes x) ∧
      HashedTo p kv' (r.appendKvBlockHashes x) keys (some b) ∧
      ∀ c, c ≠ b → kv'.hashOf c = kv.hashOf c := by
  have hcache := cacheFullBlocks_single h.matching hnone h.prev hfull
  rw [← hkeys, ← keyedHash_eq] at hcache
  refine ⟨_, _, hcache, ⟨h.matching, ?_, ?_, ?_⟩, fun c hc => ?_⟩
  · rw [Request.appendKvBlockHashes, Request.setKvBlockHashes_kvBlockHashes, List.length_append,
      List.length_singleton]
    exact hfull
  · simp only [Request.appendKvBlockHashes, Request.setKvBlockHashes_kvBlockHashes,
      List.length_append, List.length_singleton, List.range_succ, List.map_append, List.map_singleton]
    exact congrArg (· ++ _) h.hashes
  · have hb : ((kv.cacheBlock b (keyedHash p.hash p.blockSize r.allTokenIds keys
        r.kvBlockHashes.length)).blocks b).blockHash = some (keyedHash p.hash p.blockSize
          r.allTokenIds keys r.kvBlockHashes.length) := by
      have := KVCacheManager.cacheBlock_hashOf kv b b (keyedHash p.hash p.blockSize
        r.allTokenIds keys r.kvBlockHashes.length)
      rwa [if_pos rfl] at this
    rw [KVCacheManager.prevHashValue, hb]
    simp only [Request.appendKvBlockHashes, Request.setKvBlockHashes_kvBlockHashes,
      List.length_append, List.length_singleton, keyedParent]
    rfl
  · rw [KVCacheManager.cacheBlock_hashOf, if_neg hc]

end Steps

/-- **All blocks**, one after the other. -/
theorem cacheAsGenerated_spec {keys : ℕ → Option (List String)} :
    ∀ {steps : List (List TokenId × ℕ)} {kv : KVCacheManager} {r : Request} {prevBlock : Option ℕ},
    HashedTo p kv r keys prevBlock → (steps.map Prod.snd).Nodup →
    (∀ b ∈ steps.map Prod.snd, kv.hashOf b = none) →
    Completes p r.kvBlockHashes.length r.numTokens steps →
    (∀ j, r.kvBlockHashes.length ≤ j →
      keys j = lastKeys r (j * p.blockSize) ((j + 1) * p.blockSize)) →
    ∃ kv' r' prevBlock', cacheAsGenerated p steps prevBlock kv r = .ok (kv', r') ∧
      HashedTo p kv' r' keys prevBlock' ∧
      r'.allTokenIds = r.allTokenIds ++ (steps.map Prod.fst).flatten ∧
      r'.mmPositions = r.mmPositions ∧ r'.mmHashes = r.mmHashes ∧
      r'.kvBlockHashes.length = r.kvBlockHashes.length + steps.length
  | [], kv, r, prevBlock, h, _, _, _, _ => ⟨kv, r, prevBlock, rfl, h, by simp, rfl, rfl, rfl⟩
  | (tokens, b) :: steps, kv, r, prevBlock, h, hnd, hnone, hcomp, hkeys => by
    obtain ⟨hfull, hcomp'⟩ := hcomp
    rw [List.map_cons, List.nodup_cons] at hnd
    have htok : Request.allTokenIds { r with outputTokenIds := r.outputTokenIds ++ tokens } =
        r.allTokenIds ++ tokens := by
      simp [Request.allTokenIds]
    have hnum : Request.numTokens { r with outputTokenIds := r.outputTokenIds ++ tokens } =
        r.numTokens + tokens.length := by
      rw [Request.numTokens, htok, List.length_append]
      rfl
    obtain ⟨kv₁, x, hcache, h₁, hframe⟩ := (h.generate tokens).cache (hnone b (by simp))
      (by rw [hnum]; exact hfull) (hkeys _ (Nat.le_refl _))
    have hlen₁ : (Request.appendKvBlockHashes
        { r with outputTokenIds := r.outputTokenIds ++ tokens } x).kvBlockHashes.length =
          r.kvBlockHashes.length + 1 := by
      simp [Request.appendKvBlockHashes]
    obtain ⟨kv', r', prevBlock', hrun, h', htok', hpos', hhash', hlen'⟩ := cacheAsGenerated_spec h₁
      hnd.2 (fun c hc => by
        rw [hframe c fun he => hnd.1 (he ▸ hc)]
        exact hnone c (List.mem_cons_of_mem _ hc))
      (by rw [hlen₁]; exact hnum ▸ hcomp')
      (fun j hj => hkeys j (by omega))
    refine ⟨kv', r', prevBlock', ?_, h', ?_, hpos', hhash', ?_⟩
    · rw [cacheAsGenerated]
      simp only [foldl_appendOutputTokenIds]
      erw [hcache]
      exact hrun
    · rw [htok']
      change Request.allTokenIds { r with outputTokenIds := r.outputTokenIds ++ tokens } ++ _ = _
      rw [htok, List.map_cons, List.flatten_cons, List.append_assoc]
    · rw [hlen', hlen₁, List.length_cons]
      omega

end Generated

/-! ## The two ways compared -/

/-- The hashes of a request whose later blocks are cached as they are completed are those computed
in one go on the same tokens. -/
def AgreesWithBatch (p : KVCacheParams) (steps : List (List TokenId × ℕ)) (prevBlock : Option ℕ)
    (kv : KVCacheManager) (r : Request) : Prop :=
  ∀ kv' r', cacheAsGenerated p steps prevBlock kv r = .ok (kv', r') →
    hashRequestTokens p.hash p.blockSize r' = .ok r'.kvBlockHashes

/-- Chains over the same tokens are equal exactly if their keys are. -/
theorem map_keyedHash_inj (hash : HashInput → ℤ) (bs : ℕ) (ts : List TokenId)
    (keys keys' : ℕ → Option (List String)) (n : ℕ) :
    (List.range n).map (keyedHash hash bs ts keys) =
        (List.range n).map (keyedHash hash bs ts keys') ↔ ∀ j < n, keys j = keys' j := by
  constructor
  · intro h j hj
    have := List.map_inj_left.mp h j (List.mem_range.mpr hj)
    simpa using congrArg BlockHashType.extraKeys this
  · intro h
    refine List.map_congr_left fun j hj => keyedHash_congr hash bs fun i hi => ⟨rfl, h i ?_⟩
    have := List.mem_range.mp hj
    omega

/-- The keys in use: those found in one go for the first `k` blocks, then those of the last image. -/
def mixedKeys (r : Request) (bs k j : ℕ) : Option (List String) :=
  if j < k then batchKeys r (j * bs) ((j + 1) * bs) else lastKeys r (j * bs) ((j + 1) * bs)

/-- A request that was just hashed in one go. -/
theorem hashedTo_admitted {p : KVCacheParams} {r : Request} {kv : KVCacheManager}
    {prevBlock : Option ℕ} (hlen : r.mmPositions.length = r.mmHashes.length)
    {hs : List BlockHashType} (hhs : hs = (List.range (r.numTokens / p.blockSize)).map
      (keyedHash p.hash p.blockSize r.allTokenIds fun j =>
        batchKeys r (j * p.blockSize) ((j + 1) * p.blockSize)))
    (hprev : kv.prevHashValue prevBlock = .ok (prevValue hs hs.length)) :
    HashedTo p kv (r.setKvBlockHashes hs)
      (mixedKeys r p.blockSize (r.numTokens / p.blockSize)) prevBlock := by
  have hk : hs.length = r.numTokens / p.blockSize := by simp [hhs]
  have hhs' : hs = (List.range hs.length).map (keyedHash p.hash p.blockSize r.allTokenIds
      (mixedKeys r p.blockSize (r.numTokens / p.blockSize))) := by
    rw [hk]
    refine hhs.trans ((map_keyedHash_inj _ _ _ _ _ _).mpr fun j hj => ?_)
    rw [mixedKeys, if_pos hj]
  refine ⟨hlen, ?_, hhs', ?_⟩
  · change hs.length * p.blockSize ≤ r.numTokens
    rw [hk]
    exact Nat.div_mul_le_self _ _
  · rw [hprev]
    change _ = Except.ok (keyedParent p.hash p.blockSize r.allTokenIds _ hs.length)
    congr 1
    cases hn : hs.length with
    | zero => rfl
    | succ j =>
      rw [prevValue, keyedParent, hhs', hn]
      simp

/-- **Block by block and in one go give the same hashes exactly if every later block is decided by
the last image alone.** -/
theorem incremental_eq_batch_iff (p : KVCacheParams) {r r₁ : Request} {kv : KVCacheManager}
    {prevBlock : Option ℕ} {steps : List (List TokenId × ℕ)}
    (hsep : Separated r.mmPositions) (hlen : r.mmPositions.length = r.mmHashes.length)
    (hnew : r.kvBlockHashes = []) (hens : KVCacheManager.ensureKvBlockHashes p r = .ok r₁)
    (hprev : kv.prevHashValue prevBlock =
      .ok (prevValue r₁.kvBlockHashes r₁.kvBlockHashes.length))
    (hnd : (steps.map Prod.snd).Nodup) (hnone : ∀ b ∈ steps.map Prod.snd, kv.hashOf b = none)
    (hcomp : Completes p r₁.kvBlockHashes.length r₁.numTokens steps)
    (hall : (r₁.numTokens + (steps.map Prod.fst).flatten.length) / p.blockSize =
      r₁.kvBlockHashes.length + steps.length) :
    (∃ res, cacheAsGenerated p steps prevBlock kv r₁ = .ok res) ∧
    (AgreesWithBatch p steps prevBlock kv r₁ ↔
      ∀ j, r₁.kvBlockHashes.length ≤ j → j < r₁.kvBlockHashes.length + steps.length →
        LastOnly r.mmPositions (j * p.blockSize) ((j + 1) * p.blockSize)) := by
  have hbatch := hashRequestTokens_keyed p.hash p.blockSize hsep hlen p.blockSize_pos
  rw [KVCacheManager.ensureKvBlockHashes, if_pos hnew, hbatch] at hens
  obtain rfl := Except.ok.inj hens
  have hto := hashedTo_admitted hlen rfl hprev
  set hs := (List.range (r.numTokens / p.blockSize)).map (keyedHash p.hash p.blockSize
    r.allTokenIds fun j => batchKeys r (j * p.blockSize) ((j + 1) * p.blockSize)) with hhs
  have hk : hs.length = r.numTokens / p.blockSize := by simp [hhs]
  have hkeys : ∀ j, hs.length ≤ j → mixedKeys r p.blockSize (r.numTokens / p.blockSize) j =
      lastKeys r (j * p.blockSize) ((j + 1) * p.blockSize) := fun j hj =>
    if_neg (by omega)
  obtain ⟨kv', r', prevBlock', hrun, hto', htok, hpos', hhash', hlen'⟩ :=
    cacheAsGenerated_spec hto hnd hnone hcomp hkeys
  refine ⟨⟨_, hrun⟩, ?_⟩
  have hn : r'.numTokens / p.blockSize = hs.length + steps.length := by
    rw [Request.numTokens, htok, List.length_append]
    exact hall
  -- the request is hashed once more, in one go
  have hagree : AgreesWithBatch p steps prevBlock kv (r.setKvBlockHashes hs) ↔
      ∀ j < hs.length + steps.length, batchKeys r (j * p.blockSize) ((j + 1) * p.blockSize) =
        mixedKeys r p.blockSize (r.numTokens / p.blockSize) j := by
    have hkeys' : ∀ j, batchKeys r' (j * p.blockSize) ((j + 1) * p.blockSize) =
        batchKeys r (j * p.blockSize) ((j + 1) * p.blockSize) := by
      intro j
      unfold batchKeys Request.mmItems
      rw [hpos', hhash']
      rfl
    have hunfold : AgreesWithBatch p steps prevBlock kv (r.setKvBlockHashes hs) ↔
        hashRequestTokens p.hash p.blockSize r' = .ok r'.kvBlockHashes := by
      refine ⟨fun h => h kv' r' hrun, fun h kv'' r'' hr => ?_⟩
      rw [hrun] at hr
      cases hr
      exact h
    rw [hunfold, ← map_keyedHash_inj p.hash p.blockSize r'.allTokenIds]
    rw [hashRequestTokens_keyed p.hash p.blockSize (hpos' ▸ hsep)
      (by rw [hpos', hhash']; exact hlen) p.blockSize_pos, hn, Except.ok.injEq]
    have hhashes := hto'.hashes
    rw [hlen'] at hhashes
    simp only [hkeys']
    rw [hhashes]
    rfl
  rw [hagree]
  change _ ↔ ∀ j, hs.length ≤ j → j < hs.length + steps.length → _
  constructor
  · intro h j hj hlt
    rw [← batchKeys_eq_lastKeys_iff hsep hlen, ← hkeys j hj]
    exact h j hlt
  · intro h j hlt
    by_cases hj : hs.length ≤ j
    · rw [hkeys j hj, batchKeys_eq_lastKeys_iff hsep hlen]
      exact h j hj hlt
    · rw [mixedKeys, if_pos (by omega)]

/-- Blocks of four tokens. -/
def fourTokenBlocks : KVCacheParams where
  blockSize := 4
  numGpuBlocks := 4
  maxModelLen := 16
  enableCaching := true
  hash := fun _ => 1
  blockSize_pos := by decide
  numGpuBlocks_pos := by decide

/-- One image in an unfinished block, which one generated token completes. -/
theorem incremental_eq_batch_iff_one_image : ∃ r₁,
    KVCacheManager.ensureKvBlockHashes fourTokenBlocks (.ofPrompt "a" [7, 7, 1] [⟨0, 2⟩]) =
      .ok r₁ ∧
    AgreesWithBatch fourTokenBlocks [([1], 0)] none (.init fourTokenBlocks) r₁ := by
  refine ⟨_, rfl, (incremental_eq_batch_iff fourTokenBlocks (by decide) (by decide) rfl
    (show KVCacheManager.ensureKvBlockHashes fourTokenBlocks
      (.ofPrompt "a" [7, 7, 1] [⟨0, 2⟩]) = _ from rfl) rfl
    (show (([([1], 0)] : List (List TokenId × ℕ)).map Prod.snd).Nodup by decide) (fun _ _ => rfl)
    ⟨by decide, trivial⟩ (by decide)).2.mpr fun j _ hj last hlast => ?_⟩
  obtain rfl : j = 0 := Nat.lt_one_iff.mp hj
  cases hlast
  exact Or.inr (Or.inl ⟨by decide, by decide⟩)

/-- The image ends where a block completed by generated tokens starts. -/
theorem not_agreesWithBatch_exact_end : ∃ r₁,
    KVCacheManager.ensureKvBlockHashes fourTokenBlocks (.ofPrompt "a" [7, 7, 7, 7] [⟨0, 4⟩]) =
      .ok r₁ ∧
    ∃ h, r₁.kvBlockHashes = [h] ∧
      ((KVCacheManager.init fourTokenBlocks).cacheBlock 0 h).prevHashValue (some 0) =
        .ok (prevValue r₁.kvBlockHashes 1) ∧
      ¬ AgreesWithBatch fourTokenBlocks [([1, 1, 1, 1], 1)] (some 0)
        ((KVCacheManager.init fourTokenBlocks).cacheBlock 0 h) r₁ := by
  refine ⟨_, rfl, _, rfl, rfl, fun hagree => ?_⟩
  have := hagree _ _ rfl
  exact absurd this (by decide +kernel)

end SpaceServe
