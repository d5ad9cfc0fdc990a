import SpaceServe.BlockManager.Accounts
import SpaceServe.BlockManager.CopyOnWrite

/-!
# What a prefix cache keeps

The invariant of a `PrefixCachingBlockAllocator`, and what each of its functions does to it if it returns.

* `hashFrom`, `HashData`: every block in use has a content hash, which the memo of the block agrees with;
  **`contentHash_spec`**: `content_hash` gives it;
* `PrefixInv`: with the ids where `Accounts` says, the id of a block with a hash is cached under it, and the id of
  one without a hash is not cached;
* **`PrefixInv.allocateBlockId`**, **`PrefixInv.decrRefcountHashlessBlock`**, **`PrefixInv.freeBlockId`**,
  **`PrefixInv.attach`**, **`PrefixInv.promote`**, **`PrefixInv.cow`**, **`PrefixInv.appendTokenIds`**: the functions.
-/

set_option autoImplicit false

namespace SpaceServe

open Py

/-! ## Content hashes -/

/-- The content hash of a block, from that of the block before it. -/
def hashFrom (P : PrefixHasher) (n : ℕ) (H : PoolId → Option ℤ) (x : PrefixCachingBlock) : Option ℤ :=
  if ¬ x.block.isFull n then none
  else match x.block.prevBlock with
    | none => some (P.hashBlockTokens true (some P.noneHash) x.block.tokenIds x.extraHash)
    | some p =>
      if H p = some P.noneHash then none
      else some (P.hashBlockTokens false (H p) x.block.tokenIds x.extraHash)

/-- The blocks in use have the content hashes `H`. -/
structure HashData (P : PrefixHasher) (n : ℕ) (pool : PoolId → PrefixCachingBlock) (D : Finset PoolId)
    (H : PoolId → Option ℤ) : Prop where
  hash : ∀ o ∈ D, H o = hashFrom P n H (pool o)
  prev : ∀ o ∈ D, ∀ p, (pool o).block.prevBlock = some p → p ∈ D
  prev_full : ∀ o ∈ D, (pool o).block.isFull n = true → ∀ p, (pool o).block.prevBlock = some p →
    (pool p).block.isFull n = true
  memo : ∀ o ∈ D, (pool o).cachedContentHash = none ∨ (pool o).cachedContentHash = H o

/-- Two objects that differ in what was found out about them only. -/
def SameBlock (x y : PrefixCachingBlock) : Prop := y.block = x.block ∧ y.extraHash = x.extraHash

theorem hashFrom_congr {P : PrefixHasher} {n : ℕ} {H H' : PoolId → Option ℤ} {x y : PrefixCachingBlock}
    (hfull : y.block.isFull n = x.block.isFull n) (hprev : y.block.prevBlock = x.block.prevBlock)
    (htokens : y.block.tokenIds = x.block.tokenIds) (hextra : y.extraHash = x.extraHash)
    (hH : x.block.isFull n = true → ∀ p, x.block.prevBlock = some p → H' p = H p) :
    hashFrom P n H' y = hashFrom P n H x := by
  unfold hashFrom
  rw [hfull, hprev, htokens, hextra]
  split_ifs with hf
  · cases hp : x.block.prevBlock with
    | none => rfl
    | some p => simp only [hH hf p hp]
  · rfl

namespace HashData

variable {P : PrefixHasher} {n : ℕ} {pool pool' : PoolId → PrefixCachingBlock} {D : Finset PoolId}
  {H : PoolId → Option ℤ} {o : PoolId}

/-- Ids do not matter. -/
theorem congr (hd : HashData P n pool D H) (htokens : ∀ x ∈ D, (pool' x).block.tokenIds = (pool x).block.tokenIds)
    (hprev : ∀ x ∈ D, (pool' x).block.prevBlock = (pool x).block.prevBlock)
    (hextra : ∀ x ∈ D, (pool' x).extraHash = (pool x).extraHash)
    (hmemo : ∀ x ∈ D, (pool' x).cachedContentHash = (pool x).cachedContentHash ∨ (pool' x).cachedContentHash = H x) :
    HashData P n pool' D H := by
  have hfull : ∀ x ∈ D, (pool' x).block.isFull n = (pool x).block.isFull n := fun x hx => by
    rw [NaiveBlock.isFull, NaiveBlock.isFull, NaiveBlock.numEmptySlots, NaiveBlock.numEmptySlots, htokens x hx]
  refine ⟨fun x hx => ?_, fun x hx p hp => hd.prev x hx p ((hprev x hx).symm.trans hp), fun x hx hf p hp => ?_,
    fun x hx => ?_⟩
  · rw [hashFrom_congr (hfull x hx) (hprev x hx) (htokens x hx) (hextra x hx) fun _ _ _ => rfl]
    exact hd.hash x hx
  · rw [hprev x hx] at hp
    rw [hfull x hx] at hf
    rw [hfull p (hd.prev x hx p hp)]
    exact hd.prev_full x hx hf p hp
  · rcases hmemo x hx with heq | heq
    · rw [heq]
      exact hd.memo x hx
    · exact Or.inr heq

theorem of_eq (hd : HashData P n pool D H) (heq : ∀ x ∈ D, pool' x = pool x) : HashData P n pool' D H :=
  hd.congr (fun x hx => by rw [heq x hx]) (fun x hx => by rw [heq x hx]) (fun x hx => by rw [heq x hx])
    fun x hx => Or.inl (by rw [heq x hx])

/-- A block that is not full has no hash. -/
theorem hash_eq_none (hd : HashData P n pool D H) (ho : o ∈ D) (hfull : (pool o).block.isFull n = false) :
    H o = none := by
  rw [hd.hash o ho, hashFrom, if_pos (by rw [hfull]; exact Bool.false_ne_true)]

/-- A new block. -/
theorem insert (hd : HashData P n pool D H) (ho : o ∉ D) (hsame : ∀ x ∈ D, pool' x = pool x)
    (hmemo : (pool' o).cachedContentHash = none) (hprev : ∀ p, (pool' o).block.prevBlock = some p → p ∈ D)
    (hfull : (pool' o).block.isFull n = true → ∀ p, (pool' o).block.prevBlock = some p →
      (pool p).block.isFull n = true) :
    HashData P n pool' (insert o D) (Function.update H o (hashFrom P n H (pool' o))) := by
  have hne : ∀ x ∈ D, x ≠ o := by
    rintro x hx rfl
    exact ho hx
  have hold : ∀ x ∈ D, Function.update H o (hashFrom P n H (pool' o)) x = H x := fun x hx =>
    Function.update_of_ne (hne x hx) _ _
  refine ⟨fun x hx => ?_, fun x hx p hp => ?_, fun x hx hf p hp => ?_, fun x hx => ?_⟩
  · rcases Finset.mem_insert.mp hx with rfl | hx
    · rw [Function.update_self]
      exact (hashFrom_congr rfl rfl rfl rfl fun _ p hp => hold p (hprev p hp)).symm
    · rw [hold x hx, hsame x hx, hd.hash x hx]
      exact (hashFrom_congr rfl rfl rfl rfl fun _ p hp => hold p (hd.prev x hx p hp)).symm
  · rcases Finset.mem_insert.mp hx with rfl | hx
    · exact Finset.mem_insert_of_mem (hprev p hp)
    · rw [hsame x hx] at hp
      exact Finset.mem_insert_of_mem (hd.prev x hx p hp)
  · rcases Finset.mem_insert.mp hx with rfl | hx
    · rw [hsame p (hprev p hp)]
      exact hfull hf p hp
    · rw [hsame x hx] at hp hf
      rw [hsame p (hd.prev x hx p hp)]
      exact hd.prev_full x hx hf p hp
  · rcases Finset.mem_insert.mp hx with rfl | hx
    · exact Or.inl hmemo
    · rw [hsame x hx, hold x hx]
      exact hd.memo x hx

/-- A write to a block that was not full. The blocks behind it are not full either. -/
theorem write (hd : HashData P n pool D H) (ho : o ∈ D) {x' : PrefixCachingBlock}
    (hnot : (pool o).block.isFull n = false) (hprev : x'.block.prevBlock = (pool o).block.prevBlock)
    (hmemo : x'.cachedContentHash = (pool o).cachedContentHash)
    (hfull : ∀ p, (pool o).block.prevBlock = some p → (pool p).block.isFull n = true) :
    HashData P n (Function.update pool o x') D (Function.update H o (hashFrom P n H x')) := by
  have hself : ∀ p, (pool o).block.prevBlock = some p → p ≠ o := by
    rintro p hp rfl
    rw [hfull p hp] at hnot
    cases hnot
  -- a full block is not behind the one that is written to
  have hbehind : ∀ x ∈ D, (pool x).block.isFull n = true → ∀ p, (pool x).block.prevBlock = some p → p ≠ o := by
    rintro x hx hf p hp rfl
    rw [hd.prev_full x hx hf p hp] at hnot
    cases hnot
  refine ⟨fun x hx => ?_, fun x hx p hp => ?_, fun x hx hf p hp => ?_, fun x hx => ?_⟩
  · rcases eq_or_ne x o with rfl | hne
    · rw [Function.update_self, Function.update_self]
      exact (hashFrom_congr rfl rfl rfl rfl fun _ p hp =>
        Function.update_of_ne (hself p (hprev.symm.trans hp)) _ _).symm
    · rw [Function.update_of_ne hne, Function.update_of_ne hne, hd.hash x hx]
      exact (hashFrom_congr rfl rfl rfl rfl fun hf p hp => Function.update_of_ne (hbehind x hx hf p hp) _ _).symm
  · rcases eq_or_ne x o with rfl | hne
    · rw [Function.update_self, hprev] at hp
      exact hd.prev x hx p hp
    · rw [Function.update_of_ne hne] at hp
      exact hd.prev x hx p hp
  · rcases eq_or_ne x o with rfl | hne
    · rw [Function.update_self, hprev] at hp
      rw [Function.update_of_ne (hself p hp)]
      exact hfull p hp
    · rw [Function.update_of_ne hne] at hp hf
      rw [Function.update_of_ne (hbehind x hx hf p hp)]
      exact hd.prev_full x hx hf p hp
  · rcases eq_or_ne x o with rfl | hne
    · rw [Function.update_self, hmemo]
      rcases hd.memo x hx with heq | heq
      · exact Or.inl heq
      · rw [hd.hash_eq_none hx hnot] at heq
        exact Or.inl heq
    · rw [Function.update_of_ne hne, Function.update_of_ne hne]
      exact hd.memo x hx

end HashData

namespace PrefixCachingBlockAllocator

/-- The allocator with other objects. -/
def withPool (s : PrefixCachingBlockAllocator) (pool : PoolId → PrefixCachingBlock) : PrefixCachingBlockAllocator :=
  { s with hashless := { s.hashless with blockPool := { s.hashless.blockPool with pool } } }

/-- Hashes were found out. -/
def Hashed (s s' : PrefixCachingBlockAllocator) : Prop :=
  ∃ pool, s' = s.withPool pool ∧ ∀ x, SameBlock (s.pool x) (pool x)

variable {P : PrefixHasher} {n : ℕ} {s s' : PrefixCachingBlockAllocator} {D : Finset PoolId}
  {H : PoolId → Option ℤ} {o : PoolId} {r : Option ℤ}

theorem Hashed.block (h : Hashed s s') (x : PoolId) : s'.block x = s.block x := by
  obtain ⟨pool, rfl, hsame⟩ := h
  exact (hsame x).1

theorem Hashed.ids (h : Hashed s s') : s'.hashless.ids = s.hashless.ids :=
  funext fun x => congrArg NaiveBlock.blockId (h.block x)

theorem Hashed.extraHash (h : Hashed s s') (x : PoolId) : (s'.pool x).extraHash = (s.pool x).extraHash := by
  obtain ⟨pool, rfl, hsame⟩ := h
  exact (hsame x).2

/-- **`content_hash`** gives the content hash. -/
theorem contentHash_spec : ∀ (fuel : ℕ) {s : PrefixCachingBlockAllocator} {o : PoolId} {r : Option ℤ}
    {s' : PrefixCachingBlockAllocator}, HashData P n s.pool D H → s.hashless.blockPool.blockSize = n → o ∈ D →
    Returns (contentHash P fuel o) s r s' → r = H o ∧ HashData P n s'.pool D H ∧ Hashed s s'
  | 0, s, o, r, s', _, _, _, h => absurd h returns_throw
  | fuel + 1, s, o, r, s', hd, hsize, ho, h => by
    simp only [contentHash, returns_bind, returns_get] at h
    obtain ⟨s₀, s₁, ⟨rfl, rfl⟩, h⟩ := h
    have hrefl : Hashed s₁ s₁ := ⟨s₁.pool, rfl, fun _ => ⟨rfl, rfl⟩⟩
    rw [hsize] at h
    split_ifs at h with hmemo hfull
    · -- the hash was found out before
      obtain ⟨rfl, rfl⟩ := returns_pure.mp h
      exact ⟨(hd.memo o ho).resolve_left hmemo, hd, hrefl⟩
    · obtain ⟨prevHash, s₂, hprev, h⟩ := returns_bind.mp h
      -- the hash of the block before
      have hrec : HashData P n s₂.pool D H ∧ Hashed s₁ s₂ ∧ prevHash = match (s₁.pool o).block.prevBlock with
          | none => some P.noneHash
          | some p => H p := by
        cases hp : (s₁.pool o).block.prevBlock with
        | none =>
          rw [hp] at hprev
          obtain ⟨rfl, rfl⟩ := returns_pure.mp hprev
          exact ⟨hd, hrefl, rfl⟩
        | some p =>
          rw [hp] at hprev
          obtain ⟨heq, hd₂, hhashed⟩ := contentHash_spec fuel hd hsize (hd.prev o ho p hp) hprev
          exact ⟨hd₂, hhashed, heq⟩
      obtain ⟨hd₂, hhashed, hprevHash⟩ := hrec
      have hash := hd.hash o ho
      rw [hashFrom, if_neg (not_not.mpr hfull)] at hash
      split_ifs at h with hnone
      · obtain ⟨rfl, rfl⟩ := returns_pure.mp h
        refine ⟨?_, hd₂, hhashed⟩
        cases hp : (s₁.pool o).block.prevBlock with
        | none => exact absurd hp hnone.2
        | some p =>
          rw [hp] at hash hprevHash
          simp only at hash hprevHash
          rw [hash, if_pos (hprevHash.symm.trans hnone.1)]
      · simp only [returns_bind, returns_modify, returns_pure] at h
        obtain ⟨-, s₃, rfl, rfl, rfl⟩ := h
        have heq : some (P.hashBlockTokens (decide ((s₁.pool o).block.prevBlock = none)) prevHash
            (s₁.pool o).block.tokenIds (s₁.pool o).extraHash) = H o := by
          cases hp : (s₁.pool o).block.prevBlock with
          | none =>
            rw [hp] at hash hprevHash
            rw [hash, hprevHash]
            rfl
          | some p =>
            rw [hp] at hash hprevHash hnone
            simp only at hash hprevHash
            have hne : H p ≠ some P.noneHash := fun heq => hnone ⟨hprevHash.trans heq, Option.some_ne_none p⟩
            rw [hash, if_neg hne, hprevHash]
            rfl
        rw [heq]
        obtain ⟨pool, rfl, hsame⟩ := hhashed
        refine ⟨rfl, ?_, Function.update pool o { pool o with cachedContentHash := H o }, rfl, fun x => ?_⟩
        · show HashData P n (Function.update pool o { pool o with cachedContentHash := H o }) D H
          apply HashData.congr (show HashData P n pool D H from hd₂)
          all_goals intro x _; rcases eq_or_ne x o with rfl | hne
          all_goals first | rw [Function.update_self] | rw [Function.update_of_ne hne]
          · exact Or.inr rfl
          · exact Or.inl rfl
        · rcases eq_or_ne x o with rfl | hne
          · rw [Function.update_self]
            exact hsame x
          · rw [Function.update_of_ne hne]
            exact hsame x
    · obtain ⟨rfl, rfl⟩ := returns_pure.mp h
      refine ⟨?_, hd, hrefl⟩
      rw [hd.hash_eq_none ho (Bool.not_eq_true _ ▸ hfull)]

/-! ## The ids -/

theorem returns_onHashless {α : Type} {x : StateE (NaiveBlockAllocator PrefixCachingBlock) α} {a : α}
    (h : Returns (onHashless x) s a s') : ∃ hashless, Returns x s.hashless a hashless ∧ s' = { s with hashless } :=
  returns_zoom.mp h

theorem returns_blockIdOf {b : BlockId} (h : Returns (blockIdOf o) s b s') : s.hashless.ids o = some b ∧ s' = s := by
  simp only [blockIdOf, returns_bind, returns_get, returns_fromExcept, ofOption_eq_ok] at h
  obtain ⟨s₀, s₁, ⟨rfl, rfl⟩, hb, rfl⟩ := h
  exact ⟨hb, rfl⟩

theorem returns_getRefcount {b : BlockId} {m : ℕ} (h : Returns (getRefcount b) s m s') :
    s.hashless.refcounter.get? b = some m ∧ s' = s := by
  simp only [getRefcount, returns_bind, returns_get, returns_fromExcept] at h
  obtain ⟨s₀, s₁, ⟨rfl, rfl⟩, hm, rfl⟩ := h
  exact ⟨ofOption_eq_ok.mp hm, rfl⟩

theorem returns_incrRefcount {b : BlockId} {m : ℕ} (h : Returns (incrRefcount b) s m s') : ∃ k,
    s.hashless.refcounter.get? b = some k ∧ m = k + 1 ∧
      s' = { s with hashless := { s.hashless with refcounter := s.hashless.refcounter.set b (k + 1) } } := by
  rw [incrRefcount, returns_fromState] at h
  obtain ⟨⟨m', r⟩, hincr, h⟩ := bind_eq_ok.mp h
  cases h
  obtain ⟨k, hk, rfl, rfl⟩ := RefCounter.incr_eq_ok.mp hincr
  exact ⟨k, hk, rfl, rfl⟩

theorem returns_decrRefcount {b : BlockId} {m : ℕ} (h : Returns (decrRefcount b) s m s') :
    s.hashless.refcounter.get? b = some (m + 1) ∧
      s' = { s with hashless := { s.hashless with refcounter := s.hashless.refcounter.set b m } } := by
  rw [decrRefcount, returns_fromState] at h
  obtain ⟨⟨m', r⟩, hdecr, h⟩ := bind_eq_ok.mp h
  cases h
  obtain ⟨hm, rfl⟩ := RefCounter.decr_eq_ok.mp hdecr
  exact ⟨hm, rfl⟩

theorem returns_trackBlockId {b : BlockId} {computed : Bool} {u : Unit}
    (h : Returns (trackBlockId b computed) s u s') :
    s' = { s with blockTracker := s.blockTracker.set b ⟨true, -1, computed⟩ } := by
  rw [trackBlockId, returns_fromState] at h
  obtain ⟨t, -, h⟩ := bind_eq_ok.mp h
  obtain ⟨t', ht', h⟩ := bind_eq_ok.mp h
  cases h
  obtain ⟨-, -, ht'⟩ := bind_eq_ok.mp ht'
  cases ht'
  rfl

theorem returns_untrackBlockId {b : BlockId} {u : Unit} (h : Returns (untrackBlockId b) s u s') :
    s' = { s with blockTracker := s.blockTracker.set b ⟨false, -1, false⟩ } := by
  rw [untrackBlockId, returns_fromState] at h
  obtain ⟨t, -, h⟩ := bind_eq_ok.mp h
  obtain ⟨t', ht', h⟩ := bind_eq_ok.mp h
  cases h
  obtain ⟨-, -, ht'⟩ := bind_eq_ok.mp ht'
  cases ht'
  rfl

end PrefixCachingBlockAllocator

/-- **The invariant** of a prefix cache. The pool has the objects `L` out; those of the blocks `D` that are not of
them were freed a moment ago, by a call that frees the others too. The block `busy` is being written to. -/
structure PrefixInv (P : PrefixHasher) (n : ℕ) (all held : List BlockId) (busy : Option PoolId)
    (s : PrefixCachingBlockAllocator) (L D : Finset PoolId) (H : PoolId → Option ℤ) : Prop where
  pool : s.hashless.blockPool.Ok L
  live : L ⊆ D
  size : s.hashless.blockPool.blockSize = n
  accounts : Accounts all held s.hashless.refcounter s.hashless.freeBlockIndices s.blockTracker
    s.evictor.freeTable s.cachedBlocks s.hashless.ids D
  data : HashData P n s.pool D H
  cached : ∀ o ∈ D, busy ≠ some o → ∀ h b, H o = some h → s.hashless.ids o = some b →
    s.cachedBlocks.get? h = some b
  uncached : ∀ o ∈ D, busy ≠ some o → ∀ h b, H o = none → s.hashless.ids o = some b →
    s.cachedBlocks.get? h ≠ some b

namespace PrefixInv

open PrefixCachingBlockAllocator

variable {P : PrefixHasher} {n : ℕ} {all held held' : List BlockId} {busy busy' : Option PoolId}
  {s s' : PrefixCachingBlockAllocator} {L D : Finset PoolId} {H : PoolId → Option ℤ} {o : PoolId} {b : BlockId}
  {u : PUnit}

/-- Only hashes were found out. -/
theorem hashed (hi : PrefixInv P n all held busy s L D H) (hd : HashData P n s'.pool D H) (h : Hashed s s') :
    PrefixInv P n all held busy s' L D H := by
  have hids := h.ids
  obtain ⟨pool, rfl, -⟩ := h
  refine ⟨⟨hi.pool.nodup, hi.pool.free_lt, hi.pool.used_lt, hi.pool.not_free⟩, hi.live, hi.size, ?_, hd, ?_, ?_⟩
  · rw [hids]
    exact hi.accounts
  · rw [hids]
    exact hi.cached
  · rw [hids]
    exact hi.uncached

/-- **`content_hash`**. -/
theorem contentHashOf (hi : PrefixInv P n all held busy s L D H) (ho : o ∈ D) {r : Option ℤ}
    (h : Returns (contentHashOf P o) s r s') :
    r = H o ∧ PrefixInv P n all held busy s' L D H ∧ Hashed s s' := by
  simp only [PrefixCachingBlockAllocator.contentHashOf, returns_bind, returns_get] at h
  obtain ⟨s₀, s₁, ⟨rfl, rfl⟩, h⟩ := h
  obtain ⟨hr, hd, hhashed⟩ := contentHash_spec _ hi.data hi.size ho h
  exact ⟨hr, hi.hashed hd hhashed, hhashed⟩

/-- The object got another id. -/
def SetsId (x x' : PrefixCachingBlock) (blockId : Option BlockId) : Prop :=
  x'.block = { x.block with blockId } ∧ x'.extraHash = x.extraHash ∧ x'.cachedContentHash = x.cachedContentHash

theorem setsId (x : PrefixCachingBlock) (blockId : Option BlockId) :
    SetsId x { x with block := { x.block with blockId } } blockId := ⟨rfl, rfl, rfl⟩

theorem ids_of_pool {blockId : Option BlockId} {x' : PrefixCachingBlock} (hx' : SetsId (s.pool o) x' blockId)
    (hpool : s'.hashless.blockPool = s.hashless.blockPool.update o x') :
    s'.hashless.ids = Function.update s.hashless.ids o blockId := by
  funext x
  show (s'.hashless.blockPool.pool x).block.blockId = _
  rw [hpool]
  rcases eq_or_ne x o with rfl | hne
  · show (Function.update s.pool x x' x).block.blockId = _
    rw [Function.update_self, Function.update_self, hx'.1]
  · show (Function.update s.pool o x' x).block.blockId = _
    rw [Function.update_of_ne hne, Function.update_of_ne hne]
    rfl

/-- The id of one object was changed. -/
theorem setId (hi : PrefixInv P n all held busy s L D H) {blockId : Option BlockId} {x' : PrefixCachingBlock}
    (hx' : SetsId (s.pool o) x' blockId) (hpool : s'.hashless.blockPool = s.hashless.blockPool.update o x')
    (haccounts : Accounts all held' s'.hashless.refcounter s'.hashless.freeBlockIndices s'.blockTracker
      s'.evictor.freeTable s'.cachedBlocks (Function.update s.hashless.ids o blockId) D)
    (hcached : ∀ x ∈ D, busy' ≠ some x → ∀ h b, H x = some h →
      Function.update s.hashless.ids o blockId x = some b → s'.cachedBlocks.get? h = some b)
    (huncached : ∀ x ∈ D, busy' ≠ some x → ∀ h b, H x = none →
      Function.update s.hashless.ids o blockId x = some b → s'.cachedBlocks.get? h ≠ some b) :
    PrefixInv P n all held' busy' s' L D H := by
  have hids := ids_of_pool hx' hpool
  have hobject : ∀ x, s'.pool x = Function.update s.pool o x' x := fun x => by
    show s'.hashless.blockPool.pool x = _
    rw [hpool]
    rfl
  refine ⟨?_, hi.live, ?_, hids ▸ haccounts, ?_, hids ▸ hcached, hids ▸ huncached⟩
  · rw [hpool]
    exact hi.pool.update _
  · rw [hpool]
    exact hi.size
  · apply hi.data.congr
    all_goals intro x _; rw [hobject]; rcases eq_or_ne x o with rfl | hne
    all_goals first | rw [Function.update_self] | rw [Function.update_of_ne hne]
    · rw [hx'.1]
    · rw [hx'.1]
    · rw [hx'.2.1]
    · exact Or.inl hx'.2.2
    · exact Or.inl rfl

end PrefixInv

namespace PrefixCachingBlockAllocator

variable {s s' : PrefixCachingBlockAllocator} {D : Finset PoolId} {b : BlockId}

theorem raises_trackBlockId {computed : Bool} {e : Exn} (h : Raises (trackBlockId b computed) s e s') :
    e = .keyError ∨ e = .assertionError "" := by
  rw [trackBlockId, raises_fromState] at h
  obtain ⟨h, -⟩ := h
  cases ht : s.blockTracker.get? b with
  | none =>
    rw [ht] at h
    cases h
    exact Or.inl rfl
  | some t =>
    rw [ht, ofOption_some, ok_bind, BlockTracker.enable] at h
    by_cases hactive : t.active = false
    · rw [assert_of hactive] at h
      cases h
    · rw [assert_not hactive] at h
      cases h
      exact Or.inr rfl

/-- An id of the hashless allocator, if there is one. -/
theorem returns_maybeAllocateHashlessBlockId {r : Option BlockId} (hp : s.hashless.blockPool.Ok D)
    (h : Returns maybeAllocateHashlessBlockId s r s') :
    (∃ b rest m pool, r = some b ∧ s.hashless.freeBlockIndices = b :: rest ∧
      s.hashless.refcounter.get? b = some m ∧ pool.Ok D ∧ pool.blockSize = s.hashless.blockPool.blockSize ∧
      (∀ x ∈ D, pool.pool x = s.pool x) ∧ s' = { s with
        hashless := { s.hashless with
          freeBlockIndices := rest, refcounter := s.hashless.refcounter.set b (m + 1), blockPool := pool }
        blockTracker := s.blockTracker.set b ⟨true, -1, false⟩ }) ∨
      r = none ∧ s.hashless.freeBlockIndices = [] ∧ s' = s := by
  rw [maybeAllocateHashlessBlockId, returns_tryCatch] at h
  rcases h with h | ⟨e, s₁, hraise, h⟩
  · simp only [returns_bind, returns_get, returns_fromExcept, returns_pure, ofOption_eq_ok] at h
    obtain ⟨o, s₁, halloc, s₂, s₃, ⟨rfl, rfl⟩, v, s₄, hfreed, b, s₅, ⟨hb, rfl⟩, w, s₆, htrack, rfl, rfl⟩ := h
    obtain ⟨h₁, hmutable, rfl⟩ := returns_onHashless halloc
    obtain ⟨h₂, hobject, rfl⟩ := returns_onHashless hfreed
    simp only [NaiveBlockAllocator.allocateMutableBlock, returns_bind] at hmutable
    obtain ⟨b', h₃, hid, hinit⟩ := hmutable
    obtain ⟨rest, m, hfree, hm, rfl⟩ := NaiveBlockAllocator.returns_allocateBlockId hid
    have hp' : ({ s.hashless with freeBlockIndices := rest, refcounter := s.hashless.refcounter.set b' (m + 1) } :
        NaiveBlockAllocator PrefixCachingBlock).blockPool.Ok D := hp
    obtain ⟨ho, -, pool, rfl, hok, hsize, hpool⟩ := NaiveBlockAllocator.returns_initBlock hp' hinit
    have hbb : b' = b := by
      have hblock : (pool.pool o).block.blockId = some b := hb
      rw [hpool, Function.update_self] at hblock
      exact Option.some.inj hblock
    subst hbb
    rw [NaiveBlockAllocator.returns_freeBlock hobject] at htrack
    rw [returns_trackBlockId htrack]
    have hok' := hok.freeBlock (Finset.mem_insert_self o D)
    rw [Finset.erase_insert ho] at hok'
    refine Or.inl ⟨b', rest, m, pool.freeBlock o, rfl, hfree, hm, hok', hsize, fun x hx => ?_, rfl⟩
    have hne : x ≠ o := by
      rintro rfl
      exact ho hx
    show pool.pool x = _
    rw [hpool, Function.update_of_ne hne]
    rfl
  · -- there was none
    split_ifs at h with he
    · obtain ⟨rfl, rfl⟩ := returns_pure.mp h
      subst he
      have hraise' : Raises _ s noFreeBlocksError s' := hraise
      simp only [raises_bind, raises_get, raises_fromExcept, raises_pure, returns_get, returns_fromExcept,
        false_or, or_false, and_false, exists_false] at hraise'
      rcases hraise' with hraise' | ⟨o, s₁, halloc, s₂, s₃, ⟨rfl, rfl⟩, hraise'⟩
      · obtain ⟨h₁, hmutable, rfl⟩ := raises_zoom.mp hraise'
        rw [NaiveBlockAllocator.allocateMutableBlock, raises_bind] at hmutable
        rcases hmutable with hid | ⟨b', h₂, -, hinit⟩
        · obtain ⟨hfree, rfl⟩ := NaiveBlockAllocator.raises_allocateBlockId hid
          exact Or.inr ⟨rfl, hfree, rfl⟩
        · cases NaiveBlockAllocator.raises_initBlock hinit
      · exfalso
        rcases hraise' with hraise' | ⟨v, s₄, -, hraise' | ⟨b', s₅, -, hraise'⟩⟩
        · obtain ⟨h₁, hobject, -⟩ := raises_zoom.mp hraise'
          exact raises_modify hobject
        · cases hb : (s₃.block o).blockId with
          | none =>
            rw [hb] at hraise'
            cases hraise'.1
          | some b' =>
            rw [hb] at hraise'
            cases hraise'.1
        · rcases raises_trackBlockId hraise' with heq | heq <;> cases heq
    · exact absurd h returns_throw

/-- An id of the evictor, if there is one. -/
theorem returns_maybeAllocateEvictedBlockId {r : Option BlockId} (h : Returns maybeAllocateEvictedBlockId s r s') :
    (∃ b hash evictor x, r = some b ∧ s.evictor.freeTable.get? b = some x ∧
      evictor.freeTable = s.evictor.freeTable.pop b ∧ s.cachedBlocks.get? hash = some b ∧ s' = { s with
        hashless := { s.hashless with refcounter := s.hashless.refcounter.set b 1 }
        cachedBlocks := s.cachedBlocks.pop hash
        blockTracker := s.blockTracker.set b ⟨true, -1, false⟩
        evictor }) ∨ r = none ∧ s.evictor.numBlocks = 0 ∧ s' = s := by
  simp only [maybeAllocateEvictedBlockId, returns_bind, returns_get] at h
  obtain ⟨s₀, s₁, ⟨rfl, rfl⟩, h⟩ := h
  split_ifs at h with hzero
  · obtain ⟨rfl, rfl⟩ := returns_pure.mp h
    exact Or.inr ⟨rfl, hzero, rfl⟩
  · simp only [returns_bind, returns_fromExcept, returns_set, returns_modify, returns_pure, ofOption_eq_ok,
      assert_eq_ok] at h
    obtain ⟨⟨⟨b, hash⟩, evictor⟩, s₂, ⟨hevict, rfl⟩, -, s₃, rfl, cachedId, s₄, ⟨hcached, rfl⟩, m, s₅, hm,
      -, s₆, ⟨rfl, rfl⟩, -, s₇, ⟨hid, rfl⟩, -, s₈, rfl, k, s₉, hincr, v, s₁₀, htrack, rfl, rfl⟩ := h
    subst hid
    obtain ⟨hzero', rfl⟩ := returns_getRefcount hm
    obtain ⟨j, hj, -, rfl⟩ := returns_incrRefcount hincr
    rw [returns_trackBlockId htrack]
    obtain ⟨entry, -, hlive, hentry, -, -, hpop, -, -⟩ := LRUEvictor.evict_spec hevict
    obtain ⟨x, hx, -⟩ := LRUEvictor.isLive_iff.mp hlive
    rw [hentry] at hx
    have hjm : j = 0 := Option.some.inj (hj.symm.trans hzero')
    subst hjm
    exact Or.inl ⟨cachedId, hash, evictor, x, rfl, hx, hpop, hcached, rfl⟩

end PrefixCachingBlockAllocator

namespace PrefixInv

open PrefixCachingBlockAllocator

variable {P : PrefixHasher} {n : ℕ} {all held held' : List BlockId} {busy busy' : Option PoolId}
  {s s' : PrefixCachingBlockAllocator} {L D : Finset PoolId} {H : PoolId → Option ℤ} {o : PoolId} {b : BlockId}
  {u : PUnit}

/-- What an allocated id leaves: it was unused, it is not cached, and nothing else became cached. -/
structure Allocated (s s' : PrefixCachingBlockAllocator) (D : Finset PoolId) (b : BlockId) : Prop where
  frame : ∀ x ∈ D, s'.pool x = s.pool x
  unused : s.hashless.refcounter.get? b = some 0
  one : s'.hashless.refcounter.get? b = some 1
  uncached : ∀ h, s'.cachedBlocks.get? h ≠ some b

/-- **An id is allocated**. -/
theorem allocateBlockId (hi : PrefixInv P n all held busy s D D H)
    (h : Returns PrefixCachingBlockAllocator.allocateBlockId s b s') :
    PrefixInv P n all (b :: held) busy s' D D H ∧ Allocated s s' D b := by
  simp only [PrefixCachingBlockAllocator.allocateBlockId, returns_bind] at h
  obtain ⟨r, s₁, hhashless, h⟩ := h
  rcases returns_maybeAllocateHashlessBlockId hi.pool hhashless with
    ⟨b', rest, m, pool, rfl, hfree, hm, hok, hsize, hsame, rfl⟩ | ⟨rfl, -, rfl⟩
  · obtain ⟨rfl, rfl⟩ := returns_pure.mp h
    have hacc := hi.accounts
    rw [hfree] at hacc
    have hzero : m = 0 := by
      have hiff := ((hacc.free_iff b).mp List.mem_cons_self).1
      rw [hm] at hiff
      exact Option.some.inj hiff
    subst hzero
    have hids : ∀ x ∈ D, s.hashless.ids x = NaiveBlockAllocator.ids { s.hashless with blockPool := pool } x :=
      fun x hx => congrArg (fun y => y.block.blockId) (hsame x hx).symm
    refine ⟨⟨hok, hi.live, hsize.trans hi.size, (hacc.takeFree (t := ⟨true, -1, false⟩) hm rfl).congr hids,
      hi.data.of_eq hsame, fun x hx hbusy hash b' hH hid => ?_, fun x hx hbusy hash b' hH hid => ?_⟩, hsame, hm,
      Dict.get?_set_self _ _ _, fun hash => hacc.uncached_of_free List.mem_cons_self⟩
    · exact hi.cached x hx hbusy hash b' hH ((hids x hx).trans hid)
    · exact hi.uncached x hx hbusy hash b' hH ((hids x hx).trans hid)
  · simp only [returns_bind] at h
    obtain ⟨r, s₂, hevicted, h⟩ := h
    rcases returns_maybeAllocateEvictedBlockId hevicted with
      ⟨b', hash, evictor, x, rfl, hx, hpop, hcached, rfl⟩ | ⟨rfl, -, rfl⟩
    · obtain ⟨rfl, rfl⟩ := returns_pure.mp h
      obtain ⟨hacc, huncached⟩ := hi.accounts.takeEvicted (t := ⟨true, -1, false⟩) hx hcached rfl
      rw [← hpop] at hacc
      have hzero := (hi.accounts.evicted b x hx).1
      refine ⟨⟨hi.pool, hi.live, hi.size, hacc, hi.data, fun y hy hbusy hash' b' hH hid => ?_,
        fun y hy hbusy hash' b' hH hid hcached' => ?_⟩, fun _ _ => rfl, hzero, Dict.get?_set_self _ _ _, huncached⟩
      · have hold := hi.cached y hy hbusy hash' b' hH hid
        have hne : hash' ≠ hash := by
          rintro rfl
          rw [hcached] at hold
          rw [← Option.some.inj hold] at hid
          exact hi.accounts.not_held hzero hy hid
        rw [← hold]
        exact Dict.get?_pop_ne _ hne
      · simp only [Dict.get?_pop] at hcached'
        split_ifs at hcached'
        exact hi.uncached y hy hbusy hash' b' hH hid hcached'
    · exact absurd h returns_throw

/-! ## Giving an id back -/

/-- **The id of a block without a hash** is given back. -/
theorem decrRefcountHashlessBlock (hi : PrefixInv P n all held busy s L D H) (ho : o ∈ D)
    (hb : s.hashless.ids o = some b) (huncached : ∀ h, s.cachedBlocks.get? h ≠ some b)
    (h : Returns (PrefixCachingBlockAllocator.decrRefcountHashlessBlock o) s u s') : ∃ m,
      s.hashless.refcounter.get? b = some (m + 1) ∧ PrefixInv P n all held busy s' L D H ∧
      s'.hashless.blockPool = (s.hashless.setBlockId o none).blockPool ∧ s'.cachedBlocks = s.cachedBlocks ∧
      s'.hashless.refcounter = s.hashless.refcounter.set b m := by
  simp only [PrefixCachingBlockAllocator.decrRefcountHashlessBlock, returns_bind] at h
  obtain ⟨b', s₁, hid, m', s₂, hcount, hrest⟩ := h
  obtain ⟨hb', rfl⟩ := returns_blockIdOf hid
  have hbb : b' = b := Option.some.inj (hb'.symm.trans hb)
  subst hbb
  obtain ⟨hm', rfl⟩ := returns_getRefcount hcount
  -- the tracker, and what of the state does not depend on it
  obtain ⟨s₃, huntrack, hfreed⟩ : ∃ s₃, s₃ = (if m' = 1 then { s₂ with
      blockTracker := s₂.blockTracker.set b' ⟨false, -1, false⟩ } else s₂) ∧
      Returns (onHashless (NaiveBlockAllocator.free o true)) s₃ u s' := by
    split_ifs at hrest with hone
    · obtain ⟨v, s₃, huntrack, hfreed⟩ := returns_bind.mp hrest
      exact ⟨s₃, by rw [if_pos hone, returns_untrackBlockId huntrack], hfreed⟩
    · exact ⟨s₂, (if_neg hone).symm, by simpa [returns_bind] using hrest⟩
  have hsame : s₃.hashless = s₂.hashless := by
    rw [huntrack]
    split_ifs <;> rfl
  obtain ⟨h₁, hfree, rfl⟩ := returns_onHashless hfreed
  simp only [NaiveBlockAllocator.free, returns_bind, if_true] at hfree
  obtain ⟨v, h₂, hgive, hpure⟩ := hfree
  obtain ⟨-, rfl⟩ := returns_pure.mp hpure
  rw [hsame] at hgive
  obtain ⟨b₂, hb₂, hgive⟩ := NaiveBlockAllocator.returns_freeBlockIdOf hgive
  have hbb : b₂ = b' := Option.some.inj (hb₂.symm.trans hb)
  subst hbb
  obtain ⟨m, hm, rfl⟩ := NaiveBlockAllocator.returns_freeBlockId hgive
  change s₂.hashless.refcounter.get? b₂ = some (m + 1) at hm
  have hmm : m' = m + 1 := Option.some.inj (hm'.symm.trans hm)
  subst hmm
  have hthree : s₃.blockTracker = (if m = 0 then s₂.blockTracker.set b₂ ⟨false, -1, false⟩ else s₂.blockTracker) ∧
      s₃.evictor = s₂.evictor ∧ s₃.cachedBlocks = s₂.cachedBlocks := by
    rw [huntrack]
    by_cases hz : m = 0
    · rw [if_pos hz, if_pos (by omega)]
      exact ⟨rfl, rfl, rfl⟩
    · rw [if_neg hz, if_neg (by omega)]
      exact ⟨rfl, rfl, rfl⟩
  obtain ⟨htracker, hevictor, hcached⟩ := hthree
  refine ⟨m, hm, hi.setId (setsId (s₂.pool o) none) rfl ?_ ?_ ?_, rfl, hcached, rfl⟩
  · have hacc := hi.accounts.giveHashless (t := ⟨false, -1, false⟩) ho hb hm huncached rfl
    rw [← htracker, ← hevictor, ← hcached] at hacc
    exact hacc
  · intro x hx hbusy hash b hH hxb
    rcases eq_or_ne x o with rfl | hne
    · rw [Function.update_self] at hxb
      cases hxb
    · rw [Function.update_of_ne hne] at hxb
      show s₃.cachedBlocks.get? hash = some b
      rw [hcached]
      exact hi.cached x hx hbusy hash b hH hxb
  · intro x hx hbusy hash b hH hxb
    rcases eq_or_ne x o with rfl | hne
    · rw [Function.update_self] at hxb
      cases hxb
    · rw [Function.update_of_ne hne] at hxb
      show s₃.cachedBlocks.get? hash ≠ some b
      rw [hcached]
      exact hi.uncached x hx hbusy hash b hH hxb

/-- A block lost its id. -/
structure Freed (s s' : PrefixCachingBlockAllocator) (o : PoolId) : Prop where
  block : ∀ x, s'.block x = (s.hashless.setBlockId o none).block x
  extraHash : ∀ x, (s'.pool x).extraHash = (s.pool x).extraHash

theorem Freed.hashed {s₁ : PrefixCachingBlockAllocator} (hh : Hashed s s₁) (hf : Freed s₁ s' o) : Freed s s' o := by
  refine ⟨fun x => (hf.block x).trans ?_, fun x => (hf.extraHash x).trans (hh.extraHash x)⟩
  rcases eq_or_ne x o with rfl | hne
  · rw [NaiveBlockAllocator.block_setBlockId_self, NaiveBlockAllocator.block_setBlockId_self]
    exact congrArg (fun y : NaiveBlock => { y with blockId := none }) (hh.block x)
  · rw [NaiveBlockAllocator.block_setBlockId_ne hne, NaiveBlockAllocator.block_setBlockId_ne hne]
    exact hh.block x

theorem Freed.of_pool (hpool : s'.hashless.blockPool = (s.hashless.setBlockId o none).blockPool) : Freed s s' o := by
  refine ⟨fun x => ?_, fun x => ?_⟩
  · show Block.block (s'.hashless.blockPool.pool x) = _
    rw [hpool]
    rfl
  · show (s'.hashless.blockPool.pool x).extraHash = _
    rw [hpool]
    rcases eq_or_ne x o with rfl | hne
    · show (Function.update s.pool x _ x).extraHash = _
      rw [Function.update_self]
      rfl
    · show (Function.update s.pool o _ x).extraHash = _
      rw [Function.update_of_ne hne]

/-- **The id of a block with a hash** is given back. -/
theorem decrRefcountCachedBlock (hi : PrefixInv P n all held busy s L D H) (ho : o ∈ D) (hbusy : busy ≠ some o)
    (h : Returns (PrefixCachingBlockAllocator.decrRefcountCachedBlock P o) s u s') :
    PrefixInv P n all held busy s' L D H ∧ Freed s s' o := by
  simp only [PrefixCachingBlockAllocator.decrRefcountCachedBlock, returns_bind, returns_fromExcept,
    ofOption_eq_ok] at h
  obtain ⟨r, s₁, hhash, hash, s₂, ⟨rfl, rfl⟩, b, s₃, hid, m, s₄, hdecr, hrest⟩ := h
  obtain ⟨hH, hi₁, hhashed⟩ := hi.contentHashOf ho hhash
  obtain ⟨hb, rfl⟩ := returns_blockIdOf hid
  obtain ⟨hm, rfl⟩ := returns_decrRefcount hdecr
  have hcached := hi₁.cached o ho hbusy hash b hH.symm hb
  have hlinks : (∀ x ∈ D, busy ≠ some x → ∀ h b, H x = some h →
        Function.update s₃.hashless.ids o none x = some b → s₃.cachedBlocks.get? h = some b) ∧
      ∀ x ∈ D, busy ≠ some x → ∀ h b, H x = none →
        Function.update s₃.hashless.ids o none x = some b → s₃.cachedBlocks.get? h ≠ some b := by
    constructor
    all_goals intro x hx hxbusy hash' b' hxH hxb; rcases eq_or_ne x o with rfl | hne
    all_goals first | (rw [Function.update_self] at hxb; cases hxb) | rw [Function.update_of_ne hne] at hxb
    · exact hi₁.cached x hx hxbusy hash' b' hxH hxb
    · exact hi₁.uncached x hx hxbusy hash' b' hxH hxb
  split_ifs at hrest with hpos
  · rw [returns_modify.mp hrest]
    refine ⟨hi₁.setId (setsId (s₃.pool o) none) rfl ?_ hlinks.1 hlinks.2, (Freed.of_pool rfl).hashed hhashed⟩
    have hacc := hi₁.accounts.giveCached (x := ⟨hash, 0, 0⟩) (t := ⟨false, -1, false⟩) ho hb hm hcached rfl
    rw [if_neg (by omega), if_neg (by omega)] at hacc
    exact hacc
  · simp only [returns_bind, returns_get, returns_fromExcept, returns_set] at hrest
    obtain ⟨s₅, s₆, ⟨rfl, rfl⟩, -, s₇, ⟨-, rfl⟩, tracker, s₈, ⟨-, rfl⟩, -, s₉, rfl, v, s₁₀, huntrack, hset⟩ := hrest
    rw [returns_modify.mp hset, returns_untrackBlockId huntrack]
    have hz : m = 0 := by omega
    refine ⟨hi₁.setId (setsId (s₃.pool o) none) rfl ?_ hlinks.1 hlinks.2, (Freed.of_pool rfl).hashed hhashed⟩
    have hacc := hi₁.accounts.giveCached (t := ⟨false, -1, false⟩)
      (x := ⟨hash, (s₃.pool o).cachedNumTokensTotal, tracker.lastAccessed⟩) ho hb hm hcached rfl
    rw [if_pos hz, if_pos hz, ← LRUEvictor.add_freeTable] at hacc
    exact hacc

/-- **`_free_block_id`**. -/
theorem freeBlockId (hi : PrefixInv P n all held busy s L D H) (ho : o ∈ D) (hbusy : busy ≠ some o)
    (h : Returns (PrefixCachingBlockAllocator.freeBlockId P o) s u s') :
    PrefixInv P n all held busy s' L D H ∧ Freed s s' o := by
  simp only [PrefixCachingBlockAllocator.freeBlockId, returns_bind] at h
  obtain ⟨b, s₁, hid, r, s₂, hhash, hrest⟩ := h
  obtain ⟨hb, rfl⟩ := returns_blockIdOf hid
  obtain ⟨rfl, hi₁, hhashed⟩ := hi.contentHashOf ho hhash
  split_ifs at hrest with hnone
  · simp only [returns_bind, returns_get, returns_fromExcept] at hrest
    obtain ⟨v, s₃, hgive, s₄, s₅, ⟨rfl, rfl⟩, -, rfl⟩ := hrest
    obtain ⟨hi₂, hfreed⟩ := hi₁.decrRefcountCachedBlock ho hbusy hgive
    exact ⟨hi₂, hfreed.hashed hhashed⟩
  · simp only [returns_bind, returns_get, returns_fromExcept] at hrest
    obtain ⟨v, s₃, hgive, s₄, s₅, ⟨rfl, rfl⟩, -, rfl⟩ := hrest
    rw [not_not] at hnone
    have hb₂ : s₂.hashless.ids o = some b := by rw [hhashed.ids, hb]
    obtain ⟨m, -, hi₂, hpool, -, -⟩ := hi₁.decrRefcountHashlessBlock ho hb₂
      (fun hash => hi₁.uncached o ho hbusy hash b hnone hb₂) hgive
    exact ⟨hi₂, (Freed.of_pool hpool).hashed hhashed⟩

/-! ## Giving an id to a block -/

/-- **A block gets the id that is cached** under its hash. -/
theorem attach (hi : PrefixInv P n all held busy s L D H) (ho : o ∈ D) (hbusy : ∀ x, busy = some x → x = o)
    (hnone : s.hashless.ids o = none) {hash : ℤ} (hH : H o = some hash) (hb : s.cachedBlocks.get? hash = some b)
    (h : Returns (do setBlockId o (some b); incrRefcountCachedBlock o) s u s') :
    PrefixInv P n all held none s' L D H ∧ s'.cachedBlocks = s.cachedBlocks ∧
      ∃ x', SetsId (s.pool o) x' (some b) ∧ s'.hashless.blockPool = s.hashless.blockPool.update o x' := by
  simp only [setBlockId, incrRefcountCachedBlock, returns_bind, returns_modify] at h
  obtain ⟨-, s₁, rfl, -, s₂, hcomputed, b', s₃, hid, m, s₄, hincr, hrest⟩ := h
  -- the block with its id, and known to be computed
  obtain ⟨x', hx', hpool, hsame⟩ : ∃ x', SetsId (s.pool o) x' (some b) ∧
      s₂.hashless.blockPool = s.hashless.blockPool.update o x' ∧
      s₂ = { s with hashless := { s.hashless with blockPool := s₂.hashless.blockPool } } := by
    refine ⟨{ s.pool o with block := { s.block o with blockId := some b }, computed := true }, ⟨rfl, rfl, rfl⟩,
      ?_, by rw [hcomputed]; rfl⟩
    rw [hcomputed]
    refine (BlockPool.update_update _ _ _ _).trans (congrArg (s.hashless.blockPool.update o) ?_)
    simp only [PrefixCachingBlockAllocator.pool, NaiveBlockAllocator.setBlockId, NaiveBlockAllocator.setBlock,
      BlockPool.update, Function.update_self]
    rfl
  have hids := ids_of_pool hx' hpool
  obtain ⟨hb', rfl⟩ := returns_blockIdOf hid
  rw [hids, Function.update_self] at hb'
  cases hb'
  obtain ⟨k, hk, rfl, rfl⟩ := returns_incrRefcount hincr
  rw [hsame] at hk
  change s.hashless.refcounter.get? b = some k at hk
  have hnotfree := (hi.accounts.kept hash b hb).2
  -- the evictor and the tracker
  obtain ⟨hpool', hcached', hrefs, hfrees, hev, htr⟩ : s'.hashless.blockPool = s.hashless.blockPool.update o x' ∧
      s'.cachedBlocks = s.cachedBlocks ∧ s'.hashless.refcounter = s.hashless.refcounter.set b (k + 1) ∧
      s'.hashless.freeBlockIndices = s.hashless.freeBlockIndices ∧
      (s'.evictor.freeTable.get? b = none ∧ ∀ b' ≠ b, s'.evictor.freeTable.get? b' = s.evictor.freeTable.get? b') ∧
      ((∃ t, s'.blockTracker.get? b = some t ∧ t.active = true) ∧
        ∀ b' ≠ b, s'.blockTracker.get? b' = s.blockTracker.get? b') := by
    split_ifs at hrest with hone
    · simp only [returns_bind, returns_get] at hrest
      obtain ⟨s₅, s₆, ⟨rfl, rfl⟩, hrest⟩ := hrest
      split_ifs at hrest with hcontains
      · simp only [returns_bind, returns_fromExcept, returns_set] at hrest
        obtain ⟨evictor, s₇, ⟨hremove, rfl⟩, -, s₈, rfl, htrack⟩ := hrest
        obtain ⟨-, rfl⟩ := LRUEvictor.remove_eq_ok.mp hremove
        rw [returns_trackBlockId htrack]
        rw [hsame]
        exact ⟨hpool, rfl, rfl, rfl, ⟨Dict.get?_pop_self _ _, fun b' hne => Dict.get?_pop_ne _ hne⟩,
          ⟨_, Dict.get?_set_self _ _ _, rfl⟩, fun b' hne => Dict.get?_set_ne _ hne _⟩
      · rw [returns_trackBlockId hrest]
        rw [hsame] at hcontains ⊢
        have hnot : s.evictor.freeTable.get? b = none := by
          cases hev : s.evictor.freeTable.get? b with
          | none => rfl
          | some x => exact absurd (LRUEvictor.contains_iff.mpr ⟨x, hev⟩) hcontains
        exact ⟨hpool, rfl, rfl, rfl, ⟨hnot, fun _ _ => rfl⟩, ⟨_, Dict.get?_set_self _ _ _, rfl⟩,
          fun b' hne => Dict.get?_set_ne _ hne _⟩
    · obtain ⟨-, rfl⟩ := returns_pure.mp hrest
      rw [hsame]
      have hnot : s.evictor.freeTable.get? b = none := by
        cases hev : s.evictor.freeTable.get? b with
        | none => rfl
        | some x =>
          have hzero := (hi.accounts.evicted b x hev).1
          rw [hk] at hzero
          exact absurd (Option.some.inj hzero) (by omega)
      obtain ⟨t, ht, hactive⟩ := hi.accounts.tracked b k hk
      exact ⟨hpool, rfl, rfl, rfl, ⟨hnot, fun _ _ => rfl⟩, ⟨t, ht, hactive.mpr (by omega)⟩, fun _ _ => rfl⟩
  have hacc := hi.accounts.attach ho hnone hb hk hev htr
  rw [← hrefs, ← hfrees, ← hcached'] at hacc
  refine ⟨hi.setId hx' hpool' hacc (fun x hx _ h₁ b₁ hxH hxb => ?_) fun x hx _ h₁ b₁ hxH hxb => ?_, hcached',
    x', hx', hpool'⟩
  · rw [hcached']
    rcases eq_or_ne x o with rfl | hne
    · rw [Function.update_self] at hxb
      cases hxb
      rw [hH] at hxH
      cases hxH
      exact hb
    · rw [Function.update_of_ne hne] at hxb
      exact hi.cached x hx (fun heq => hne (hbusy x heq)) h₁ b₁ hxH hxb
  · rw [hcached']
    rcases eq_or_ne x o with rfl | hne
    · rw [hH] at hxH
      cases hxH
    · rw [Function.update_of_ne hne] at hxb
      exact hi.uncached x hx (fun heq => hne (hbusy x heq)) h₁ b₁ hxH hxb

/-- A block without an id gets the one in hand. -/
theorem acquire (hi : PrefixInv P n all (b :: held) busy s L D H) (ho : o ∈ D) (hnone : s.hashless.ids o = none)
    (hbusy : busy = some o) :
    PrefixInv P n all held busy { s with hashless := s.hashless.setBlockId o (some b) } L D H := by
  have hacc := hi.accounts
  refine hi.setId (setsId (s.pool o) (some b)) rfl ⟨hacc.counted.acquire ho hnone, hacc.free_nodup, hacc.free_iff,
    hacc.tracked, hacc.evicted, hacc.inj, hacc.kept⟩ (fun x hx hxbusy h₁ b₁ hxH hxb => ?_)
    fun x hx hxbusy h₁ b₁ hxH hxb => ?_
  · have hne : x ≠ o := by
      rintro rfl
      exact hxbusy hbusy
    rw [Function.update_of_ne hne] at hxb
    exact hi.cached x hx hxbusy h₁ b₁ hxH hxb
  · have hne : x ≠ o := by
      rintro rfl
      exact hxbusy hbusy
    rw [Function.update_of_ne hne] at hxb
    exact hi.uncached x hx hxbusy h₁ b₁ hxH hxb

/-- Writing the id that a block has changes nothing. -/
theorem setBlockId_self (hb : s.hashless.ids o = some b) :
    { s with hashless := s.hashless.setBlockId o (some b) } = s := by
  have hobject : (⟨{ (s.pool o).block with blockId := some b }, (s.pool o).cachedContentHash,
      (s.pool o).cachedNumTokensTotal, (s.pool o).computed, (s.pool o).extraHash⟩ : PrefixCachingBlock) = s.pool o := by
    rw [← show (s.pool o).block.blockId = some b from hb]
  have hpool : (s.hashless.setBlockId o (some b)).blockPool = s.hashless.blockPool := by
    show s.hashless.blockPool.update o _ = _
    refine Eq.trans ?_ (s.hashless.blockPool.update_self o)
    exact congrArg (s.hashless.blockPool.update o) hobject
  have hwhole : s.hashless.setBlockId o (some b) = s.hashless :=
    congrArg (fun blockPool => { s.hashless with blockPool }) hpool
  rw [hwhole]

/-- An id with count one is held by one block. -/
theorem eq_of_ids (hi : PrefixInv P n all held busy s L D H) (hone : s.hashless.refcounter.get? b = some 1)
    (ho : o ∈ D) (hb : s.hashless.ids o = some b) {x : PoolId} (hx : x ∈ D) (hxb : s.hashless.ids x = some b) :
    x = o := by
  by_contra hne
  have hlt := one_lt_holders.mpr ⟨x, hx, o, ho, hxb, hb, hne⟩
  have hcount := (hi.accounts.counted.mem_of_get? hone).2
  omega

/-- **A block that became full** is cached, or gets the id that is. -/
theorem promote (hi : PrefixInv P n all held (some o) s L D H) (ho : o ∈ D) (hb : s.hashless.ids o = some b)
    (hone : s.hashless.refcounter.get? b = some 1) (huncached : ∀ h, s.cachedBlocks.get? h ≠ some b) {b' : BlockId}
    (h : Returns (promoteToImmutableBlock P o) s b' s') :
    PrefixInv P n all held none s' L D H ∧ s'.hashless.ids o = some b' ∧
      ∃ s₁ x', Hashed s s₁ ∧ SetsId (s₁.pool o) x' (some b') ∧
        s'.hashless.blockPool = s₁.hashless.blockPool.update o x' := by
  simp only [promoteToImmutableBlock, returns_bind, returns_fromExcept, ofOption_eq_ok, returns_get] at h
  obtain ⟨r, s₁, hhash, hash, s₂, ⟨rfl, rfl⟩, b₁, s₃, hid, m, s₄, hcount, -, s₅, ⟨-, rfl⟩, s₆, s₇, ⟨rfl, rfl⟩,
    hrest⟩ := h
  obtain ⟨hH, hi₁, hhashed⟩ := hi.contentHashOf ho hhash
  obtain ⟨hb₁, rfl⟩ := returns_blockIdOf hid
  obtain ⟨-, rfl⟩ := returns_getRefcount hcount
  have hsame : s₇.hashless.refcounter = s.hashless.refcounter ∧ s₇.cachedBlocks = s.cachedBlocks := by
    obtain ⟨pool, rfl, -⟩ := hhashed
    exact ⟨rfl, rfl⟩
  have hbb : b₁ = b := by
    rw [hhashed.ids] at hb₁
    exact Option.some.inj (hb₁.symm.trans hb)
  subst hbb
  rw [← hsame.1] at hone
  rw [← hsame.2] at huncached
  cases hget : s₇.cachedBlocks.get? hash with
  | none =>
    rw [hget] at hrest
    simp only [returns_bind, returns_set, returns_pure] at hrest
    obtain ⟨-, s₈, rfl, rfl, rfl⟩ := hrest
    refine ⟨⟨hi₁.pool, hi₁.live, hi₁.size, hi₁.accounts.register hone huncached hget, hi₁.data, ?_, ?_⟩, hb₁,
      s₇, s₇.pool o, hhashed, ?_, ?_⟩
    · intro x hx _ hash' b₂ hxH hxb
      change (s₇.cachedBlocks.set hash b').get? hash' = _
      rw [Dict.get?_set]
      rcases eq_or_ne x o with rfl | hne
      · rw [← hH] at hxH
        cases hxH
        rw [if_pos rfl]
        exact hb₁.symm.trans hxb
      · have hold := hi₁.cached x hx (fun heq => hne (Option.some.inj heq).symm) hash' b₂ hxH hxb
        rw [if_neg]
        · exact hold
        · rintro rfl
          rw [hget] at hold
          cases hold
    · intro x hx _ hash' b₂ hxH hxb hcached
      have hne : x ≠ o := by
        rintro rfl
        rw [← hH] at hxH
        cases hxH
      change (s₇.cachedBlocks.set hash b').get? hash' = _ at hcached
      rw [Dict.get?_set] at hcached
      split_ifs at hcached with heq
      · cases hcached
        exact hne (hi₁.eq_of_ids hone ho hb₁ hx hxb)
      · exact hi₁.uncached x hx (fun heq => hne (Option.some.inj heq).symm) hash' b₂ hxH hxb hcached
    · refine ⟨?_, rfl, rfl⟩
      rw [← show (s₇.pool o).block.blockId = some b' from hb₁]
    · exact (s₇.hashless.blockPool.update_self o).symm
  | some cachedId =>
    rw [hget] at hrest
    simp only [returns_bind, returns_pure] at hrest
    obtain ⟨u₁, s₈, hgive, u₂, s₉, hset, u₃, s₁₀, hincr, rfl, rfl⟩ := hrest
    obtain ⟨m', -, hi₂, hpool₂, hcached₂, -⟩ := hi₁.decrRefcountHashlessBlock ho hb₁ huncached hgive
    have hids₂ : s₈.hashless.ids = Function.update s₇.hashless.ids o none :=
      ids_of_pool (setsId (s₇.pool o) none) hpool₂
    obtain ⟨hi₃, -, x', hx', hpool₃⟩ := hi₂.attach ho (fun x hx => (Option.some.inj hx).symm)
      (by rw [hids₂, Function.update_self]) hH.symm (by rw [hcached₂]; exact hget)
      (returns_bind.mpr ⟨_, s₉, hset, hincr⟩)
    have hobject : s₈.pool o = { s₇.pool o with block := { s₇.block o with blockId := none } } := by
      show s₈.hashless.blockPool.pool o = _
      rw [hpool₂]
      exact Function.update_self _ _ _
    rw [hobject] at hx'
    refine ⟨hi₃, ?_, s₇, x', hhashed, hx', ?_⟩
    · have hids₃ := ids_of_pool (s := s₈) (o := o) (by rw [hobject]; exact hx') hpool₃
      rw [hids₃, Function.update_self]
    · rw [hpool₃, hpool₂]
      exact BlockPool.update_update _ _ _ _

/-! ## Writing to a block -/

theorem SetsId.trans {x y z : PrefixCachingBlock} {blockId blockId' : Option BlockId} (h : SetsId x y blockId)
    (h' : SetsId y z blockId') : SetsId x z blockId' := by
  refine ⟨?_, h'.2.1.trans h.2.1, h'.2.2.trans h.2.2⟩
  rw [h'.1, h.1]

/-- **Copy-on-write**: the block is the only one with its id after it. -/
theorem cow (hi : PrefixInv P n all [] (some o) s D D H) (ho : o ∈ D) (hb : s.hashless.ids o = some b)
    (huncached : ∀ h, s.cachedBlocks.get? h ≠ some b) {b' : BlockId} {s₁ : PrefixCachingBlockAllocator}
    (h : Returns (cowBlockIfNotAppendable o) s b' s₁)
    (hs' : s' = { s₁ with hashless := s₁.hashless.setBlockId o (some b') }) :
    PrefixInv P n all [] (some o) s' D D H ∧ s'.hashless.refcounter.get? b' = some 1 ∧
      (∀ h, s'.cachedBlocks.get? h ≠ some b') ∧ SetsId (s.pool o) (s'.pool o) (some b') ∧
      ∀ x ∈ D, x ≠ o → s'.pool x = s.pool x := by
  simp only [cowBlockIfNotAppendable, returns_bind] at h
  obtain ⟨b₁, s₂, hid, m, s₃, hcount, hrest⟩ := h
  obtain ⟨hb₁, rfl⟩ := returns_blockIdOf hid
  have hbb : b₁ = b := Option.some.inj (hb₁.symm.trans hb)
  subst hbb
  obtain ⟨hm, rfl⟩ := returns_getRefcount hcount
  split_ifs at hrest with hle
  · -- the id is not shared
    obtain ⟨rfl, rfl⟩ := returns_pure.mp hrest
    rw [setBlockId_self hb] at hs'
    subst hs'
    have hone : m = 1 := by
      have hpos := holders_pos.mpr ⟨o, ho, hb⟩
      have hcounted := (hi.accounts.counted.mem_of_get? hm).2
      omega
    subst hone
    refine ⟨hi, hm, huncached, ⟨?_, rfl, rfl⟩, fun _ _ _ => rfl⟩
    rw [← show (s'.pool o).block.blockId = some b' from hb]
  · simp only [returns_bind, returns_modify, returns_pure] at hrest
    obtain ⟨u₁, s₄, hgive, b₂, s₅, halloc, u₂, s₆, rfl, rfl, rfl⟩ := hrest
    obtain ⟨k, -, hi₁, hpool₁, hcached₁, -⟩ := hi.decrRefcountHashlessBlock ho hb huncached hgive
    obtain ⟨hi₂, hallocated⟩ := hi₁.allocateBlockId halloc
    have hids₁ : s₄.hashless.ids = Function.update s₃.hashless.ids o none :=
      ids_of_pool (setsId (s₃.pool o) none) hpool₁
    have hids₂ : s₅.hashless.ids o = none := by
      have hsame : s₅.hashless.ids o = s₄.hashless.ids o :=
        congrArg (fun x => x.block.blockId) (hallocated.frame o ho)
      rw [hsame, hids₁, Function.update_self]
    have hobject : ∀ x, s₄.pool x = Function.update s₃.pool o
        { s₃.pool o with block := { s₃.block o with blockId := none } } x := fun x => by
      show s₄.hashless.blockPool.pool x = _
      rw [hpool₁]
      rfl
    have hi₃ := hi₂.acquire ho hids₂ rfl
    subst hs'
    refine ⟨⟨hi₃.pool, hi₃.live, hi₃.size, hi₃.accounts, hi₃.data, hi₃.cached, hi₃.uncached⟩, hallocated.one,
      hallocated.uncached, ?_, fun x hx hne => ?_⟩
    · have hgiven : SetsId (s₃.pool o) (s₄.pool o) none := by
        rw [hobject, Function.update_self]
        exact setsId _ _
      rw [← hallocated.frame o ho] at hgiven
      refine hgiven.trans ?_
      show SetsId _ (Function.update s₅.pool o _ o) _
      rw [Function.update_self]
      exact setsId _ _
    · show Function.update s₅.pool o _ x = _
      rw [Function.update_of_ne hne, hallocated.frame x hx, hobject, Function.update_of_ne hne]

/-- What a write to a block leaves. -/
structure Appended (s s' : PrefixCachingBlockAllocator) (D : Finset PoolId) (o : PoolId) (tokenIds : List TokenId) :
    Prop where
  prev : (s'.block o).prevBlock = (s.block o).prevBlock
  tokens : (s'.block o).tokenIds = (s.block o).tokenIds ++ tokenIds
  held : (s'.block o).blockId ≠ none
  frame : ∀ x ∈ D, x ≠ o → s'.block x = s.block x
  extraHash : ∀ x ∈ D, (s'.pool x).extraHash = (s.pool x).extraHash

/-- **A write** to a block. -/
theorem appendTokenIds (hi : PrefixInv P n all [] none s D D H) (ho : o ∈ D) (hheld : s.hashless.ids o ≠ none)
    {tokenIds : List TokenId} (hne : tokenIds ≠ [])
    (hfull : ∀ p, (s.block o).prevBlock = some p → (s.block p).isFull n = true)
    (h : Returns (PrefixCachingBlockAllocator.appendTokenIds P o tokenIds) s u s') :
    ∃ H', PrefixInv P n all [] none s' D D H' ∧ Appended s s' D o tokenIds ∧ ∀ x ≠ o, H' x = H x := by
  simp only [PrefixCachingBlockAllocator.appendTokenIds, returns_bind, returns_fromExcept, returns_get] at h
  obtain ⟨r, s₁, hhash, v₁, s₂, ⟨hassert, rfl⟩, s₃, s₄, ⟨rfl, rfl⟩, v₂, s₅, ⟨-, rfl⟩, hrest⟩ := h
  obtain ⟨rfl, hi₁, hhashed⟩ := hi.contentHashOf ho hhash
  have hnone : H o = none := assert_eq_ok.mp hassert
  rw [if_neg hne] at hrest
  simp only [returns_bind, returns_modify] at hrest
  obtain ⟨u₁, s₆, hwrite, u₂, s₇, hupdate, r', s₈, hhash', hpromote⟩ := hrest
  obtain ⟨block, hblock, hlen, hcases⟩ := NaiveBlock.returns_appendTokenIds hwrite
  obtain ⟨b, hb⟩ := Option.ne_none_iff_exists'.mp hheld
  have hb₅ : s₅.hashless.ids o = some b := by rw [hhashed.ids, hb]
  have hid : block.blockId = some b := by
    rw [hblock]
    exact hb₅
  rcases hcases with ⟨hblocknone, -⟩ | ⟨-, b', s₉, hcow, hs₆⟩
  · rw [hid] at hblocknone
    cases hblocknone
  -- the tokens are written first
  obtain ⟨x', hx'⟩ : ∃ x' : PrefixCachingBlock, x' = { s₅.pool o with block } := ⟨_, rfl⟩
  obtain ⟨s₁₀, hs₁₀⟩ : ∃ t, t = { s₅ with hashless := s₅.hashless.setBlock o block } := ⟨_, rfl⟩
  have hnotfull : (s₅.pool o).block.isFull n = false := by
    have hfit := hlen hne
    have hpos : 0 < tokenIds.length := List.length_pos_iff.mpr hne
    rw [hi₁.size] at hfit
    refine decide_eq_false ?_
    show ¬ n - _ = 0
    change tokenIds.length ≤ n - (s₅.pool o).block.tokenIds.length at hfit
    omega
  have hfull₅ : ∀ p, (s₅.pool o).block.prevBlock = some p → (s₅.pool p).block.isFull n = true := by
    intro p hp
    rw [show (s₅.pool o).block = s.block o from hhashed.block o] at hp
    rw [show (s₅.pool p).block = s.block p from hhashed.block p]
    exact hfull p hp
  have hpool₁₀ : s₁₀.hashless.blockPool = s₅.hashless.blockPool.update o x' := by
    rw [hs₁₀, hx']
    rfl
  have hids₁₀ : s₁₀.hashless.ids = s₅.hashless.ids := by
    have hset := NaiveBlockAllocator.blockId_setBlock (s := s₅.hashless) (o := o) block
    rw [hs₁₀]
    show (fun x => ((s₅.hashless.setBlock o block).block x).blockId) = _
    rw [hset, hid, ← hb₅]
    exact Function.update_eq_self o s₅.hashless.ids
  have hdata := hi₁.data.write ho hnotfull (by rw [hx', hblock]; rfl : x'.block.prevBlock = (s₅.pool o).block.prevBlock) (by rw [hx']) hfull₅
  have hother : ∀ x ≠ o, Function.update H o (hashFrom P n H x') x = H x := fun x hxo => Function.update_of_ne hxo _ _
  have hi₁₀ : PrefixInv P n all [] (some o) s₁₀ D D (Function.update H o (hashFrom P n H x')) := by
    rw [hs₁₀] at hids₁₀ ⊢
    refine ⟨hi₁.pool.update _, hi₁.live, hi₁.size, ?_, ?_, fun x hx hxo h₁ b₁ hxH hxb => ?_,
      fun x hx hxo h₁ b₁ hxH hxb => ?_⟩
    · rw [hids₁₀]
      exact hi₁.accounts
    · rw [hx'] at hdata ⊢
      exact hdata
    · rw [hother x fun heq => hxo (by rw [heq])] at hxH
      rw [hids₁₀] at hxb
      exact hi₁.cached x hx (Option.some_ne_none _).symm h₁ b₁ hxH hxb
    · rw [hother x fun heq => hxo (by rw [heq])] at hxH
      rw [hids₁₀] at hxb
      exact hi₁.uncached x hx (Option.some_ne_none _).symm h₁ b₁ hxH hxb
  have huncached : ∀ h, s₁₀.cachedBlocks.get? h ≠ some b := by
    rw [hs₁₀]
    exact fun h₁ => hi₁.uncached o ho (Option.some_ne_none _).symm h₁ b hnone hb₅
  -- then a shared id is replaced
  rw [← hs₁₀] at hcow
  obtain ⟨hi₆, hone, huncached₆, hsets, hframe₆⟩ :=
    hi₁₀.cow ho (by rw [hids₁₀, hb₅]) huncached hcow hs₆
  have hids₆ : s₆.hashless.ids o = some b' := congrArg NaiveBlock.blockId hsets.1
  -- what the steps that follow keep
  have hobject₁₀ : ∀ x, s₁₀.pool x = Function.update s₅.pool o x' x := fun x => by
    show s₁₀.hashless.blockPool.pool x = _
    rw [hpool₁₀]
    rfl
  have hwritten : ∀ {t : PrefixCachingBlockAllocator} {b'' : BlockId},
      t.block o = { s₆.block o with blockId := some b'' } → (∀ x ∈ D, x ≠ o → t.block x = s₆.block x) →
      (∀ x ∈ D, (t.pool x).extraHash = (s₆.pool x).extraHash) → Appended s t D o tokenIds := by
    intro t b'' hto htx hext
    have hblock₆ : s₆.block o = { block with blockId := some b' } := by
      rw [show s₆.block o = (s₆.pool o).block from rfl, hsets.1, hobject₁₀, Function.update_self, hx']
    rw [hblock₆, hblock, show s₅.hashless.block o = s.block o from hhashed.block o] at hto
    refine ⟨by rw [hto], by rw [hto], by rw [hto]; exact Option.some_ne_none _, fun x hx hxo => ?_, fun x hx => ?_⟩
    · rw [htx x hx hxo, show s₆.block x = s₁₀.block x from congrArg PrefixCachingBlock.block (hframe₆ x hx hxo),
        show s₁₀.block x = (s₁₀.pool x).block from rfl, hobject₁₀, Function.update_of_ne hxo]
      exact hhashed.block x
    · rw [hext x hx, ← hhashed.extraHash x]
      rcases eq_or_ne x o with rfl | hxo
      · rw [hsets.2.1, hobject₁₀, Function.update_self, hx']
      · rw [hframe₆ x hx hxo, hobject₁₀, Function.update_of_ne hxo]
  have htotal : Hashed s₆ s₇ := by
    refine ⟨s₇.pool, by rw [hupdate]; rfl, fun x => ?_⟩
    rw [hupdate]
    rcases eq_or_ne x o with rfl | hxo
    · show SameBlock _ (Function.update s₆.pool x _ x)
      rw [Function.update_self]
      exact ⟨rfl, rfl⟩
    · show SameBlock _ (Function.update s₆.pool o _ x)
      rw [Function.update_of_ne hxo]
      exact ⟨rfl, rfl⟩
  have hdata₇ : HashData P n s₇.pool D (Function.update H o (hashFrom P n H x')) := by
    apply hi₆.data.congr
    · exact fun x _ => congrArg NaiveBlock.tokenIds (htotal.block x)
    · exact fun x _ => congrArg NaiveBlock.prevBlock (htotal.block x)
    · exact fun x _ => htotal.extraHash x
    · intro x _
      rw [hupdate]
      rcases eq_or_ne x o with rfl | hxo
      · show (Function.update s₆.pool x _ x).cachedContentHash = _ ∨ _
        rw [Function.update_self]
        exact Or.inl rfl
      · show (Function.update s₆.pool o _ x).cachedContentHash = _ ∨ _
        rw [Function.update_of_ne hxo]
        exact Or.inl rfl
  obtain ⟨hr', hi₈, hhashed₈⟩ := (hi₆.hashed hdata₇ htotal).contentHashOf ho hhash'
  have hids₈ : s₈.hashless.ids = s₆.hashless.ids := hhashed₈.ids.trans htotal.ids
  obtain ⟨hone₈, huncached₈⟩ : s₈.hashless.refcounter.get? b' = some 1 ∧ ∀ h, s₈.cachedBlocks.get? h ≠ some b' := by
    obtain ⟨pool₇, rfl, -⟩ := htotal
    obtain ⟨pool₈, rfl, -⟩ := hhashed₈
    exact ⟨hone, huncached₆⟩
  split_ifs at hpromote with hnone'
  · simp only [returns_bind] at hpromote
    obtain ⟨b'', s₁₁, hpromoted, hset⟩ := hpromote
    obtain ⟨hi₁₁, hids₁₁, s₁₂, x'', hhashed₁₂, hx'', hpool⟩ :=
      hi₈.promote ho (by rw [hids₈, hids₆]) hone₈ huncached₈ hpromoted
    rw [returns_modify.mp hset, setBlockId_self hids₁₁]
    have hobject₁₁ : ∀ x, s₁₁.pool x = Function.update s₁₂.pool o x'' x := fun x => by
      show s₁₁.hashless.blockPool.pool x = _
      rw [hpool]
      rfl
    refine ⟨_, hi₁₁, hwritten (?_ : _ = { s₆.block o with blockId := some b'' }) (fun x _ hxo => ?_) fun x _ => ?_, hother⟩
    · rw [show s₁₁.block o = (s₁₁.pool o).block from rfl, hobject₁₁, Function.update_self, hx''.1,
        show (s₁₂.pool o).block = s₈.block o from hhashed₁₂.block o, hhashed₈.block, htotal.block]
    · rw [show s₁₁.block x = (s₁₁.pool x).block from rfl, hobject₁₁, Function.update_of_ne hxo,
        show (s₁₂.pool x).block = s₈.block x from hhashed₁₂.block x, hhashed₈.block, htotal.block]
    · rw [← htotal.extraHash, ← hhashed₈.extraHash, ← hhashed₁₂.extraHash, hobject₁₁]
      rcases eq_or_ne x o with rfl | hxo
      · rw [Function.update_self, hx''.2.1]
      · rw [Function.update_of_ne hxo]
  · obtain ⟨-, rfl⟩ := returns_pure.mp hpromote
    rw [not_not] at hnone'
    rw [hnone'] at hr'
    refine ⟨_, ⟨hi₈.pool, hi₈.live, hi₈.size, hi₈.accounts, hi₈.data, fun x hx _ h₁ b₁ hxH hxb => ?_,
      fun x hx _ h₁ b₁ hxH hxb => ?_⟩, hwritten (?_ : _ = { s₆.block o with blockId := some b' }) (fun x _ _ => ?_) fun x _ => ?_, hother⟩
    · rcases eq_or_ne x o with rfl | hxo
      · rw [← hr'] at hxH
        cases hxH
      · exact hi₈.cached x hx (fun heq => hxo (Option.some.inj heq).symm) h₁ b₁ hxH hxb
    · rcases eq_or_ne x o with rfl | hxo
      · rw [hids₈, hids₆] at hxb
        cases hxb
        exact huncached₈ h₁
      · exact hi₈.uncached x hx (fun heq => hxo (Option.some.inj heq).symm) h₁ b₁ hxH hxb
    · rw [hhashed₈.block, htotal.block, ← show (s₆.block o).blockId = some b' from hids₆]
    · rw [hhashed₈.block, htotal.block]
    · rw [hhashed₈.extraHash, htotal.extraHash]

end PrefixInv

end SpaceServe
