import SpaceServe.BlockManager.PrefixRuns

/-!
# The hashes of a sequence

`ComputedBlocksTracker._update_seq_hashes` of `vllm/core/block/prefix_caching_block.py`, which keeps the hashes of the
full blocks of a sequence, beside the block table of the sequence, whose blocks compute their own.

* `updateSeqHashes`: the model; `blockHash`: the hash of a block, from the tokens alone;
* **`updateSeqHashes_spec`**: what the tracker records; **`PrefixInv.hash_eq_blockHash`**: what the blocks compute;
* `ExtraOk`, `Allocator.own`: the blocks of a table have the extra hash of their sequence;
* `HashSync`, `HashSync.step`: appends, updates and calls on tables, in any order;
  **`tracker_agrees_with_blocks`**.
-/

set_option autoImplicit false

namespace SpaceServe

open Py PrefixCachingBlockAllocator

/-- `ComputedBlocksTracker`, with what `_update_seq_hashes` uses of it. -/
structure ComputedBlocksTracker where
  blockSize : ℕ
  enableCaching : Bool
  seqIdToBlocksHashes : Dict ℕ (List ℤ)

namespace ComputedBlocksTracker

/-- `__init__`. -/
def init (blockSize : ℕ) (enableCaching : Bool) : ComputedBlocksTracker := ⟨blockSize, enableCaching, .empty⟩

/-- The loop of `_update_seq_hashes`: `k` more blocks, from block `i` on. -/
def recordBlocks (P : PrefixHasher) (blockSize : ℕ) (tokenIds : List TokenId) (extraHash : Option ℤ) :
    ℕ → ℕ → ℤ → List ℤ → Except Exn (List ℤ)
  | 0, _, _, recorded => .ok recorded
  | k + 1, i, prevBlockHash, recorded => do
    assert ((i + 1) * blockSize ≤ tokenIds.length) ""
    let blockTokenIds := slice tokenIds (i * blockSize) ((i + 1) * blockSize)
    let blockHash := P.hashBlockTokens (prevBlockHash = P.noneHash) (some prevBlockHash) blockTokenIds extraHash
    recordBlocks P blockSize tokenIds extraHash k (i + 1) blockHash (recorded ++ [blockHash])

/-- `_update_seq_hashes`. -/
def updateSeqHashes (P : PrefixHasher) (c : ComputedBlocksTracker) (seqId : ℕ) (tokenIds : List TokenId)
    (extraHash : Option ℤ) : Except Exn ComputedBlocksTracker := do
  assert (c.enableCaching = true) ""
  let recorded := (c.seqIdToBlocksHashes.get? seqId).getD []
  assert (recorded.length * c.blockSize ≤ tokenIds.length) <|
    "The sequence has " ++ toString tokenIds.length ++ " tokens, but already recorded " ++
      toString recorded.length ++ " blocks. This should not happen since we assume blocks are only appended " ++
      "other than recomputation. When the sequence is recomputed, we should have removed the info of the old blocks."
  let numComputedBlocks := tokenIds.length / c.blockSize
  let prevBlockHash := (recorded.getLast?).getD P.noneHash
  let recorded ← recordBlocks P c.blockSize tokenIds extraHash (numComputedBlocks - recorded.length)
    recorded.length prevBlockHash recorded
  .ok { c with seqIdToBlocksHashes := c.seqIdToBlocksHashes.set seqId recorded }

end ComputedBlocksTracker

/-! ## The hash of a block -/

/-- The hash of block `k` of a list of tokens. -/
def blockHash (P : PrefixHasher) (n : ℕ) (extraHash : Option ℤ) (tokens : List TokenId) : ℕ → ℤ
  | 0 => P.hashBlockTokens true (some P.noneHash) (slice tokens 0 n) extraHash
  | k + 1 => P.hashBlockTokens false (some (blockHash P n extraHash tokens k))
      (slice tokens ((k + 1) * n) ((k + 1 + 1) * n)) extraHash

section BlockHash

variable {P : PrefixHasher} {n : ℕ} {extraHash : Option ℤ} {tokens tokens' : List TokenId}

/-- The hash of a full block does not depend on the tokens behind it. -/
theorem blockHash_eq_of_le (h : tokens <+: tokens') : ∀ k, (k + 1) * n ≤ tokens.length →
    blockHash P n extraHash tokens' k = blockHash P n extraHash tokens k
  | 0, hk => by
    obtain ⟨rest, rfl⟩ := h
    rw [Nat.zero_add, Nat.one_mul] at hk
    rw [blockHash, blockHash, slice_append_of_le hk]
  | k + 1, hk => by
    have hle : (k + 1) * n ≤ (k + 1 + 1) * n := Nat.mul_le_mul_right n (Nat.le_succ _)
    rw [blockHash, blockHash, blockHash_eq_of_le h k (hle.trans hk)]
    obtain ⟨rest, rfl⟩ := h
    rw [slice_append_of_le hk]

theorem blockHash_ne (hP : ∀ first prev tokens extra, P.hash first prev tokens extra ≠ P.noneHash) (k : ℕ) :
    blockHash P n extraHash tokens k ≠ P.noneHash := by
  cases k with
  | zero => exact hP _ _ _ _
  | succ k => exact hP _ _ _ _

/-- The hashes of the first `k` blocks. -/
def blockHashes (P : PrefixHasher) (n : ℕ) (extraHash : Option ℤ) (tokens : List TokenId) (k : ℕ) : List ℤ :=
  (List.range k).map (blockHash P n extraHash tokens)

theorem blockHashes_eq_of_le (h : tokens <+: tokens') {k : ℕ} (hk : k * n ≤ tokens.length) :
    blockHashes P n extraHash tokens' k = blockHashes P n extraHash tokens k :=
  List.map_congr_left fun i hi => blockHash_eq_of_le h i
    ((Nat.mul_le_mul_right n (List.mem_range.mp hi)).trans hk)

theorem blockHashes_succ (k : ℕ) : blockHashes P n extraHash tokens (k + 1) =
    blockHashes P n extraHash tokens k ++ [blockHash P n extraHash tokens k] := by
  rw [blockHashes, List.range_succ, List.map_append, List.map_singleton, blockHashes]

/-- The hash that the loop begins with. -/
theorem hashBlockTokens_step (hP : ∀ first prev tokens extra, P.hash first prev tokens extra ≠ P.noneHash) (k : ℕ) :
    let prev := ((blockHashes P n extraHash tokens k).getLast?).getD P.noneHash
    P.hashBlockTokens (prev = P.noneHash) (some prev) (slice tokens (k * n) ((k + 1) * n)) extraHash =
      blockHash P n extraHash tokens k := by
  cases k with
  | zero =>
    rw [Nat.zero_mul, Nat.zero_add, Nat.one_mul]
    show P.hashBlockTokens (decide (P.noneHash = P.noneHash)) _ _ _ = _
    rw [decide_eq_true rfl]
    rfl
  | succ k =>
    rw [blockHashes_succ, List.getLast?_concat]
    show P.hashBlockTokens (decide (blockHash P n extraHash tokens k = P.noneHash)) _ _ _ = _
    rw [decide_eq_false (blockHash_ne hP k)]
    rfl

/-- **The loop of the tracker**. -/
theorem recordBlocks_eq (hP : ∀ first prev tokens extra, P.hash first prev tokens extra ≠ P.noneHash) :
    ∀ (k i : ℕ) {recorded : List ℤ}, ComputedBlocksTracker.recordBlocks P n tokens extraHash k i
      (((blockHashes P n extraHash tokens i).getLast?).getD P.noneHash) (blockHashes P n extraHash tokens i) =
        .ok recorded → recorded = blockHashes P n extraHash tokens (i + k)
  | 0, i, recorded, h => by
    cases h
    rfl
  | k + 1, i, recorded, h => by
    obtain ⟨u, -, h⟩ := bind_eq_ok.mp h
    simp only [hashBlockTokens_step hP i, ← blockHashes_succ] at h
    have hlast : blockHash P n extraHash tokens i =
        ((blockHashes P n extraHash tokens (i + 1)).getLast?).getD P.noneHash := by
      rw [blockHashes_succ, List.getLast?_concat]
      rfl
    rw [hlast] at h
    rw [recordBlocks_eq hP k (i + 1) h, Nat.add_right_comm]
    rfl

/-- **What the tracker records**: if it had the hashes of the first `k` blocks, it has those of all full blocks. -/
theorem updateSeqHashes_spec (hP : ∀ first prev tokens extra, P.hash first prev tokens extra ≠ P.noneHash)
    {c c' : ComputedBlocksTracker} {seqId k : ℕ}
    (hold : (c.seqIdToBlocksHashes.get? seqId).getD [] = blockHashes P c.blockSize extraHash tokens k)
    (hk : k ≤ tokens.length / c.blockSize) (h : c.updateSeqHashes P seqId tokens extraHash = .ok c') :
    c' = { c with
      seqIdToBlocksHashes := c.seqIdToBlocksHashes.set seqId
        (blockHashes P c.blockSize extraHash tokens (tokens.length / c.blockSize)) } := by
  have hlen : (blockHashes P c.blockSize extraHash tokens k).length = k := by
    rw [blockHashes, List.length_map, List.length_range]
  obtain ⟨u, -, h⟩ := bind_eq_ok.mp h
  obtain ⟨v, -, h⟩ := bind_eq_ok.mp h
  obtain ⟨recorded, hloop, h⟩ := bind_eq_ok.mp h
  cases h
  rw [hold, hlen] at hloop
  rw [recordBlocks_eq hP _ k hloop, Nat.add_sub_cancel' hk]

end BlockHash

/-! ## The hashes of the blocks -/

section Blocks

variable {P : PrefixHasher} {n : ℕ} {pos : 0 < n} {all : List BlockId} {s s' : PrefixCachingBlockAllocator}
  {D : Finset PoolId} {H : PoolId → Option ℤ} {blocks : List PoolId} {tokens : List TokenId} {extraHash : Option ℤ}

/-- A block of a chain is full if the tokens reach to its end. -/
theorem ChainHolds.isFull_iff (hn : 0 < n) (hh : ChainHolds False n s.block blocks tokens) {k : ℕ} {o : PoolId}
    (ho : blocks[k]? = some o) : (s.block o).isFull n = true ↔ (k + 1) * n ≤ tokens.length := by
  rw [NaiveBlock.isFull, NaiveBlock.numEmptySlots, decide_eq_true_eq, hh.tokenIds k o ho, slice, List.length_take,
    List.length_drop, Nat.succ_mul]
  omega

/-- **What the blocks compute**. -/
theorem PrefixInv.hash_eq_blockHash (pos : 0 < n)
    (hP : ∀ first prev tokens extra, P.hash first prev tokens extra ≠ P.noneHash)
    (hi : PrefixInv P n all [] none s D D H) (hh : ChainHolds False n s.block blocks tokens)
    (hsub : ∀ x ∈ blocks, x ∈ D) (hextra : ∀ x ∈ blocks, (s.pool x).extraHash = extraHash) :
    ∀ (k : ℕ) {o : PoolId}, blocks[k]? = some o → (k + 1) * n ≤ tokens.length →
      H o = some (blockHash P n extraHash tokens k) := by
  intro k
  induction k with
  | zero =>
    intro o ho hk
    have hmem : o ∈ blocks := List.mem_of_getElem? ho
    have hfull : (s.pool o).block.isFull n = true := (hh.isFull_iff pos ho).mpr hk
    have hprev : (s.pool o).block.prevBlock = none := hh.prev 0 o ho
    have htokens : (s.pool o).block.tokenIds = slice tokens (0 * n) ((0 + 1) * n) := hh.tokenIds 0 o ho
    rw [hi.data.hash o (hsub o hmem), hashFrom, if_neg (not_not.mpr hfull), hprev, htokens, hextra o hmem, Nat.zero_mul,
      Nat.zero_add, Nat.one_mul]
    rfl
  | succ k ih =>
    intro o ho hk
    have hmem : o ∈ blocks := List.mem_of_getElem? ho
    have hfull : (s.pool o).block.isFull n = true := (hh.isFull_iff pos ho).mpr hk
    have htokens : (s.pool o).block.tokenIds = slice tokens ((k + 1) * n) ((k + 1 + 1) * n) := hh.tokenIds (k + 1) o ho
    have hlt : k < blocks.length := Nat.lt_of_succ_lt (List.getElem?_eq_some_iff.mp ho).1
    have hprev : (s.pool o).block.prevBlock = some (blocks[k]) := by
      rw [show (s.pool o).block.prevBlock = _ from hh.prev (k + 1) o ho, if_neg (Nat.succ_ne_zero k),
        Nat.add_sub_cancel]
      exact List.getElem?_eq_getElem hlt
    have hbefore := ih (List.getElem?_eq_getElem hlt)
      ((Nat.mul_le_mul_right n (Nat.le_succ (k + 1))).trans hk)
    have hne : H blocks[k] ≠ some P.noneHash := by
      rw [hbefore]
      exact fun heq => blockHash_ne hP k (Option.some.inj heq)
    rw [hi.data.hash o (hsub o hmem), hashFrom, if_neg (not_not.mpr hfull), hprev]
    simp only [if_neg hne]
    rw [hbefore, htokens, hextra o hmem]
    rfl

/-- The full blocks of a chain come first. -/
theorem ChainHolds.filter_isFull (hn : 0 < n) (hh : ChainHolds False n s.block blocks tokens) :
    (blocks.filter fun o => (s.block o).isFull n) = blocks.take (tokens.length / n) := by
  conv_lhs => rw [← List.take_append_drop (tokens.length / n) blocks]
  have hfirst : ((blocks.take (tokens.length / n)).filter fun o => (s.block o).isFull n) =
      blocks.take (tokens.length / n) := by
    refine List.filter_eq_self.mpr fun o ho => ?_
    obtain ⟨k, hk⟩ := List.mem_iff_getElem?.mp ho
    rw [List.getElem?_take] at hk
    split_ifs at hk with hlt
    exact (hh.isFull_iff hn hk).mpr ((Nat.le_div_iff_mul_le hn).mp hlt)
  have hrest : ((blocks.drop (tokens.length / n)).filter fun o => (s.block o).isFull n) = [] := by
    refine List.filter_eq_nil_iff.mpr fun o ho hfull => ?_
    obtain ⟨k, hk⟩ := List.mem_iff_getElem?.mp ho
    rw [List.getElem?_drop] at hk
    have hle := (Nat.le_div_iff_mul_le hn).mpr ((hh.isFull_iff hn hk).mp hfull)
    omega
  rw [List.filter_append, hfirst, hrest, List.append_nil]

/-- The content hashes of some blocks of a chain, asked for one after the other. -/
theorem contentHashes_total (hh : ChainHolds False n s.block blocks tokens) (hsub : ∀ x ∈ blocks, x ∈ D) :
    ∀ (l : List PoolId) {s₁ : PrefixCachingBlockAllocator}, PrefixInv P n all [] none s₁ D D H →
      (∀ x, s₁.block x = s.block x) → (∀ x ∈ l, x ∈ blocks) →
      ∃ s', Returns (l.mapM (PrefixCachingBlockAllocator.contentHashOf P)) s₁ (l.map H) s'
  | [], s₁, _, _, _ => ⟨s₁, returns_pure.mpr ⟨rfl, rfl⟩⟩
  | o :: l, s₁, hi, hsame, hl => by
    obtain ⟨s₂, hone⟩ := hi.contentHashOf_total rfl (hh.congr fun x _ => hsame x) hsub (hl o List.mem_cons_self)
    obtain ⟨-, hi₂, hhashed⟩ := hi.contentHashOf (hsub o (hl o List.mem_cons_self)) hone
    obtain ⟨s₃, hrest⟩ := contentHashes_total hh hsub l hi₂ (fun x => (hhashed.block x).trans (hsame x))
      fun x hx => hl x (List.mem_cons_of_mem _ hx)
    refine ⟨s₃, ?_⟩
    rw [List.mapM_cons, List.map_cons]
    exact returns_bind.mpr ⟨_, s₂, hone, returns_bind.mpr ⟨_, s₃, hrest, returns_pure.mpr ⟨rfl, rfl⟩⟩⟩

/-- **The content hashes of the full blocks** of a table are those of its tokens. -/
theorem contentHashes_eq (pos : 0 < n)
    (hP : ∀ first prev tokens extra, P.hash first prev tokens extra ≠ P.noneHash)
    (hok : PrefixOk P n all s D) (hh : ChainHolds False n s.block blocks tokens) (hsub : ∀ x ∈ blocks, x ∈ D)
    (hextra : ∀ x ∈ blocks, (s.pool x).extraHash = extraHash) :
    ∃ s', Returns ((blocks.filter fun o => (s.block o).isFull n).mapM (PrefixCachingBlockAllocator.contentHashOf P)) s
      ((blockHashes P n extraHash tokens (tokens.length / n)).map some) s' := by
  obtain ⟨H, hi⟩ := hok
  obtain ⟨s', hret⟩ := contentHashes_total hh hsub (blocks.take (tokens.length / n)) hi (fun _ => rfl)
    fun x hx => List.mem_of_mem_take hx
  have hvalues : (blocks.take (tokens.length / n)).map H =
      (blockHashes P n extraHash tokens (tokens.length / n)).map some := by
    have hle : tokens.length / n ≤ blocks.length := Nat.div_le_of_le_mul (Nat.mul_comm _ _ ▸ hh.fits)
    refine List.ext_getElem? fun k => ?_
    rw [List.getElem?_map, List.getElem?_take, blockHashes, List.getElem?_map, List.getElem?_map]
    split_ifs with hlt
    · rw [List.getElem?_range hlt, List.getElem?_eq_getElem (hlt.trans_le hle)]
      have hone := hi.hash_eq_blockHash pos hP hh hsub hextra k (List.getElem?_eq_getElem (hlt.trans_le hle))
        ((Nat.le_div_iff_mul_le pos).mp hlt)
      exact congrArg some hone
    · rw [List.getElem?_eq_none (by rw [List.length_range]; exact Nat.le_of_not_lt hlt)]
      rfl
  rw [hh.filter_isFull pos, ← hvalues]
  exact ⟨s', hret⟩

end Blocks

/-! ## Extra hashes -/

/-- An allocator for the table of one sequence: all blocks get the extra hash of the sequence. -/
def Allocator.own {σ : Type} (A : Allocator σ) (extraHash : Option ℤ) : Allocator σ :=
  { A with
    allocateImmutableBlocks := fun prevBlock blockTokenIds _ => A.allocateImmutableBlocks prevBlock blockTokenIds extraHash
    allocateMutableBlock := fun prevBlock _ => A.allocateMutableBlock prevBlock extraHash
    fork := fun _ => throw .diverges }

/-- In a call that began with the blocks `D₀`, these keep their extra hashes, and those of new blocks satisfy `Q`. -/
structure ExtraOk (P : PrefixHasher) (n : ℕ) (all : List BlockId) (E : PoolId → Option ℤ) (D₀ : Finset PoolId)
    (Q : Option ℤ → Prop) (s : PrefixCachingBlockAllocator) (D : Finset PoolId) : Prop where
  ok : PrefixOk P n all s D
  sub : D₀ ⊆ D
  old : ∀ x ∈ D₀, (s.pool x).extraHash = E x
  new : ∀ x ∈ D, x ∉ D₀ → Q (s.pool x).extraHash

namespace ExtraOk

open PrefixInv

variable {P : PrefixHasher} {n : ℕ} {pos : 0 < n} {all : List BlockId} {E : PoolId → Option ℤ} {D₀ D : Finset PoolId}
  {Q : Option ℤ → Prop} {s s' : PrefixCachingBlockAllocator} {extraHash : Option ℤ} {blocks : List PoolId}

theorem made {o : PoolId} {block : NaiveBlock} (h : ExtraOk P n all E D₀ Q s D)
    (hok : PrefixOk P n all s' (insert o D)) (hmade : Made s s' D o block extraHash) (hQ : Q extraHash) :
    ExtraOk P n all E D₀ Q s' (insert o D) := by
  refine ⟨hok, h.sub.trans (Finset.subset_insert o D), fun x hx => ?_, fun x hx hnot => ?_⟩
  · rw [hmade.extraHash x (h.sub hx), h.old x hx]
  · rcases Finset.mem_insert.mp hx with rfl | hx
    · rw [hmade.extra]
      exact hQ
    · rw [hmade.extraHash x hx]
      exact h.new x hx hnot

theorem grown (h : ExtraOk P n all E D₀ Q s D) (hok : PrefixOk P n all s' (D ∪ blocks.toFinset))
    (hgrown : Grown s s' D blocks extraHash) (hQ : Q extraHash) : ExtraOk P n all E D₀ Q s' (D ∪ blocks.toFinset) := by
  refine ⟨hok, h.sub.trans Finset.subset_union_left, fun x hx => ?_, fun x hx hnot => ?_⟩
  · rw [hgrown.extraHash x (h.sub hx), h.old x hx]
  · rcases Finset.mem_union.mp hx with hx | hx
    · rw [hgrown.extraHash x hx]
      exact h.new x hx hnot
    · rw [hgrown.extra x (List.mem_toFinset.mp hx)]
      exact hQ

theorem written {o : PoolId} {chunk : List TokenId} (h : ExtraOk P n all E D₀ Q s D) (hok : PrefixOk P n all s' D)
    (hwritten : Appended s s' D o chunk) : ExtraOk P n all E D₀ Q s' D :=
  ⟨hok, h.sub, fun x hx => (hwritten.extraHash x (h.sub hx)).trans (h.old x hx), fun x hx hnot => by
    rw [hwritten.extraHash x hx]
    exact h.new x hx hnot⟩

/-- **A call on the table of the sequence**. -/
theorem own_lawful : Lawful ((prefixAllocator P n pos).own extraHash) (ExtraOk P n all E D₀ (· = extraHash)) where
  allocateMutable {s s' D blocks tokens _ o} h hh hsub hret := by
    obtain ⟨hnew, hok, hrest⟩ := (@PrefixOk.lawful P n pos all).allocateMutable h.ok hh hsub hret
    obtain ⟨-, b, hmade⟩ := h.ok.allocateMutable pos hsub hret
    exact ⟨hnew, h.made hok hmade rfl, hrest⟩
  allocateImmutable {s s' D chunks _ blocks} h hfull hret := by
    obtain ⟨hh, hlen, hnew, hok, hframe⟩ := (@PrefixOk.lawful P n pos all).allocateImmutable h.ok hfull hret
    obtain ⟨-, hgrown, -, -⟩ := h.ok.allocateImmutable pos hfull hret
    exact ⟨hh, hlen, hnew, h.grown hok hgrown rfl, hframe⟩
  appendTokenIds {s s' D blocks tokens chunk o u} h hh hsub ho hne hfit hret := by
    obtain ⟨hok, hrest⟩ := (@PrefixOk.lawful P n pos all).appendTokenIds h.ok hh hsub ho hne hfit hret
    obtain ⟨-, hwritten⟩ := h.ok.append hh hsub ho hne hret
    exact ⟨h.written hok hwritten, hrest⟩
  fork _ _ _ _ hret := absurd hret returns_throw

/-- **A call on another table**. -/
theorem others_lawful : Lawful (prefixAllocator P n pos) (ExtraOk P n all E D₀ fun _ => True) where
  allocateMutable {s s' D blocks tokens _ o} h hh hsub hret := by
    obtain ⟨hnew, hok, hrest⟩ := PrefixOk.lawful.allocateMutable h.ok hh hsub hret
    obtain ⟨-, b, hmade⟩ := h.ok.allocateMutable pos hsub hret
    exact ⟨hnew, h.made hok hmade trivial, hrest⟩
  allocateImmutable {s s' D chunks _ blocks} h hfull hret := by
    obtain ⟨hh, hlen, hnew, hok, hframe⟩ := PrefixOk.lawful.allocateImmutable h.ok hfull hret
    obtain ⟨-, hgrown, -, -⟩ := h.ok.allocateImmutable pos hfull hret
    exact ⟨hh, hlen, hnew, h.grown hok hgrown trivial, hframe⟩
  appendTokenIds {s s' D blocks tokens chunk o u} h hh hsub ho hne hfit hret := by
    obtain ⟨hok, hrest⟩ := PrefixOk.lawful.appendTokenIds h.ok hh hsub ho hne hfit hret
    obtain ⟨-, hwritten⟩ := h.ok.append hh hsub ho hne hret
    exact ⟨h.written hok hwritten, hrest⟩
  fork {s s' D blocks forked tokens last} h hh hsub hlast hret := by
    obtain ⟨hh', hnew, hok, hrest⟩ := PrefixOk.lawful.fork h.ok hh hsub hlast hret
    obtain ⟨-, -, -, -, hextra, -⟩ := h.ok.fork hh hsub hlast hret
    refine ⟨hh', hnew, ⟨hok, h.sub.trans Finset.subset_union_left, fun x hx => ?_, fun _ _ _ => trivial⟩, hrest⟩
    rw [hextra x (h.sub hx), h.old x hx]

theorem start (hok : PrefixOk P n all s D) : ExtraOk P n all (fun x => (s.pool x).extraHash) D Q s D :=
  ⟨hok, Finset.Subset.refl D, fun _ _ => rfl, fun _ hx hnot => absurd hx hnot⟩

end ExtraOk

namespace BlockTable

variable {σ : Type} {A : Allocator σ} {extraHash : Option ℤ}

theorem appendBlocks_own : ∀ (k : ℕ) (t : BlockTable),
    appendBlocks (A.own extraHash) extraHash k t = appendBlocks A extraHash k t
  | 0, _ => rfl
  | k + 1, t => by
    rw [appendBlocks, appendBlocks]
    simp only [appendBlocks_own k]
    rfl

theorem appendChunks_own : ∀ (chunks : List (List TokenId)) (i : ℕ) (t : BlockTable),
    appendChunks (A.own extraHash) i chunks t = appendChunks A i chunks t
  | [], _, _ => rfl
  | c :: chunks, i, t => by
    rw [appendChunks, appendChunks]
    simp only [appendChunks_own chunks]
    rfl

/-- A table does not see the difference, if it is called with the extra hash of the sequence. -/
theorem appendTokenIds_own (t : BlockTable) (tokenIds : List TokenId) (numLookaheadSlots : ℕ) :
    t.appendTokenIds (A.own extraHash) tokenIds numLookaheadSlots extraHash =
      t.appendTokenIds A tokenIds numLookaheadSlots extraHash := by
  unfold appendTokenIds ensureNumEmptySlots
  simp only [appendBlocks_own, appendChunks_own]
  rfl

theorem allocate_own (t : BlockTable) (tokenIds : List TokenId) :
    t.allocate (A.own extraHash) tokenIds extraHash = t.allocate A tokenIds extraHash := rfl

end BlockTable

/-! ## Runs -/

/-- A sequence with the tracker, and the tables over the allocator; and how many tokens the sequence had when its
hashes were updated last. -/
structure HashSync where
  tables : PrefixTables
  tokenIds : List TokenId
  tracker : ComputedBlocksTracker
  numTokensAtUpdate : ℕ

/-- Tokens of the sequence, updates of its hashes or of those of others, and calls on tables. -/
inductive HashCall
  | token (tokenIds : List TokenId)
  | update
  | updateOther (seqId : ℕ) (tokenIds : List TokenId) (extraHash : Option ℤ)
  | table (call : TableCall)

namespace HashSync

/-- A new allocator and a new tracker. -/
def init (blockSize : ℕ) (blockIds : List BlockId) (tokenIds : List TokenId) : Except Exn HashSync := do
  let alloc ← PrefixCachingBlockAllocator.init blockSize blockIds
  .ok ⟨⟨alloc, []⟩, tokenIds, .init blockSize true, 0⟩

variable (P : PrefixHasher) {n : ℕ} (pos : 0 < n) (i seqId : ℕ) (extraHash : Option ℤ)

/-- A call. The sequence `seqId` has the table with number `i`. -/
def step (w : HashSync) : HashCall → Except Exn HashSync
  | .token tokenIds => .ok { w with tokenIds := w.tokenIds ++ tokenIds }
  | .update => do
    let tracker ← w.tracker.updateSeqHashes P seqId w.tokenIds extraHash
    .ok { w with tracker, numTokensAtUpdate := w.tokenIds.length }
  | .updateOther otherId tokenIds extraHash => do
    let tracker ← w.tracker.updateSeqHashes P otherId tokenIds extraHash
    .ok { w with tracker }
  | .table call => do
    let tables ← w.tables.step (prefixAllocator P n pos) call
    .ok { w with tables }

/-- The table of the sequence gets tokens of the sequence, with its extra hash. -/
def Allowed (w : HashSync) : HashCall → Prop
  | .updateOther otherId _ _ => otherId ≠ seqId
  | .table (.allocate j tokenIds extra) => j = i → tokenIds <+: w.tokenIds ∧ extra = extraHash
  | .table (.appendTokenIds j tokenIds _ extra) => j = i → extra = extraHash ∧
      ∀ t ∈ w.tables.tables[i]?, tokenIds <+: w.tokenIds.drop t.table.numFullSlots
  | .table (.fork _) => w.tables.tables.length ≠ i
  | _ => True

instance (w : HashSync) : (c : HashCall) → Decidable (w.Allowed i seqId extraHash c)
  | .token _ => isTrue trivial
  | .update => isTrue trivial
  | .updateOther otherId _ _ => inferInstanceAs (Decidable (otherId ≠ seqId))
  | .table .new => isTrue trivial
  | .table (.allocate j tokenIds extra) =>
    inferInstanceAs (Decidable (j = i → tokenIds <+: w.tokenIds ∧ extra = extraHash))
  | .table (.appendTokenIds j tokenIds _ extra) => inferInstanceAs (Decidable (j = i → extra = extraHash ∧
      ∀ t ∈ w.tables.tables[i]?, tokenIds <+: w.tokenIds.drop t.table.numFullSlots))
  | .table (.fork _) => inferInstanceAs (Decidable (w.tables.tables.length ≠ i))
  | .table (.free _) => isTrue trivial

/-- The recorded hashes of the sequence. -/
def recorded (w : HashSync) : List ℤ := (w.tracker.seqIdToBlocksHashes.get? seqId).getD []

/-- The recorded hashes are as many as the full blocks that the sequence had, and those of its blocks. -/
structure Agrees (w : HashSync) : Prop where
  length : (w.recorded seqId).length = w.numTokensAtUpdate / n
  values : ∀ t, w.tables.tables[i]? = some t → ∃ (values : List (Option ℤ)) (s' : PrefixCachingBlockAllocator),
    Returns ((t.table.blocks.filter fun o => (w.tables.alloc.block o).isFull n).mapM
      (PrefixCachingBlockAllocator.contentHashOf P)) w.tables.alloc values s' ∧
    ∀ (k : ℕ) (h : ℤ) (v : Option ℤ), (w.recorded seqId)[k]? = some h → values[k]? = some v → v = some h

/-- What is kept between two calls. -/
structure Inv (all : List BlockId) (w : HashSync) : Prop where
  tables : w.tables.Ok (prefixAllocator P n pos) (PrefixOk P n all)
  extra : ∀ t, w.tables.tables[i]? = some t → ∀ o ∈ t.table.blocks, (w.tables.alloc.pool o).extraHash = extraHash
  tokens : ∀ t, w.tables.tables[i]? = some t → t.tokens <+: w.tokenIds
  size : w.tracker.blockSize = n
  recorded : w.recorded seqId = blockHashes P n extraHash w.tokenIds (w.numTokensAtUpdate / n)
  le : w.numTokensAtUpdate ≤ w.tokenIds.length

end HashSync

section Proofs

variable {P : PrefixHasher} {n : ℕ} {pos : 0 < n} {all : List BlockId} {i seqId : ℕ} {extraHash : Option ℤ}

/-- **The extra hash** of the blocks of a table, after any call. -/
theorem PrefixTables.extraHash_step {w w' : PrefixTables} {c : TableCall}
    (h : w.Ok (prefixAllocator P n pos) (PrefixOk P n all))
    (hextra : ∀ t, w.tables[i]? = some t → ∀ o ∈ t.table.blocks, (w.alloc.pool o).extraHash = extraHash)
    (hallocate : ∀ tokenIds extra, c = .allocate i tokenIds extra → extra = extraHash)
    (happend : ∀ tokenIds k extra, c = .appendTokenIds i tokenIds k extra → extra = extraHash)
    (hfork : ∀ j, c = .fork j → w.tables.length ≠ i) (hstep : w.step (prefixAllocator P n pos) c = .ok w') :
    ∀ t, w'.tables[i]? = some t → ∀ o ∈ t.table.blocks, (w'.alloc.pool o).extraHash = extraHash := by
  have hstart := fun Q => ExtraOk.start (Q := Q) h.inv
  -- a call on table `j`, which has the extra hash if it is the table in question
  have hcall : ∀ {j : ℕ} {t t' : Tracked} {s' : PrefixCachingBlockAllocator} {Q : Option ℤ → Prop},
      w.tables[j]? = some t →
      ExtraOk P n all (fun x => (w.alloc.pool x).extraHash) w.used Q s' (w.used ∪ t'.table.blocks.toFinset) →
      (∀ x ∈ t'.table.blocks, x ∈ t.table.blocks ∨ x ∉ w.used) → (j = i → ∀ e, Q e → e = extraHash) →
      ∀ u, (w.tables.set j t')[i]? = some u → ∀ o ∈ u.table.blocks, (s'.pool o).extraHash = extraHash := by
    intro j t t' s' Q ht hinv hnew hQ u hu o ho
    rcases eq_or_ne j i with rfl | hne
    · rw [Tables.getElem?_set_self ht] at hu
      cases hu
      rcases hnew o ho with hold | hnot
      · rw [hinv.old o (Tables.Ok.subset ht o hold)]
        exact hextra t ht o hold
      · exact hQ rfl _ (hinv.new o (Finset.mem_union_right _ (List.mem_toFinset.mpr ho)) hnot)
    · rw [List.getElem?_set_ne hne] at hu
      rw [hinv.old o (Tables.Ok.subset hu o ho)]
      exact hextra u hu o ho
  cases c with
  | new =>
    cases hstep
    intro t ht o ho
    rcases Tables.getElem?_concat _ _ _ ht with ht | ⟨-, rfl⟩
    · exact hextra t ht o ho
    · exact absurd ho List.not_mem_nil
  | allocate j tokenIds extra =>
    obtain ⟨t, ht, hstep⟩ := bind_eq_ok.mp hstep
    obtain ⟨⟨table, s'⟩, hret, hstep⟩ := bind_eq_ok.mp hstep
    cases hstep
    rw [Tables.get_eq_ok] at ht
    rw [← BlockTable.allocate_own] at hret
    obtain ⟨-, -, hkept⟩ := BlockTable.allocate_spec ExtraOk.own_lawful (hstart (· = extra)) (exec_eq_ok.mp hret)
    exact hcall ht hkept.inv hkept.new fun heq e he => he.trans (hallocate tokenIds extra (by rw [heq]))
  | appendTokenIds j tokenIds k extra =>
    obtain ⟨t, ht, hstep⟩ := bind_eq_ok.mp hstep
    obtain ⟨⟨table, s'⟩, hret, hstep⟩ := bind_eq_ok.mp hstep
    cases hstep
    rw [Tables.get_eq_ok] at ht
    rw [← BlockTable.appendTokenIds_own] at hret
    have htable := h.table j t ht
    obtain ⟨-, hkept⟩ := BlockTable.appendTokenIds_spec ExtraOk.own_lawful (hstart (· = extra))
      ⟨htable.holds, htable.blockIds, htable.numFullSlots⟩ (Tables.Ok.subset ht) (exec_eq_ok.mp hret)
    exact hcall ht hkept.inv hkept.new fun heq e he => he.trans (happend tokenIds k extra (by rw [heq]))
  | fork j =>
    obtain ⟨t, ht, hstep⟩ := bind_eq_ok.mp hstep
    obtain ⟨⟨table, s'⟩, hret, hstep⟩ := bind_eq_ok.mp hstep
    cases hstep
    rw [Tables.get_eq_ok] at ht
    obtain ⟨-, -, hkept⟩ := BlockTable.fork_spec ExtraOk.others_lawful (hstart fun _ => True) (h.table j t ht)
      (Tables.Ok.subset ht) (exec_eq_ok.mp hret)
    intro u hu o ho
    rcases Tables.getElem?_concat _ _ _ hu with hu | ⟨heq, -⟩
    · rw [hkept.inv.old o (Tables.Ok.subset hu o ho)]
      exact hextra u hu o ho
    · exact absurd heq.symm (hfork j rfl)
  | free j =>
    obtain ⟨t, ht, hstep⟩ := bind_eq_ok.mp hstep
    obtain ⟨⟨table, s'⟩, hret, hstep⟩ := bind_eq_ok.mp hstep
    cases hstep
    rw [Tables.get_eq_ok] at ht
    rw [exec_eq_ok] at hret
    simp only [BlockTable.free, returns_bind, returns_pure] at hret
    obtain ⟨u, s₁, hall, rfl, rfl⟩ := hret
    have hkeep : ∀ x, (s'.pool x).extraHash = (w.alloc.pool x).extraHash := by
      obtain ⟨H, hi⟩ := h.inv
      exact (hi.freeBlocks t.table.blocks (h.table j t ht).holds.nodup (Tables.Ok.subset ht) hall).2.2.2
    intro v hv o ho
    rw [hkeep o]
    rcases eq_or_ne j i with rfl | hne
    · change (w.tables.set j _)[j]? = _ at hv
      rw [Tables.getElem?_set_self ht] at hv
      cases hv
      exact absurd ho List.not_mem_nil
    · change (w.tables.set j _)[i]? = _ at hv
      rw [List.getElem?_set_ne hne] at hv
      exact hextra v hv o ho

/-- **The tokens** of the table of a sequence stay tokens of the sequence. -/
theorem PrefixTables.tokens_step {w w' : PrefixTables} {c : TableCall} {tokenIds : List TokenId}
    (h : w.Ok (prefixAllocator P n pos) (PrefixOk P n all))
    (htokens : ∀ t, w.tables[i]? = some t → t.tokens <+: tokenIds)
    (hallocate : ∀ new extra, c = .allocate i new extra → new <+: tokenIds)
    (happend : ∀ new k extra, c = .appendTokenIds i new k extra →
      ∀ t ∈ w.tables[i]?, new <+: tokenIds.drop t.table.numFullSlots)
    (hfork : ∀ j, c = .fork j → w.tables.length ≠ i) (hstep : w.step (prefixAllocator P n pos) c = .ok w') :
    ∀ t, w'.tables[i]? = some t → t.tokens <+: tokenIds := by
  have hset : ∀ {j : ℕ} {t t' : Tracked}, w.tables[j]? = some t → (j = i → t'.tokens <+: tokenIds) →
      ∀ u, (w.tables.set j t')[i]? = some u → u.tokens <+: tokenIds := by
    intro j t t' ht hj u hu
    rcases eq_or_ne j i with rfl | hne
    · rw [Tables.getElem?_set_self ht] at hu
      cases hu
      exact hj rfl
    · rw [List.getElem?_set_ne hne] at hu
      exact htokens u hu
  cases c with
  | new =>
    cases hstep
    intro t ht
    rcases Tables.getElem?_concat _ _ _ ht with ht | ⟨-, rfl⟩
    · exact htokens t ht
    · exact List.nil_prefix
  | allocate j new extra =>
    obtain ⟨t, ht, hstep⟩ := bind_eq_ok.mp hstep
    obtain ⟨⟨table, s'⟩, hret, hstep⟩ := bind_eq_ok.mp hstep
    cases hstep
    exact hset (Tables.get_eq_ok.mp ht) fun heq => hallocate new extra (by rw [heq])
  | appendTokenIds j new k extra =>
    obtain ⟨t, ht, hstep⟩ := bind_eq_ok.mp hstep
    obtain ⟨⟨table, s'⟩, hret, hstep⟩ := bind_eq_ok.mp hstep
    cases hstep
    rw [Tables.get_eq_ok] at ht
    refine hset ht fun heq => ?_
    subst heq
    -- the table has blocks, so it knows how many tokens it has
    have hne : t.table.blocks ≠ [] := by
      rw [exec_eq_ok] at hret
      simp only [BlockTable.appendTokenIds, returns_bind, returns_fromExcept, returns_pure] at hret
      obtain ⟨u, s₁, ⟨hassert, -⟩, -⟩ := hret
      exact assert_eq_ok.mp hassert
    have hnew := happend new k extra rfl t ht
    rw [(h.table j t ht).numFullSlots hne] at hnew
    obtain ⟨rest, hrest⟩ := htokens t ht
    rw [← hrest, List.drop_left] at hnew
    rw [← hrest]
    exact (List.prefix_append_right_inj _).mpr hnew
  | fork j =>
    obtain ⟨t, ht, hstep⟩ := bind_eq_ok.mp hstep
    obtain ⟨⟨table, s'⟩, hret, hstep⟩ := bind_eq_ok.mp hstep
    cases hstep
    intro u hu
    rcases Tables.getElem?_concat _ _ _ hu with hu | ⟨heq, -⟩
    · exact htokens u hu
    · exact absurd heq.symm (hfork j rfl)
  | free j =>
    obtain ⟨t, ht, hstep⟩ := bind_eq_ok.mp hstep
    obtain ⟨⟨table, s'⟩, hret, hstep⟩ := bind_eq_ok.mp hstep
    cases hstep
    exact hset (Tables.get_eq_ok.mp ht) fun _ => List.nil_prefix

namespace HashSync

variable {w w' : HashSync} {c : HashCall}

/-- **One call** keeps what is kept. -/
theorem Inv.step (hP : ∀ first prev tokens extra, P.hash first prev tokens extra ≠ P.noneHash)
    (h : w.Inv P pos i seqId extraHash all) (hallowed : w.Allowed i seqId extraHash c)
    (hstep : w.step P pos seqId extraHash c = .ok w') : w'.Inv P pos i seqId extraHash all := by
  cases c with
  | token tokenIds =>
    cases hstep
    have hpre : w.tokenIds <+: w.tokenIds ++ tokenIds := List.prefix_append _ _
    refine ⟨h.tables, h.extra, fun t ht => (h.tokens t ht).trans hpre, h.size, ?_, h.le.trans hpre.length_le⟩
    exact h.recorded.trans (blockHashes_eq_of_le hpre ((Nat.div_mul_le_self _ _).trans h.le)).symm
  | update =>
    obtain ⟨tracker, hupdate, hstep⟩ := bind_eq_ok.mp hstep
    cases hstep
    have hrecorded := h.recorded
    rw [← h.size] at hrecorded
    rw [updateSeqHashes_spec hP hrecorded (Nat.div_le_div_right h.le) hupdate]
    refine ⟨h.tables, h.extra, h.tokens, h.size, ?_, le_refl _⟩
    show ((w.tracker.seqIdToBlocksHashes.set seqId _).get? seqId).getD [] = _
    rw [Dict.get?_set_self, h.size]
    rfl
  | updateOther otherId tokenIds extra =>
    obtain ⟨tracker, hupdate, hstep⟩ := bind_eq_ok.mp hstep
    cases hstep
    obtain ⟨u, -, hupdate⟩ := bind_eq_ok.mp hupdate
    obtain ⟨v, -, hupdate⟩ := bind_eq_ok.mp hupdate
    obtain ⟨recorded, -, hupdate⟩ := bind_eq_ok.mp hupdate
    cases hupdate
    refine ⟨h.tables, h.extra, h.tokens, h.size, ?_, h.le⟩
    show ((w.tracker.seqIdToBlocksHashes.set otherId recorded).get? seqId).getD [] = _
    rw [Dict.get?_set_ne _ (Ne.symm hallowed)]
    exact h.recorded
  | table call =>
    obtain ⟨tables, hcall, hstep⟩ := bind_eq_ok.mp hstep
    cases hstep
    have hfork : ∀ j, call = .fork j → w.tables.tables.length ≠ i := by
      rintro j rfl
      exact hallowed
    refine ⟨(Tables.step_spec PrefixOk.lawful PrefixOk.freeLawful h.tables hcall).1,
      PrefixTables.extraHash_step h.tables h.extra ?_ ?_ hfork hcall,
      PrefixTables.tokens_step h.tables h.tokens ?_ ?_ hfork hcall, h.size, h.recorded, h.le⟩
    · rintro tokenIds extra rfl
      exact (hallowed rfl).2
    · rintro tokenIds k extra rfl
      exact (hallowed rfl).1
    · rintro tokenIds extra rfl
      exact (hallowed rfl).1
    · rintro tokenIds k extra rfl
      exact (hallowed rfl).2

theorem inv_init {blockIds : List BlockId} {tokenIds : List TokenId} (hinit : init n blockIds tokenIds = .ok w) :
    w.Inv P pos i seqId extraHash blockIds := by
  obtain ⟨s, halloc, hinit⟩ := bind_eq_ok.mp hinit
  cases hinit
  refine ⟨Tables.ok_init (PrefixOk.of_init halloc), nofun, nofun, rfl, ?_, Nat.zero_le _⟩
  show _ = blockHashes P n extraHash tokenIds (0 / n)
  rw [Nat.zero_div]
  rfl

/-- **The tracker and the blocks agree**, whenever the tracker was updated, and whatever the table of the sequence
got so far. -/
theorem tracker_agrees_with_blocks (hP : ∀ first prev tokens extra, P.hash first prev tokens extra ≠ P.noneHash)
    {blockIds : List BlockId} {tokenIds : List TokenId} {w₀ : HashSync} (hinit : init n blockIds tokenIds = .ok w₀)
    (hreach : Reachable (step P pos seqId extraHash) (Allowed i seqId extraHash) w₀ w) :
    w.Agrees (n := n) P i seqId := by
  have hinv : w.Inv P pos i seqId extraHash blockIds :=
    hreach.invariant (inv_init hinit) fun _ _ _ hi ha hs => hi.step hP ha hs
  have hlength : ∀ (tokens : List TokenId) (k : ℕ), (blockHashes P n extraHash tokens k).length = k := fun _ _ => by
    rw [blockHashes, List.length_map, List.length_range]
  refine ⟨by rw [hinv.recorded, hlength], fun t ht => ?_⟩
  obtain ⟨s', hret⟩ := contentHashes_eq pos hP hinv.tables.inv (hinv.tables.table i t ht).holds
    (Tables.Ok.subset ht) (hinv.extra t ht)
  refine ⟨_, s', hret, fun k h v hk hv => ?_⟩
  -- the block is full, so its hash is that of the block of the sequence
  rw [List.getElem?_map, Option.map_eq_some_iff] at hv
  obtain ⟨h', hv, rfl⟩ := hv
  rw [hinv.recorded, blockHashes, List.getElem?_map, Option.map_eq_some_iff] at hk
  rw [blockHashes, List.getElem?_map, Option.map_eq_some_iff] at hv
  obtain ⟨j, hj, rfl⟩ := hk
  obtain ⟨j', hj', rfl⟩ := hv
  have hlt := (List.getElem?_eq_some_iff.mp hj').1
  have hlt₀ := (List.getElem?_eq_some_iff.mp hj).1
  rw [List.length_range] at hlt hlt₀
  rw [List.getElem?_range hlt] at hj'
  rw [List.getElem?_range hlt₀] at hj
  cases hj
  cases hj'
  exact congrArg some (blockHash_eq_of_le (hinv.tokens t ht) k ((Nat.le_div_iff_mul_le pos).mp hlt)).symm

/-- A sequence whose second block is filled by an append, while another table has its first block too. -/
theorem tracker_agrees_with_blocks_sample : ∃ w : HashSync, w.recorded 7 = [1026, 986115] ∧
    w.Agrees (n := 2) .sample 0 7 := by
  obtain ⟨w₀, hinit, hrun⟩ : ∃ w₀, init 2 [0, 1, 2, 3] [1, 2, 3] = .ok w₀ ∧
      (runChecked (step .sample Nat.zero_lt_two 7 none) (Allowed 0 7 none) w₀
        [.table .new, .table .new, .table (.allocate 0 [1, 2, 3] none), .update, .table (.allocate 1 [1, 2] none),
          .token [4, 5], .table (.appendTokenIds 0 [4] 1 none), .update]).any
        (fun w => decide (w.recorded 7 = [1026, 986115])) = true := ⟨_, rfl, by decide +kernel⟩
  obtain ⟨w, hreach, hrecorded⟩ := exists_reachable _ _ w₀ _ (fun w : HashSync => w.recorded 7 = [1026, 986115]) hrun
  exact ⟨w, hrecorded, tracker_agrees_with_blocks PrefixHasher.sample_ne hinit hreach⟩

end HashSync

end Proofs

end SpaceServe
