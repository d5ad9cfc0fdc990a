import SpaceServe.BlockManager.PrefixInv

/-!
# Tables over a prefix cache

What `BlockTable` asks of an allocator, for the one with the prefix cache.

* `PrefixInv.shrink`, `PrefixInv.freeObject`, **`PrefixInv.initBlock`**: objects come and go;
* **`PrefixInv.allocateMutableBlock`**, **`PrefixInv.allocateImmutableBlock`**, `PrefixInv.allocateImmutableBlocks`,
  `PrefixInv.forkBlock`: new blocks;
* `PrefixOk`: the invariant between two calls; **`PrefixOk.lawful`**, **`PrefixOk.freeLawful`**.
-/

set_option autoImplicit false

namespace SpaceServe

open Py

namespace PrefixInv

open PrefixCachingBlockAllocator

variable {P : PrefixHasher} {n : ℕ} {all held held' : List BlockId} {busy : Option PoolId}
  {s s' : PrefixCachingBlockAllocator} {L D D' : Finset PoolId} {H : PoolId → Option ℤ} {o : PoolId} {b : BlockId}
  {u : PUnit}

/-! ## Objects -/

/-- Blocks without an id are dropped. -/
theorem shrink (hi : PrefixInv P n all held busy s L D H) (hsub : D' ⊆ D) (hlive : L ⊆ D')
    (hnone : ∀ x ∈ D, x ∉ D' → s.hashless.ids x = none)
    (hclosed : ∀ x ∈ D', ∀ p, (s.block x).prevBlock = some p → p ∈ D') :
    PrefixInv P n all held busy s L D' H where
  pool := hi.pool
  live := hlive
  size := hi.size
  accounts := ⟨hi.accounts.counted.shrink hsub hnone, hi.accounts.free_nodup, hi.accounts.free_iff,
    hi.accounts.tracked, hi.accounts.evicted, hi.accounts.inj, hi.accounts.kept⟩
  data := ⟨fun x hx => hi.data.hash x (hsub hx), hclosed, fun x hx => hi.data.prev_full x (hsub hx),
    fun x hx => hi.data.memo x (hsub hx)⟩
  cached x hx := hi.cached x (hsub hx)
  uncached x hx := hi.uncached x (hsub hx)

/-- An object goes back to the pool. Its data stays there for now. -/
theorem freeObject (hi : PrefixInv P n all held busy s L D H) (ho : o ∈ L)
    (h : Returns (onHashless (NaiveBlockAllocator.freeBlock o)) s u s') :
    PrefixInv P n all held busy s' (L.erase o) D H ∧ (∀ x, s'.pool x = s.pool x) ∧
      s'.cachedBlocks = s.cachedBlocks := by
  obtain ⟨hashless, hfree, rfl⟩ := returns_onHashless h
  rw [NaiveBlockAllocator.returns_freeBlock hfree]
  exact ⟨⟨hi.pool.freeBlock ho, (Finset.erase_subset o L).trans hi.live, hi.size, hi.accounts, hi.data, hi.cached,
    hi.uncached⟩, fun _ => rfl, rfl⟩

/-- What a new block leaves. -/
structure Made (s s' : PrefixCachingBlockAllocator) (D : Finset PoolId) (o : PoolId) (block : NaiveBlock)
    (extraHash : Option ℤ) : Prop where
  new : o ∉ D
  block : s'.block o = block
  extra : (s'.pool o).extraHash = extraHash
  frame : ∀ x ∈ D, s'.block x = s.block x
  extraHash : ∀ x ∈ D, (s'.pool x).extraHash = (s.pool x).extraHash

theorem Made.hashed {s₁ : PrefixCachingBlockAllocator} {block : NaiveBlock} {extraHash : Option ℤ}
    (h : Made s s₁ D o block extraHash) (hh : Hashed s₁ s') : Made s s' D o block extraHash :=
  ⟨h.new, (hh.block o).trans h.block, (hh.extraHash o).trans h.extra, fun x hx => (hh.block x).trans (h.frame x hx),
    fun x hx => (hh.extraHash x).trans (h.extraHash x hx)⟩

/-- **A new object**. -/
theorem initBlock (hi : PrefixInv P n all held' none s D D H) {prevBlock : Option PoolId} {tokenIds : List TokenId}
    {blockId : Option BlockId} {extraHash : Option ℤ}
    (hprev : ∀ p, prevBlock = some p → p ∈ D)
    (hfull : tokenIds.length = n → ∀ p, prevBlock = some p → (s.block p).isFull n = true)
    (hcounted : ∀ {ids : PoolId → Option BlockId}, (∀ x ∈ D, ids x = s.hashless.ids x) → o ∉ D → ids o = blockId →
      Counted s.hashless.refcounter all ids (insert o D) held)
    (hcached : ∀ b, blockId = some b → (∀ h, hashFrom P n H (PrefixCachingBlock.mk ⟨prevBlock, tokenIds, blockId⟩ none 0
        false extraHash) = some h → s.cachedBlocks.get? h = some b) ∧
      (hashFrom P n H (PrefixCachingBlock.mk ⟨prevBlock, tokenIds, blockId⟩ none 0 false extraHash) = none →
        ∀ h, s.cachedBlocks.get? h ≠ some b))
    (h : Returns (onHashless (NaiveBlockAllocator.initBlock prevBlock tokenIds blockId extraHash)) s o s') :
    ∃ H', PrefixInv P n all held none s' (insert o D) (insert o D) H' ∧
      Made s s' D o ⟨prevBlock, tokenIds, blockId⟩ extraHash ∧ (∀ x ∈ D, H' x = H x) ∧
      H' o = hashFrom P n H (PrefixCachingBlock.mk ⟨prevBlock, tokenIds, blockId⟩ none 0 false extraHash) ∧
      s'.cachedBlocks = s.cachedBlocks := by
  obtain ⟨hashless, hinit, rfl⟩ := returns_onHashless h
  obtain ⟨ho, hlen, pool, rfl, hok, hsize, hpool⟩ := NaiveBlockAllocator.returns_initBlock hi.pool hinit
  have hne : ∀ x ∈ D, x ≠ o := by
    rintro x hx rfl
    exact ho hx
  have hobject : pool.pool o = Block.init s.pool ⟨prevBlock, tokenIds, blockId⟩ extraHash := by
    rw [hpool, Function.update_self]
    rfl
  have hsame : ∀ x ∈ D, pool.pool x = s.pool x := fun x hx => by
    rw [hpool, Function.update_of_ne (hne x hx)]
    rfl
  have hids : ∀ x ∈ D, NaiveBlockAllocator.ids { s.hashless with blockPool := pool } x = s.hashless.ids x :=
    fun x hx => congrArg (fun y => y.block.blockId) (hsame x hx)
  have hido : NaiveBlockAllocator.ids { s.hashless with blockPool := pool } o = blockId := by
    show (pool.pool o).block.blockId = _
    rw [hobject]
    rfl
  have hash : hashFrom P n H (pool.pool o) =
      hashFrom P n H (PrefixCachingBlock.mk ⟨prevBlock, tokenIds, blockId⟩ none 0 false extraHash) := by
    rw [hobject]
    exact hashFrom_congr rfl rfl rfl rfl fun _ _ _ => rfl
  have hdata : HashData P n pool.pool (insert o D) _ := hi.data.insert ho hsame (by rw [hobject]; rfl)
    (fun p hp => hprev p (by rw [hobject] at hp; exact hp)) fun hf p hp => by
      rw [hobject] at hp hf
      have hzero : n - tokenIds.length = 0 := of_decide_eq_true hf
      rw [hi.size] at hlen
      exact hfull (by omega) p hp
  have hold : ∀ x ∈ D, Function.update H o (hashFrom P n H (pool.pool o)) x = H x := fun x hx =>
    Function.update_of_ne (hne x hx) _ _
  refine ⟨_, ⟨hok, Finset.Subset.refl _, hsize.trans hi.size, ⟨hcounted hids ho hido, hi.accounts.free_nodup,
    hi.accounts.free_iff, hi.accounts.tracked, hi.accounts.evicted, hi.accounts.inj, hi.accounts.kept⟩, hdata,
    fun x hx _ h₁ b₁ hxH hxb => ?_, fun x hx _ h₁ b₁ hxH hxb => ?_⟩, ⟨ho, ?_, ?_, fun x hx => ?_, fun x hx => ?_⟩,
    hold, by rw [Function.update_self, hash], rfl⟩
  · rcases Finset.mem_insert.mp hx with rfl | hx
    · rw [Function.update_self, hash] at hxH
      exact (hcached b₁ (hido.symm.trans hxb)).1 h₁ hxH
    · rw [hold x hx] at hxH
      exact hi.cached x hx nofun h₁ b₁ hxH ((hids x hx).symm.trans hxb)
  · rcases Finset.mem_insert.mp hx with rfl | hx
    · rw [Function.update_self, hash] at hxH
      exact (hcached b₁ (hido.symm.trans hxb)).2 hxH h₁
    · rw [hold x hx] at hxH
      exact hi.uncached x hx nofun h₁ b₁ hxH ((hids x hx).symm.trans hxb)
  · show (pool.pool o).block = _
    rw [hobject]
    rfl
  · show (pool.pool o).extraHash = _
    rw [hobject]
    rfl
  · exact congrArg PrefixCachingBlock.block (hsame x hx)
  · exact congrArg PrefixCachingBlock.extraHash (hsame x hx)

/-! ## New blocks -/

/-- A block with room has no hash. -/
theorem hashFrom_eq_none {x : PrefixCachingBlock} (h : x.block.tokenIds.length < n) : hashFrom P n H x = none := by
  rw [hashFrom, if_pos]
  rw [NaiveBlock.isFull, NaiveBlock.numEmptySlots, decide_eq_true_eq]
  omega

/-- **A mutable block**. -/
theorem allocateMutableBlock (pos : 0 < n) (hi : PrefixInv P n all [] none s D D H) {prevBlock : Option PoolId}
    {extraHash : Option ℤ} (hprev : ∀ p, prevBlock = some p → p ∈ D)
    (h : Returns (PrefixCachingBlockAllocator.allocateMutableBlock P prevBlock extraHash) s o s') :
    ∃ H' b, PrefixInv P n all [] none s' (insert o D) (insert o D) H' ∧
      Made s s' D o ⟨prevBlock, [], some b⟩ extraHash ∧ (∀ x ∈ D, H' x = H x) ∧
      s.hashless.refcounter.get? b = some 0 := by
  simp only [PrefixCachingBlockAllocator.allocateMutableBlock, returns_bind, returns_get, returns_fromExcept,
    returns_pure] at h
  obtain ⟨b, s₁, hid, o', s₂, hinit, s₃, s₄, ⟨rfl, rfl⟩, v, s₅, ⟨-, rfl⟩, r, s₆, hhash, w, s₇, ⟨-, rfl⟩, rfl, rfl⟩ := h
  obtain ⟨hi₁, hallocated⟩ := hi.allocateBlockId hid
  have hnone : hashFrom P n H (PrefixCachingBlock.mk ⟨prevBlock, [], some b⟩ none 0 false extraHash) = none :=
    hashFrom_eq_none pos
  have hempty : ([] : List TokenId).length = n → ∀ p, prevBlock = some p → (s₁.block p).isFull n = true :=
    fun heq => absurd heq pos.ne
  have hcounted : ∀ {ids : PoolId → Option BlockId}, (∀ x ∈ D, ids x = s₁.hashless.ids x) → o ∉ D →
      ids o = some b → Counted s₁.hashless.refcounter all ids (insert o D) [] :=
    fun hids ho hido => hi₁.accounts.counted.new ho hids hido
  obtain ⟨H', hi₂, hmade, hold, -, -⟩ := hi₁.initBlock hprev hempty hcounted (fun b' hb' => by
    cases hb'
    rw [hnone]
    exact ⟨fun _ heq => absurd heq.symm (Option.some_ne_none _), fun _ => hallocated.uncached⟩) hinit
  obtain ⟨-, hi₃, hhashed⟩ := hi₂.contentHashOf (Finset.mem_insert_self _ _) hhash
  refine ⟨H', b, hi₃, Made.hashed ⟨hmade.new, hmade.block, hmade.extra, fun x hx => ?_, fun x hx => ?_⟩ hhashed, hold,
    hallocated.unused⟩
  · rw [hmade.frame x hx]
    exact congrArg PrefixCachingBlock.block (hallocated.frame x hx)
  · rw [hmade.extraHash x hx, hallocated.frame x hx]

/-- A block with a hash is full. -/
theorem length_of_hashFrom {block : NaiveBlock} {extraHash : Option ℤ} {hash : ℤ}
    (hlen : block.tokenIds.length ≤ n)
    (h : hashFrom P n H (PrefixCachingBlock.mk block none 0 false extraHash) = some hash) :
    block.tokenIds.length = n := by
  by_contra hne
  rw [hashFrom_eq_none (Nat.lt_of_le_of_ne hlen hne)] at h
  cases h

/-- **An object to have its hash**, without an id. -/
theorem probe (hi : PrefixInv P n all [] none s D D H) {prevBlock : Option PoolId} {tokenIds : List TokenId}
    {extraHash : Option ℤ} {s₁ : PrefixCachingBlockAllocator} {hash : ℤ} (hprev : ∀ p, prevBlock = some p → p ∈ D)
    (hfull : ∀ p, prevBlock = some p → (s.block p).isFull n = true)
    (hinit : Returns (onHashless (NaiveBlockAllocator.initBlock prevBlock tokenIds none extraHash)) s o s₁)
    (hhash : Returns (PrefixCachingBlockAllocator.contentHashOf P o) s₁ (some hash) s') :
    hashFrom P n H (PrefixCachingBlock.mk ⟨prevBlock, tokenIds, none⟩ none 0 false extraHash) = some hash ∧
      tokenIds.length = n ∧ s'.hashless.refcounter = s.hashless.refcounter ∧
      s'.hashless.freeBlockIndices = s.hashless.freeBlockIndices ∧ s'.evictor = s.evictor ∧
      s'.cachedBlocks = s.cachedBlocks ∧ ∃ H', PrefixInv P n all [] none s' (insert o D) (insert o D) H' ∧
        Made s s' D o ⟨prevBlock, tokenIds, none⟩ extraHash ∧ (∀ x ∈ D, H' x = H x) ∧ H' o = some hash := by
  have hcounted : ∀ {ids : PoolId → Option BlockId}, (∀ x ∈ D, ids x = s.hashless.ids x) → o ∉ D →
      ids o = none → Counted s.hashless.refcounter all ids (insert o D) [] :=
    fun hids ho hido => hi.accounts.counted.new_none ho hids hido
  obtain ⟨H', hi₁, hmade, hold, hself, -⟩ := hi.initBlock hprev (fun _ => hfull) hcounted
    (fun _ heq => absurd heq.symm (Option.some_ne_none _)) hinit
  obtain ⟨hH, hi₂, hhashed⟩ := hi₁.contentHashOf (Finset.mem_insert_self _ _) hhash
  obtain ⟨hashless, hnew, rfl⟩ := returns_onHashless hinit
  obtain ⟨-, hlen, pool, rfl, -, -, -⟩ := NaiveBlockAllocator.returns_initBlock hi.pool hnew
  rw [hi.size] at hlen
  have hash_eq := hself.symm.trans hH.symm
  have hmade₂ := hmade.hashed hhashed
  refine ⟨hash_eq, length_of_hashFrom hlen hash_eq, ?_⟩
  obtain ⟨pool', rfl, -⟩ := hhashed
  exact ⟨rfl, rfl, rfl, rfl, H', hi₂, hmade₂, hold, hH.symm⟩

/-- **The object goes back**. -/
theorem unprobe (hi : PrefixInv P n all [] none s (insert o D) (insert o D) H) (ho : o ∉ D)
    (hid : s.hashless.ids o = none) (hclosed : ∀ x ∈ D, ∀ p, (s.block x).prevBlock = some p → p ∈ D)
    (h : Returns (onHashless (NaiveBlockAllocator.freeBlock o)) s u s') :
    PrefixInv P n all [] none s' D D H ∧ (∀ x, s'.pool x = s.pool x) ∧
      s'.hashless.refcounter = s.hashless.refcounter ∧ s'.hashless.freeBlockIndices = s.hashless.freeBlockIndices ∧
      s'.evictor = s.evictor := by
  obtain ⟨hi₁, hsame, -⟩ := hi.freeObject (Finset.mem_insert_self _ _) h
  rw [Finset.erase_insert ho] at hi₁
  have hblocks : ∀ x, s'.block x = s.block x := fun x => congrArg PrefixCachingBlock.block (hsame x)
  refine ⟨hi₁.shrink (Finset.subset_insert o D) (Finset.Subset.refl D) (fun x hx hnot => ?_) fun x hx p hp => ?_,
    hsame, ?_⟩
  · rw [(Finset.mem_insert.mp hx).resolve_right hnot]
    exact (congrArg NaiveBlock.blockId (hblocks o)).trans hid
  · rw [hblocks x] at hp
    exact hclosed x hx p hp
  · obtain ⟨hashless, hfree, rfl⟩ := returns_onHashless h
    rw [NaiveBlockAllocator.returns_freeBlock hfree]
    exact ⟨rfl, rfl, rfl⟩

/-- **An immutable block**: one with the id that is cached for its tokens, or a mutable one that they were written
to. -/
theorem allocateImmutableBlock (pos : 0 < n) (hi : PrefixInv P n all [] none s D D H) {prevBlock : Option PoolId}
    {tokenIds : List TokenId} {extraHash : Option ℤ} (hprev : ∀ p, prevBlock = some p → p ∈ D)
    (hfull : ∀ p, prevBlock = some p → (s.block p).isFull n = true) (hlen : tokenIds.length = n)
    (h : Returns (PrefixCachingBlockAllocator.allocateImmutableBlock P prevBlock tokenIds extraHash) s o s') :
    ∃ H' b, PrefixInv P n all [] none s' (insert o D) (insert o D) H' ∧
      Made s s' D o ⟨prevBlock, tokenIds, some b⟩ extraHash ∧ ∀ x ∈ D, H' x = H x := by
  simp only [PrefixCachingBlockAllocator.allocateImmutableBlock, returns_bind, returns_fromExcept, returns_get,
    ofOption_eq_ok] at h
  obtain ⟨probe, s₁, hprobe, r, s₂, hhash, hash, s₃, ⟨rfl, rfl⟩, s₄, s₅, ⟨rfl, rfl⟩, hrest⟩ := h
  obtain ⟨-, -, -, -, -, -, H₁, hi₂, hmade₂, hold₁, hH⟩ := hi.probe hprev hfull hprobe hhash
  have hid : s₅.hashless.ids probe = none := congrArg NaiveBlock.blockId hmade₂.block
  cases hget : s₅.cachedBlocks.get? hash with
  | some cachedId =>
    rw [hget] at hrest
    simp only [returns_bind, returns_pure] at hrest
    obtain ⟨u₁, s₆, hset, u₂, s₇, hincr, rfl, rfl⟩ := hrest
    obtain ⟨hi₃, -, x', hx', hpool⟩ := hi₂.attach (Finset.mem_insert_self _ _) (fun _ heq => absurd heq.symm (Option.some_ne_none _)) hid hH hget
      (returns_bind.mpr ⟨_, s₆, hset, hincr⟩)
    have hobject : ∀ x, s'.pool x = Function.update s₅.pool o x' x := fun x => by
      show s'.hashless.blockPool.pool x = _
      rw [hpool]
      rfl
    have hne : ∀ x ∈ D, x ≠ o := by
      rintro x hx rfl
      exact hmade₂.new hx
    refine ⟨H₁, cachedId, hi₃, ⟨hmade₂.new, ?_, ?_, fun x hx => ?_, fun x hx => ?_⟩, hold₁⟩
    · rw [show s'.block o = (s'.pool o).block from rfl, hobject, Function.update_self, hx'.1,
        show (s₅.pool o).block = s₅.block o from rfl, hmade₂.block]
    · rw [hobject, Function.update_self, hx'.2.1, hmade₂.extra]
    · rw [show s'.block x = (s'.pool x).block from rfl, hobject, Function.update_of_ne (hne x hx)]
      exact hmade₂.frame x hx
    · rw [hobject, Function.update_of_ne (hne x hx)]
      exact hmade₂.extraHash x hx
  | none =>
    rw [hget] at hrest
    simp only [returns_bind, returns_pure] at hrest
    obtain ⟨u₁, s₆, hfreed, o', s₇, hmutable, u₂, s₈, happend, rfl, rfl⟩ := hrest
    have hclosed : ∀ x ∈ D, ∀ p, (s₅.block x).prevBlock = some p → p ∈ D := by
      intro x hx p hp
      rw [hmade₂.frame x hx] at hp
      exact hi.data.prev x hx p hp
    obtain ⟨hi₄, hsame, -, -, -⟩ := hi₂.unprobe hmade₂.new hid hclosed hfreed
    have hblocks : ∀ x ∈ D, s₆.block x = s.block x := fun x hx =>
      (congrArg PrefixCachingBlock.block (hsame x)).trans (hmade₂.frame x hx)
    obtain ⟨H₂, b, hi₅, hmade, hold₂, -⟩ := hi₄.allocateMutableBlock pos hprev hmutable
    have hheld : s₇.hashless.ids o ≠ none := by
      rw [show s₇.hashless.ids o = some b from congrArg NaiveBlock.blockId hmade.block]
      exact Option.some_ne_none _
    have htokens : tokenIds ≠ [] := by
      rintro rfl
      exact pos.ne hlen
    have hfull₇ : ∀ p, (s₇.block o).prevBlock = some p → (s₇.block p).isFull n = true := by
      intro p hp
      rw [hmade.block] at hp
      rw [hmade.frame p (hprev p hp), hblocks p (hprev p hp)]
      exact hfull p hp
    obtain ⟨H₃, hi₆, hwritten, hold₃⟩ := hi₅.appendTokenIds (Finset.mem_insert_self _ _) hheld htokens hfull₇ happend
    obtain ⟨b', hb'⟩ := Option.ne_none_iff_exists'.mp hwritten.held
    have hne : ∀ x ∈ D, x ≠ o := by
      rintro x hx rfl
      exact hmade.new hx
    refine ⟨H₃, b', hi₆, ⟨hmade.new, ?_, ?_, fun x hx => ?_, fun x hx => ?_⟩, fun x hx => ?_⟩
    · have hprev' := hwritten.prev
      have htokens' := hwritten.tokens
      rw [hmade.block] at hprev' htokens'
      rw [← hb', ← show (s'.block o).prevBlock = prevBlock from hprev',
        ← show (s'.block o).tokenIds = tokenIds from htokens']
    · rw [hwritten.extraHash o (Finset.mem_insert_self _ _), hmade.extra]
    · rw [hwritten.frame x (Finset.mem_insert_of_mem hx) (hne x hx), hmade.frame x hx, hblocks x hx]
    · rw [hwritten.extraHash x (Finset.mem_insert_of_mem hx), hmade.extraHash x hx, hsame x, hmade₂.extraHash x hx]
    · rw [hold₃ x (hne x hx), hold₂ x hx, hold₁ x hx]

/-- What new blocks leave. -/
structure Grown (s s' : PrefixCachingBlockAllocator) (D : Finset PoolId) (blocks : List PoolId)
    (extraHash : Option ℤ) : Prop where
  nodup : blocks.Nodup
  new : ∀ x ∈ blocks, x ∉ D
  extra : ∀ x ∈ blocks, (s'.pool x).extraHash = extraHash
  frame : ∀ x ∈ D, s'.block x = s.block x
  extraHash : ∀ x ∈ D, (s'.pool x).extraHash = (s.pool x).extraHash

theorem Grown.nil (s : PrefixCachingBlockAllocator) (D : Finset PoolId) (extraHash : Option ℤ) :
    Grown s s D [] extraHash :=
  ⟨List.nodup_nil, fun _ hx => absurd hx List.not_mem_nil, fun _ hx => absurd hx List.not_mem_nil, fun _ _ => rfl,
    fun _ _ => rfl⟩

theorem Grown.cons {s₁ : PrefixCachingBlockAllocator} {block : NaiveBlock} {extraHash : Option ℤ}
    {blocks : List PoolId} (h : Made s s₁ D o block extraHash) (hs : Grown s₁ s' (insert o D) blocks extraHash) :
    Grown s s' D (o :: blocks) extraHash where
  nodup := List.nodup_cons.mpr ⟨fun hmem => hs.new o hmem (Finset.mem_insert_self o D), hs.nodup⟩
  new x hx := by
    rcases List.mem_cons.mp hx with rfl | hx
    · exact h.new
    · exact fun hD => hs.new x hx (Finset.mem_insert_of_mem hD)
  extra x hx := by
    rcases List.mem_cons.mp hx with rfl | hx
    · rw [hs.extraHash x (Finset.mem_insert_self x D), h.extra]
    · exact hs.extra x hx
  frame x hx := by rw [hs.frame x (Finset.mem_insert_of_mem hx), h.frame x hx]
  extraHash x hx := by rw [hs.extraHash x (Finset.mem_insert_of_mem hx), h.extraHash x hx]

theorem isFull_of_length {block : NaiveBlock} (h : block.tokenIds.length = n) : block.isFull n = true := by
  rw [NaiveBlock.isFull, NaiveBlock.numEmptySlots, h, Nat.sub_self]
  rfl

/-- **Immutable blocks**, one behind the other. -/
theorem allocateImmutableBlocks (pos : 0 < n) {extraHash : Option ℤ} : ∀ (chunks : List (List TokenId))
    {s : PrefixCachingBlockAllocator} {D : Finset PoolId} {H : PoolId → Option ℤ} {prevBlock : Option PoolId}
    {blocks : List PoolId}, PrefixInv P n all [] none s D D H → (∀ p, prevBlock = some p → p ∈ D) →
    (∀ p, prevBlock = some p → (s.block p).isFull n = true) → (∀ c ∈ chunks, c.length = n) →
    Returns (PrefixCachingBlockAllocator.allocateImmutableBlocks P extraHash prevBlock chunks) s blocks s' →
    ∃ H' cs, PrefixInv P n all [] none s' (D ∪ blocks.toFinset) (D ∪ blocks.toFinset) H' ∧
      Grown s s' D blocks extraHash ∧ (∀ x ∈ D, H' x = H x) ∧ cs.map Prod.fst = chunks ∧
      (∀ c ∈ cs, c.2 ≠ none) ∧ Linked s'.block prevBlock blocks cs
  | [], s, D, H, prevBlock, blocks, hi, _, _, _, h => by
    obtain ⟨rfl, rfl⟩ := returns_pure.mp h
    refine ⟨H, [], ?_, .nil _ _ _, fun _ _ => rfl, rfl, fun c hc => absurd hc List.not_mem_nil, trivial⟩
    rw [List.toFinset_nil, Finset.union_empty]
    exact hi
  | c :: chunks, s, D, H, prevBlock, blocks, hi, hprev, hfull, hlen, h => by
    simp only [PrefixCachingBlockAllocator.allocateImmutableBlocks, returns_bind, returns_pure] at h
    obtain ⟨y, s₁, hone, rest, s₂, hrest, rfl, rfl⟩ := h
    obtain ⟨H₁, b, hi₁, hmade, hold₁⟩ := hi.allocateImmutableBlock pos hprev hfull (hlen c List.mem_cons_self) hone
    have hprev₁ : ∀ p, some y = some p → p ∈ insert y D := by
      rintro p ⟨⟩
      exact Finset.mem_insert_self _ _
    have hfull₁ : ∀ p, some y = some p → (s₁.block p).isFull n = true := by
      rintro p ⟨⟩
      rw [hmade.block]
      exact isFull_of_length (hlen c List.mem_cons_self)
    obtain ⟨H₂, cs, hi₂, hgrown, hold₂, hcs, hheld, hlinked⟩ := allocateImmutableBlocks pos chunks hi₁ hprev₁ hfull₁
      (fun c' hc' => hlen c' (List.mem_cons_of_mem _ hc')) hrest
    refine ⟨H₂, (c, some b) :: cs, ?_, hgrown.cons hmade, fun x hx => ?_, by rw [List.map_cons, hcs], ?_, ?_,
      hlinked⟩
    · rw [List.toFinset_cons, Finset.union_insert, ← Finset.insert_union]
      exact hi₂
    · rw [hold₂ x (Finset.mem_insert_of_mem hx), hold₁ x hx]
    · intro c' hc'
      rcases List.mem_cons.mp hc' with rfl | hc'
      · exact Option.some_ne_none _
      · exact hheld c' hc'
    · rw [hgrown.frame y (Finset.mem_insert_self y D), hmade.block]

/-- The last copy of a loop of `fork`, and the block that it is a copy of. -/
def ForkedOf (s : PrefixCachingBlockAllocator) (D : Finset PoolId) (H : PoolId → Option ℤ) (prev orig : Option PoolId) :
    Prop :=
  match prev, orig with
  | none, none => True
  | some q, some p => q ∈ D ∧ p ∈ D ∧ H q = H p ∧ (s.block q).tokenIds = (s.block p).tokenIds
  | _, _ => False

/-- Blocks behind copies of the same block have the same hash. -/
theorem hashFrom_of_forkedOf {x y : PrefixCachingBlock} (hc : ForkedOf s D H y.block.prevBlock x.block.prevBlock)
    (htokens : y.block.tokenIds = x.block.tokenIds) (hextra : y.extraHash = x.extraHash) :
    hashFrom P n H y = hashFrom P n H x := by
  have hfull : y.block.isFull n = x.block.isFull n := by
    rw [NaiveBlock.isFull, NaiveBlock.isFull, NaiveBlock.numEmptySlots, NaiveBlock.numEmptySlots, htokens]
  unfold hashFrom
  rw [hfull, htokens, hextra]
  cases hy : y.block.prevBlock with
  | none =>
    cases hx : x.block.prevBlock with
    | none => rfl
    | some p =>
      rw [hy, hx] at hc
      exact absurd hc id
  | some q =>
    cases hx : x.block.prevBlock with
    | none =>
      rw [hy, hx] at hc
      exact absurd hc id
    | some p =>
      rw [hy, hx] at hc
      simp only [hc.2.2.1]

/-- **The copy** of a block for a forked table. -/
theorem forkBlock (hi : PrefixInv P n all [] none s D D H) {prev : Option PoolId} {x y : PoolId}
    {hashless : NaiveBlockAllocator PrefixCachingBlock} (hx : x ∈ D) (hc : ForkedOf s D H prev (s.block x).prevBlock)
    (h : Returns (NaiveBlockAllocator.forkBlock prev x) s.hashless y hashless) :
    ∃ H', PrefixInv P n all [] none { s with hashless } (insert y D) (insert y D) H' ∧
      Made s { s with hashless } D y ⟨prev, (s.block x).tokenIds, (s.block x).blockId⟩ (s.pool x).extraHash ∧
      (∀ z ∈ D, H' z = H z) ∧ H' y = H x := by
  obtain ⟨b, m, hb, hm, hne, hinit⟩ := NaiveBlockAllocator.returns_forkBlock h
  -- the id is shared first
  have hi₁ : PrefixInv P n all [b] none { s with hashless := { s.hashless with
      refcounter := s.hashless.refcounter.set b (m + 1) } } D D H :=
    ⟨hi.pool, hi.live, hi.size, hi.accounts.incr hm hne, hi.data, hi.cached, hi.uncached⟩
  have hash : hashFrom P n H (PrefixCachingBlock.mk ⟨prev, (s.block x).tokenIds, some b⟩ none 0 false
      (s.pool x).extraHash) = H x := by
    rw [hi.data.hash x hx]
    exact hashFrom_of_forkedOf hc rfl rfl
  have hprev : ∀ q, prev = some q → q ∈ D := by
    rintro q rfl
    cases hp : (s.block x).prevBlock with
    | none =>
      rw [hp] at hc
      exact absurd hc id
    | some p =>
      rw [hp] at hc
      exact hc.1
  have hfull : (s.block x).tokenIds.length = n → ∀ q, prev = some q → (s.block q).isFull n = true := by
    rintro hlen q rfl
    cases hp : (s.block x).prevBlock with
    | none =>
      rw [hp] at hc
      exact absurd hc id
    | some p =>
      rw [hp] at hc
      have hbefore : (s.block p).isFull n = true := hi.data.prev_full x hx (isFull_of_length hlen) p hp
      rw [NaiveBlock.isFull, NaiveBlock.numEmptySlots] at hbefore ⊢
      rw [hc.2.2.2]
      exact hbefore
  have hcounted : ∀ {ids : PoolId → Option BlockId}, (∀ z ∈ D, ids z = s.hashless.ids z) → y ∉ D →
      ids y = some b → Counted (s.hashless.refcounter.set b (m + 1)) all ids (insert y D) [] :=
    fun hids hy hidy => hi₁.accounts.counted.new hy hids hidy
  obtain ⟨H', hi₂, hmade, hold, hnew, -⟩ := hi₁.initBlock hprev hfull hcounted (fun b' hb' => by
    cases hb'
    exact ⟨fun h₁ hH => hi.cached x hx (Option.some_ne_none _).symm h₁ b (hash.symm.trans hH) hb,
      fun hH h₁ => hi.uncached x hx (Option.some_ne_none _).symm h₁ b (hash.symm.trans hH) hb⟩)
    (returns_zoom.mpr ⟨hashless, hinit, rfl⟩)
  refine ⟨H', hi₂, ⟨hmade.new, ?_, hmade.extra, hmade.frame, hmade.extraHash⟩, hold, hnew.trans hash⟩
  rw [hmade.block, show (s.block x).blockId = some b from hb]

/-! ## Freed blocks -/

/-- **A block is freed**. -/
theorem free (hi : PrefixInv P n all held busy s L D H) (ho : o ∈ L) (hbusy : busy ≠ some o)
    (h : Returns (PrefixCachingBlockAllocator.free P o false) s u s') :
    PrefixInv P n all held busy s' (L.erase o) D H ∧ Freed s s' o := by
  simp only [PrefixCachingBlockAllocator.free, returns_bind, Bool.false_eq_true, if_false] at h
  obtain ⟨u₁, s₁, hgive, hobject⟩ := h
  obtain ⟨hi₁, hfreed⟩ := hi.freeBlockId (hi.live ho) hbusy hgive
  obtain ⟨hi₂, hsame, -⟩ := hi₁.freeObject ho hobject
  exact ⟨hi₂, fun x => (congrArg PrefixCachingBlock.block (hsame x)).trans (hfreed.block x),
    fun x => (congrArg PrefixCachingBlock.extraHash (hsame x)).trans (hfreed.extraHash x)⟩

/-- **Blocks are freed**. Their hashes are still known while others are to be freed. -/
theorem freeBlocks : ∀ (blocks : List PoolId) {s : PrefixCachingBlockAllocator} {L : Finset PoolId},
    PrefixInv P n all held none s L D H → blocks.Nodup → (∀ x ∈ blocks, x ∈ L) →
    Returns (blocks.forM fun o => PrefixCachingBlockAllocator.free P o false) s u s' →
    PrefixInv P n all held none s' (L \ blocks.toFinset) D H ∧
      (∀ x, x ∈ blocks → s'.hashless.ids x = none) ∧ (∀ x ∉ blocks, s'.block x = s.block x) ∧
      ∀ x, (s'.pool x).extraHash = (s.pool x).extraHash
  | [], s, L, hi, _, _, h => by
    obtain ⟨-, rfl⟩ := returns_pure.mp h
    rw [List.toFinset_nil, Finset.sdiff_empty]
    exact ⟨hi, fun x hx => absurd hx List.not_mem_nil, fun _ _ => rfl, fun _ => rfl⟩
  | o :: blocks, s, L, hi, hnodup, hsub, h => by
    obtain ⟨u₁, s₁, hone, hrest⟩ := returns_bind.mp h
    obtain ⟨hnot, hnodup⟩ := List.nodup_cons.mp hnodup
    obtain ⟨hi₁, hfreed⟩ := hi.free (hsub o List.mem_cons_self) nofun hone
    obtain ⟨hi₂, hnone, hframe, hextra⟩ := freeBlocks blocks hi₁ hnodup (fun x hx => Finset.mem_erase.mpr
      ⟨fun heq => hnot (heq ▸ hx), hsub x (List.mem_cons_of_mem _ hx)⟩) hrest
    refine ⟨?_, fun x hx => ?_, fun x hx => ?_, fun x => (hextra x).trans (hfreed.extraHash x)⟩
    · have hset : L \ (o :: blocks).toFinset = L.erase o \ blocks.toFinset := by
        ext x
        simp only [List.toFinset_cons, Finset.mem_sdiff, Finset.mem_insert, Finset.mem_erase]
        tauto
      rw [hset]
      exact hi₂
    · rcases List.mem_cons.mp hx with rfl | hx
      · show (s'.block x).blockId = none
        rw [hframe x hnot, hfreed.block, NaiveBlockAllocator.block_setBlockId_self]
      · exact hnone x hx
    · rw [List.mem_cons, not_or] at hx
      rw [hframe x hx.2, hfreed.block, NaiveBlockAllocator.block_setBlockId_ne hx.1]
      rfl

end PrefixInv

/-! ## Between two calls -/

/-- The invariant between two calls of tables. -/
def PrefixOk (P : PrefixHasher) (n : ℕ) (all : List BlockId) (s : PrefixCachingBlockAllocator) (D : Finset PoolId) :
    Prop := ∃ H, PrefixInv P n all [] none s D D H

namespace PrefixOk

open PrefixCachingBlockAllocator PrefixInv

variable {P : PrefixHasher} {n : ℕ} {pos : 0 < n} {all : List BlockId} {s s' : PrefixCachingBlockAllocator}
  {D : Finset PoolId} {o : PoolId} {u : PUnit} {extraHash : Option ℤ} {blocks : List PoolId} {tokens : List TokenId}

theorem allocateMutable (hok : PrefixOk P n all s D) (pos : 0 < n) (hsub : ∀ x ∈ blocks, x ∈ D)
    (h : Returns (PrefixCachingBlockAllocator.allocateMutableBlock P blocks.getLast? extraHash) s o s') :
    PrefixOk P n all s' (insert o D) ∧ ∃ b, Made s s' D o ⟨blocks.getLast?, [], some b⟩ extraHash := by
  obtain ⟨H, hi⟩ := hok
  obtain ⟨H', b, hi', hmade, -, -⟩ :=
    hi.allocateMutableBlock pos (fun p hp => hsub p (List.mem_of_getLast? hp)) h
  exact ⟨⟨H', hi'⟩, b, hmade⟩

theorem allocateImmutable (hok : PrefixOk P n all s D) (pos : 0 < n) {chunks : List (List TokenId)}
    (hfull : ∀ c ∈ chunks, c.length = n)
    (h : Returns (PrefixCachingBlockAllocator.allocateImmutableBlocks P extraHash none chunks) s blocks s') :
    PrefixOk P n all s' (D ∪ blocks.toFinset) ∧ Grown s s' D blocks extraHash ∧ blocks.length = chunks.length ∧
      ChainHolds False n s'.block blocks chunks.flatten := by
  obtain ⟨H, hi⟩ := hok
  obtain ⟨H', cs, hi', hgrown, -, hcs, hheld, hlinked⟩ := hi.allocateImmutableBlocks pos chunks (fun _ hp => by cases hp) (fun _ hp => by cases hp) hfull h
  have hlen : cs.length = chunks.length := by rw [← hcs, List.length_map]
  refine ⟨⟨H', hi'⟩, hgrown, hlinked.length_eq.trans hlen, hlinked.holds hgrown.nodup (fun i c hc => ?_) ?_ hheld
    False.elim⟩
  · refine (slice_flatten_full hfull ?_).symm
    rw [← hcs, List.getElem?_map, hc]
    rfl
  · rw [List.length_flatten, List.map_congr_left hfull, List.map_const', List.sum_replicate_nat, hlen]

/-- The block before one that tokens are written to is full. -/
theorem isFull_prev (hh : ChainHolds False n s.block blocks tokens) (ho : blocks[tokens.length / n]? = some o)
    (p : PoolId) (hp : (s.block o).prevBlock = some p) : (s.block p).isFull n = true := by
  rw [hh.prev _ o ho] at hp
  split_ifs at hp with hz
  apply isFull_of_length
  rw [hh.tokenIds _ p hp, slice, List.length_take, List.length_drop, Nat.sub_add_cancel (Nat.pos_of_ne_zero hz)]
  have hle := Nat.div_mul_le_self tokens.length n
  have hsub : (tokens.length / n) * n - (tokens.length / n - 1) * n = n := by
    rw [← Nat.sub_mul, Nat.sub_sub_self (Nat.pos_of_ne_zero hz), Nat.one_mul]
  omega

theorem append (hok : PrefixOk P n all s D) (hh : ChainHolds False n s.block blocks tokens)
    (hsub : ∀ x ∈ blocks, x ∈ D) (ho : blocks[tokens.length / n]? = some o) {chunk : List TokenId}
    (hne : chunk ≠ []) (h : Returns (PrefixCachingBlockAllocator.appendTokenIds P o chunk) s u s') :
    PrefixOk P n all s' D ∧ Appended s s' D o chunk := by
  obtain ⟨H, hi⟩ := hok
  have hmem : o ∈ blocks := List.mem_of_getElem? ho
  obtain ⟨H', hi', hwritten, -⟩ := hi.appendTokenIds (hsub o hmem) (hh.held o hmem) hne (isFull_prev hh ho) h
  exact ⟨⟨H', hi'⟩, hwritten⟩

/-- A loop of `fork` that began with the blocks `D`: the invariant, and their extra hashes. -/
def Forking (P : PrefixHasher) (n : ℕ) (all : List BlockId) (s : PrefixCachingBlockAllocator) (D : Finset PoolId)
    (hashless : NaiveBlockAllocator PrefixCachingBlock) (E : Finset PoolId) (prev orig : Option PoolId) : Prop :=
  ∃ H, PrefixInv P n all [] none { s with hashless } E E H ∧ ForkedOf { s with hashless } E H prev orig ∧
    ∀ x ∈ D, x ∈ E ∧ (PrefixCachingBlockAllocator.pool { s with hashless } x).extraHash = (s.pool x).extraHash

/-- A round of the loop. -/
theorem forking_forkBlock {t t' : NaiveBlockAllocator PrefixCachingBlock} {E : Finset PoolId}
    {prev orig : Option PoolId} {x y : PoolId} (hf : Forking P n all s D t E prev orig) (hx : x ∈ E)
    (horig : (t.block x).prevBlock = orig) (h : Returns (NaiveBlockAllocator.forkBlock prev x) t y t') :
    y ∉ E ∧ Forking P n all s D t' (insert y E) (some y) (some x) ∧
      t'.block y = ⟨prev, (t.block x).tokenIds, (t.block x).blockId⟩ ∧ ∀ z ∈ E, t'.block z = t.block z := by
  obtain ⟨H, hi, hc, hold⟩ := hf
  subst horig
  obtain ⟨H', hi', hmade, hH, hHy⟩ := PrefixInv.forkBlock (s := { s with hashless := t }) hi hx hc h
  refine ⟨hmade.new, ⟨H', hi', ⟨Finset.mem_insert_self y E, Finset.mem_insert_of_mem hx,
    hHy.trans (hH x hx).symm, ?_⟩, fun z hz => ⟨Finset.mem_insert_of_mem (hold z hz).1, ?_⟩⟩, hmade.block,
    hmade.frame⟩
  · show (PrefixCachingBlockAllocator.block _ y).tokenIds = (PrefixCachingBlockAllocator.block _ x).tokenIds
    rw [hmade.block, hmade.frame x hx]
  · exact (hmade.extraHash z (hold z hz).1).trans (hold z hz).2

theorem fork (hok : PrefixOk P n all s D) (hh : ChainHolds False n s.block blocks tokens)
    (hsub : ∀ x ∈ blocks, x ∈ D) {last : PoolId} (hlast : blocks.getLast? = some last) {forked : List PoolId}
    (h : Returns (PrefixCachingBlockAllocator.fork last) s forked s') :
    PrefixOk P n all s' (D ∪ forked.toFinset) ∧ forked.Nodup ∧ (∀ x ∈ forked, x ∉ D) ∧
      (∀ x ∈ D, s'.block x = s.block x) ∧ (∀ x ∈ D, (s'.pool x).extraHash = (s.pool x).extraHash) ∧
      Linked s'.block none forked (contentsOf s.block blocks) := by
  obtain ⟨H, hi⟩ := hok
  obtain ⟨hashless, hfork, rfl⟩ := returns_onHashless h
  simp only [NaiveBlockAllocator.fork, returns_bind, returns_get, returns_fromExcept] at hfork
  obtain ⟨s₀, s₁, ⟨rfl, rfl⟩, source, s₂, ⟨hsource, rfl⟩, hloop⟩ := hfork
  have heq : source = blocks := hh.getAllBlocksRecursively_last hlast hsource
  subst heq
  have hstart : Forking P n all s D s.hashless D none none := ⟨H, hi, trivial, fun x hx => ⟨hx, rfl⟩⟩
  obtain ⟨⟨prev', orig', H', hi', -, hold⟩, hnodup, hnew, hframe, hchain⟩ :=
    forkBlocks_spec forking_forkBlock source hstart hsub hh.following hloop
  exact ⟨⟨H', hi'⟩, hnodup, hnew, hframe, fun x hx => (hold x hx).2, hchain⟩

/-- **The allocator with the cache is lawful**. -/
theorem lawful : Lawful (prefixAllocator P n pos) (PrefixOk P n all) where
  allocateMutable {s s' D blocks tokens extraHash o} hok hh hsub h := by
    obtain ⟨hok', b, hmade⟩ := hok.allocateMutable pos hsub h
    have hblock : (prefixAllocator P n pos).block s' o = ⟨blocks.getLast?, [], some b⟩ := hmade.block
    refine ⟨hmade.new, hok', hmade.frame, ?_, ?_, ?_, False.elim⟩
    all_goals rw [hblock]
    exact nofun
  allocateImmutable {s s' D chunks extraHash blocks} hok hfull h := by
    obtain ⟨hok', hgrown, hlen, hh⟩ := hok.allocateImmutable pos hfull h
    exact ⟨hh, hlen, hgrown.new, hok', hgrown.frame⟩
  appendTokenIds {s s' D blocks tokens chunk o u} hok hh hsub ho hne hfit h := by
    obtain ⟨hok', hwritten⟩ := hok.append hh hsub ho hne h
    exact ⟨hok', hwritten.frame, hwritten.prev, hwritten.tokens, hwritten.held, False.elim⟩
  fork {s s' D blocks forked tokens last} hok hh hsub hlast h := by
    obtain ⟨hok', hnodup, hnew, hframe, -, hchain⟩ := hok.fork hh hsub hlast h
    obtain ⟨hh', hids⟩ := hh.copy hchain hnodup
    exact ⟨hh', hnew, hok', hframe, hids⟩

/-- **Blocks of a table are freed**. -/
theorem free (hok : PrefixOk P n all s D) (hnodup : blocks.Nodup) (hsub : ∀ x ∈ blocks, x ∈ D)
    (hclosed : ∀ x ∈ D, x ∉ blocks → ∀ p, (s.block x).prevBlock = some p → p ∈ D ∧ p ∉ blocks)
    (h : Returns (blocks.forM fun o => PrefixCachingBlockAllocator.free P o false) s u s') :
    PrefixOk P n all s' (D \ blocks.toFinset) ∧ (∀ x ∉ blocks, s'.block x = s.block x) ∧
      ∀ x, (s'.pool x).extraHash = (s.pool x).extraHash := by
  obtain ⟨H, hi⟩ := hok
  obtain ⟨hi', hnone, hframe, hextra⟩ := hi.freeBlocks blocks hnodup hsub h
  refine ⟨⟨H, hi'.shrink Finset.sdiff_subset (Finset.Subset.refl _) (fun x hx hnot => ?_) fun x hx p hp => ?_⟩,
    hframe, hextra⟩
  · apply hnone
    by_contra hmem
    exact hnot (Finset.mem_sdiff.mpr ⟨hx, fun hin => hmem (List.mem_toFinset.mp hin)⟩)
  · obtain ⟨hxD, hnot⟩ := Finset.mem_sdiff.mp hx
    rw [List.mem_toFinset] at hnot
    rw [hframe x hnot] at hp
    obtain ⟨hpD, hpnot⟩ := hclosed x hxD hnot p hp
    exact Finset.mem_sdiff.mpr ⟨hpD, fun hin => hpnot (List.mem_toFinset.mp hin)⟩

theorem freeLawful : Tables.FreeLawful (prefixAllocator P n pos) (PrefixOk P n all) := by
  intro s s' D blocks tokens u hok hh hsub hclosed h
  obtain ⟨hok', hframe, -⟩ := hok.free hh.nodup hsub hclosed h
  exact ⟨hok', fun x _ hx => hframe x hx⟩

/-- The ids of an allocator differ. -/
theorem nodup_of_init {blockIds : List BlockId} (h : PrefixCachingBlockAllocator.init n blockIds = .ok s) :
    blockIds.Nodup := by
  obtain ⟨hashless, hinit, -⟩ := bind_eq_ok.mp h
  obtain ⟨u, hassert, -⟩ := bind_eq_ok.mp hinit
  rw [← List.Sublist.eq_of_length (List.dedup_sublist _) (assert_eq_ok.mp hassert)]
  exact List.nodup_dedup _

/-- **A new allocator**. -/
theorem of_init {blockIds : List BlockId} (h : PrefixCachingBlockAllocator.init n blockIds = .ok s) :
    PrefixOk P n blockIds s ∅ := by
  have hnodup := nodup_of_init h
  obtain ⟨hashless, hinit, h⟩ := bind_eq_ok.mp h
  obtain ⟨u, hassert, hinit⟩ := bind_eq_ok.mp hinit
  cases hinit
  cases h
  refine ⟨fun _ => none, BlockPool.ok_init _ _ _, Finset.Subset.refl _, rfl, ⟨fun b => ?_, hnodup, fun b => ?_,
    fun b m hm => ?_, fun b x hx => ?_, fun h h' b hb => ?_, fun h b hb => ?_⟩, ⟨?_, ?_, ?_, ?_⟩, ?_, ?_⟩
  · show (RefCounter.init blockIds).get? b = _
    rw [RefCounter.get?_init]
    simp [holders]
  · show b ∈ blockIds ↔ (RefCounter.init blockIds).get? b = _ ∧ _
    rw [RefCounter.get?_init]
    split_ifs with hb
    · exact iff_of_true hb ⟨rfl, rfl⟩
    · exact iff_of_false hb fun hand => hand.1
  · change (RefCounter.init blockIds).get? b = _ at hm
    rw [RefCounter.get?_init] at hm
    split_ifs at hm with hb
    cases hm
    refine ⟨.init, ?_, iff_of_false Bool.false_ne_true (Nat.lt_irrefl 0)⟩
    show (Dict.ofPairs (blockIds.map (·, BlockTracker.init))).get? b = _
    rw [get?_ofPairs_map, if_pos hb]
  · cases hx
  · cases hb
  · cases hb
  -- there is no block yet
  all_goals exact fun o ho => absurd ho (Finset.notMem_empty o)

end PrefixOk

end SpaceServe
