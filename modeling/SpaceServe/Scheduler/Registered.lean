import SpaceServe.Scheduler.Safety

/-!
# Registered blocks

The map of cached blocks and the hashes that the requests keep.

* `CacheOk.hashOf_iff`: a block carries a hash if and only if the map files it there;
* `NeverRaised`: the exceptions of the cache operations that guard its consistency;
* `SameRequestRun`: runs from a state on in which an id stays that of one request;
* **`registered`**: the map is consistent, the guards never fire, and a hash kept on a request is the
  one that its block is or will be filed under.
-/

set_option autoImplicit false

namespace SpaceServe

open Py KVCacheManager

theorem KVCacheManager.CacheOk.hashOf_iff {p : KVCacheParams} {kv : KVCacheManager}
    (h : CacheOk p kv) (b : ℕ) (x : BlockHashType) :
    (kv.blocks b).blockHash = some x ↔
      ∃ m, kv.cachedBlockHashToBlock.get? x = some m ∧ m.get? b = some b := by
  constructor
  · exact h.filed x b
  · rintro ⟨m, hm, hb⟩
    exact (h.hash_of x m b b hm hb).2

/-- The `KeyError` of `_maybe_evict_cached_block`, the `IndexError` of `_get_cached_block`, and the
assertions of the `block_hash` setter and of `_cache_full_blocks`. -/
def NeverRaised : List Exn :=
  [.keyError, .indexError "list index out of range",
    .assertionError "The block already has a hash. This should not happen.",
    .assertionError "prev_block.block_hash is not None", .assertionError "blk.block_hash is None"]

theorem KVCacheManager.Excused.not_mem {p : KVCacheParams} {r : Request} {e : Exn}
    (h : Excused p r e) : e ∉ NeverRaised := by
  cases h with
  | missing _ _ => simp [NeverRaised]
  | tooLong _ => simp [NeverRaised]
  | noTokens _ => simp [NeverRaised]

namespace SchedulerRun

variable {p : SchedulerParams}

variable (p) in
/-- The runs from `σ` on in which no other request with the id is added. -/
def SameRequestRun (id : ReqId) (σ : SchedulerRun) : SchedulerRun → Prop :=
  Reachable (fun σ e => step p σ e)
    (fun σ e => σ.Fresh e ∧ ∀ r, e = .addRequest r → r.requestId ≠ id) σ

theorem SameRequestRun.freshRun {id : ReqId} {σ σ' : SchedulerRun} (h : SameRequestRun p id σ σ')
    (hσ : FreshRun p σ) : FreshRun p σ' := by
  induction h with
  | start => exact hσ
  | next _ ha hs ih => exact ih.next ha.1 hs

/-- What a run makes of a request that stays. -/
theorem SameRequestRun.later {id : ReqId} {σ σ' : SchedulerRun} {r' : Request} (hσ : FreshRun p σ)
    (h : SameRequestRun p id σ σ') (hr' : σ'.sched.requests.get? id = some r') :
    ∃ r, σ.sched.requests.get? id = some r ∧ Later p r r' := by
  induction h generalizing r' with
  | start => exact ⟨r', hr', Later.refl r'⟩
  | next hrun ha hs ih =>
    have hfresh := SameRequestRun.freshRun hrun hσ
    obtain ⟨hw, hb⟩ := hfresh.blocksInv
    obtain ⟨r₁, hr₁, hlater₁⟩ | hadd := step_later hw hb hs hr'
    · obtain ⟨r, hr, hlater⟩ := ih hr₁
      exact ⟨r, hr, hlater.trans hlater₁⟩
    · have hw' := (FreshRun.blocksInv (hfresh.next ha.1 hs)).1
      exact absurd (hw'.requestId id r' hr') (ha.2 r' hadd)

/-- The block of a running request at an index carries no hash or the one that the request keeps
there; a full one carries it. -/
theorem FreshRun.hashOf_block {σ : SchedulerRun} (h : FreshRun p σ) {id : ReqId} {r : Request}
    {j b : ℕ} {x : BlockHashType} (hr : σ.sched.requests.get? id = some r)
    (hx : r.kvBlockHashes[j]? = some x) (hb : (σ.sched.kv.blocksOf id)[j]? = some b) :
    (∀ y, σ.sched.kv.hashOf b = some y → y = x) ∧ (p.kv.enableCaching = true →
      (j + 1) * p.kv.blockSize ≤ r.numComputedTokens + σ.got id → σ.sched.kv.hashOf b = some x) := by
  obtain ⟨-, hinv⟩ := h.blocksInv
  have hid : id ∈ σ.sched.running := by
    by_contra hnot
    rw [hinv.idle id hnot] at hb
    cases hb
  obtain ⟨k, hk, hreach⟩ := (hinv.running id r hid hr).filed
  have hfiled : j < k → σ.sched.kv.hashOf b = some x := by
    intro hj
    obtain ⟨y, hy, hyb⟩ := hk.filed j b hj hb
    rw [hx] at hy
    cases hy
    exact hyb
  refine ⟨fun y hy => ?_, fun hon hfull => hfiled ?_⟩
  · by_cases hj : j < k
    · rw [hfiled hj] at hy
      exact (Option.some.inj hy).symm
    · rw [(hk.own j b (Nat.le_of_not_lt hj) hb).1] at hy
      cases hy
  · have hlen := (List.getElem?_eq_some_iff.mp hb).1
    have hdiv : j + 1 ≤ (r.numComputedTokens + σ.got id) / p.kv.blockSize :=
      (Nat.le_div_iff_mul_le p.kv.blockSize_pos).mpr hfull
    have := hreach hon
    omega

/-- **The prefix cache is consistent.** Whenever the manager is between calls, a block carries a hash
if and only if the map files it there, and no inner dictionary is empty. In every run of a scheduler,
the exceptions that guard this are never raised; and a hash kept on a request stays where it is, its
block carries no other hash, and carries it and is filed under it as soon as it is full. -/
theorem registered (hon : p.kv.enableCaching = true) :
    (∀ kv, KVReachable p.kv kv →
      (∀ b x, (kv.blocks b).blockHash = some x ↔
        ∃ m, kv.cachedBlockHashToBlock.get? x = some m ∧ m.get? b = some b) ∧
      ∀ x m, kv.cachedBlockHashToBlock.get? x = some m → m.entries ≠ []) ∧
    ∀ σ, FreshRun p σ →
      (∀ available e, σ.sched.schedule p available = .error e → e ∉ NeverRaised) ∧
      ∀ id r j x, σ.sched.requests.get? id = some r → r.kvBlockHashes[j]? = some x →
        ∀ σ' r', SameRequestRun p id σ σ' → σ'.sched.requests.get? id = some r' →
          r'.kvBlockHashes[j]? = some x ∧
          ∀ b, (σ'.sched.kv.blocksOf id)[j]? = some b →
            (∀ y, (σ'.sched.kv.blocks b).blockHash = some y → y = x) ∧
            ((j + 1) * p.kv.blockSize ≤ r'.numComputedTokens + σ'.got id →
              (σ'.sched.kv.blocks b).blockHash = some x ∧
              ∃ m, σ'.sched.kv.cachedBlockHashToBlock.get? x = some m ∧ m.get? b = some b) := by
  refine ⟨fun kv hkv => ⟨hkv.accounted.2.hashOf_iff, hkv.accounted.2.nonempty⟩, fun σ hσ => ?_⟩
  obtain ⟨hw, hb⟩ := hσ.blocksInv
  refine ⟨fun available e he => ?_, fun id r j x hr hx σ' r' hrun hr' => ?_⟩
  · obtain ⟨_, _, -, hex⟩ := schedule_raises available hw (hb.mono fun _ _ => Nat.zero_le _) e he
    exact hex.not_mem
  · have hσ' := hrun.freshRun hσ
    obtain ⟨r₀, hr₀, hlater⟩ := hrun.later hσ hr'
    obtain rfl : r = r₀ := Option.some.inj (hr.symm.trans hr₀)
    obtain ⟨more, hmore⟩ := hlater.hashes
    have hx' : r'.kvBlockHashes[j]? = some x := by
      rw [← hmore, List.getElem?_append_left (List.getElem?_eq_some_iff.mp hx).1]
      exact hx
    refine ⟨hx', fun b hblk => ?_⟩
    obtain ⟨hsame, hfull⟩ := hσ'.hashOf_block hr' hx' hblk
    refine ⟨hsame, fun hle => ?_⟩
    have hcarries := hfull hon hle
    exact ⟨hcarries, (hσ'.blocksInv.2.accounted.2.hashOf_iff b x).mp hcarries⟩

theorem registered_shared_prefix : ∃ σ r x, FreshRun smallParams σ ∧
    σ.sched.requests.get? "a" = some r ∧ r.kvBlockHashes[0]? = some x ∧
    (σ.sched.kv.blocks 0).blockHash = some x := by
  obtain ⟨σ, hσ, ⟨hreq, hfull⟩, hblk⟩ := exists_reachable (fun σ e => step smallParams σ e) Fresh
    (init smallParams) sharedPrefixRun
    (fun σ => ((σ.sched.requests.get? "a").any (fun r => r.kvBlockHashes[0]?.isSome) = true ∧
      (σ.sched.requests.get? "a").all (fun r => decide (2 ≤ r.numComputedTokens)) = true) ∧
      (σ.sched.kv.blocksOf "a")[0]? = some 0) (by decide +kernel)
  obtain ⟨r, hr, hsome⟩ := (Option.any_eq_true _ _).mp hreq
  obtain ⟨x, hx⟩ := Option.isSome_iff_exists.mp hsome
  rw [hr] at hfull
  have hle : 2 ≤ r.numComputedTokens := of_decide_eq_true hfull
  have hkept := ((registered (p := smallParams) rfl).2 σ hσ).2 "a" r 0 x hr hx σ r .start hr
  exact ⟨σ, r, x, hσ, hr, hx, ((hkept.2 0 hblk).2 (Nat.le_add_right_of_le hle)).1⟩

end SchedulerRun

end SpaceServe
