import SpaceServe.Scheduler.Safety

/-!
# Prefix hits are sound

A block that a prefix-cache lookup returns holds what the requester would compute: since it was last
taken from the pool it has been filled with exactly the requester's own tokens.

* `filled_of_hashFilled`: a block filled under a hash is filled with the tokens of the hash;
* **`prefix_hit_sound`**: every lookup of every run on text-only requests.
-/

set_option autoImplicit false

namespace SpaceServe

open Py

/-- If hashes have no collisions, a block filled under the hash of block `i` of `ts` is filled at
index `i` with the tokens of `ts`. -/
theorem filled_of_hashFilled {p : KVCacheParams} (hinj : Function.Injective p.hash)
    (hzero : ∀ x, p.hash x ≠ 0) {history : List BlockEvent} {b i : ℕ} {ts : List TokenId}
    (h : HashFilled p history b (chainHash p.hash p.blockSize ts i)) :
    Filled p.blockSize history b i ts := by
  obtain ⟨us, j, hh, hlen, id, hw⟩ := h
  obtain ⟨rfl, htake⟩ := chainHash_inj hinj hzero ts us i j (congrArg BlockHashType.hashValue hh)
  have hts : (i + 1) * p.blockSize ≤ ts.length := by
    have h1 := congrArg List.length htake
    rw [List.length_take, List.length_take] at h1
    omega
  refine ⟨hts, id, hw.trans (slots_congr ?_)⟩
  rw [← Nat.succ_mul]
  exact htake.symm

namespace SchedulerRun

/-- **Prefix-hit soundness.** Whenever a lookup for the tokens `ts` returned block `b` at index `i`,
all that had been scheduled to be written in `b` since it was last taken from the pool are the
positions of block `i` of some request, each after the same tokens as in `ts`. -/
theorem prefix_hit_sound {p : SchedulerParams} (hinj : Function.Injective p.kv.hash)
    (hzero : ∀ x, p.kv.hash x ≠ 0) {σ : SchedulerRun} (h : TextReachable p σ) {k : ℕ}
    {ts : List TokenId} {bs : List ℕ} (hk : σ.sched.history[k]? = some (.computed ts bs)) {i b : ℕ}
    (hb : bs[i]? = some b) :
    (i + 1) * p.kv.blockSize ≤ ts.length ∧ ∃ id, writes p.kv.blockSize (σ.sched.history.take k) b =
      slots id ts (i * p.kv.blockSize) p.kv.blockSize :=
  filled_of_hashFilled hinj hzero (h.textState.inv.hits k ts bs hk i b hb)

theorem prefix_hit_sound_shared_prefix : ∃ σ, TextReachable smallParams σ ∧
    σ.sched.history[5]? = some (.computed [1, 2, 5] [0]) ∧
    ∃ id, writes 2 (σ.sched.history.take 5) 0 = slots id [1, 2, 5] 0 2 := by
  have hrun : ((runChecked (fun σ e => step smallParams σ e) (TextAdmissible smallParams)
      (init smallParams) (sharedPrefixRun ++ [.schedule fun _ _ => false])).map fun σ =>
        σ.sched.history[5]?) = some (some (.computed [1, 2, 5] [0])) := by
    decide +kernel
  obtain ⟨σ, hσ, hk⟩ := Option.map_eq_some_iff.mp hrun
  have hreach : TextReachable smallParams σ := reachable_of_runChecked .start hσ
  exact ⟨σ, hreach, hk,
    (prefix_hit_sound pairingHash_injective pairingHash_ne_zero hreach hk (i := 0) rfl).2⟩

end SchedulerRun

end SpaceServe
