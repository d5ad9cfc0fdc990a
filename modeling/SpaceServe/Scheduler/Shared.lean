import Mathlib.Data.List.TakeWhile
import SpaceServe.Scheduler.Total

/-!
# Blocks that requests share

If `hash` is injective and never `0`, the hash of a block tells its place, so a block that two requests
hold stands at the same place of both, and no request holds a block twice. The reference count of a
block is then the number of the running requests that hold it, and `get_num_common_prefix_blocks`, which
compares it with the number of all of them, finds blocks that all of them begin with.

* **`BlocksInv.same_index`**, `BlocksInv.nodup`;
* `mem_of_owned`: who holds a block that is owned as often as there are running requests;
* `schedule_commonPrefix`, `SharedPrefix`, **`schedule_sharedPrefix`**.
-/

set_option autoImplicit false

namespace SpaceServe

open Py KVCacheManager

section

variable {p : SchedulerParams} {s s' : Scheduler} {got : ReqId → ℕ}

/-- **A block stands at one place only**, in all requests that hold it. -/
theorem BlocksInv.same_index (h : BlocksInv p s got) (hw : s.WF p)
    (hinj : Function.Injective p.kv.hash) (hzero : ∀ x, p.kv.hash x ≠ 0) {id id' : ReqId}
    {i j b : ℕ} (hi : (s.kv.blocksOf id)[i]? = some b) (hj : (s.kv.blocksOf id')[j]? = some b) :
    i = j := by
  have hrun : ∀ {id : ReqId} {i : ℕ}, (s.kv.blocksOf id)[i]? = some b → ∃ r k, s.requests.get? id = some r ∧
      Filed s.kv id r.kvBlockHashes k ∧ Chained p.kv.hash r.kvBlockHashes := by
    intro id i hi
    have hid : id ∈ s.running := by
      by_contra hc
      rw [h.idle id hc] at hi
      cases hi
    obtain ⟨r, hr⟩ := hw.get?_of_running hid
    obtain ⟨k, hk, -⟩ := (h.running id r hid hr).filed
    exact ⟨r, k, hr, hk, (h.chain id r hr).chained⟩
  obtain ⟨r, k, hr, hk, hc⟩ := hrun hi
  obtain ⟨r', k', hr', hk', hc'⟩ := hrun hj
  -- a block that is not filed is held by one request
  have hone : s.kv.owned b = 1 → id' = id := by
    intro hone
    by_contra hne
    have h1 := List.count_pos_iff.mpr (List.mem_of_getElem? hi)
    have h2 := List.count_pos_iff.mpr (List.mem_of_getElem? hj)
    have h3 := s.kv.count_two_le b hne
    omega
  by_cases hik : k ≤ i
  · obtain rfl := hone (hk.own i b hik hi).2
    exact (hk.own_index hik hi hj).symm
  by_cases hjk : k' ≤ j
  · obtain rfl := hone (hk'.own j b hjk hj).2
    exact hk'.own_index hjk hj hi
  obtain ⟨x, hx, hb⟩ := hk.filed i b (by omega) hi
  obtain ⟨y, hy, hb'⟩ := hk'.filed j b (by omega) hj
  rw [hb] at hb'
  obtain rfl := Option.some.inj hb'
  exact hc.index hinj hzero hc' i j hx hy rfl

/-- No request holds a block twice. -/
theorem BlocksInv.nodup (h : BlocksInv p s got) (hw : s.WF p) (hinj : Function.Injective p.kv.hash)
    (hzero : ∀ x, p.kv.hash x ≠ 0) (id : ReqId) : (s.kv.blocksOf id).Nodup := by
  refine List.nodup_iff_getElem?_ne_getElem?.mpr fun i j hij hj heq => ?_
  have hb := List.getElem?_eq_getElem hj
  have := h.same_index hw hinj hzero (heq.trans hb) hb
  omega

/-- **A block that is owned as often as there are running requests** is held by all of them. -/
theorem BlocksInv.mem_of_owned (h : BlocksInv p s got) (hw : s.WF p)
    (hinj : Function.Injective p.kv.hash) (hzero : ∀ x, p.kv.hash x ≠ 0) {b : ℕ}
    (hb : s.kv.owned b = s.running.length) {id : ReqId} (hid : id ∈ s.running) :
    b ∈ s.kv.blocksOf id := by
  by_contra hnot
  have hget : ∀ {id : ReqId} {bs : List ℕ}, s.kv.reqToBlocks.get? id = some bs → s.kv.blocksOf id = bs := by
    intro id bs hg
    rw [KVCacheManager.blocksOf, hg, Option.getD_some]
  have hle : s.kv.owned b ≤ (s.running.erase id).length := by
    refine Dict.total_le_length _ (fun id' bs hg => ?_) fun id' bs hg hne => ?_
    · rw [← hget hg]
      exact List.nodup_iff_count_le_one.mp (h.nodup hw hinj hzero id') b
    · rw [← hget hg] at hne
      have hmem := List.count_pos_iff.mp (Nat.pos_of_ne_zero hne)
      have hne' : id' ≠ id := by
        rintro rfl
        exact hnot hmem
      refine (List.mem_erase_of_ne hne').mpr ?_
      by_contra hc
      rw [h.idle id' hc] at hmem
      cases hmem
  have hpos := List.length_pos_of_mem hid
  rw [List.length_erase_of_mem hid] at hle
  omega

/-! ## The common prefix -/

/-- The number of blocks that a call of `schedule` returns. -/
theorem schedule_commonPrefix {available : ReqId → ℕ → Bool} {out : SchedulerOutput} (hw : s.WF p)
    (hs : s.schedule p available = .ok (out, s')) :
    (s'.running = [] → out.numCommonPrefixBlocks = 0) ∧ ∀ id ∈ s'.running.head?,
      out.numCommonPrefixBlocks = ((s'.kv.blocksOf id).takeWhile fun b =>
        decide ((s'.kv.blocks b).refCnt = s'.running.length)).length := by
  unfold Scheduler.schedule at hs
  simp only [bind_eq_ok] at hs
  obtain ⟨st₀, hl, _, -, ⟨k, st⟩, hc, ho⟩ := hs
  unfold Scheduling.output at ho
  simp only [bind_eq_ok] at ho
  obtain ⟨_, -, _, -, _, -, ho⟩ := ho
  cases ho
  unfold Scheduling.commonPrefix at hc
  split at hc
  · rename_i hnone
    cases hc
    refine ⟨fun _ => rfl, fun id hid => ?_⟩
    change id ∈ st₀.sched.running.head? at hid
    rw [hnone] at hid
    cases hid
  · rename_i id hid
    simp only [bind_eq_ok] at hc
    obtain ⟨r, hr, ⟨n, kv⟩, hn, hc⟩ := hc
    cases hc
    rw [request_eq_ok] at hr
    unfold KVCacheManager.getNumCommonPrefixBlocks at hn
    rw [bind_eq_ok] at hn
    obtain ⟨_, -, hn⟩ := hn
    cases hn
    have hrid := ((loops_moves hw hl).wf (Scheduling.WF.start hw)).sched.requestId id r hr
    refine ⟨fun hnil => ?_, fun id' hid' => ?_⟩
    · change st₀.sched.running = [] at hnil
      rw [hnil] at hid
      cases hid
    · change id' ∈ st₀.sched.running.head? at hid'
      rw [hid] at hid'
      cases hid'
      simp only [hrid, setBlocks_self_blocksOf]
      rfl

/-- All running requests begin with the same `n` blocks. -/
def SharedPrefix (s : Scheduler) (n : ℕ) : Prop :=
  ∀ first ∈ s.running.head?, ∀ id ∈ s.running, n ≤ (s.kv.blocksOf id).length ∧
    (s.kv.blocksOf id).take n = (s.kv.blocksOf first).take n

/-- **The common prefix is common.** -/
theorem schedule_sharedPrefix {available : ReqId → ℕ → Bool} {out : SchedulerOutput} (hw : s.WF p)
    (h : BlocksInv p s fun _ => 0) (hinj : Function.Injective p.kv.hash)
    (hzero : ∀ x, p.kv.hash x ≠ 0) (hs : s.schedule p available = .ok (out, s')) :
    SharedPrefix s' out.numCommonPrefixBlocks := by
  have hw' := Scheduler.schedule_wf hw hs
  have hb := (h.schedule hw hs).1
  intro first hfirst id hid
  rw [(schedule_commonPrefix hw hs).2 first hfirst]
  obtain ⟨⟨free, hacc⟩, -⟩ := hb.accounted
  have hcnt : ∀ b ∈ (s'.kv.blocksOf first).takeWhile fun b =>
      decide ((s'.kv.blocks b).refCnt = s'.running.length), s'.kv.owned b = s'.running.length := by
    intro b hb
    have hcnt : (s'.kv.blocks b).refCnt = s'.running.length := by
      simpa using List.mem_takeWhile_imp hb
    rw [hacc.refCnt, List.count_nil] at hcnt
    omega
  have hfirst := List.takeWhile_prefix (l := s'.kv.blocksOf first) fun b =>
    decide ((s'.kv.blocks b).refCnt = s'.running.length)
  generalize ((s'.kv.blocksOf first).takeWhile fun b =>
    decide ((s'.kv.blocks b).refCnt = s'.running.length)) = pre at hcnt hfirst
  -- the blocks of the common prefix are at the same place of every running request
  have hcommon : pre <+: s'.kv.blocksOf id := by
    refine List.prefix_iff_getElem?.mpr fun j hj => ?_
    obtain ⟨i, hi⟩ := List.mem_iff_getElem?.mp
      (hb.mem_of_owned hw' hinj hzero (hcnt _ (List.getElem_mem hj)) hid)
    obtain rfl := hb.same_index hw' hinj hzero hi (List.prefix_iff_getElem?.mp hfirst j hj)
    exact hi
  refine ⟨hcommon.length_le, ?_⟩
  rw [← List.prefix_iff_eq_take.mp hcommon, ← List.prefix_iff_eq_take.mp hfirst]

end

end SpaceServe
