import SpaceServe.Scheduler.Slots

/-!
# Aborts

`finish_requests` releases a request from the queues, the blocks, the encoder cache and the table of
requests, one after the other. `EncoderCacheManager.free` iterates over the set it shrinks and raises
after the first element, when the blocks are freed and the request is still registered: an abort works
exactly if none of the requests has inputs in the encoder cache.

* `Removed`: some requests are gone, the others are as before;
* `Removed.drop`, `foldlM_finishOne_removed`: one id after the other;
* `Aborted`: what an abort is for;
* **`abort_works_iff`**: when an abort works.
-/

set_option autoImplicit false

namespace SpaceServe

open Py KVCacheManager

section Removed

variable {p : SchedulerParams} {s s' : Scheduler} {got : ReqId → ℕ} {ids : List ReqId} {id : ReqId}
  {r : Request} {status : RequestStatus}

/-- Those of the requests that were known are in none of the tables and queues and are reported as
finished; all others are as before. -/
structure Removed (ids : List ReqId) (s s' : Scheduler) : Prop where
  gone : ∀ id ∈ ids, id ∈ s.requests.keys →
    id ∉ s'.requests.keys ∧ id ∉ s'.running ∧ id ∉ s'.waiting ∧ id ∉ s'.kv.reqToBlocks.keys ∧
      id ∉ s'.encoderCacheManager.cached.keys ∧ id ∉ s'.cachedReqsData.keys ∧
      id ∈ s'.finishedReqIds
  running : s'.running = s.running.filter fun id => decide (id ∉ ids)
  waiting : s'.waiting = s.waiting.filter fun id => decide (id ∉ ids)
  others : ∀ id, (id ∈ ids → id ∉ s.requests.keys) →
    s'.requests.get? id = s.requests.get? id ∧
      s'.kv.reqToBlocks.get? id = s.kv.reqToBlocks.get? id ∧
      s'.encoderCacheManager.cached.get? id = s.encoderCacheManager.cached.get? id ∧
      s'.cachedReqsData.get? id = s.cachedReqsData.get? id ∧
      (id ∈ s'.finishedReqIds ↔ id ∈ s.finishedReqIds)

theorem Removed.nil (s : Scheduler) : Removed [] s s where
  gone _ hid := (List.not_mem_nil hid).elim
  running := by simp
  waiting := by simp
  others _ _ := ⟨rfl, rfl, rfl, rfl, Iff.rfl⟩

/-- An unknown id. -/
theorem Removed.unknown (hw : s.WF p) (hid : id ∉ s.requests.keys) (h : Removed ids s s') :
    Removed (id :: ids) s s' := by
  have hnot : ∀ l : List ReqId, (∀ x ∈ l, x ∈ s.requests.keys) →
      (l.filter fun x => decide (x ∉ id :: ids)) = l.filter fun x => decide (x ∉ ids) := by
    intro l hl
    refine List.filter_congr fun x hx => ?_
    have hne : x ≠ id := fun he => hid (he ▸ hl x hx)
    simp [hne]
  refine ⟨fun x hx hkey => ?_, ?_, ?_, fun x hx => ?_⟩
  · obtain rfl | hx := List.mem_cons.mp hx
    · exact absurd hkey hid
    · exact h.gone x hx hkey
  · rw [hnot _ fun x hx => (hw.known x).mpr (Or.inl hx)]
    exact h.running
  · rw [hnot _ fun x hx => (hw.known x).mpr (Or.inr hx)]
    exact h.waiting
  · exact h.others x fun hx' => hx (List.mem_cons_of_mem _ hx')

/-- Taking one id out of a queue before the others. -/
theorem filter_erase_of_nodup {l : List ReqId} (hl : l.Nodup) :
    ((l.erase id).filter fun x => decide (x ∉ ids)) = l.filter fun x => decide (x ∉ id :: ids) := by
  rw [hl.erase_eq_filter, List.filter_filter]
  refine List.filter_congr fun x _ => ?_
  by_cases hx : x = id <;> simp [hx]

/-- A request leaves before the others do. -/
theorem Removed.drop {s₁ : Scheduler} (hw : s.WF p) (ha : Accounted p.kv s.kv) (hs : SlotsInv p s)
    (hd : Scheduler.Drop p s s₁ id r) (h : Removed ids s₁ s') : Removed (id :: ids) s s' := by
  have hrid := hw.requestId id r hd.get?
  have hblocks : s₁.kv.reqToBlocks = s.kv.reqToBlocks.pop id := by
    obtain ⟨⟨free, ha⟩, -⟩ := ha
    obtain ⟨kv, -, hfree, -, -, hpop⟩ := ha.free r
    rw [hd.free] at hfree
    cases hfree
    rw [hpop, hrid]
  have hcached : s.encoderCacheManager.cached.get? id = none := by
    cases hg : s.encoderCacheManager.cached.get? id with
    | none => rfl
    | some l =>
      refine absurd ?_ (hs.balanced.ne_nil id l hg)
      have := hd.cached
      rwa [EncoderCacheManager.getCachedInputIds, hg] at this
  have hreq : s₁.requests = s.requests.pop id := by rw [hd.sched]
  have hdata : s₁.cachedReqsData = s.cachedReqsData.pop id := by rw [hd.sched]
  have hecm : s₁.encoderCacheManager = s.encoderCacheManager := by rw [hd.sched]
  have hfin : ∀ x, x ∈ s₁.finishedReqIds ↔ x = id ∨ x ∈ s.finishedReqIds := by
    intro x
    rw [hd.sched]
    simp only
    split_ifs with hmem
    · constructor
      · exact Or.inr
      · rintro (rfl | hx)
        · exact hmem
        · exact hx
    · rw [List.mem_append, List.mem_singleton, or_comm]
  have hrun : s'.running = s.running.filter fun x => decide (x ∉ id :: ids) := by
    rw [h.running, hd.sched]
    exact filter_erase_of_nodup hw.running_nodup
  have hwait : s'.waiting = s.waiting.filter fun x => decide (x ∉ id :: ids) := by
    rw [h.waiting, hd.sched]
    exact filter_erase_of_nodup hw.waiting_nodup
  -- what is left of the id that was just dropped
  have hid : s'.requests.get? id = none ∧ s'.kv.reqToBlocks.get? id = none ∧
      s'.encoderCacheManager.cached.get? id = none ∧ s'.cachedReqsData.get? id = none ∧
      id ∈ s'.finishedReqIds := by
    obtain ⟨h1, h2, h3, h4, h5⟩ := h.others id fun _ => by
      rw [hreq, Dict.mem_keys_pop]
      exact fun hc => hc.1 rfl
    rw [h1, h2, h3, h4, h5, hreq, hblocks, hecm, hdata, hfin]
    simp [hcached]
  refine ⟨fun x hx hkey => ?_, hrun, hwait, fun x hx => ?_⟩
  · by_cases hx' : x ∈ ids ∧ x ∈ s₁.requests.keys
    · exact h.gone x hx'.1 hx'.2
    · have he : x = id := by
        by_contra hne
        refine hx' ⟨(List.mem_cons.mp hx).resolve_left hne, ?_⟩
        rw [hreq]
        exact (Dict.mem_keys_pop _ _ _).mpr ⟨hne, hkey⟩
      subst he
      simp only [← Dict.get?_eq_none]
      refine ⟨hid.1, ?_, ?_, hid.2⟩
      · rw [hrun]
        simp
      · rw [hwait]
        simp
  · have hne : x ≠ id := by
      rintro rfl
      exact hx List.mem_cons_self (Dict.mem_keys_of_get? hd.get?)
    obtain ⟨h1, h2, h3, h4, h5⟩ := h.others x fun hx' hkey => by
      rw [hreq, Dict.mem_keys_pop] at hkey
      exact hx (List.mem_cons_of_mem _ hx') hkey.2
    rw [h1, h2, h3, h4, h5, hreq, hblocks, hecm, hdata, hfin, Dict.get?_pop_ne _ hne,
      Dict.get?_pop_ne _ hne, Dict.get?_pop_ne _ hne]
    simp [hne]

/-- A loop over ids that returned met no request with recorded inputs. -/
theorem foldlM_finishOne_cached : ∀ {ids : List ReqId} {s s' : Scheduler}, s.WF p →
    ids.foldlM (Scheduler.finishOne p status) s = .ok s' → ∀ id ∈ ids, id ∈ s.requests.keys →
      s.encoderCacheManager.getCachedInputIds id = []
  | [], _, _, _, _ => fun _ hid => (List.not_mem_nil hid).elim
  | id :: ids, s, s', hw, h => by
    rw [List.foldlM_cons, bind_eq_ok] at h
    obtain ⟨s₁, h₁, h⟩ := h
    intro x hx hkey
    obtain ⟨hr, rfl⟩ | ⟨r, hd⟩ := Scheduler.finishOne_eq_ok hw h₁
    · obtain rfl | hx := List.mem_cons.mp hx
      · exact absurd hkey ((Dict.get?_eq_none _ _).mp hr)
      · exact foldlM_finishOne_cached hw h x hx hkey
    · by_cases hne : x = id
      · rw [hne]
        exact hd.cached
      · have hkey₁ : x ∈ s₁.requests.keys := by
          rw [hd.sched]
          exact (Dict.mem_keys_pop _ _ _).mpr ⟨hne, hkey⟩
        have := foldlM_finishOne_cached (hw.drop hd) h x ((List.mem_cons.mp hx).resolve_left hne) hkey₁
        rwa [show s₁.encoderCacheManager = s.encoderCacheManager by rw [hd.sched]] at this

/-- **One id after the other**: without recorded inputs the loop returns, and the requests are gone. -/
theorem foldlM_finishOne_removed (hfin : status.isFinished = true) : ∀ {ids : List ReqId}
    {s : Scheduler}, s.WF p → BlocksInv p s got → SlotsInv p s →
    (∀ id ∈ ids, id ∈ s.requests.keys → s.encoderCacheManager.getCachedInputIds id = []) →
    ∃ s', ids.foldlM (Scheduler.finishOne p status) s = .ok s' ∧ Removed ids s s'
  | [], s, _, _, _, _ => ⟨s, rfl, Removed.nil s⟩
  | id :: ids, s, hw, hb, hs, hno => by
    obtain ⟨s₁, h₁⟩ := finishOne_returns hw hb.accounted hfin (hno id List.mem_cons_self)
    rw [List.foldlM_cons, h₁, ok_bind]
    obtain ⟨hr, rfl⟩ | ⟨r, hd⟩ := Scheduler.finishOne_eq_ok hw h₁
    · obtain ⟨s', h', hrem⟩ := foldlM_finishOne_removed hfin hw hb hs
        fun x hx => hno x (List.mem_cons_of_mem _ hx)
      exact ⟨s', h', hrem.unknown hw ((Dict.get?_eq_none _ _).mp hr)⟩
    · have hno₁ : ∀ x ∈ ids, x ∈ s₁.requests.keys →
          s₁.encoderCacheManager.getCachedInputIds x = [] := by
        intro x hx hkey
        rw [hd.sched] at hkey ⊢
        exact hno x (List.mem_cons_of_mem _ hx) ((Dict.mem_keys_pop _ _ _).mp hkey).2
      obtain ⟨s', h', hrem⟩ := foldlM_finishOne_removed hfin (hw.drop hd) (hb.drop hw hd)
        (hs.drop hd) hno₁
      exact ⟨s', h', hrem.drop hw hb.accounted hs hd⟩

end Removed

/-! ## When an abort works -/

/-- What an abort is for: the requests are gone, the blocks that no other request holds are free again
with the counts of all blocks adjusted, and so are the slots of the encoder cache. -/
structure Aborted (p : SchedulerParams) (ids : List ReqId) (s s' : Scheduler) : Prop
    extends Removed ids s s' where
  refCnt : ∀ b, (s'.kv.blocks b).refCnt = s'.kv.reqToBlocks.total (List.count b)
  blocks : ∃ queue, s'.kv.freeBlockQueue.getAllFreeBlocks p.kv.numGpuBlocks = some queue ∧
    ∀ b, b ∈ queue ↔ b < p.kv.numGpuBlocks ∧ ∀ id, b ∉ s'.kv.blocksOf id
  slots : s'.encoderCacheManager.numFreeSlots =
    p.encoderCacheSize - s'.encoderCacheManager.slotsHeld s'.inputLength

namespace SchedulerRun

variable {p : SchedulerParams} {σ : SchedulerRun} {status : RequestStatus}

/-- **Aborting works exactly if none of the requests has inputs in the encoder cache**, in every state
of every run and for any known and unknown ids. -/
theorem abort_works_iff (h : FreshRun p σ) (hfin : status.isFinished = true) (ids : List ReqId) :
    (∃ s', σ.sched.finishRequests p ids status = .ok s' ∧ Aborted p ids σ.sched s') ↔
      ∀ id ∈ ids, id ∈ σ.sched.requests.keys →
        σ.sched.encoderCacheManager.getCachedInputIds id = [] := by
  obtain ⟨hw, hb⟩ := h.blocksInv
  have hs := h.slotsInv
  have hloop : ∀ s', σ.sched.finishRequests p ids status = .ok s' ↔
      ids.foldlM (Scheduler.finishOne p status) σ.sched = .ok s' := by
    intro s'
    unfold Scheduler.finishRequests
    rw [assert_of hfin, ok_bind]
  constructor
  · rintro ⟨s', h', -⟩
    exact foldlM_finishOne_cached hw ((hloop s').mp h')
  · intro hno
    obtain ⟨s', h', hrem⟩ := foldlM_finishOne_removed hfin hw hb hs hno
    have h'' := (hloop s').mpr h'
    obtain ⟨⟨free, ha⟩, -⟩ := (hb.finishRequests hw h'').accounted
    have hslots := (hs.finishRequests hw h'').1.balanced.slots
    have hcnt : ∀ b, (s'.kv.blocks b).refCnt = s'.kv.owned b := by
      intro b
      rw [ha.refCnt b]
      simp
    refine ⟨s', h'', hrem, hcnt, ⟨free, ha.getAllFreeBlocks, fun b => ?_⟩, by omega⟩
    rw [ha.mem_free b, hcnt b]
    refine and_congr_right fun _ => ?_
    rw [← s'.kv.owned_eq_zero b]
    omega

/-- The image of a request is in the encoder cache, as the text before it has only begun. -/
def heldImageRun : List SchedulerEvent :=
  [.addRequest (.ofPrompt "a" [1, 2, 3, 4, 5, 6, 7, 8] [⟨2, 6⟩]),
    .schedule fun _ _ => true,
    .updateFromOutput ⟨Dict.empty.set "a" 0, [9]⟩,
    .addRequest (.ofPrompt "b" [1, 2, 3] [])]

/-- **An abort can raise**: the request has one input in the encoder cache. -/
theorem abort_raises : ∃ σ, FreshRun eightSlots σ ∧
    σ.sched.finishRequests eightSlots ["a"] .finishedAborted =
      .error (.runtimeError "Set changed size during iteration") := by
  obtain ⟨σ, hσ, h⟩ := exists_reachable (fun σ e => step eightSlots σ e) Fresh (init eightSlots)
    heldImageRun (fun σ => (match σ.sched.finishRequests eightSlots ["a"] .finishedAborted with
      | .ok _ => none
      | .error e => some e) = some (.runtimeError "Set changed size during iteration"))
    (by decide +kernel)
  refine ⟨σ, hσ, ?_⟩
  cases hf : σ.sched.finishRequests eightSlots ["a"] .finishedAborted with
  | ok s' => rw [hf] at h; cases h
  | error e => rw [hf] at h; cases h; rfl

/-- The other request is aborted, together with one that is not known. -/
theorem abort_works_waiting : ∃ σ, FreshRun eightSlots σ ∧ σ.sched.requests.keys = ["a", "b"] ∧
    ∃ s', σ.sched.finishRequests eightSlots ["b", "c"] .finishedAborted = .ok s' ∧
      Aborted eightSlots ["b", "c"] σ.sched s' := by
  obtain ⟨σ, hσ, hkeys, hno⟩ := exists_reachable (fun σ e => step eightSlots σ e) Fresh
    (init eightSlots) heldImageRun (fun σ => σ.sched.requests.keys = ["a", "b"] ∧
      ∀ id ∈ ["b", "c"], id ∈ σ.sched.requests.keys →
        σ.sched.encoderCacheManager.getCachedInputIds id = []) (by decide +kernel)
  exact ⟨σ, hσ, hkeys, (abort_works_iff hσ rfl ["b", "c"]).mpr hno⟩

end SchedulerRun

end SpaceServe
