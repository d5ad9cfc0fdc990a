import SpaceServe.Scheduler.Emission
import SpaceServe.Scheduler.Sent

/-!
# The block ids of an output

The scheduler sends the blocks of a request as a whole when it is new or resumed, and later only the
blocks that were added to them.

* `Noted`: what `schedule` has noted of the blocks so far; **`Move.noted`**;
* `Deltas`, **`schedule_deltas`**: the block ids of an output;
* `KeepsBlocks`: updates, aborts and resets of the prefix cache leave the blocks of the others.
-/

set_option autoImplicit false

namespace SpaceServe

open Py KVCacheManager

/-- The block lists after slots were allocated. -/
theorem KVCacheManager.Accounted.allocated {p : KVCacheParams} {kv kv' : KVCacheManager}
    (ha : Accounted p kv) {r r' : Request} {n : ℕ} {computed new : List ℕ}
    (hv : ∀ b ∈ computed, b < p.numGpuBlocks)
    (h : kv.allocateSlots p r n computed = .ok (some new, kv', r')) :
    kv'.blocksOf r.requestId = kv.blocksOf r.requestId ++ (computed ++ new) ∧
      ∀ id, id ≠ r.requestId → kv'.blocksOf id = kv.blocksOf id := by
  obtain ⟨⟨free, hacc⟩, hok⟩ := ha
  obtain ⟨-, -, hblocks, -⟩ := allocateSlots_spec hacc hok hv h
  rw [if_neg (Option.some_ne_none _), Option.getD_some] at hblocks
  exact kv.blocksOf_of_set hblocks

/-- What `schedule` has noted of the blocks so far; `s` is the scheduler it was called on. -/
structure Noted (s : Scheduler) (st : Scheduling) : Prop where
  whole : ∀ id, id ∈ st.scheduledNewReqs ∨ id ∈ st.scheduledResumedReqs →
    st.reqToNewBlockIds.get? id = some (st.sched.kv.blocksOf id)
  added : ∀ id ∈ st.scheduledRunningReqs, id ∈ s.running ∧ ∃ new,
    st.reqToNewBlockIds.get? id = some new ∧ st.sched.kv.blocksOf id = s.kv.blocksOf id ++ new
  same : ∀ id ∈ st.sched.running, id ∉ st.numScheduledTokens.keys →
    id ∈ s.running ∧ st.sched.kv.blocksOf id = s.kv.blocksOf id
  within : ∀ id n r, st.numScheduledTokens.get? id = some n → st.sched.requests.get? id = some r →
    r.numComputedTokens + n ≤ r.numTokens

section

variable {p : SchedulerParams} {available : ReqId → ℕ → Bool} {s : Scheduler} {st st' : Scheduling}

/-- The requests on the local lists are scheduled. -/
theorem Scheduling.WF.mem_lists (hw : st.WF p) {id : ReqId} :
    id ∈ st.numScheduledTokens.keys ↔ (id ∈ st.scheduledNewReqs ∨ id ∈ st.scheduledResumedReqs) ∨
      id ∈ st.scheduledRunningReqs := by
  rw [← hw.lists.mem_iff, List.mem_append, List.mem_append]

theorem Noted.start (p : SchedulerParams) (s : Scheduler) : Noted s (Scheduling.start p s) where
  whole _ hid := by cases hid <;> contradiction
  added _ hid := by cases hid
  same _ hid _ := ⟨hid, rfl⟩
  within _ _ _ hn := by cases hn

/-- The notes on the other requests, when one request was written. -/
theorem Noted.within_set (h : Noted s st) {id : ReqId} {r : Request} {n : ℕ}
    (hle : r.numComputedTokens + n ≤ r.numTokens) :
    ∀ id' n' r', (st.numScheduledTokens.set id n).get? id' = some n' →
      (st.sched.requests.set id r).get? id' = some r' → r'.numComputedTokens + n' ≤ r'.numTokens := by
  intro id' n' r' hn' hr'
  rw [Dict.get?_set] at hn' hr'
  split_ifs at hn' hr'
  · cases hn'
    cases hr'
    exact hle
  · exact h.within id' n' r' hn' hr'

/-- The block hashes of a request were set. -/
theorem Noted.hashes (h : Noted s st) {id : ReqId} {r : Request}
    (hr : st.sched.requests.get? id = some r) (hs : List BlockHashType) :
    ∀ id' n' r', st.numScheduledTokens.get? id' = some n' →
      (st.sched.requests.set id (r.setKvBlockHashes hs)).get? id' = some r' →
        r'.numComputedTokens + n' ≤ r'.numTokens := by
  intro id' n' r' hn' hr'
  rw [Dict.get?_set] at hr'
  split_ifs at hr' with he
  · cases hr'
    exact h.within id' n' r hn' (he ▸ hr)
  · exact h.within id' n' r' hn' hr'

/-- A waiting request is looked up: only its block hashes change. -/
theorem Noted.lookup (h : Noted s st) {st₁ : Scheduling} {id : ReqId} {computed : List ℕ} {nc : ℕ}
    {r : Request} (hc : st.cachedPrefix p id = .ok (computed, nc, r, st₁)) : Noted s st₁ := by
  obtain ⟨r₀, bs, hr₀, -, rfl, -, -, hs, rfl⟩ := cachedPrefix_eq_ok hc
  exact ⟨h.whole, h.added, h.same, h.hashes hr₀ hs⟩

/-- A request that was running and not scheduled was granted tokens. -/
theorem Noted.granted (hw : st.WF p) (h : Noted s st) {id : ReqId} {r : Request}
    (hrid : r.requestId = id) (hid : id ∈ st.sched.running) (hns : id ∉ st.numScheduledTokens.keys)
    {kv : KVCacheManager} {new : List ℕ}
    (hown : kv.blocksOf id = st.sched.kv.blocksOf id ++ new)
    (hother : ∀ id', id' ≠ id → kv.blocksOf id' = st.sched.kv.blocksOf id')
    {n : ℕ} (hle : r.numComputedTokens + n ≤ r.numTokens) (ecm : EncoderCacheManager)
    (inputs : List ℕ) (eb : ℤ) : Noted s (st.granted id r kv ecm new n inputs eb) := by
  subst hrid
  have hne : ∀ id' ∈ st.numScheduledTokens.keys, id' ≠ r.requestId := by
    rintro id' hid' rfl
    exact hns hid'
  refine ⟨fun id' hid' => ?_, fun id' hid' => ?_, fun id' hid' hns' => ?_, h.within_set hle⟩
  · have hne' := hne id' (hw.mem_lists.mpr (Or.inl hid'))
    simp only [Scheduling.granted, Dict.get?_set_ne _ hne', hother id' hne']
    exact h.whole id' hid'
  · obtain hid' | hid' := List.mem_append.mp hid'
    · have hne' := hne id' (hw.mem_lists.mpr (Or.inr hid'))
      simp only [Scheduling.granted, Dict.get?_set_ne _ hne', hother id' hne']
      exact h.added id' hid'
    · obtain rfl := List.mem_singleton.mp hid'
      obtain ⟨hrun, hsame⟩ := h.same _ hid hns
      exact ⟨hrun, new, Dict.get?_set_self _ _ _, by rw [← hsame]; exact hown⟩
  · have hns' : id' ∉ (st.numScheduledTokens.set r.requestId n).keys := hns'
    rw [Dict.mem_keys_set, not_or] at hns'
    obtain ⟨hrun, hsame⟩ := h.same id' hid' hns'.2
    exact ⟨hrun, (hother id' hns'.1).trans hsame⟩

/-- A waiting request was admitted. -/
theorem Noted.admitted (hw : st.WF p) (h : Noted s st) {id : ReqId} {r : Request}
    (hrid : r.requestId = id) (hnr : id ∉ st.sched.running) {kv : KVCacheManager}
    {computed new : List ℕ} (hown : kv.blocksOf id = computed ++ new)
    (hother : ∀ id', id' ≠ id → kv.blocksOf id' = st.sched.kv.blocksOf id')
    {nc n : ℕ} (hle : nc + n ≤ r.numTokens) (ecm : EncoderCacheManager)
    (inputs : List ℕ) (eb : ℤ) : Noted s (st.admitted id r kv ecm computed new nc n inputs eb) := by
  subst hrid
  have hne : ∀ id' ∈ st.numScheduledTokens.keys, id' ≠ r.requestId := by
    rintro id' hid' rfl
    exact hnr (hw.scheduled _ hid')
  have hlists : ∀ id', id' ∈ (st.admitted r.requestId r kv ecm computed new nc n inputs
      eb).scheduledNewReqs ∨ id' ∈ (st.admitted r.requestId r kv ecm computed new nc n inputs
      eb).scheduledResumedReqs → id' = r.requestId ∨
        (id' ∈ st.scheduledNewReqs ∨ id' ∈ st.scheduledResumedReqs) := by
    intro id' hid'
    simp only [Scheduling.admitted] at hid'
    split_ifs at hid'
    · rw [List.mem_append, List.mem_singleton] at hid'
      tauto
    · rw [List.mem_append, List.mem_singleton] at hid'
      tauto
  refine ⟨fun id' hid' => ?_, fun id' hid' => ?_, fun id' hid' hns' => ?_, h.within_set hle⟩
  · obtain rfl | hid' := hlists id' hid'
    · simp only [Scheduling.admitted, Dict.get?_set_self, hown]
    · have hne' := hne id' (hw.mem_lists.mpr (Or.inl hid'))
      simp only [Scheduling.admitted, Dict.get?_set_ne _ hne', hother id' hne']
      exact h.whole id' hid'
  · have hne' := hne id' (hw.mem_lists.mpr (Or.inr hid'))
    simp only [Scheduling.admitted, Dict.get?_set_ne _ hne', hother id' hne']
    exact h.added id' hid'
  · have hns' : id' ∉ (st.numScheduledTokens.set r.requestId n).keys := hns'
    rw [Dict.mem_keys_set, not_or] at hns'
    have hid' : id' ∈ st.sched.running ++ [r.requestId] := hid'
    rw [List.mem_append, List.mem_singleton, or_iff_left hns'.1] at hid'
    obtain ⟨hrun, hsame⟩ := h.same id' hid' hns'.2
    exact ⟨hrun, (hother id' hns'.1).trans hsame⟩

/-- **Moves keep the notes true.** -/
theorem Move.noted (hw : st.WF p) (hb : BlocksInv p st.sched st.got) (h : Noted s st)
    (hm : Move p available st st') : Noted s st' := by
  cases hm with
  | @reserve id hid =>
    have hsame := st.sched.kv.setBlocks_self_blocksOf id
    refine ⟨fun id' hid' => ?_, fun id' hid' => ?_, fun id' hid' hns => ?_, h.within⟩
    · rw [hsame]
      exact h.whole id' hid'
    · rw [hsame]
      exact h.added id' hid'
    · rw [hsame]
      exact h.same id' hid' hns
  | @preempt rest id r kv hrun hid hr hfree =>
    obtain ⟨-, -, -, hother, -⟩ := free_facts hb.accounted hfree
    obtain rfl := hw.sched.requestId id r hr
    have hne : ∀ id' ∈ st.numScheduledTokens.keys, id' ≠ r.requestId := by
      rintro id' hid' rfl
      exact hid hid'
    refine ⟨fun id' hid' => ?_, fun id' hid' => ?_, fun id' hid' hns => ?_, fun id' n r' hn hr' => ?_⟩
    · simp only [Scheduling.preempt, hother id' (hne id' (hw.mem_lists.mpr (Or.inl hid')))]
      exact h.whole id' hid'
    · simp only [Scheduling.preempt, hother id' (hne id' (hw.mem_lists.mpr (Or.inr hid')))]
      exact h.added id' hid'
    · obtain ⟨hne', hid'⟩ := (hw.sched.mem_dropLast hrun id').mp hid'
      simp only [Scheduling.preempt, hother id' hne']
      exact h.same id' hid' hns
    · have hr' : (st.sched.requests.set r.requestId _).get? id' = some r' := hr'
      rw [Dict.get?_set_ne _ (hne id' (Dict.mem_keys_of_get? hn))] at hr'
      exact h.within id' n r' hn hr'
  | @grant _ id r r' inputs n eb new kv hid hns hr hpos htry hn halloc hst =>
    obtain ⟨ecm, -, rfl⟩ := scheduleRunning_eq_ok hst
    have hle := tryScheduleEncoderInputs_le (by omega) htry
    obtain ⟨hown, hother⟩ := hb.accounted.allocated (fun b hb => (List.not_mem_nil hb).elim) halloc
    obtain ⟨hs, rfl⟩ := allocateSlots_request halloc
    obtain rfl := hw.sched.requestId id r hr
    rw [List.nil_append] at hown
    refine h.granted hw (r := r.setKvBlockHashes hs) rfl hid hns hown hother ?_ ecm inputs eb
    change r.numComputedTokens + n.toNat ≤ r.numTokens
    omega
  | lookup hwait hc => exact h.lookup hc
  | @enter st₁ _ id rest computed nc r r' inputs n eb new kv hwait hpre hroom hc hpos htry hn halloc
      hst =>
    have hid := mem_of_eq_cons hwait
    have hnr : id ∉ st.sched.running := fun hm => hw.sched.not_mem_waiting hm hid
    obtain ⟨r₀, hr₀, rfl, -, hinv, hits⟩ := hb.cachedPrefix_ok hw hid hc
    obtain ⟨hw₁, hr₁⟩ := hw.lookup hc
    have h₁ := h.lookup hc
    rw [← cachedPrefix_running hc] at hnr
    obtain ⟨-, ecm, -, rfl⟩ := scheduleWaiting_eq_ok hst
    have hle := tryScheduleEncoderInputs_le (by omega) htry
    obtain ⟨hown, hother⟩ := hinv.accounted.allocated hits.lt halloc
    obtain ⟨hs, rfl⟩ := allocateSlots_request halloc
    obtain rfl := hw₁.sched.requestId id r hr₁
    rw [hinv.idle _ hnr, List.nil_append] at hown
    refine h₁.admitted hw₁ (r := r.setKvBlockHashes hs) rfl hnr hown hother ?_ ecm inputs eb
    change _ ≤ r.numTokens
    omega

/-! ## The block ids of an output -/

/-- The scheduled requests with the block ids that were noted for them. -/
theorem mapM_withBlocks_noted (hw : st.sched.WF p) : ∀ {ids : List ReqId}
    {l : List (Request × List ℕ)}, ids.mapM st.withBlocks = .ok l →
      ∀ y ∈ l, st.reqToNewBlockIds.get? y.1.requestId = some y.2
  | [], l, h, y, hy => by
    cases h
    cases hy
  | id :: ids, l, h, y, hy => by
    simp only [List.mapM_cons, bind_eq_ok] at h
    obtain ⟨x, hx, l', hl, h⟩ := h
    cases h
    obtain rfl | hy := List.mem_cons.mp hy
    · unfold Scheduling.withBlocks at hx
      simp only [bind_eq_ok] at hx
      obtain ⟨r, hr, blocks, hblocks, hx⟩ := hx
      cases hx
      rw [hw.requestId id r (request_eq_ok.mp hr)]
      exact ofOption_eq_ok.mp hblocks
    · exact mapM_withBlocks_noted hw hl y hy

/-- The blocks that an output tells of, for the call of `schedule` that leads from `s` to `s'`. -/
structure Deltas (s s' : Scheduler) (out : SchedulerOutput) : Prop where
  new : ∀ data ∈ out.scheduledNewReqs, data.blockIds = s'.kv.blocksOf data.reqId ∧ ∃ r,
    s'.requests.get? data.reqId = some r ∧ data.promptTokenIds = r.promptTokenIds
  resumed : ∀ data ∈ out.scheduledCachedReqs, data.resumedFromPreemption = true →
    data.newBlockIds = s'.kv.blocksOf data.reqId
  added : ∀ data ∈ out.scheduledCachedReqs, data.resumedFromPreemption = false →
    data.reqId ∈ s.running ∧ s'.kv.blocksOf data.reqId = s.kv.blocksOf data.reqId ++ data.newBlockIds
  same : ∀ id ∈ s'.running, id ∉ out.numScheduledTokens.keys →
    id ∈ s.running ∧ s'.kv.blocksOf id = s.kv.blocksOf id
  within : ∀ id n r, out.numScheduledTokens.get? id = some n → s'.requests.get? id = some r →
    r.numComputedTokens + n ≤ r.numTokens

/-- **An output tells of the blocks of the scheduled requests.** -/
theorem schedule_deltas {s' : Scheduler} {out : SchedulerOutput} (h : s.Sound p)
    (hs : s.schedule p available = .ok (out, s')) : Deltas s s' out := by
  obtain ⟨_, st, newReqs, resumedReqs, runningReqs, -, -, hm, hst, rfl, htok, -, -, -, -, h1, h2, h3,
    hnew, hcached⟩ := schedule_eq_ok h.wf hs
  have hnoted : Noted s st := by
    refine (hm.invariant (P := fun st => st.WF p ∧ BlocksInv p st.sched st.got ∧ Noted s st) ?_
      ⟨Scheduling.WF.start h.wf, h.blocks, Noted.start p s⟩).2.2
    rintro st₁ st₂ ⟨hw₁, hb₁, hn₁⟩ hm₁
    exact ⟨hm₁.wf hw₁, (hm₁.blocksInv hw₁ hb₁).1, hm₁.noted hw₁ hb₁ hn₁⟩
  obtain ⟨hids₁, hget₁⟩ := mapM_withBlocks hst.sched h1
  obtain ⟨hids₂, -⟩ := mapM_withBlocks hst.sched h2
  obtain ⟨hids₃, -⟩ := mapM_withBlocks hst.sched h3
  have hmem : ∀ {ids : List ReqId} {l : List (Request × List ℕ)} {y : Request × List ℕ},
      l.map (fun y => y.1.requestId) = ids → y ∈ l → y.1.requestId ∈ ids :=
    fun hids hy => hids ▸ List.mem_map_of_mem hy
  refine ⟨fun data hdata => ?_, fun data hdata hres => ?_, fun data hdata hres => ?_, ?_, ?_⟩
  · rw [hnew] at hdata
    obtain ⟨y, hy, rfl⟩ := List.mem_map.mp hdata
    have hnote := mapM_withBlocks_noted hst.sched h1 y hy
    rw [hnoted.whole _ (Or.inl (hmem hids₁ hy))] at hnote
    exact ⟨(Option.some.inj hnote).symm, y.1, hget₁ y hy, rfl⟩
  · rw [hcached] at hdata
    obtain hdata | hdata := List.mem_append.mp hdata
    · obtain ⟨y, hy, rfl⟩ := List.mem_map.mp hdata
      have hnote := mapM_withBlocks_noted hst.sched h2 y hy
      rw [hnoted.whole _ (Or.inr (hmem hids₂ hy))] at hnote
      exact (Option.some.inj hnote).symm
    · obtain ⟨y, hy, rfl⟩ := List.mem_map.mp hdata
      cases hres
  · rw [hcached] at hdata
    obtain hdata | hdata := List.mem_append.mp hdata
    · obtain ⟨y, hy, rfl⟩ := List.mem_map.mp hdata
      cases hres
    · obtain ⟨y, hy, rfl⟩ := List.mem_map.mp hdata
      obtain ⟨hrun, new, hget, hblocks⟩ := hnoted.added _ (hmem hids₃ hy)
      rw [mapM_withBlocks_noted hst.sched h3 y hy] at hget
      cases hget
      exact ⟨hrun, hblocks⟩
  · rw [htok]
    exact hnoted.same
  · rw [htok]
    exact hnoted.within

/-! ## Blocks that stay -/

namespace Scheduler

variable {s' s₀ : Scheduler}

/-- The running requests of `s` have the blocks they have in `s₀`. -/
def KeepsBlocks (s₀ s : Scheduler) : Prop := ∀ id ∈ s.running, s.kv.blocksOf id = s₀.kv.blocksOf id

/-- A request that leaves takes no blocks from the others. -/
theorem KeepsBlocks.drop (h : KeepsBlocks s₀ s) (hw : s.WF p) {got : ReqId → ℕ}
    (hb : BlocksInv p s got) {id : ReqId} {r : Request} (hd : Drop p s s' id r) :
    KeepsBlocks s₀ s' := by
  intro id' hid'
  obtain ⟨-, -, -, hother, -⟩ := free_facts hb.accounted hd.free
  rw [hw.requestId id r hd.get?] at hother
  rw [hd.sched] at hid'
  obtain ⟨hne, hid'⟩ := (hw.mem_erase id id').1.mp hid'
  rw [hother id' hne]
  exact h id' hid'

theorem finishRequests_keepsBlocks (h : s.Sound p) {ids : List ReqId} {status : RequestStatus}
    (hs : s.finishRequests p ids status = .ok s') : KeepsBlocks s s' := by
  unfold Scheduler.finishRequests at hs
  rw [bind_eq_ok] at hs
  obtain ⟨_, -, hs⟩ := hs
  refine (foldlM_invariant (P := fun v : Scheduler => v.Sound p ∧ KeepsBlocks s v) ?_
    ⟨h, fun _ _ => rfl⟩ hs).2
  rintro s₁ id s₂ - ⟨h₁, hk₁⟩ h₂
  obtain ⟨-, rfl⟩ | ⟨r, hd⟩ := finishOne_eq_ok h₁.wf h₂
  · exact ⟨h₁, hk₁⟩
  · exact ⟨⟨h₁.wf.drop hd, h₁.blocks.drop h₁.wf hd⟩, hk₁.drop h₁.wf h₁.blocks hd⟩

theorem updateFromOutput_keepsBlocks {out : SchedulerOutput} {mo : ModelRunnerOutput}
    {outputs : List EngineCoreOutput} (hw : s.WF p)
    (h : BlocksInv p s fun id => (out.numScheduledTokens.get? id).getD 0)
    (hs : s.updateFromOutput p out mo = .ok (outputs, s')) : KeepsBlocks s s' := by
  obtain ⟨u, hu, rfl⟩ := updateFromOutput_eq_ok hs
  have hstart : WF p (Updating.view ⟨s, [], []⟩ s.running) ∧
      BlocksInv p (Updating.view ⟨s, [], []⟩ s.running) (pendingOf out s.running) ∧
      KeepsBlocks s (Updating.view ⟨s, [], []⟩ s.running) := by
    refine ⟨hw, BlocksInv.mono (s := s) h fun id hid => ?_, fun _ _ => rfl⟩
    rw [pendingOf, if_pos hid]
  refine (update_invariant (P := fun v rest => v.WF p ∧ BlocksInv p v (pendingOf out rest) ∧
    KeepsBlocks s v) ?_ hstart hu).2.2
  rintro u₁ u₂ id rest ⟨hw₁, h₁, hk₁⟩ h₂
  refine ⟨(updateOne_onward hw₁ h₂).1, h₁.updateOne hw₁ h₂, ?_⟩
  obtain ⟨-, hview⟩ | ⟨-, r, r₁, s₁, ts, hr, -, hadv, hcase⟩ := updateOne_view hw₁ h₂
  · rw [hview]
    exact hk₁
  · obtain ⟨hs₁, -⟩ | hdrop := hcase
    · rw [hs₁]
      intro id' hid'
      rw [hadv.sched] at hid' ⊢
      exact hk₁ id' hid'
    · have hd := Drop.of_advance (s := u₁.view (id :: rest)) hr hadv hdrop
      have h' : BlocksInv p { u₁.view (id :: rest) with
          encoderCacheManager := s₁.encoderCacheManager } (pendingOf out (id :: rest)) :=
        ⟨h₁.accounted, h₁.chain, h₁.idle, h₁.running⟩
      exact KeepsBlocks.drop (s := { u₁.view (id :: rest) with
        encoderCacheManager := s₁.encoderCacheManager }) hk₁ (hw₁.setEcm _) h' hd

theorem resetPrefixCache_keepsBlocks (p : SchedulerParams) (s : Scheduler) :
    KeepsBlocks s (s.resetPrefixCache p) := by
  intro id _
  unfold Scheduler.resetPrefixCache KVCacheManager.resetPrefixCache
  split_ifs <;> rfl

end Scheduler

end

end SpaceServe
