import SpaceServe.Scheduler.Loops

/-!
# What an output tells the worker

The worker knows the requests that were sent to it. An output of `schedule` presents a request as new
exactly when the worker does not know it, and tells it of each scheduled request how many tokens are
computed.

* `Known`: the statuses of the requests and the local lists of `schedule` say what the worker knows;
* **`Move.known`**: moves keep this;
* `mapM_withBlocks`, **`schedule_sent`**: the lists of an output.
-/

set_option autoImplicit false

namespace SpaceServe

open Py

/-- `K` are the requests the worker knows: waiting requests are new to it, preempted and running ones
are not, unless they were admitted in this step. -/
structure Known (K : List ReqId) (st : Scheduling) : Prop where
  waiting : ∀ id r, st.sched.requests.get? id = some r → r.status = .waiting → id ∉ K
  preempted : ∀ id r, st.sched.requests.get? id = some r → r.status = .preempted → id ∈ K
  running : ∀ id ∈ st.sched.running, id ∈ K ∨ id ∈ st.scheduledNewReqs
  new : ∀ id ∈ st.scheduledNewReqs, id ∉ K
  resumed : ∀ id ∈ st.scheduledResumedReqs, id ∈ K
  scheduled : ∀ id ∈ st.scheduledRunningReqs, id ∈ K

section

variable {p : SchedulerParams} {available : ReqId → ℕ → Bool} {K : List ReqId}
  {st st' : Scheduling}

/-- A running request that is not scheduled yet is known. -/
theorem Known.of_running (hw : st.WF p) (h : Known K st) {id : ReqId} (hid : id ∈ st.sched.running)
    (hns : id ∉ st.numScheduledTokens.keys) : id ∈ K := by
  refine (h.running id hid).resolve_right fun hnew => hns ?_
  rw [← hw.lists.mem_iff]
  simp [hnew]

/-- The statuses after one request was written. -/
theorem status_set {d : Dict ReqId Request} {P : ReqId → RequestStatus → Prop}
    (hd : ∀ id r, d.get? id = some r → P id r.status) (id : ReqId) (r : Request)
    (hP : P id r.status) : ∀ id' r', (d.set id r).get? id' = some r' → P id' r'.status := by
  intro id' r' hg
  rw [Dict.get?_set] at hg
  split_ifs at hg with he
  · cases hg
    exact he ▸ hP
  · exact hd id' r' hg

/-- The block hashes of a request were set. -/
theorem Known.hashes (h : Known K st) {id : ReqId} {r : Request}
    (hr : st.sched.requests.get? id = some r) (hs : List BlockHashType) :
    (∀ id' r', (st.sched.requests.set id (r.setKvBlockHashes hs)).get? id' = some r' →
      r'.status = .waiting → id' ∉ K) ∧
    ∀ id' r', (st.sched.requests.set id (r.setKvBlockHashes hs)).get? id' = some r' →
      r'.status = .preempted → id' ∈ K :=
  ⟨status_set (P := fun id st => st = .waiting → id ∉ K) h.waiting id _ (h.waiting id r hr),
    status_set (P := fun id st => st = .preempted → id ∈ K) h.preempted id _ (h.preempted id r hr)⟩

/-- A waiting request was admitted. -/
theorem Known.admitted (h : Known K st) {id : ReqId} {r : Request}
    (hr : st.sched.requests.get? id = some r) (hstat : r.status = .waiting ∨ r.status = .preempted)
    (hs : List BlockHashType) (kv : KVCacheManager) (ecm : EncoderCacheManager)
    (computed new : List ℕ) (nc n : ℕ) (inputs : List ℕ) (eb : ℤ) :
    Known K (st.admitted id (r.setKvBlockHashes hs) kv ecm computed new nc n inputs eb) := by
  have hwait := status_set (P := fun id st => st = .waiting → id ∉ K) h.waiting
    id { r.setKvBlockHashes hs with status := .running, numComputedTokens := nc }
    fun hc => RequestStatus.noConfusion hc
  have hpre := status_set (P := fun id st => st = .preempted → id ∈ K) h.preempted
    id { r.setKvBlockHashes hs with status := .running, numComputedTokens := nc }
    fun hc => RequestStatus.noConfusion hc
  by_cases hnew : (r.setKvBlockHashes hs).status = .waiting
  · have e₁ : (st.admitted id (r.setKvBlockHashes hs) kv ecm computed new nc n inputs
        eb).scheduledNewReqs = st.scheduledNewReqs ++ [id] := if_pos hnew
    have e₂ : (st.admitted id (r.setKvBlockHashes hs) kv ecm computed new nc n inputs
        eb).scheduledResumedReqs = st.scheduledResumedReqs := if_pos hnew
    refine ⟨hwait, hpre, fun id' hid' => ?_, fun id' hid' => ?_, fun id' hid' => ?_, h.scheduled⟩
    · rw [e₁]
      obtain hid' | hid' := List.mem_append.mp hid'
      · exact (h.running id' hid').imp_right fun h' => List.mem_append_left _ h'
      · exact Or.inr (List.mem_append_right _ hid')
    · rw [e₁] at hid'
      obtain hid' | hid' := List.mem_append.mp hid'
      · exact h.new id' hid'
      · rw [List.mem_singleton.mp hid']
        exact h.waiting id r hr hnew
    · rw [e₂] at hid'
      exact h.resumed id' hid'
  · have e₁ : (st.admitted id (r.setKvBlockHashes hs) kv ecm computed new nc n inputs
        eb).scheduledNewReqs = st.scheduledNewReqs := if_neg hnew
    have e₂ : (st.admitted id (r.setKvBlockHashes hs) kv ecm computed new nc n inputs
        eb).scheduledResumedReqs = st.scheduledResumedReqs ++ [id] := if_neg hnew
    have hK : id ∈ K := h.preempted id r hr (hstat.resolve_left hnew)
    refine ⟨hwait, hpre, fun id' hid' => ?_, fun id' hid' => ?_, fun id' hid' => ?_, h.scheduled⟩
    · rw [e₁]
      obtain hid' | hid' := List.mem_append.mp hid'
      · exact h.running id' hid'
      · exact Or.inl (List.mem_singleton.mp hid' ▸ hK)
    · rw [e₁] at hid'
      exact h.new id' hid'
    · rw [e₂] at hid'
      obtain hid' | hid' := List.mem_append.mp hid'
      · exact h.resumed id' hid'
      · exact List.mem_singleton.mp hid' ▸ hK

/-- **Moves keep what the worker knows.** -/
theorem Move.known (hw : st.WF p) (h : Known K st) (hm : Move p available st st') :
    Known K st' := by
  -- looking up the cached prefix only sets block hashes
  have hlook : ∀ {st₁ : Scheduling} {id : ReqId} {computed : List ℕ} {nc : ℕ} {r : Request},
      st.cachedPrefix p id = .ok (computed, nc, r, st₁) → Known K st₁ := by
    intro st₁ id computed nc r hc
    obtain ⟨request₀, bs, hreq, -, rfl, -, -, hs, rfl⟩ := cachedPrefix_eq_ok hc
    obtain ⟨h1, h2⟩ := h.hashes hreq hs
    exact ⟨h1, h2, h.running, h.new, h.resumed, h.scheduled⟩
  cases hm with
  | reserve => exact ⟨h.waiting, h.preempted, h.running, h.new, h.resumed, h.scheduled⟩
  | preempt hrun hid hreq hfree =>
    have hmem := h.of_running hw (by rw [hrun]; simp) hid
    refine ⟨status_set (P := fun id st => st = .waiting → id ∉ K) h.waiting _ _ ?_,
      status_set (P := fun id st => st = .preempted → id ∈ K) h.preempted _ _ fun _ => hmem,
      fun id' hid' => h.running id' (List.dropLast_subset _ hid'), h.new, h.resumed, h.scheduled⟩
    exact fun hc => RequestStatus.noConfusion hc
  | grant hid hns hreq hpos htry hn halloc hst =>
    obtain ⟨ecm, -, rfl⟩ := scheduleRunning_eq_ok hst
    obtain ⟨hs, rfl⟩ := KVCacheManager.allocateSlots_request halloc
    obtain ⟨h1, h2⟩ := h.hashes hreq hs
    refine ⟨h1, h2, h.running, h.new, h.resumed, fun id' hid' => ?_⟩
    obtain hid' | hid' := List.mem_append.mp hid'
    · exact h.scheduled id' hid'
    · rw [List.mem_singleton.mp hid']
      exact h.of_running hw hid hns
  | lookup hq hc => exact hlook hc
  | enter hq hpre hroom hc hpos htry hn halloc hst =>
    obtain ⟨hstat, ecm, -, rfl⟩ := scheduleWaiting_eq_ok hst
    obtain ⟨hs, rfl⟩ := KVCacheManager.allocateSlots_request halloc
    exact (hlook hc).admitted (hw.lookup hc).2 hstat hs _ _ _ _ _ _ _ _

/-! ## The lists of an output -/

/-- The scheduled requests with their new blocks. -/
theorem mapM_withBlocks (hw : st.sched.WF p) : ∀ {ids : List ReqId} {l : List (Request × List ℕ)},
    ids.mapM st.withBlocks = .ok l → l.map (fun y => y.1.requestId) = ids ∧
      ∀ y ∈ l, st.sched.requests.get? y.1.requestId = some y.1
  | [], l, h => by
    cases h
    exact ⟨rfl, fun y hy => (List.not_mem_nil hy).elim⟩
  | id :: ids, l, h => by
    simp only [List.mapM_cons, bind_eq_ok] at h
    obtain ⟨y, hy, l', hl, h⟩ := h
    cases h
    unfold Scheduling.withBlocks at hy
    simp only [bind_eq_ok] at hy
    obtain ⟨r, hr, blocks, -, hy⟩ := hy
    cases hy
    rw [request_eq_ok] at hr
    have hid := hw.requestId id r hr
    obtain ⟨h1, h2⟩ := mapM_withBlocks hw hl
    refine ⟨by rw [List.map_cons, h1, hid], fun y hy => ?_⟩
    obtain rfl | hy := List.mem_cons.mp hy
    · rw [hid]
      exact hr
    · exact h2 y hy

/-- What the worker knows between two calls of `schedule`. -/
structure KnownTo (K : List ReqId) (s : Scheduler) : Prop where
  waiting : ∀ id r, s.requests.get? id = some r → r.status = .waiting → id ∉ K
  preempted : ∀ id r, s.requests.get? id = some r → r.status = .preempted → id ∈ K
  running : ∀ id ∈ s.running, id ∈ K

/-- **What an output says.** -/
structure Sent (K : List ReqId) (s' : Scheduler) (out : SchedulerOutput) : Prop where
  scheduled : (out.scheduledNewReqs.map (·.reqId) ++ out.scheduledCachedReqs.map (·.reqId)).Perm
    out.numScheduledTokens.keys
  running : ∀ id ∈ out.numScheduledTokens.keys, id ∈ s'.running
  pos : ∀ id n, out.numScheduledTokens.get? id = some n → 0 < n
  total : out.totalNumScheduledTokens = Dict.total (fun n => n) out.numScheduledTokens
  new : ∀ data ∈ out.scheduledNewReqs, data.reqId ∉ K ∧ ∃ r,
    s'.requests.get? data.reqId = some r ∧ data.mmPositions = r.mmPositions ∧
      data.numComputedTokens = r.numComputedTokens
  cached : ∀ data ∈ out.scheduledCachedReqs, data.reqId ∈ K ∧ ∃ r,
    s'.requests.get? data.reqId = some r ∧ data.numComputedTokens = r.numComputedTokens
  known : KnownTo (K ++ out.scheduledNewReqs.map (·.reqId)) s'

/-- An output without tokens tells the worker of no request. -/
theorem Sent.nothing {s' : Scheduler} {out : SchedulerOutput} (h : Sent K s' out)
    (hz : out.totalNumScheduledTokens = 0) : out.numScheduledTokens.keys = [] := by
  refine List.eq_nil_iff_forall_not_mem.mpr fun id hid => ?_
  obtain ⟨n, hn⟩ := Dict.exists_get?_of_mem hid
  have hpos := h.pos id n hn
  have hle := Dict.le_total (fun n => n) hn
  rw [← h.total, hz] at hle
  omega

theorem schedule_sent {s s' : Scheduler} {out : SchedulerOutput} (hw : s.WF p)
    (hk : KnownTo K s) (hs : s.schedule p available = .ok (out, s')) : Sent K s' out := by
  obtain ⟨_, st, newReqs, resumedReqs, runningReqs, -, -, hm, hst, rfl, htok, htotal, -, -, -, h1, h2,
    h3, hnew, hcached⟩ := schedule_eq_ok hw hs
  have hknown : Known K st := by
    refine (hm.invariant (P := fun st => st.WF p ∧ Known K st) ?_ ⟨Scheduling.WF.start hw, ?_⟩).2
    · exact fun st₁ st₂ h₁ hm₁ => ⟨hm₁.wf h₁.1, hm₁.known h₁.1 h₁.2⟩
    · exact ⟨hk.waiting, hk.preempted, fun id hid => Or.inl (hk.running id hid),
        fun id hid => (List.not_mem_nil hid).elim, fun id hid => (List.not_mem_nil hid).elim,
        fun id hid => (List.not_mem_nil hid).elim⟩
  obtain ⟨hids₁, hget₁⟩ := mapM_withBlocks hst.sched h1
  obtain ⟨hids₂, hget₂⟩ := mapM_withBlocks hst.sched h2
  obtain ⟨hids₃, hget₃⟩ := mapM_withBlocks hst.sched h3
  have hnewIds : out.scheduledNewReqs.map (·.reqId) = st.scheduledNewReqs := by
    rw [hnew, List.map_map, ← hids₁]
    rfl
  have hcachedIds : out.scheduledCachedReqs.map (·.reqId) =
      st.scheduledResumedReqs ++ st.scheduledRunningReqs := by
    rw [hcached, List.map_append, List.map_map, List.map_map, ← hids₂, ← hids₃]
    rfl
  refine ⟨?_, ?_, ?_, ?_, ?_, ?_, ?_⟩
  · rw [hnewIds, hcachedIds, htok, ← List.append_assoc]
    exact hst.lists
  · rw [htok]
    exact hst.scheduled
  · rw [htok]
    exact hm.tokens_pos
  · rw [htotal, htok]
    rfl
  · intro data hdata
    refine ⟨hknown.new _ (hnewIds ▸ List.mem_map_of_mem hdata), ?_⟩
    rw [hnew] at hdata
    obtain ⟨y, hy, rfl⟩ := List.mem_map.mp hdata
    exact ⟨y.1, hget₁ y hy, rfl, rfl⟩
  · intro data hdata
    have hmem : data.reqId ∈ st.scheduledResumedReqs ++ st.scheduledRunningReqs :=
      hcachedIds ▸ List.mem_map_of_mem hdata
    refine ⟨(List.mem_append.mp hmem).elim (hknown.resumed _) (hknown.scheduled _), ?_⟩
    rw [hcached] at hdata
    obtain hdata | hdata := List.mem_append.mp hdata
    · obtain ⟨y, hy, rfl⟩ := List.mem_map.mp hdata
      exact ⟨y.1, hget₂ y hy, rfl⟩
    · obtain ⟨y, hy, rfl⟩ := List.mem_map.mp hdata
      exact ⟨y.1, hget₃ y hy, rfl⟩
  · rw [hnewIds]
    refine ⟨fun id r hr hwait => ?_, fun id r hr hpre => ?_, fun id hid => ?_⟩
    · rw [List.mem_append, not_or]
      refine ⟨hknown.waiting id r hr hwait, fun hn => ?_⟩
      have hkey : id ∈ st.numScheduledTokens.keys := by
        rw [← hst.lists.mem_iff]
        simp [hn]
      rw [hst.sched.running id r (hst.scheduled id hkey) hr] at hwait
      cases hwait
    · exact List.mem_append_left _ (hknown.preempted id r hr hpre)
    · rw [List.mem_append]
      exact hknown.running id hid

end

end SpaceServe
