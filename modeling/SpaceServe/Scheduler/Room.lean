import SpaceServe.Scheduler.Deltas

/-!
# Requests fit the block table

`allocate_slots` never gives a request more than `max_num_blocks_per_req` blocks, and a prefix hit is
shorter than the request. So a request within `max_model_len` tokens has no more blocks than a row of
the block table has columns.

* `allocateSlots_le`: the blocks of one call;
* `Scheduler.Room`, `Move.room`, **`Room.schedule`**, `Room.onward`;
* `Scheduler.Capped`: only a prompt reaches the limit;
* `room_step`, `capped_step`, **`FreshRun.room_capped`**: runs.
-/

set_option autoImplicit false

namespace SpaceServe

open Py KVCacheManager

/-! ## One call -/

section Allocate

variable {p : KVCacheParams}

theorem length_getNewBlocksLoop : ∀ {n : ℕ} {kv kv' : KVCacheManager} {ret new : List ℕ},
    getNewBlocksLoop p n kv ret = .ok (new, kv') → new.length = ret.length + n
  | 0, _, _, _, _, h => by
    cases h
    rfl
  | n + 1, kv, kv', ret, new, h => by
    simp only [getNewBlocksLoop, bind_eq_ok] at h
    obtain ⟨⟨b, kv₁⟩, -, h⟩ := h
    have hlen := length_getNewBlocksLoop h
    rw [List.length_append, List.length_singleton] at hlen
    omega

theorem takeNewBlocks_le {kv kv' : KVCacheManager} {numNew : ℤ} {numReq : ℕ} {new : List ℕ}
    (h : kv.takeNewBlocks p numNew numReq = .ok (new, kv')) :
    new = [] ∨ new.length + numReq ≤ p.maxNumBlocksPerReq := by
  unfold KVCacheManager.takeNewBlocks at h
  split_ifs at h with h0
  · cases h
    exact Or.inl rfl
  · rw [bind_eq_ok] at h
    obtain ⟨_, hpos, h⟩ := h
    rw [assert_eq_ok] at hpos
    unfold KVCacheManager.getNewBlocks at h
    split_ifs at h
    have hlen := length_getNewBlocksLoop h
    rw [List.length_nil] at hlen
    exact Or.inr (by omega)

/-- New blocks stay within the limit. -/
theorem allocateSlots_le {kv kv' : KVCacheManager} {r r' : Request} {n : ℕ} {computed new : List ℕ}
    (h : kv.allocateSlots p r n computed = .ok (some new, kv', r')) :
    new = [] ∨ new.length + (kv.blocksOf r.requestId ++ computed).length ≤ p.maxNumBlocksPerReq := by
  obtain ⟨-, ⟨-, hnone, -⟩ | ⟨-, -, new', kv₁, hnew, htake, -⟩⟩ := allocateSlots_eq_ok h
  · cases hnone
  · cases hnew
    exact takeNewBlocks_le htake

/-- Hits that are shorter than a request within the limit. -/
theorem length_le_maxNumBlocksPerReq {bs : List ℕ} {n : ℕ} (h : bs.length * p.blockSize ≤ n)
    (hn : n ≤ p.maxModelLen) : bs.length ≤ p.maxNumBlocksPerReq := by
  have hle := le_cdiv_mul p.blockSize_pos p.maxModelLen
  exact Nat.le_of_mul_le_mul_right (by rw [KVCacheParams.maxNumBlocksPerReq]; omega) p.blockSize_pos

end Allocate

/-! ## A scheduling step -/

section Step

variable {p : SchedulerParams} {s s' : Scheduler}

variable (p) in
/-- A request within the length limit has no more blocks than a row of the block table has columns. -/
def Scheduler.Room (s : Scheduler) : Prop :=
  ∀ id r, s.requests.get? id = some r → r.numTokens ≤ p.kv.maxModelLen →
    (s.kv.blocksOf id).length ≤ p.kv.maxNumBlocksPerReq

/-- After an allocation for a request that had room for its blocks and its hits. -/
theorem Scheduler.Room.taken (h : s.Room p) {r r₁ q : Request} {computed new : List ℕ} {n : ℕ}
    (ht : Taken p.kv s.kv r computed n new s'.kv r₁)
    (hle : new = [] ∨
      new.length + (s.kv.blocksOf r.requestId ++ computed).length ≤ p.kv.maxNumBlocksPerReq)
    (hold : q.numTokens ≤ p.kv.maxModelLen →
      (s.kv.blocksOf r.requestId ++ computed).length ≤ p.kv.maxNumBlocksPerReq)
    (hreq : s'.requests = s.requests.set r.requestId q) : s'.Room p := by
  intro id r₂ hr₂ hlen
  rw [hreq, Dict.get?_set] at hr₂
  split_ifs at hr₂ with he
  · cases hr₂
    subst he
    rw [ht.blocksOf.1, List.length_append]
    obtain rfl | hle := hle
    · exact hold hlen
    · omega
  · rw [ht.blocksOf.2 id he]
    exact h id r₂ hr₂ hlen

/-- A lookup gives no blocks. -/
theorem Scheduler.Room.lookup {st st₁ : Scheduling} (h : st.sched.Room p) {id : ReqId}
    {computed : List ℕ} {nc : ℕ} {request : Request}
    (hc : st.cachedPrefix p id = .ok (computed, nc, request, st₁)) : st₁.sched.Room p := by
  obtain ⟨r₀, bs, hr₀, -, rfl, -, -, hs, rfl⟩ := cachedPrefix_eq_ok hc
  intro id' r' hr' hlen
  change (st.sched.requests.set _ _).get? id' = some r' at hr'
  rw [Dict.get?_set] at hr'
  split_ifs at hr' with he
  · cases hr'
    rw [he]
    exact h _ r₀ hr₀ hlen
  · exact h id' r' hr' hlen

/-- **Moves keep room.** -/
theorem Move.room {available : ReqId → ℕ → Bool} {st st' : Scheduling} (hw : st.WF p)
    (hb : BlocksInv p st.sched st.got) (h : st.sched.Room p) (hm : Move p available st st') :
    st'.sched.Room p := by
  cases hm with
  | reserve hid =>
    intro id r hr hlen
    rw [setBlocks_self_blocksOf]
    exact h id r hr hlen
  | @preempt rest id request kv hrun hid hr hfree =>
    obtain ⟨-, -, hnil, hother, -⟩ := free_facts hb.accounted hfree
    rw [hw.sched.requestId id request hr] at hnil hother
    intro id' r' hr' hlen
    change (kv.blocksOf id').length ≤ _
    by_cases he : id' = id
    · subst he
      rw [hnil]
      exact Nat.zero_le _
    · change (st.sched.requests.set id _).get? id' = some r' at hr'
      rw [Dict.get?_set_ne _ he] at hr'
      rw [hother id' he]
      exact h id' r' hr' hlen
  | @grant _ id r r' inputs n eb new kv hid hns hr hpos htry hn halloc hst =>
    obtain ⟨ecm, -, rfl⟩ := scheduleRunning_eq_ok hst
    have hle := tryScheduleEncoderInputs_le (by omega) htry
    obtain ⟨k, hoff⟩ := hb.offered_running hw.sched hid hr (n := n.toNat) (by omega) (by omega)
    have ht := hoff.taken hb.accounted halloc
    obtain rfl := hw.sched.requestId id r hr
    refine Scheduler.Room.taken (s := st.sched) h ht (allocateSlots_le halloc) (fun hlen => ?_) rfl
    rw [List.append_nil]
    exact h _ r hr (ht.numTokens ▸ hlen)
  | lookup hwait hc => exact h.lookup hc
  | @enter st₁ _ id rest computed nc request request' inputs n eb new kv hwait hpre hroom hc hpos
      htry hn halloc hst =>
    have hid := mem_of_eq_cons hwait
    obtain ⟨r, hr, rfl, hres, hinv, hits⟩ := hb.cachedPrefix_ok hw hid hc
    obtain ⟨hw₁, hr₁⟩ := hw.lookup hc
    have h₁ := h.lookup hc
    obtain ⟨r₀, bs, -, -, rfl, -⟩ := cachedPrefix_eq_ok hc
    obtain ⟨-, ecm, -, rfl⟩ := scheduleWaiting_eq_ok hst
    have hle := tryScheduleEncoderInputs_le (by omega) htry
    obtain rfl := hw₁.sched.requestId id request hr₁
    have hnr : request.requestId ∉ st.sched.running := fun hm => hw.sched.not_mem_waiting hm hid
    have h0 := (hw₁.sched.waiting _ request hid hr₁).2
    have hidle := hinv.idle _ hnr
    have hoff := hits.offered (hinv.chain _ request hr₁) hidle h0 (n := n.toNat) (by omega) (by omega)
    have ht := hoff.taken hinv.accounted halloc
    refine Scheduler.Room.taken h₁ (q := { request' with
      status := .running, numComputedTokens := computed.length * p.kv.blockSize }) ht
      (allocateSlots_le halloc) (fun hlen => ?_) ?_
    · rw [hidle, List.nil_append]
      refine length_le_maxNumBlocksPerReq (Nat.le_of_lt hits.short) ?_
      rw [← ht.numTokens]
      exact hlen
    · simp only [Scheduling.admitted, Scheduling.log, Scheduling.put, Dict.set_set]

/-- **A scheduling step keeps room.** -/
theorem Scheduler.Room.schedule (h : s.Room p) (hsound : s.Sound p) {available : ReqId → ℕ → Bool}
    {out : SchedulerOutput} (hs : s.schedule p available = .ok (out, s')) : s'.Room p := by
  obtain ⟨_, st, _, _, _, -, -, hm, -, rfl, -⟩ := schedule_eq_ok hsound.wf hs
  refine (hm.invariant (P := fun st => st.WF p ∧ BlocksInv p st.sched st.got ∧ st.sched.Room p) ?_
    ⟨Scheduling.WF.start hsound.wf, hsound.blocks, h⟩).2.2
  rintro st₁ st₂ ⟨hw₁, hb₁, h₁⟩ hm₁
  exact ⟨hm₁.wf hw₁, (hm₁.blocksInv hw₁ hb₁).1, hm₁.room hw₁ hb₁ h₁⟩

/-- The other calls give no blocks, and no request gets shorter. -/
theorem Scheduler.Room.onward (h : s.Room p) {got : ReqId → ℕ} (hb : BlocksInv p s' got)
    (hkeep : Scheduler.KeepsBlocks s s')
    (hreq : ∀ id r', s'.requests.get? id = some r' →
      ∃ r, s.requests.get? id = some r ∧ r.numTokens ≤ r'.numTokens) : s'.Room p := by
  intro id r' hr' hlen
  by_cases hrun : id ∈ s'.running
  · obtain ⟨r, hr, hle⟩ := hreq id r' hr'
    rw [hkeep id hrun]
    exact h id r hr (Nat.le_trans hle hlen)
  · rw [hb.idle id hrun]
    exact Nat.zero_le _

end Step

/-! ## Runs -/

variable {p : SchedulerParams}

theorem Later.numTokens_le {r r' : Request} (h : Later p r r') : r.numTokens ≤ r'.numTokens := by
  have hprompt : r'.promptTokenIds = r.promptTokenIds := by rw [h.eq]
  simp only [Request.numTokens, Request.allTokenIds, hprompt, List.length_append]
  exact Nat.add_le_add_left h.output.length_le _

variable (p) in
/-- Only a prompt reaches the length limit: a request that reaches it by a token has stopped. -/
def Scheduler.Capped (s : Scheduler) : Prop :=
  ∀ id r, s.requests.get? id = some r →
    r.numTokens = r.promptTokenIds.length ∨ r.numTokens < p.kv.maxModelLen

namespace SchedulerRun

variable {σ σ' : SchedulerRun} {e : SchedulerEvent}

theorem FreshRun.sound (h : FreshRun p σ) : σ.sched.Sound p :=
  ⟨h.blocksInv.1, h.blocksInv.2.mono fun _ _ => Nat.zero_le _⟩

/-- **Every call keeps room.** -/
theorem room_step (hw : σ.sched.WF p) (hb : BlocksInv p σ.sched σ.got) (h : σ.sched.Room p)
    (hf : σ.Fresh e) (hstep : step p σ e = .ok σ') : σ'.sched.Room p := by
  have hsound : σ.sched.Sound p := ⟨hw, hb.mono fun _ _ => Nat.zero_le _⟩
  have hb' := blocksInv_step hw hb hf hstep
  have hkeep : σ.sched.KeepsBlocks σ'.sched → (∀ r, e ≠ .addRequest r) → σ'.sched.Room p :=
    fun hkeep hne => h.onward hb' hkeep fun id r' hr' => by
      obtain ⟨r, hr, hlater⟩ | he := step_later hw hb hstep hr'
      · exact ⟨r, hr, hlater.numTokens_le⟩
      · exact absurd he (hne r')
  obtain ⟨r, rfl, -, hs⟩ | ⟨ids, status, rfl, -, hs⟩ | ⟨available, out, rfl, -, hs⟩ |
    ⟨mo, rfl, hs⟩ | ⟨rfl, -, hs⟩ := step_cases hstep
  · rw [hs]
    intro id r' hr' hlen
    obtain ⟨rfl, -⟩ | ⟨-, hr'⟩ := Scheduler.addRequest_get? hr'
    · have hidle := hb.idle r.requestId fun hrun => hf.2 ((hw.known _).mpr (Or.inl hrun))
      change (σ.sched.kv.blocksOf r.requestId).length ≤ _
      rw [hidle]
      exact Nat.zero_le _
    · exact h id r' hr' hlen
  · exact hkeep (Scheduler.finishRequests_keepsBlocks hsound hs) fun _ => SchedulerEvent.noConfusion
  · exact h.schedule hsound hs
  · obtain rfl | ⟨out, outputs, hp, -, hs⟩ := hs
    · exact h
    · rw [got_of_some hp] at hb
      exact hkeep (Scheduler.updateFromOutput_keepsBlocks hw hb hs) fun _ => SchedulerEvent.noConfusion
  · refine hkeep ?_ fun _ => SchedulerEvent.noConfusion
    rw [hs]
    exact Scheduler.resetPrefixCache_keepsBlocks p σ.sched

theorem capped_step (hw : σ.sched.WF p) (hb : BlocksInv p σ.sched σ.got) (h : σ.sched.Capped p)
    (hf : σ.Fresh e) (hs : step p σ e = .ok σ') : σ'.sched.Capped p := by
  intro id r' hr'
  obtain ⟨r, hr, hlater⟩ | rfl := step_later hw hb hs hr'
  · obtain hlen | hlen := hlater.len
    · have hprompt : r'.promptTokenIds = r.promptTokenIds := by rw [hlater.eq]
      rw [hlen, hprompt]
      exact h id r hr
    · exact Or.inr hlen
  · have hnew : r'.outputTokenIds = [] := hf.1.2.2.1
    left
    rw [Request.numTokens, Request.allTokenIds, hnew, List.append_nil]

/-- **In every run** requests within the length limit fit the block table, and only a prompt reaches the
limit. -/
theorem FreshRun.room_capped (h : FreshRun p σ) : σ.sched.Room p ∧ σ.sched.Capped p := by
  refine (h.invariant (P := fun σ => (σ.sched.WF p ∧ BlocksInv p σ.sched σ.got) ∧ σ.sched.Room p ∧
    σ.sched.Capped p) ⟨⟨wf_init p, BlocksInv.init p⟩, ?_, ?_⟩ ?_).2
  · intro id r hr
    cases hr
  · intro id r hr
    cases hr
  · rintro σ e σ' ⟨⟨hw, hb⟩, hroom, hcap⟩ hf hs
    exact ⟨⟨wf_step hw hf hs, blocksInv_step hw hb hf hs⟩, room_step hw hb hroom hf hs,
      capped_step hw hb hcap hf hs⟩

end SchedulerRun

end SpaceServe
