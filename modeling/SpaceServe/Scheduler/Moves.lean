import Mathlib.Logic.Relation
import SpaceServe.KVCache.Allocate
import SpaceServe.Scheduler.Model

/-!
# The moves of a scheduling step

A call of `schedule` is a sequence of moves on its local state: the last running request is
preempted, a running request is granted tokens, the cached prefix of a waiting request is looked
up, a waiting request is admitted, or an empty block list is created. `Move` says what each of them
requires and does; what is preserved by every move is preserved by `schedule`.

* `WF`, `Scheduling.WF`: the queues, the requests and the local lists agree;
* `Move`, `Moves`, `Moves.invariant`;
* `granted`, `admitted`: the local state after tokens were granted;
* **`Move.wf`**: moves keep the agreement.
-/

set_option autoImplicit false

namespace SpaceServe

open Py

/-! ## Agreement of the queues and the requests -/

/-- The queues and the requests of a scheduler agree. -/
structure Scheduler.WF (p : SchedulerParams) (s : Scheduler) : Prop where
  requestId : ∀ id r, s.requests.get? id = some r → r.requestId = id
  known : ∀ id, id ∈ s.requests.keys ↔ id ∈ s.running ∨ id ∈ s.waiting
  nodup : (s.running ++ s.waiting).Nodup
  running : ∀ id r, id ∈ s.running → s.requests.get? id = some r → r.status = .running
  waiting : ∀ id r, id ∈ s.waiting → s.requests.get? id = some r →
    (r.status = .waiting ∨ r.status = .preempted) ∧ r.numComputedTokens = 0
  running_le : s.running.length ≤ p.maxNumRunningReqs

/-- The local lists of `schedule` agree with the queues. -/
structure Scheduling.WF (p : SchedulerParams) (st : Scheduling) : Prop where
  sched : st.sched.WF p
  scheduled : ∀ id ∈ st.numScheduledTokens.keys, id ∈ st.sched.running
  preempted : ∀ id ∈ st.preemptedReqs, id ∈ st.sched.waiting
  lists : (st.scheduledNewReqs ++ st.scheduledResumedReqs ++ st.scheduledRunningReqs).Perm
    st.numScheduledTokens.keys
  newBlockIds : st.reqToNewBlockIds.keys = st.numScheduledTokens.keys
  budget : st.tokenBudget + st.totalTokens = p.maxNumScheduledTokens
  budget_nonneg : 0 ≤ st.tokenBudget

namespace Scheduler.WF

variable {p : SchedulerParams} {s : Scheduler}

theorem get?_of_running (h : s.WF p) {id : ReqId} (hid : id ∈ s.running) :
    ∃ r, s.requests.get? id = some r :=
  Dict.exists_get?_of_mem ((h.known id).mpr (Or.inl hid))

theorem get?_of_waiting (h : s.WF p) {id : ReqId} (hid : id ∈ s.waiting) :
    ∃ r, s.requests.get? id = some r :=
  Dict.exists_get?_of_mem ((h.known id).mpr (Or.inr hid))

theorem not_mem_waiting (h : s.WF p) {id : ReqId} (hid : id ∈ s.running) : id ∉ s.waiting :=
  fun hw => (List.nodup_append.mp h.nodup).2.2 id hid id hw rfl

theorem running_nodup (h : s.WF p) : s.running.Nodup := (List.nodup_append.mp h.nodup).1

theorem waiting_nodup (h : s.WF p) : s.waiting.Nodup := (List.nodup_append.mp h.nodup).2.1

/-- What is left of `running` without the last request. -/
theorem mem_dropLast (h : s.WF p) {rest : List ReqId} {id : ReqId} (hrun : s.running = rest ++ [id])
    (id' : ReqId) : id' ∈ s.running.dropLast ↔ id' ≠ id ∧ id' ∈ s.running := by
  have hnd := h.running_nodup
  rw [hrun] at hnd ⊢
  rw [List.dropLast_concat, List.mem_append, List.mem_singleton]
  have hne : id ∉ rest := fun hm => (List.nodup_append.mp hnd).2.2 id hm id (by simp) rfl
  constructor
  · intro hm
    exact ⟨by rintro rfl; exact hne hm, Or.inl hm⟩
  · rintro ⟨h1, h2 | h2⟩
    · exact h2
    · exact absurd h2 h1

/-- Only the block hashes of a request change. -/
theorem set_hashes (h : s.WF p) {id : ReqId} {r : Request} (hr : s.requests.get? id = some r)
    (hs : List BlockHashType) (kv : KVCacheManager) (m : EncoderCacheManager)
    (events : List BlockEvent) :
    Scheduler.WF p { s with
      kv := kv
      encoderCacheManager := m
      history := events
      requests := s.requests.set id (r.setKvBlockHashes hs) } where
  requestId id' r' hg := by
    rw [Dict.get?_set] at hg
    split_ifs at hg with he
    · cases hg; rw [he]; exact h.requestId id r hr
    · exact h.requestId id' r' hg
  known id' := by
    rw [Dict.mem_keys_set, ← h.known id']
    exact ⟨fun hk => hk.elim (fun e => e ▸ Dict.mem_keys_of_get? hr) fun h' => h', Or.inr⟩
  nodup := h.nodup
  running id' r' hid hg := by
    rw [Dict.get?_set] at hg
    split_ifs at hg with he
    · cases hg; subst he; exact h.running id' r hid hr
    · exact h.running id' r' hid hg
  waiting id' r' hid hg := by
    rw [Dict.get?_set] at hg
    split_ifs at hg with he
    · cases hg; subst he; exact h.waiting id' r hid hr
    · exact h.waiting id' r' hid hg
  running_le := h.running_le

end Scheduler.WF

/-! ## Moves -/

section Moves

variable (p : SchedulerParams) (available : ReqId → ℕ → Bool)

/-- What can happen inside `schedule`. -/
inductive Move : Scheduling → Scheduling → Prop
  /-- Reading the block list of a request creates it. -/
  | reserve {st : Scheduling} {id : ReqId} : id ∈ st.sched.requests.keys →
      Move st { st with sched := { st.sched with
        kv := st.sched.kv.setBlocks id (st.sched.kv.blocksOf id) } }
  | preempt {st : Scheduling} {rest : List ReqId} {id : ReqId} {request : Request}
      {kv : KVCacheManager} : st.sched.running = rest ++ [id] →
      id ∉ st.numScheduledTokens.keys → st.sched.requests.get? id = some request →
      st.sched.kv.free p.kv request = .ok kv → Move st (st.preempt id request kv)
  | grant {st st' : Scheduling} {id : ReqId} {request request' : Request} {inputs : List ℕ}
      {n eb : ℤ} {new : List ℕ} {kv : KVCacheManager} : id ∈ st.sched.running →
      id ∉ st.numScheduledTokens.keys → st.sched.requests.get? id = some request →
      0 < min ((request.numTokens : ℤ) - request.numComputedTokens) st.tokenBudget →
      st.sched.tryScheduleEncoderInputs available request request.numComputedTokens
        (min ((request.numTokens : ℤ) - request.numComputedTokens) st.tokenBudget)
        st.encoderBudget = .ok (inputs, n, eb) → n ≠ 0 →
      st.sched.kv.allocateSlots p.kv request n.toNat [] = .ok (some new, kv, request') →
      (st.put kv id request').scheduleRunning id new n.toNat inputs eb = .ok st' → Move st st'
  | lookup {st st₁ : Scheduling} {id : ReqId} {rest : List ReqId} {computed : List ℕ} {nc : ℕ}
      {request : Request} : st.sched.waiting = id :: rest →
      st.cachedPrefix p id = .ok (computed, nc, request, st₁) → Move st st₁
  | enter {st st₁ st' : Scheduling} {id : ReqId} {rest : List ReqId} {computed : List ℕ} {nc : ℕ}
      {request request' : Request} {inputs : List ℕ} {n eb : ℤ} {new : List ℕ}
      {kv : KVCacheManager} : st.sched.waiting = id :: rest → st.preemptedReqs = [] →
      st.sched.running.length ≠ p.maxNumRunningReqs →
      st.cachedPrefix p id = .ok (computed, nc, request, st₁) →
      0 < min ((request.numTokens : ℤ) - nc) st₁.tokenBudget →
      st₁.sched.tryScheduleEncoderInputs available request nc
        (min ((request.numTokens : ℤ) - nc) st₁.tokenBudget) st₁.encoderBudget =
          .ok (inputs, n, eb) → n ≠ 0 →
      st₁.sched.kv.allocateSlots p.kv request n.toNat computed = .ok (some new, kv, request') →
      (st₁.put kv id request').scheduleWaiting id request' computed new nc n.toNat inputs eb = .ok st' →
      Move st st'

/-- A sequence of moves. -/
def Moves : Scheduling → Scheduling → Prop := Relation.ReflTransGen (Move p available)

variable {p available}

/-- **Move rule.** What every move keeps is kept by a sequence of moves. -/
theorem Moves.invariant {P : Scheduling → Prop} (hstep : ∀ st st', P st → Move p available st st' →
    P st') {st st' : Scheduling} (h : Moves p available st st') (hst : P st) : P st' := by
  induction h with
  | refl => exact hst
  | tail _ hm ih => exact hstep _ _ ih hm

end Moves

/-! ## How the parts of a move have run -/

section Inversion

variable {p : SchedulerParams} {available : ReqId → ℕ → Bool}

/-- One round of the loop over the encoder inputs: the window ends before the input, the input is
not needed or there already, the window is cut before it, or it is scheduled. -/
theorem encoderLoop_cons {s : Scheduler} {request : Request} {nc : ℕ} {pos : PlaceholderRange}
    {rest : List PlaceholderRange} {i : ℕ} {inputs inputs' : List ℕ} {n eb n' eb' : ℤ}
    (h : s.encoderLoop available request nc (pos :: rest) i inputs n eb = .ok (inputs', n', eb')) :
    ((nc : ℤ) + n ≤ pos.offset ∧ n' = n ∧ inputs' = inputs) ∨
    ((pos.offset + pos.length ≤ nc ∨
        s.encoderCacheManager.hasCache request.requestId i = true) ∧
      s.encoderLoop available request nc rest (i + 1) inputs n eb = .ok (inputs', n', eb')) ∨
    (¬ (nc : ℤ) + n ≤ pos.offset ∧ inputs' = inputs ∧ n' = Scheduler.tokensBefore pos nc ∧
      (s.encoderCacheManager.canAllocate request i = .ok false ∨ eb < pos.length ∨
        available request.requestId i = false) ∧ ¬ pos.offset + pos.length ≤ nc ∧
      s.encoderCacheManager.hasCache request.requestId i = false) ∨
    (¬ (nc : ℤ) + n ≤ pos.offset ∧ ¬ pos.offset + pos.length ≤ nc ∧
      s.encoderCacheManager.hasCache request.requestId i = false ∧
      s.encoderCacheManager.canAllocate request i = .ok true ∧ (pos.length : ℤ) ≤ eb ∧
      available request.requestId i = true ∧
      s.encoderLoop available request nc rest (i + 1) (inputs ++ [i]) n (eb - pos.length) =
        .ok (inputs', n', eb')) := by
  rw [Scheduler.encoderLoop] at h
  by_cases h1 : (nc : ℤ) + n ≤ pos.offset
  · rw [if_pos h1] at h
    cases h
    exact Or.inl ⟨h1, rfl, rfl⟩
  by_cases h2 : pos.offset + pos.length ≤ nc
  · rw [if_neg h1, if_pos h2] at h
    exact Or.inr (Or.inl ⟨Or.inl h2, h⟩)
  by_cases h3 : s.encoderCacheManager.hasCache request.requestId i = true
  · rw [if_neg h1, if_neg h2, if_pos h3] at h
    exact Or.inr (Or.inl ⟨Or.inr h3, h⟩)
  rw [if_neg h1, if_neg h2, if_neg h3, bind_eq_ok] at h
  obtain ⟨can, hcan, h⟩ := h
  by_cases h4 : can = false ∨ eb < pos.length
  · rw [if_pos h4] at h
    cases h
    refine Or.inr (Or.inr (Or.inl ⟨h1, rfl, rfl, ?_, h2, by simpa using h3⟩))
    obtain rfl | h4 := h4
    · exact Or.inl hcan
    · exact Or.inr (Or.inl h4)
  by_cases h5 : available request.requestId i = false
  · rw [if_neg h4, if_pos h5] at h
    cases h
    exact Or.inr (Or.inr (Or.inl ⟨h1, rfl, rfl, Or.inr (Or.inr h5), h2, by simpa using h3⟩))
  · rw [if_neg h4, if_neg h5] at h
    rw [not_or, Bool.not_eq_false] at h4
    exact Or.inr (Or.inr (Or.inr ⟨h1, h2, by simpa using h3, h4.1 ▸ hcan, by omega,
      by simpa using h5, h⟩))

/-- The number of tokens is only lowered, to a number that is not negative. -/
theorem encoderLoop_le {s : Scheduler} {request : Request} {nc : ℕ} :
    ∀ {poss : List PlaceholderRange} {i : ℕ} {inputs inputs' : List ℕ} {n eb n' eb' : ℤ}, 0 ≤ n →
      s.encoderLoop available request nc poss i inputs n eb = .ok (inputs', n', eb') →
      0 ≤ n' ∧ n' ≤ n
  | [], _, _, _, _, _, _, _, hn, h => by cases h; exact ⟨hn, Int.le_refl _⟩
  | pos :: rest, i, inputs, inputs', n, eb, n', eb', hn, h => by
    have hcut : ¬ (nc : ℤ) + n ≤ pos.offset → 0 ≤ Scheduler.tokensBefore pos nc ∧
        Scheduler.tokensBefore pos nc ≤ n := by
      intro h1
      unfold Scheduler.tokensBefore
      split_ifs <;> omega
    obtain ⟨-, rfl, -⟩ | ⟨-, h⟩ | ⟨h1, -, rfl, -⟩ | ⟨-, -, -, -, -, -, h⟩ :=
      encoderLoop_cons h
    · exact ⟨hn, Int.le_refl _⟩
    · exact encoderLoop_le hn h
    · exact hcut h1
    · exact encoderLoop_le hn h

theorem tryScheduleEncoderInputs_le {s : Scheduler} {request : Request} {nc : ℕ}
    {inputs : List ℕ} {n eb n' eb' : ℤ} (hn : 0 ≤ n)
    (h : s.tryScheduleEncoderInputs available request nc n eb = .ok (inputs, n', eb')) :
    0 ≤ n' ∧ n' ≤ n := by
  unfold Scheduler.tryScheduleEncoderInputs at h
  split_ifs at h with h1
  · cases h; exact ⟨hn, Int.le_refl _⟩
  · rw [bind_eq_ok] at h
    obtain ⟨_, _, h⟩ := h
    exact encoderLoop_le hn h

theorem record_eq_ok {st st' : Scheduling} {request : Request} {ids : List ℕ} {n : ℕ}
    {inputs : List ℕ} {eb : ℤ} (h : st.record request ids n inputs eb = .ok st') :
    ∃ ecm, inputs.foldlM (fun m i => m.allocate request i) st.sched.encoderCacheManager = .ok ecm ∧
      st' = { st with
        sched := { st.sched with encoderCacheManager := ecm }
        reqToNewBlockIds := st.reqToNewBlockIds.set request.requestId ids
        numScheduledTokens := st.numScheduledTokens.set request.requestId n
        tokenBudget := st.tokenBudget - n
        scheduledEncoderInputs := if inputs = [] then st.scheduledEncoderInputs
          else st.scheduledEncoderInputs.set request.requestId inputs
        encoderBudget := if inputs = [] then st.encoderBudget else eb } := by
  unfold Scheduling.record at h
  rw [bind_eq_ok] at h
  obtain ⟨ecm, h1, h2⟩ := h
  cases h2
  exact ⟨ecm, h1, rfl⟩

theorem request_eq_ok {s : Scheduler} {id : ReqId} {r : Request} :
    s.request id = .ok r ↔ s.requests.get? id = some r := ofOption_eq_ok

/-- What `get_computed_blocks` returns decides what a waiting request has computed. -/
theorem Scheduling.cachedPrefix_eq {st : Scheduling} {id : ReqId} {r request : Request} {bs : List ℕ}
    (hr : st.sched.requests.get? id = some r) (hg : st.sched.kv.getComputedBlocks p.kv r =
      .ok (bs, bs.length * p.kv.blockSize, request)) : st.cachedPrefix p id =
    if request.numTokens = bs.length * p.kv.blockSize then
      if bs = [] then .error (.indexError "pop from empty list")
      else .ok (bs.dropLast, bs.dropLast.length * p.kv.blockSize, request,
        (st.put st.sched.kv id request).log [.computed request.allTokenIds bs])
    else .ok (bs, bs.length * p.kv.blockSize, request,
      (st.put st.sched.kv id request).log [.computed request.allTokenIds bs]) := by
  rw [Scheduling.cachedPrefix, request_eq_ok.mpr hr, ok_bind, hg, ok_bind, List.length_dropLast,
    Nat.sub_mul, Nat.one_mul]

theorem cachedPrefix_eq_ok {st st₁ : Scheduling} {id : ReqId} {computed : List ℕ} {nc : ℕ}
    {request : Request} (h : st.cachedPrefix p id = .ok (computed, nc, request, st₁)) :
    ∃ request₀ bs, st.sched.requests.get? id = some request₀ ∧
      st.sched.kv.getComputedBlocks p.kv request₀ =
        .ok (bs, bs.length * p.kv.blockSize, request) ∧
      st₁ = (st.put st.sched.kv id request).log [.computed request.allTokenIds bs] ∧
      ((request.numTokens ≠ bs.length * p.kv.blockSize ∧ computed = bs) ∨
        (request.numTokens = bs.length * p.kv.blockSize ∧ bs ≠ [] ∧ computed = bs.dropLast)) ∧
      nc = computed.length * p.kv.blockSize ∧
      ∃ hs, request = request₀.setKvBlockHashes hs := by
  obtain ⟨request₀, hreq, h'⟩ := bind_eq_ok.mp h
  obtain ⟨⟨bs, m, r⟩, hg, -⟩ := bind_eq_ok.mp h'
  obtain ⟨rfl, hhs, -⟩ := KVCacheManager.getComputedBlocks_eq_ok hg
  rw [request_eq_ok] at hreq
  rw [Scheduling.cachedPrefix_eq hreq hg] at h
  split_ifs at h with hfull hbs
  · cases h
    exact ⟨request₀, bs, hreq, hg, rfl, Or.inr ⟨hfull, hbs, rfl⟩, rfl, hhs⟩
  · cases h
    exact ⟨request₀, computed, hreq, hg, rfl, Or.inl ⟨hfull, rfl⟩, rfl, hhs⟩

theorem cachedPrefix_waiting {st st₁ : Scheduling} {id : ReqId} {computed : List ℕ} {nc : ℕ}
    {request : Request} (h : st.cachedPrefix p id = .ok (computed, nc, request, st₁)) :
    st₁.sched.waiting = st.sched.waiting := by
  obtain ⟨_, _, -, -, rfl, -⟩ := cachedPrefix_eq_ok h
  rfl

theorem cachedPrefix_running {st st₁ : Scheduling} {id : ReqId} {computed : List ℕ} {nc : ℕ}
    {request : Request} (h : st.cachedPrefix p id = .ok (computed, nc, request, st₁)) :
    st₁.sched.running = st.sched.running := by
  obtain ⟨_, _, -, -, rfl, -⟩ := cachedPrefix_eq_ok h
  rfl

/-- The local state after a running request was granted `n` tokens. -/
def Scheduling.granted (st : Scheduling) (id : ReqId) (request : Request) (kv : KVCacheManager)
    (ecm : EncoderCacheManager) (new : List ℕ) (n : ℕ) (inputs : List ℕ) (eb : ℤ) : Scheduling where
  sched := { st.sched with
    kv := kv
    requests := st.sched.requests.set id request
    encoderCacheManager := ecm
    history := st.sched.history ++ [.taken new, .scheduled id request.allTokenIds (kv.blocksOf id)
      request.numComputedTokens n] }
  scheduledNewReqs := st.scheduledNewReqs
  scheduledResumedReqs := st.scheduledResumedReqs
  scheduledRunningReqs := st.scheduledRunningReqs ++ [id]
  preemptedReqs := st.preemptedReqs
  reqToNewBlockIds := st.reqToNewBlockIds.set request.requestId new
  numScheduledTokens := st.numScheduledTokens.set request.requestId n
  tokenBudget := st.tokenBudget - n
  scheduledEncoderInputs := if inputs = [] then st.scheduledEncoderInputs
    else st.scheduledEncoderInputs.set request.requestId inputs
  encoderBudget := if inputs = [] then st.encoderBudget else eb

theorem scheduleRunning_eq_ok {st st' : Scheduling} {id : ReqId} {request : Request}
    {kv : KVCacheManager} {new : List ℕ} {n : ℕ} {inputs : List ℕ} {eb : ℤ}
    (h : (st.put kv id request).scheduleRunning id new n inputs eb = .ok st') :
    ∃ ecm, inputs.foldlM (fun m i => m.allocate request i) st.sched.encoderCacheManager = .ok ecm ∧
      st' = st.granted id request kv ecm new n inputs eb := by
  unfold Scheduling.scheduleRunning at h
  rw [bind_eq_ok] at h
  obtain ⟨r, hr, h⟩ := h
  have hr' : (st.sched.requests.set id request).get? id = some r := request_eq_ok.mp hr
  rw [Dict.get?_set_self] at hr'
  cases hr'
  obtain ⟨ecm, hf, rfl⟩ := record_eq_ok h
  exact ⟨ecm, hf, rfl⟩

/-- The local state after a waiting request was admitted with `n` tokens. -/
def Scheduling.admitted (st : Scheduling) (id : ReqId) (request : Request) (kv : KVCacheManager)
    (ecm : EncoderCacheManager) (computed new : List ℕ) (nc n : ℕ) (inputs : List ℕ) (eb : ℤ) :
    Scheduling where
  sched := { st.sched with
    kv := kv
    requests := st.sched.requests.set id
      { request with status := .running, numComputedTokens := nc }
    waiting := st.sched.waiting.tail
    running := st.sched.running ++ [id]
    encoderCacheManager := ecm
    history := st.sched.history ++ [.taken new, .scheduled id request.allTokenIds (kv.blocksOf id)
      nc n] }
  scheduledNewReqs := if request.status = .waiting then st.scheduledNewReqs ++ [id]
    else st.scheduledNewReqs
  scheduledResumedReqs := if request.status = .waiting then st.scheduledResumedReqs
    else st.scheduledResumedReqs ++ [id]
  scheduledRunningReqs := st.scheduledRunningReqs
  preemptedReqs := st.preemptedReqs
  reqToNewBlockIds := st.reqToNewBlockIds.set request.requestId (computed ++ new)
  numScheduledTokens := st.numScheduledTokens.set request.requestId n
  tokenBudget := st.tokenBudget - n
  scheduledEncoderInputs := if inputs = [] then st.scheduledEncoderInputs
    else st.scheduledEncoderInputs.set request.requestId inputs
  encoderBudget := if inputs = [] then st.encoderBudget else eb

theorem scheduleWaiting_eq_ok {st st' : Scheduling} {id : ReqId} {request : Request} {kv : KVCacheManager}
    {computed new : List ℕ} {nc n : ℕ} {inputs : List ℕ} {eb : ℤ}
    (h : (st.put kv id request).scheduleWaiting id request computed new nc n inputs eb = .ok st') :
    (request.status = .waiting ∨ request.status = .preempted) ∧
    ∃ ecm, inputs.foldlM (fun m i => m.allocate
        { request with status := .running, numComputedTokens := nc } i)
        st.sched.encoderCacheManager = .ok ecm ∧
      st' = st.admitted id request kv ecm computed new nc n inputs eb := by
  unfold Scheduling.scheduleWaiting at h
  rw [bind_eq_ok] at h
  obtain ⟨st₁, h1, h⟩ := h
  obtain ⟨ecm, hf, rfl⟩ := record_eq_ok h
  cases hstat : request.status <;> rw [hstat] at h1 <;> cases h1
  · refine ⟨Or.inl rfl, ecm, hf, ?_⟩
    simp [Scheduling.admitted, Scheduling.put, Scheduling.log, hstat]
    rfl
  · refine ⟨Or.inr rfl, ecm, hf, ?_⟩
    simp [Scheduling.admitted, Scheduling.put, Scheduling.log, hstat]
    rfl

end Inversion

/-! ## Moves keep the agreement -/

section WF

variable {p : SchedulerParams} {available : ReqId → ℕ → Bool}

theorem Scheduling.WF.preempt {st : Scheduling} (h : st.WF p) {rest : List ReqId} {id : ReqId}
    {request : Request} {kv : KVCacheManager} (hrun : st.sched.running = rest ++ [id])
    (hid : id ∉ st.numScheduledTokens.keys) (hreq : st.sched.requests.get? id = some request) :
    (st.preempt id request kv).WF p := by
  have hw := h.sched
  have hidr : id ∈ st.sched.running := by rw [hrun]; simp
  have hrest : st.sched.running.dropLast = rest := by rw [hrun]; simp
  have hmem : ∀ id', id' ∈ rest ∨ id' = id ↔ id' ∈ st.sched.running := by
    intro id'; rw [hrun]; simp
  have hnd := hw.nodup
  rw [hrun] at hnd
  have hidrest : id ∉ rest := by
    intro hm
    rw [List.append_assoc] at hnd
    exact (List.nodup_append.mp hnd).2.2 id hm id (by simp) rfl
  refine ⟨⟨?_, ?_, ?_, ?_, ?_, ?_⟩, ?_, ?_, h.lists, h.newBlockIds, h.budget, h.budget_nonneg⟩
  · intro id' r' hg
    change (st.sched.requests.set id _).get? id' = some r' at hg
    rw [Dict.get?_set] at hg
    split_ifs at hg with he
    · cases hg; rw [he]; exact hw.requestId id request hreq
    · exact hw.requestId id' r' hg
  · intro id'
    change id' ∈ (st.sched.requests.set id _).keys ↔
      id' ∈ st.sched.running.dropLast ∨ id' ∈ id :: st.sched.waiting
    rw [Dict.mem_keys_set, hw.known, hrest, ← hmem, List.mem_cons]
    tauto
  · change (st.sched.running.dropLast ++ id :: st.sched.waiting).Nodup
    rw [hrest]
    rw [List.append_assoc, List.singleton_append] at hnd
    exact hnd
  · intro id' r' hid' hg
    change id' ∈ st.sched.running.dropLast at hid'
    rw [hrest] at hid'
    change (st.sched.requests.set id _).get? id' = some r' at hg
    rw [Dict.get?_set_ne _ (by rintro rfl; exact hidrest hid')] at hg
    exact hw.running id' r' ((hmem id').mp (Or.inl hid')) hg
  · intro id' r' hid' hg
    change (st.sched.requests.set id _).get? id' = some r' at hg
    rw [Dict.get?_set] at hg
    split_ifs at hg with he
    · cases hg
      exact ⟨Or.inr rfl, rfl⟩
    · exact hw.waiting id' r' ((List.mem_cons.mp hid').resolve_left he) hg
  · change st.sched.running.dropLast.length ≤ _
    have := hw.running_le
    rw [List.length_dropLast]
    omega
  · intro id' hid'
    change id' ∈ st.sched.running.dropLast
    rw [hrest]
    exact ((hmem id').mpr (h.scheduled id' hid')).resolve_right fun e => hid (e ▸ hid')
  · intro id' hid'
    change id' ∈ id :: st.sched.waiting
    obtain hm | hm := List.mem_append.mp hid'
    · exact List.mem_cons_of_mem _ (h.preempted id' hm)
    · rw [List.mem_singleton.mp hm]
      exact List.mem_cons_self

/-- The dictionaries after one more request was scheduled. -/
theorem Scheduling.WF.set_keys {st : Scheduling} (h : st.WF p) {id : ReqId}
    (hid : id ∉ st.numScheduledTokens.keys) (n : ℕ) (m : List ℕ) :
    (st.numScheduledTokens.set id n).keys = st.numScheduledTokens.keys ++ [id] ∧
      (st.reqToNewBlockIds.set id m).keys = st.numScheduledTokens.keys ++ [id] ∧
      (st.numScheduledTokens.set id n).total (fun k => k) = st.totalTokens + n := by
  refine ⟨?_, ?_, ?_⟩
  · rw [Dict.keys_set, if_neg hid]
  · rw [Dict.keys_set, h.newBlockIds, if_neg hid]
  · have := Dict.total_set (fun k => k) st.numScheduledTokens id n
    rw [(st.numScheduledTokens.get?_eq_none id).mpr hid] at this
    exact this

theorem Scheduling.WF.granted {st : Scheduling} (h : st.WF p) {id : ReqId} {request : Request}
    (hid : id ∈ st.sched.running) (hns : id ∉ st.numScheduledTokens.keys)
    (hreq : st.sched.requests.get? id = some request) (hs : List BlockHashType)
    (kv : KVCacheManager) (ecm : EncoderCacheManager) (new : List ℕ) {n : ℕ}
    (hn : (n : ℤ) ≤ st.tokenBudget) (inputs : List ℕ) (eb : ℤ) :
    (st.granted id (request.setKvBlockHashes hs) kv ecm new n inputs eb).WF p := by
  have hrid := h.sched.requestId id request hreq
  obtain ⟨hk, hk', ht⟩ := h.set_keys hns n new
  refine ⟨h.sched.set_hashes hreq hs kv ecm _, ?_, h.preempted, ?_, ?_, ?_, ?_⟩
  · intro id' hid'
    change id' ∈ (st.numScheduledTokens.set request.requestId n).keys at hid'
    rw [hrid, hk, List.mem_append, List.mem_singleton] at hid'
    exact hid'.elim (h.scheduled id') fun e => e ▸ hid
  · change (st.scheduledNewReqs ++ st.scheduledResumedReqs ++
      (st.scheduledRunningReqs ++ [id])).Perm (st.numScheduledTokens.set request.requestId n).keys
    rw [hrid, hk, ← List.append_assoc]
    exact h.lists.append_right [id]
  · change (st.reqToNewBlockIds.set request.requestId new).keys =
      (st.numScheduledTokens.set request.requestId n).keys
    rw [hrid, hk, hk']
  · change st.tokenBudget - n + ((st.numScheduledTokens.set request.requestId n).total
      (fun k => k) : ℕ) = _
    have := h.budget
    rw [hrid, ht]
    omega
  · change 0 ≤ st.tokenBudget - n
    omega

theorem Scheduling.WF.admitted {st : Scheduling} (h : st.WF p) {id : ReqId} {rest : List ReqId}
    {request : Request} (hw : st.sched.waiting = id :: rest)
    (hroom : st.sched.running.length ≠ p.maxNumRunningReqs) (hpre : st.preemptedReqs = [])
    (hreq : st.sched.requests.get? id = some request) (hs : List BlockHashType)
    (kv : KVCacheManager) (ecm : EncoderCacheManager) (computed new : List ℕ) (nc : ℕ) {n : ℕ}
    (hn : (n : ℤ) ≤ st.tokenBudget) (inputs : List ℕ) (eb : ℤ) :
    (st.admitted id (request.setKvBlockHashes hs) kv ecm computed new nc n inputs eb).WF
      p := by
  have hrid := h.sched.requestId id request hreq
  have hidw : id ∈ st.sched.waiting := by rw [hw]; exact List.mem_cons_self
  have hnr : id ∉ st.sched.running := fun hr => h.sched.not_mem_waiting hr hidw
  have hns : id ∉ st.numScheduledTokens.keys := fun hm => hnr (h.scheduled id hm)
  have hnd := h.sched.nodup
  rw [hw] at hnd
  have hidrest : id ∉ rest := (List.nodup_cons.mp (List.nodup_append.mp hnd).2.1).1
  obtain ⟨hk, hk', ht⟩ := h.set_keys hns n (computed ++ new)
  refine ⟨⟨?_, ?_, ?_, ?_, ?_, ?_⟩, ?_, ?_, ?_, ?_, ?_, ?_⟩
  · intro id' r' hg
    change (st.sched.requests.set id _).get? id' = some r' at hg
    rw [Dict.get?_set] at hg
    split_ifs at hg with he
    · cases hg; rw [he]; exact hrid
    · exact h.sched.requestId id' r' hg
  · intro id'
    change id' ∈ (st.sched.requests.set id _).keys ↔
      id' ∈ st.sched.running ++ [id] ∨ id' ∈ st.sched.waiting.tail
    rw [Dict.mem_keys_set, h.sched.known, hw, List.tail_cons, List.mem_append, List.mem_singleton,
      List.mem_cons]
    tauto
  · change (st.sched.running ++ [id] ++ st.sched.waiting.tail).Nodup
    rw [hw, List.tail_cons, List.append_assoc, List.singleton_append]
    exact hnd
  · intro id' r' hid' hg
    change id' ∈ st.sched.running ++ [id] at hid'
    change (st.sched.requests.set id _).get? id' = some r' at hg
    rw [Dict.get?_set] at hg
    split_ifs at hg with he
    · cases hg; rfl
    · rw [List.mem_append, List.mem_singleton] at hid'
      exact h.sched.running id' r' (hid'.resolve_right he) hg
  · intro id' r' hid' hg
    change id' ∈ st.sched.waiting.tail at hid'
    rw [hw, List.tail_cons] at hid'
    change (st.sched.requests.set id _).get? id' = some r' at hg
    rw [Dict.get?_set_ne _ (by rintro rfl; exact hidrest hid')] at hg
    exact h.sched.waiting id' r' (by rw [hw]; exact List.mem_cons_of_mem _ hid') hg
  · change (st.sched.running ++ [id]).length ≤ _
    have := h.sched.running_le
    rw [List.length_append, List.length_singleton]
    omega
  · intro id' hid'
    change id' ∈ (st.numScheduledTokens.set request.requestId n).keys at hid'
    change id' ∈ st.sched.running ++ [id]
    rw [hrid, hk, List.mem_append] at hid'
    rw [List.mem_append]
    exact hid'.imp (h.scheduled id') fun h' => h'
  · intro id' hid'
    change id' ∈ st.preemptedReqs at hid'
    rw [hpre] at hid'
    cases hid'
  · change List.Perm _ (st.numScheduledTokens.set request.requestId n).keys
    rw [hrid, hk]
    simp only [Scheduling.admitted]
    refine List.Perm.trans ?_ (h.lists.append_right [id])
    split_ifs
    · simp only [List.append_assoc]
      refine List.Perm.append_left _ ?_
      rw [← List.append_assoc st.scheduledResumedReqs]
      exact List.perm_append_comm
    · simp only [List.append_assoc]
      refine List.Perm.append_left _ (List.Perm.append_left _ ?_)
      exact List.perm_append_comm
  · change (st.reqToNewBlockIds.set request.requestId (computed ++ new)).keys =
      (st.numScheduledTokens.set request.requestId n).keys
    rw [hrid, hk, hk']
  · change st.tokenBudget - n + ((st.numScheduledTokens.set request.requestId n).total
      (fun k => k) : ℕ) = _
    have := h.budget
    rw [hrid, ht]
    omega
  · change 0 ≤ st.tokenBudget - n
    omega

/-- The local state after a lookup. -/
theorem Scheduling.WF.lookup {st st₁ : Scheduling} (h : st.WF p) {id : ReqId} {computed : List ℕ}
    {nc : ℕ} {request : Request}
    (hc : st.cachedPrefix p id = .ok (computed, nc, request, st₁)) :
    st₁.WF p ∧ st₁.sched.requests.get? id = some request := by
  obtain ⟨request₀, bs, hreq, -, rfl, -, -, hs, rfl⟩ := cachedPrefix_eq_ok hc
  refine ⟨⟨h.sched.set_hashes hreq hs _ _ _, h.scheduled, h.preempted, h.lists, h.newBlockIds,
    h.budget, h.budget_nonneg⟩, ?_⟩
  exact Dict.get?_set_self _ _ _

/-- **Moves keep the agreement.** -/
theorem Move.wf {st st' : Scheduling} (h : st.WF p) (hm : Move p available st st') : st'.WF p := by
  cases hm with
  | reserve hid =>
    exact ⟨⟨h.sched.requestId, h.sched.known, h.sched.nodup, h.sched.running, h.sched.waiting,
      h.sched.running_le⟩, h.scheduled, h.preempted, h.lists, h.newBlockIds, h.budget,
      h.budget_nonneg⟩
  | preempt hrun hid hreq hfree => exact h.preempt hrun hid hreq
  | grant hid hns hreq hpos htry hn halloc hst =>
    obtain ⟨ecm, -, rfl⟩ := scheduleRunning_eq_ok hst
    obtain ⟨hs, rfl⟩ := KVCacheManager.allocateSlots_request halloc
    have hle := tryScheduleEncoderInputs_le (by omega) htry
    exact h.granted hid hns hreq hs _ ecm _ (by omega) _ _
  | lookup hw hc => exact (h.lookup hc).1
  | enter hw hpre hroom hc hpos htry hn halloc hst =>
    obtain ⟨h₁, hreq₁⟩ := h.lookup hc
    obtain ⟨request₀, bs, -, -, rfl, -, -, -⟩ := cachedPrefix_eq_ok hc
    obtain ⟨-, ecm, -, rfl⟩ := scheduleWaiting_eq_ok hst
    obtain ⟨hs, rfl⟩ := KVCacheManager.allocateSlots_request halloc
    have hle := tryScheduleEncoderInputs_le (by omega) htry
    exact h₁.admitted hw hroom hpre hreq₁ hs _ ecm _ _ _ (by omega) _ _

theorem Moves.wf {st st' : Scheduling} (hm : Moves p available st st') (h : st.WF p) : st'.WF p :=
  hm.invariant (fun _ _ h hm => hm.wf h) h

theorem Scheduling.WF.start {s : Scheduler} (h : s.WF p) : (Scheduling.start p s).WF p where
  sched := h
  scheduled _ hid := by cases hid
  preempted _ hid := by cases hid
  lists := List.Perm.refl _
  newBlockIds := rfl
  budget := by simp [Scheduling.start, Scheduling.totalTokens]
  budget_nonneg := Int.natCast_nonneg _

end WF

end SpaceServe
