import SpaceServe.Scheduler.Loops
import SpaceServe.Scheduler.Update

/-!
# Encoder inputs in a scheduling step

An encoder input that was released is behind the computed tokens of its request, unless the request
is preempted; the inputs that are held for a request have a result and have not been released; and
the window of a scheduled request only meets inputs that are held.

* `tryScheduleEncoderInputs_inputs`, `tryScheduleEncoderInputs_covers`: what
  `_try_schedule_encoder_inputs` schedules;
* `Behind`, `Held`, `Covered`: the three statements;
* **`Move.behind`**, **`Move.held`**, **`Move.covered`**: the moves of `schedule` keep them;
* `Onward`: what updates and aborts do; **`updateFromOutput_onward`**, `finishRequests_onward`;
* `schedule_behind`, `schedule_held`, **`schedule_covered`**: a call of `schedule`.
-/

set_option autoImplicit false

namespace SpaceServe

open Py

/-! ## What is scheduled -/

section Try

variable {available : ReqId → ℕ → Bool} {s : Scheduler} {request : Request} {nc : ℕ}

/-- Each scheduled input is available and not behind the computed tokens. -/
theorem encoderLoop_inputs : ∀ {poss : List PlaceholderRange} {i : ℕ} {inputs inputs' : List ℕ}
    {n eb n' eb' : ℤ},
    s.encoderLoop available request nc poss i inputs n eb = .ok (inputs', n', eb') →
    (∀ j ∈ inputs, j ∈ inputs') ∧ ∀ j ∈ inputs', j ∈ inputs ∨
      available request.requestId j = true ∧
        ∃ k pos, j = i + k ∧ poss[k]? = some pos ∧ nc < pos.offset + pos.length
  | [], i, inputs, inputs', n, eb, n', eb', h => by
    cases h
    exact ⟨fun _ hj => hj, fun _ hj => Or.inl hj⟩
  | pos :: rest, i, inputs, inputs', n, eb, n', eb', h => by
    have hshift : ∀ j, (∃ k pos', j = i + 1 + k ∧ rest[k]? = some pos' ∧
        nc < pos'.offset + pos'.length) →
        ∃ k pos', j = i + k ∧ (pos :: rest)[k]? = some pos' ∧ nc < pos'.offset + pos'.length := by
      rintro j ⟨k, pos', rfl, hk, hlt⟩
      exact ⟨k + 1, pos', by omega, hk, hlt⟩
    obtain ⟨-, -, rfl⟩ | ⟨-, h⟩ | ⟨-, rfl, -⟩ | ⟨-, hlt, -, -, -, hav, h⟩ := encoderLoop_cons h
    · exact ⟨fun _ hj => hj, fun _ hj => Or.inl hj⟩
    · obtain ⟨h1, h2⟩ := encoderLoop_inputs h
      exact ⟨h1, fun j hj => (h2 j hj).imp_right fun h' => ⟨h'.1, hshift j h'.2⟩⟩
    · exact ⟨fun _ hj => hj, fun _ hj => Or.inl hj⟩
    · obtain ⟨h1, h2⟩ := encoderLoop_inputs h
      refine ⟨fun j hj => h1 j (List.mem_append_left _ hj), fun j hj => ?_⟩
      obtain hj | ⟨hj, hk⟩ := h2 j hj
      · rw [List.mem_append, List.mem_singleton] at hj
        obtain hj | rfl := hj
        · exact Or.inl hj
        · exact Or.inr ⟨hav, 0, pos, rfl, rfl, by omega⟩
      · exact Or.inr ⟨hj, hshift j hk⟩

/-- The window that is left only meets inputs that are cached or scheduled. -/
theorem encoderLoop_covers : ∀ {poss : List PlaceholderRange} {i : ℕ} {inputs inputs' : List ℕ}
    {n eb n' eb' : ℤ}, WellPlaced poss → 0 < n' →
    s.encoderLoop available request nc poss i inputs n eb = .ok (inputs', n', eb') →
    ∀ k pos, poss[k]? = some pos → (pos.offset : ℤ) < nc + n' → nc < pos.offset + pos.length →
      s.encoderCacheManager.hasCache request.requestId (i + k) = true ∨ i + k ∈ inputs'
  | [], i, inputs, inputs', n, eb, n', eb', _, _, _ => fun k pos hk => by cases hk
  | pos₀ :: rest, i, inputs, inputs', n, eb, n', eb', hp, hn, h => by
    obtain ⟨hp', hrest⟩ := hp.tail
    -- a window that ends before the first range meets none
    have hbefore : (nc : ℤ) + n' ≤ pos₀.offset → ∀ (k : ℕ) (pos : PlaceholderRange),
        (pos₀ :: rest)[k]? = some pos → ¬ (pos.offset : ℤ) < nc + n' := by
      intro hle k pos hk
      cases k with
      | zero => cases hk; omega
      | succ k =>
        have := hrest pos (List.mem_of_getElem? hk)
        omega
    -- the first range is cached or scheduled, and so are the others that are met
    have hstep : ∀ {inputs₁ : List ℕ} {eb₁ : ℤ},
        s.encoderLoop available request nc rest (i + 1) inputs₁ n eb₁ = .ok (inputs', n', eb') →
        (nc < pos₀.offset + pos₀.length →
          s.encoderCacheManager.hasCache request.requestId i = true ∨ i ∈ inputs') →
        ∀ (k : ℕ) (pos : PlaceholderRange), (pos₀ :: rest)[k]? = some pos →
          (pos.offset : ℤ) < nc + n' → nc < pos.offset + pos.length →
          s.encoderCacheManager.hasCache request.requestId (i + k) = true ∨ i + k ∈ inputs' := by
      intro inputs₁ eb₁ h' h₀ k pos hk h1 h2
      cases k with
      | zero => cases hk; exact h₀ h2
      | succ k =>
        have ih := encoderLoop_covers hp' hn h' k pos hk h1 h2
        rwa [Nat.add_right_comm, Nat.add_assoc] at ih
    obtain ⟨hle, rfl, -⟩ | ⟨hskip, h⟩ | ⟨-, -, rfl, -⟩ | ⟨-, -, -, -, -, -, h⟩ :=
      encoderLoop_cons h
    · intro k pos hk h1
      exact absurd h1 (hbefore hle k pos hk)
    · refine hstep h fun hlt => ?_
      exact Or.inl (hskip.resolve_left (by omega))
    · intro k pos hk h1
      refine absurd h1 (hbefore ?_ k pos hk)
      unfold Scheduler.tokensBefore at hn ⊢
      split_ifs at hn ⊢ with hlt
      · omega
      · omega
    · exact hstep h fun _ => Or.inr ((encoderLoop_inputs h).1 i (by simp))

theorem tryScheduleEncoderInputs_inputs {inputs : List ℕ} {n eb n' eb' : ℤ}
    (h : s.tryScheduleEncoderInputs available request nc n eb = .ok (inputs, n', eb')) :
    ∀ j ∈ inputs, available request.requestId j = true ∧
      ∃ pos, request.mmPositions[j]? = some pos ∧ nc < pos.offset + pos.length := by
  unfold Scheduler.tryScheduleEncoderInputs at h
  split_ifs at h
  · cases h
    exact fun _ hj => (List.not_mem_nil hj).elim
  · rw [bind_eq_ok] at h
    obtain ⟨_, -, h⟩ := h
    intro j hj
    obtain hj | ⟨hav, k, pos, rfl, hk, hlt⟩ := (encoderLoop_inputs h).2 j hj
    · exact (List.not_mem_nil hj).elim
    · exact ⟨hav, pos, by rw [Nat.zero_add]; exact hk, hlt⟩

theorem tryScheduleEncoderInputs_covers {inputs : List ℕ} {n eb n' eb' : ℤ}
    (hp : WellPlaced request.mmPositions) (hn : 0 < n')
    (h : s.tryScheduleEncoderInputs available request nc n eb = .ok (inputs, n', eb')) :
    ∀ j pos, request.mmPositions[j]? = some pos → (pos.offset : ℤ) < nc + n' →
      nc < pos.offset + pos.length →
      j ∈ s.encoderCacheManager.getCachedInputIds request.requestId ∨ j ∈ inputs := by
  unfold Scheduler.tryScheduleEncoderInputs at h
  split_ifs at h with htext
  · intro j pos hj
    have hnil : request.mmPositions = [] := by
      by_contra hne
      rw [(request.hasEncoderInputs_iff).mpr hne] at htext
      cases htext
    rw [hnil] at hj
    cases hj
  · rw [bind_eq_ok] at h
    obtain ⟨_, -, h⟩ := h
    intro j pos hj h1 h2
    have := encoderLoop_covers hp hn h j pos hj h1 h2
    rwa [Nat.zero_add, EncoderCacheManager.hasCache_iff] at this

end Try

/-! ## Moves -/

section Moves

variable {p : SchedulerParams} {available : ReqId → ℕ → Bool}

/-- The inputs of `F` are behind the computed tokens of their requests, unless these are
preempted. -/
def Behind (F : List (ReqId × ℕ)) (preempted : List ReqId) (s : Scheduler) : Prop :=
  ∀ id i r pos, (id, i) ∈ F → s.requests.get? id = some r → r.mmPositions[i]? = some pos →
    (id ∈ s.running ∧ pos.offset + pos.length ≤ r.numComputedTokens) ∨ id ∈ preempted

/-- The inputs that are held for a request have a result and are not in `F`. -/
def Held (available : ReqId → ℕ → Bool) (F : List (ReqId × ℕ)) (s : Scheduler) : Prop :=
  ∀ id i, i ∈ s.encoderCacheManager.getCachedInputIds id →
    id ∈ s.requests.keys ∧ available id i = true ∧ (id, i) ∉ F

/-- The windows of the scheduled requests only meet inputs that are held. -/
def Covered (st : Scheduling) : Prop :=
  ∀ id n r i pos, st.numScheduledTokens.get? id = some n → st.sched.requests.get? id = some r →
    r.mmPositions[i]? = some pos → pos.offset < r.numComputedTokens + n →
    r.numComputedTokens < pos.offset + pos.length →
    i ∈ st.sched.encoderCacheManager.getCachedInputIds id

/-- The requests after the block hashes of one of them were set. -/
theorem get?_set_hashes {d : Dict ReqId Request} {id id' : ReqId} {r r' : Request}
    {hs : List BlockHashType} (hr : d.get? id = some r)
    (h : (d.set id (r.setKvBlockHashes hs)).get? id' = some r') :
    ∃ r₀ hs', d.get? id' = some r₀ ∧ r' = r₀.setKvBlockHashes hs' := by
  rw [Dict.get?_set] at h
  split_ifs at h with he
  · cases h
    subst he
    exact ⟨r, hs, hr, rfl⟩
  · exact ⟨r', r'.kvBlockHashes, h, rfl⟩

variable {F : List (ReqId × ℕ)} {st st' : Scheduling}

/-- Moves keep the placeholder ranges of the requests. -/
theorem Move.mmPositions (hm : Move p available st st') (id : ReqId) :
    (st'.sched.requests.get? id).map (·.mmPositions) =
      (st.sched.requests.get? id).map (·.mmPositions) := by
  have hset : ∀ {d : Dict ReqId Request} {id' : ReqId} {r r' : Request}, d.get? id' = some r →
      r'.mmPositions = r.mmPositions →
      ((d.set id' r').get? id).map (·.mmPositions) = (d.get? id).map (·.mmPositions) := by
    intro d id' r r' hr hmm
    rw [Dict.get?_set]
    split_ifs with he
    · rw [he, hr, Option.map_some, Option.map_some, hmm]
    · rfl
  cases hm with
  | reserve => rfl
  | preempt hrun hid hreq hfree => exact hset hreq rfl
  | grant hid hns hreq hpos htry hn halloc hst =>
    obtain ⟨ecm, -, rfl⟩ := scheduleRunning_eq_ok hst
    obtain ⟨hs, rfl⟩ := KVCacheManager.allocateSlots_request halloc
    exact hset hreq rfl
  | lookup hwait hc =>
    obtain ⟨request₀, bs, hreq, -, rfl, -, -, hs, rfl⟩ := cachedPrefix_eq_ok hc
    exact hset hreq rfl
  | enter hwait hpre hroom hc hpos htry hn halloc hst =>
    obtain ⟨request₀, bs, hreq, -, rfl, -, -, hs, rfl⟩ := cachedPrefix_eq_ok hc
    obtain ⟨-, ecm, -, rfl⟩ := scheduleWaiting_eq_ok hst
    obtain ⟨hs', rfl⟩ := KVCacheManager.allocateSlots_request halloc
    refine Eq.trans (hset (Dict.get?_set_self _ _ (request₀.setKvBlockHashes hs)) ?_)
      (hset hreq ?_)
    · rfl
    · rfl

theorem Behind.hashes {id : ReqId} {r : Request} {hs : List BlockHashType}
    (h : Behind F st.preemptedReqs st.sched) (hr : st.sched.requests.get? id = some r)
    (hreq : st'.sched.requests = st.sched.requests.set id (r.setKvBlockHashes hs))
    (hrun : st'.sched.running = st.sched.running)
    (hpre : st'.preemptedReqs = st.preemptedReqs) : Behind F st'.preemptedReqs st'.sched := by
  intro id' i r' pos hF hg hpos
  rw [hreq] at hg
  obtain ⟨r₀, hs₀, hg₀, rfl⟩ := get?_set_hashes hr hg
  rw [hrun, hpre]
  exact h id' i r₀ pos hF hg₀ hpos

/-- **Moves keep `Behind`.** -/
theorem Move.behind (hw : st.WF p) (h : Behind F st.preemptedReqs st.sched)
    (hm : Move p available st st') : Behind F st'.preemptedReqs st'.sched := by
  cases hm with
  | reserve => exact h
  | preempt hrun hid hreq hfree =>
    rename_i rest id request kv
    intro id' i r' pos hF hg hpos
    change (st.sched.requests.set id _).get? id' = some r' at hg
    change (id' ∈ st.sched.running.dropLast ∧ _) ∨ id' ∈ st.preemptedReqs ++ [id]
    rw [Dict.get?_set] at hg
    split_ifs at hg with he
    · subst he
      exact Or.inr (by simp)
    · obtain ⟨hr, hle⟩ | hp := h id' i r' pos hF hg hpos
      · rw [hrun, List.mem_append, List.mem_singleton] at hr
        rw [hrun, List.dropLast_concat]
        exact Or.inl ⟨hr.resolve_right he, hle⟩
      · exact Or.inr (List.mem_append_left _ hp)
  | grant hid hns hreq hpos htry hn halloc hst =>
    obtain ⟨ecm, -, rfl⟩ := scheduleRunning_eq_ok hst
    obtain ⟨hs, rfl⟩ := KVCacheManager.allocateSlots_request halloc
    exact h.hashes hreq rfl rfl rfl
  | lookup hwait hc =>
    obtain ⟨request₀, bs, hreq, -, rfl, -, -, hs, rfl⟩ := cachedPrefix_eq_ok hc
    exact h.hashes hreq rfl rfl rfl
  | enter hwait hpre hroom hc hpos htry hn halloc hst =>
    rename_i st₁ id rest computed nc request request' inputs n eb new kv
    obtain ⟨request₀, bs, hreq, -, rfl, -, -, hs, rfl⟩ := cachedPrefix_eq_ok hc
    obtain ⟨-, ecm, -, rfl⟩ := scheduleWaiting_eq_ok hst
    intro id' i r' pos hF hg hpos'
    change ((st.sched.requests.set id _).set id _).get? id' = some r' at hg
    change (id' ∈ st.sched.running ++ [id] ∧ _) ∨ id' ∈ st.preemptedReqs
    rw [Dict.set_set, Dict.get?_set] at hg
    split_ifs at hg with he
    · -- a waiting request has no input in `F`
      cases hg
      subst he
      obtain ⟨hs', rfl⟩ := KVCacheManager.allocateSlots_request halloc
      obtain ⟨hr, -⟩ | hp := h id' i request₀ pos hF hreq hpos'
      · exact absurd (by rw [hwait]; exact List.mem_cons_self) (hw.sched.not_mem_waiting hr)
      · rw [hpre] at hp
        cases hp
    · exact (h id' i r' pos hF hg hpos').imp_left fun h' => ⟨List.mem_append_left _ h'.1, h'.2⟩

/-- Inputs that are not behind the computed tokens are not in `F`. -/
theorem Held.allocate (h : Held available F st.sched) {request : Request} {inputs : List ℕ}
    {ecm : EncoderCacheManager}
    (hf : inputs.foldlM (fun m i => m.allocate request i) st.sched.encoderCacheManager = .ok ecm)
    (hnew : ∀ i ∈ inputs, available request.requestId i = true ∧ (request.requestId, i) ∉ F)
    (hecm : st'.sched.encoderCacheManager = ecm)
    (hkeys : ∀ x, x = request.requestId ∨ x ∈ st.sched.requests.keys →
      x ∈ st'.sched.requests.keys) : Held available F st'.sched := by
  intro id i hi
  rw [hecm, (EncoderCacheManager.foldlM_allocate_freed hf).2] at hi
  obtain ⟨rfl, hi⟩ | hi := hi
  · exact ⟨hkeys _ (Or.inl rfl), hnew i hi⟩
  · obtain ⟨h1, h2⟩ := h id i hi
    exact ⟨hkeys _ (Or.inr h1), h2⟩

/-- **Moves keep `Held`.** -/
theorem Move.held (hw : st.WF p) (hb : Behind F st.preemptedReqs st.sched)
    (h : Held available F st.sched) (hm : Move p available st st') :
    Held available F st'.sched := by
  have hkeys : ∀ (d : Dict ReqId Request) (id : ReqId) (r : Request),
      ∀ x, x = id ∨ x ∈ d.keys → x ∈ (d.set id r).keys :=
    fun d id r x hx => (Dict.mem_keys_set d id x r).mpr hx
  cases hm with
  | reserve => exact h
  | preempt hrun hid hreq hfree =>
    intro id' i hi
    obtain ⟨h1, h2⟩ := h id' i hi
    exact ⟨hkeys _ _ _ id' (Or.inr h1), h2⟩
  | grant hid hns hreq hpos htry hn halloc hst =>
    obtain ⟨ecm, hf, rfl⟩ := scheduleRunning_eq_ok hst
    obtain ⟨hs, rfl⟩ := KVCacheManager.allocateSlots_request halloc
    rename_i id request inputs n eb new kv
    have hrid := hw.sched.requestId id request hreq
    refine h.allocate hf (fun i hi => ?_) rfl (fun x hx => hkeys _ _ _ x ?_)
    · obtain ⟨hav, pos, hp, hlt⟩ := tryScheduleEncoderInputs_inputs htry i hi
      refine ⟨hav, fun hF => ?_⟩
      change (request.requestId, i) ∈ F at hF
      rw [hrid] at hF
      obtain ⟨-, hle⟩ | hpre := hb id i request pos hF hreq hp
      · omega
      · exact hw.sched.not_mem_waiting hid (hw.preempted id hpre)
    · rw [← hrid]; exact hx
  | lookup hwait hc =>
    obtain ⟨request₀, bs, hreq, -, rfl, -, -, hs, rfl⟩ := cachedPrefix_eq_ok hc
    intro id' i hi
    obtain ⟨h1, h2⟩ := h id' i hi
    exact ⟨hkeys _ _ _ id' (Or.inr h1), h2⟩
  | enter hwait hpre hroom hc hpos htry hn halloc hst =>
    rename_i st₁ id rest computed nc request request' inputs n eb new kv
    obtain ⟨request₀, bs, hreq, -, rfl, -, -, hs, rfl⟩ := cachedPrefix_eq_ok hc
    obtain ⟨-, ecm, hf, rfl⟩ := scheduleWaiting_eq_ok hst
    obtain ⟨hs', rfl⟩ := KVCacheManager.allocateSlots_request halloc
    have hrid := hw.sched.requestId id request₀ hreq
    refine h.allocate hf (fun i hi => ?_) rfl (fun x hx => ?_)
    · obtain ⟨hav, pos, hp, -⟩ := tryScheduleEncoderInputs_inputs htry i hi
      refine ⟨hav, fun hF => ?_⟩
      change (request₀.requestId, i) ∈ F at hF
      rw [hrid] at hF
      obtain ⟨hr, -⟩ | hp' := hb id i request₀ pos hF hreq hp
      · exact hw.sched.not_mem_waiting hr (by rw [hwait]; exact List.mem_cons_self)
      · rw [hpre] at hp'
        cases hp'
    · refine hkeys _ _ _ x (hx.imp (fun hx => hx.trans hrid) fun hx => ?_)
      exact hkeys _ _ _ x (Or.inr hx)

/-- **Moves keep `Covered`.** -/
theorem Move.covered (hw : st.WF p)
    (hp : ∀ id r, st.sched.requests.get? id = some r → WellPlaced r.mmPositions)
    (h : Covered st) (hm : Move p available st st') : Covered st' := by
  cases hm with
  | reserve => exact h
  | preempt hrun hid hreq hfree =>
    rename_i rest id request kv
    intro id' m r' i pos hm hg hpos h1 h2
    change (st.sched.requests.set id _).get? id' = some r' at hg
    rw [Dict.get?_set_ne _ (by rintro rfl; exact hid (Dict.mem_keys_of_get? hm))] at hg
    exact h id' m r' i pos hm hg hpos h1 h2
  | grant hid hns hreq hpos htry hn halloc hst =>
    rename_i id request request' inputs n eb new kv
    obtain ⟨ecm, hf, rfl⟩ := scheduleRunning_eq_ok hst
    obtain ⟨hs, rfl⟩ := KVCacheManager.allocateSlots_request halloc
    have hrid := hw.sched.requestId id request hreq
    have hle := tryScheduleEncoderInputs_le (by omega) htry
    intro id' m r' i pos hm hg hpos' h1 h2
    change (st.numScheduledTokens.set request.requestId n.toNat).get? id' = some m at hm
    change i ∈ ecm.getCachedInputIds id'
    rw [(EncoderCacheManager.foldlM_allocate_freed hf).2]
    obtain ⟨r₀, hs₀, hg₀, rfl⟩ := get?_set_hashes hreq hg
    rw [hrid, Dict.get?_set] at hm
    split_ifs at hm with he
    · cases hm
      subst he
      obtain rfl : request = r₀ := Option.some.inj (hreq.symm.trans hg₀)
      change pos.offset < request.numComputedTokens + n.toNat at h1
      obtain hc | hc := tryScheduleEncoderInputs_covers (hp id' request hreq) (by omega) htry i pos
        hpos' (by omega) h2
      · exact Or.inr (hrid ▸ hc)
      · exact Or.inl ⟨hrid.symm, hc⟩
    · exact Or.inr (h id' m r₀ i pos hm hg₀ hpos' h1 h2)
  | lookup hwait hc =>
    obtain ⟨request₀, bs, hreq, -, rfl, -, -, hs, rfl⟩ := cachedPrefix_eq_ok hc
    intro id' m r' i pos hm hg hpos h1 h2
    obtain ⟨r₀, hs₀, hg₀, rfl⟩ := get?_set_hashes hreq hg
    exact h id' m r₀ i pos hm hg₀ hpos h1 h2
  | enter hwait hpre hroom hc hpos htry hn halloc hst =>
    rename_i st₁ id rest computed nc request request' inputs n eb new kv
    obtain ⟨request₀, bs, hreq, -, rfl, -, -, hs, rfl⟩ := cachedPrefix_eq_ok hc
    obtain ⟨-, ecm, hf, rfl⟩ := scheduleWaiting_eq_ok hst
    obtain ⟨hs', rfl⟩ := KVCacheManager.allocateSlots_request halloc
    have hrid := hw.sched.requestId id request₀ hreq
    have hle := tryScheduleEncoderInputs_le (by omega) htry
    intro id' m r' i pos hm hg hpos' h1 h2
    change (st.numScheduledTokens.set request₀.requestId n.toNat).get? id' = some m at hm
    change ((st.sched.requests.set id _).set id _).get? id' = some r' at hg
    change i ∈ ecm.getCachedInputIds id'
    rw [(EncoderCacheManager.foldlM_allocate_freed hf).2]
    rw [Dict.set_set, Dict.get?_set] at hg
    rw [hrid, Dict.get?_set] at hm
    split_ifs at hg hm with he
    · cases hm
      cases hg
      subst he
      change pos.offset < nc + n.toNat at h1
      change nc < pos.offset + pos.length at h2
      have hwell : WellPlaced (request₀.setKvBlockHashes hs).mmPositions := hp id' request₀ hreq
      obtain hc | hc := tryScheduleEncoderInputs_covers hwell (by omega) htry i pos hpos'
        (by omega) h2
      · exact Or.inr (hrid ▸ hc)
      · exact Or.inl ⟨hrid.symm, hc⟩
    · exact Or.inr (h id' m r' i pos hm hg hpos' h1 h2)

end Moves

/-! ## Updates and aborts -/

/-- The inputs `l` of a request were released. -/
structure Released (m m' : EncoderCacheManager) (id : ReqId) (l : List ℕ) : Prop where
  freed : m'.freed = m.freed ++ l.map fun i => (id, i)
  cached : ∀ id' j, j ∈ m'.getCachedInputIds id' → j ∈ m.getCachedInputIds id' ∧
    ¬ (id' = id ∧ j ∈ l)

theorem Released.refl (m : EncoderCacheManager) (id : ReqId) : Released m m id [] :=
  ⟨(List.append_nil _).symm, fun _ _ hj => ⟨hj, fun h => List.not_mem_nil h.2⟩⟩

theorem Released.snoc {m m₁ m' : EncoderCacheManager} {request : Request} {l : List ℕ} {i : ℕ}
    (h : Released m m₁ request.requestId l) (hf : m₁.freeEncoderInput request i = .ok m') :
    ∃ l', Released m m' request.requestId l' ∧ ∀ j ∈ l', j ∈ l ∨ j = i := by
  obtain ⟨hfreed, hcached⟩ := EncoderCacheManager.freeEncoderInput_eq_ok _ hf
  have hsub : ∀ id' j, j ∈ m'.getCachedInputIds id' → j ∈ m.getCachedInputIds id' ∧
      ¬ (id' = request.requestId ∧ (j ∈ l ∨ j = i)) := by
    intro id' j hj
    obtain ⟨hne, hj⟩ := (hcached id' j).mp hj
    obtain ⟨hm, hl⟩ := h.cached id' j hj
    exact ⟨hm, fun hc => hc.2.elim (fun hjl => hl ⟨hc.1, hjl⟩) fun hji => hne ⟨hc.1, hji⟩⟩
  obtain hfreed | hfreed := hfreed
  · refine ⟨l, ⟨hfreed.trans h.freed, fun id' j hj => ?_⟩, fun j hj => Or.inl hj⟩
    obtain ⟨hm, hl⟩ := hsub id' j hj
    exact ⟨hm, fun hc => hl ⟨hc.1, Or.inl hc.2⟩⟩
  · refine ⟨l ++ [i], ⟨?_, fun id' j hj => ?_⟩, fun j hj => by simpa using hj⟩
    · rw [hfreed, h.freed, List.map_append, List.append_assoc]
      rfl
    · rw [List.mem_append, List.mem_singleton]
      exact hsub id' j hj

/-- What `update_from_output` releases is behind the computed tokens. -/
theorem releaseInputs_eq_ok {request : Request} {m m' : EncoderCacheManager}
    (h : Scheduler.releaseInputs request m = .ok m') :
    ∃ l, Released m m' request.requestId l ∧ ∀ i ∈ l, ∃ pos, request.mmPositions[i]? = some pos ∧
      pos.offset + pos.length ≤ request.numComputedTokens := by
  unfold Scheduler.releaseInputs at h
  refine foldlM_invariant (P := fun m' => ∃ l, Released m m' request.requestId l ∧ ∀ i ∈ l, ∃ pos,
    request.mmPositions[i]? = some pos ∧ pos.offset + pos.length ≤ request.numComputedTokens) ?_
    ⟨[], Released.refl _ _, fun i hi => (List.not_mem_nil hi).elim⟩ h
  rintro m₁ i m₂ - ⟨l, hl, hle⟩ h₂
  rw [bind_eq_ok] at h₂
  obtain ⟨pos, hpos, h₂⟩ := h₂
  rw [ofOption_eq_ok] at hpos
  split_ifs at h₂ with hend
  · obtain ⟨l', hl', hsub⟩ := hl.snoc h₂
    refine ⟨l', hl', fun j hj => ?_⟩
    obtain hj | rfl := hsub j hj
    · exact hle j hj
    · exact ⟨pos, hpos, hend⟩
  · cases h₂
    exact ⟨l, hl, hle⟩

namespace Scheduler

/-- Requests have advanced or left, and what was released for them is behind their tokens. -/
structure Onward (s s' : Scheduler) : Prop where
  requests : ∀ id r', s'.requests.get? id = some r' → ∃ r, s.requests.get? id = some r ∧
    r'.mmPositions = r.mmPositions ∧ r.numComputedTokens ≤ r'.numComputedTokens ∧
    r'.status = r.status
  running : ∀ id, id ∈ s'.running ↔ id ∈ s.running ∧ id ∈ s'.requests.keys
  freed : ∃ l, s'.encoderCacheManager.freed = s.encoderCacheManager.freed ++ l ∧
    ∀ id i, (id, i) ∈ l → id ∈ s.running ∧ i ∉ s'.encoderCacheManager.getCachedInputIds id ∧
      ∀ r' pos, s'.requests.get? id = some r' → r'.mmPositions[i]? = some pos →
        pos.offset + pos.length ≤ r'.numComputedTokens
  cached : ∀ id i, i ∈ s'.encoderCacheManager.getCachedInputIds id →
    i ∈ s.encoderCacheManager.getCachedInputIds id ∧
      (id ∈ s.requests.keys → id ∈ s'.requests.keys)
  finished : ∀ id ∈ s'.finishedReqIds, id ∈ s.finishedReqIds ∨
    (id ∈ s.requests.keys ∧ id ∉ s'.requests.keys)

variable {p : SchedulerParams} {s s₁ s' : Scheduler}

theorem Onward.keys (h : Onward s s') : ∀ id ∈ s'.requests.keys, id ∈ s.requests.keys := by
  intro id hid
  obtain ⟨r', hr'⟩ := Dict.exists_get?_of_mem hid
  obtain ⟨r, hr, -⟩ := h.requests id r' hr'
  exact Dict.mem_keys_of_get? hr

theorem Onward.refl (hw : s.WF p) : Onward s s where
  requests _ r hr := ⟨r, hr, rfl, Nat.le_refl _, rfl⟩
  running id := ⟨fun hid => ⟨hid, (hw.known id).mpr (Or.inl hid)⟩, fun h => h.1⟩
  freed := ⟨[], (List.append_nil _).symm, fun _ _ h => (List.not_mem_nil h).elim⟩
  cached _ _ hi := ⟨hi, fun h => h⟩
  finished _ hid := Or.inl hid

theorem Onward.trans (h : Onward s s₁) (h' : Onward s₁ s') : Onward s s' where
  requests id r' hr' := by
    obtain ⟨r₁, hr₁, h1, h2, h3⟩ := h'.requests id r' hr'
    obtain ⟨r, hr, h4, h5, h6⟩ := h.requests id r₁ hr₁
    exact ⟨r, hr, h1.trans h4, Nat.le_trans h5 h2, h3.trans h6⟩
  running id := by
    rw [h'.running, h.running]
    exact ⟨fun hid => ⟨hid.1.1, hid.2⟩, fun hid => ⟨⟨hid.1, h'.keys id hid.2⟩, hid.2⟩⟩
  freed := by
    obtain ⟨l, hl, hall⟩ := h.freed
    obtain ⟨l', hl', hall'⟩ := h'.freed
    refine ⟨l ++ l', by rw [hl', hl, List.append_assoc], fun id i hi => ?_⟩
    obtain hi | hi := List.mem_append.mp hi
    · obtain ⟨h1, h2, h3⟩ := hall id i hi
      refine ⟨h1, fun hc => h2 (h'.cached id i hc).1, fun r' pos hr' hpos => ?_⟩
      obtain ⟨r₁, hr₁, h4, h5, -⟩ := h'.requests id r' hr'
      rw [h4] at hpos
      have := h3 r₁ pos hr₁ hpos
      omega
    · obtain ⟨h1, h2, h3⟩ := hall' id i hi
      exact ⟨((h.running id).mp h1).1, h2, h3⟩
  cached id i hi := by
    obtain ⟨h1, h2⟩ := h'.cached id i hi
    obtain ⟨h3, h4⟩ := h.cached id i h1
    exact ⟨h3, fun hk => h2 (h4 hk)⟩
  finished id hid := by
    obtain hid | ⟨h1, h2⟩ := h'.finished id hid
    · exact (h.finished id hid).imp_right fun h1 => ⟨h1.1, fun hk => h1.2 (h'.keys id hk)⟩
    · exact Or.inr ⟨h.keys id h1, h2⟩

/-- A request has advanced. -/
theorem Onward.advance (hw : s.WF p) {id : ReqId} {r r' : Request} {g : ℕ} {ts : List TokenId}
    {l : List ℕ} (hid : id ∈ s.running) (hr : s.requests.get? id = some r)
    (ha : Advance s s' id r r' g ts) (hst : r'.status = r.status)
    (hl : Released s.encoderCacheManager s'.encoderCacheManager id l)
    (hle : ∀ i ∈ l, ∃ pos, r.mmPositions[i]? = some pos ∧
      pos.offset + pos.length ≤ r.numComputedTokens + g) : Onward s s' := by
  have hreq : s'.requests = s.requests.set id r' := by rw [ha.sched]
  have hrun : s'.running = s.running := by rw [ha.sched]
  have hmm : r'.mmPositions = r.mmPositions := by rw [ha.request]
  have hnc : r'.numComputedTokens = r.numComputedTokens + g := by rw [ha.request]
  have hkeys : ∀ x, x ∈ s'.requests.keys ↔ x ∈ s.requests.keys := by
    intro x
    rw [hreq, Dict.mem_keys_set]
    exact ⟨fun h => h.elim (fun e => e ▸ Dict.mem_keys_of_get? hr) fun h => h, Or.inr⟩
  refine ⟨fun x rx hx => ?_, fun x => ?_, ⟨_, hl.freed, fun x i hi => ?_⟩, fun x i hi => ?_,
    fun x hx => ?_⟩
  · rw [hreq, Dict.get?_set] at hx
    split_ifs at hx with he
    · cases hx
      exact ⟨r, he ▸ hr, hmm, by omega, hst⟩
    · exact ⟨rx, hx, rfl, Nat.le_refl _, rfl⟩
  · rw [hrun, hkeys]
    exact ⟨fun h => ⟨h, (hw.known x).mpr (Or.inl h)⟩, fun h => h.1⟩
  · obtain ⟨j, hj, he⟩ := List.mem_map.mp hi
    cases he
    refine ⟨hid, fun hc => (hl.cached id i hc).2 ⟨rfl, hj⟩, fun rx pos hx hpos => ?_⟩
    rw [hreq, Dict.get?_set_self] at hx
    cases hx
    obtain ⟨pos', hp', hle'⟩ := hle i hj
    rw [hmm, hp'] at hpos
    cases hpos
    omega
  · exact ⟨(hl.cached x i hi).1, (hkeys x).mpr⟩
  · have hfin : s'.finishedReqIds = s.finishedReqIds := by rw [ha.sched]
    exact Or.inl (hfin ▸ hx)

/-- A request has left, perhaps after its inputs were released. -/
theorem Onward.drop (hw : s.WF p) {id : ReqId} {r : Request} {m : EncoderCacheManager} {l : List ℕ}
    (hd : Drop p { s with encoderCacheManager := m } s' id r)
    (hl : Released s.encoderCacheManager m id l) (hid : l ≠ [] → id ∈ s.running) :
    Onward s s' := by
  have hreq : s'.requests = s.requests.pop id := by rw [hd.sched]
  have hecm : s'.encoderCacheManager = m := by rw [hd.sched]
  have hout : id ∉ s'.requests.keys := by
    rw [hreq, Dict.mem_keys_pop]
    exact fun h => h.1 rfl
  refine ⟨fun x rx hx => ?_, fun x => ?_, ⟨_, hecm ▸ hl.freed, fun x i hi => ?_⟩, fun x i hi => ?_,
    fun x hx => ?_⟩
  · rw [hreq, Dict.get?_pop] at hx
    split_ifs at hx
    exact ⟨rx, hx, rfl, Nat.le_refl _, rfl⟩
  · have hrun : s'.running = s.running.erase id := by rw [hd.sched]
    rw [hrun, (hw.mem_erase id x).1, hreq, Dict.mem_keys_pop, hw.known]
    tauto
  · obtain ⟨j, hj, he⟩ := List.mem_map.mp hi
    cases he
    refine ⟨hid (List.ne_nil_of_mem hj), fun hc => ?_, fun rx pos hx => ?_⟩
    · rw [hecm] at hc
      exact (hl.cached id i hc).2 ⟨rfl, hj⟩
    · exact absurd (Dict.mem_keys_of_get? hx) hout
  · rw [hecm] at hi
    refine ⟨(hl.cached x i hi).1, fun hk => ?_⟩
    rw [hreq, Dict.mem_keys_pop]
    refine ⟨?_, hk⟩
    rintro rfl
    rw [hd.cached] at hi
    exact List.not_mem_nil hi
  · have hfin : s'.finishedReqIds = if id ∈ s.finishedReqIds then s.finishedReqIds
        else s.finishedReqIds ++ [id] := by rw [hd.sched]
    rw [hfin] at hx
    split_ifs at hx
    · exact Or.inl hx
    · rw [List.mem_append, List.mem_singleton] at hx
      obtain hx | rfl := hx
      · exact Or.inl hx
      · exact Or.inr ⟨Dict.mem_keys_of_get? hd.get?, hout⟩

theorem WF.setEcm (h : s.WF p) (m : EncoderCacheManager) :
    WF p { s with encoderCacheManager := m } :=
  ⟨h.requestId, h.known, h.nodup, h.running, h.waiting, h.running_le⟩

/-- One round of the loop of `update_from_output`. -/
theorem updateOne_onward {out : SchedulerOutput} {mo : ModelRunnerOutput} {u u' : Updating}
    {id : ReqId} {rest : List ReqId} (hw : (u.view (id :: rest)).WF p)
    (h : updateOne p out mo u id = .ok u') :
    (u'.view rest).WF p ∧ Onward (u.view (id :: rest)) (u'.view rest) := by
  have hid : id ∈ (u.view (id :: rest)).running := by simp [Updating.view]
  obtain ⟨-, hview⟩ | ⟨-, r, r₁, s₁, ts, hr, hrel, hadv, hcase⟩ := updateOne_view hw h
  · rw [hview]
    exact ⟨hw, Onward.refl hw⟩
  · obtain ⟨l, hl, hle⟩ := releaseInputs_eq_ok hrel
    have hrid : r.requestId = id := hw.requestId id r hr
    rw [show Request.requestId { r with numComputedTokens := _ } = r.requestId from rfl, hrid] at hl
    obtain ⟨hs, hst, -⟩ | hdrop := hcase
    · rw [hs]
      exact ⟨hw.advance hid hr hadv hst, Onward.advance hw hid hr hadv hst hl hle⟩
    · have hd := Drop.of_advance (s := u.view (id :: rest)) hr hadv hdrop
      exact ⟨(hw.setEcm _).drop hd, Onward.drop hw hd hl fun _ => hid⟩

/-- **An update moves requests onward.** -/
theorem updateFromOutput_onward (hw : s.WF p) {out : SchedulerOutput} {mo : ModelRunnerOutput}
    {outputs : List EngineCoreOutput} (h : s.updateFromOutput p out mo = .ok (outputs, s')) :
    s'.WF p ∧ Onward s s' := by
  obtain ⟨u, hu, rfl⟩ := updateFromOutput_eq_ok h
  have h₀ : WF p (Updating.view ⟨s, [], []⟩ s.running) ∧
      Onward s (Updating.view ⟨s, [], []⟩ s.running) := ⟨hw, Onward.refl hw⟩
  refine update_invariant (P := fun v _ => v.WF p ∧ Onward s v) ?_ h₀ hu
  rintro u₁ u₂ id rest ⟨hw₁, h₁⟩ h₂
  obtain ⟨hw₂, h₂⟩ := updateOne_onward hw₁ h₂
  exact ⟨hw₂, h₁.trans h₂⟩

/-- **So do aborts.** -/
theorem finishRequests_onward (hw : s.WF p) {ids : List ReqId} {status : RequestStatus}
    (h : s.finishRequests p ids status = .ok s') : s'.WF p ∧ Onward s s' := by
  unfold finishRequests at h
  rw [bind_eq_ok] at h
  obtain ⟨_, -, h⟩ := h
  refine foldlM_invariant (P := fun v : Scheduler => v.WF p ∧ Onward s v) ?_
    ⟨hw, Onward.refl hw⟩ h
  rintro s₁ id s₂ - ⟨hw₁, h₁⟩ h₂
  obtain ⟨-, rfl⟩ | ⟨r, hd⟩ := finishOne_eq_ok hw₁ h₂
  · exact ⟨hw₁, h₁⟩
  · exact ⟨hw₁.drop hd, h₁.trans (Onward.drop hw₁ hd (Released.refl _ _) fun h => absurd rfl h)⟩

section

variable {available : ReqId → ℕ → Bool} {F : List (ReqId × ℕ)}

theorem Onward.behind (h : Onward s s') (hb : Behind F [] s)
    (hF : ∀ pair ∈ s.encoderCacheManager.freed, pair ∈ F) :
    Behind (F ++ s'.encoderCacheManager.freed) [] s' := by
  obtain ⟨l, hl, hall⟩ := h.freed
  intro id i r' pos hmem hr' hpos
  obtain ⟨r, hr, hmm, hle, -⟩ := h.requests id r' hr'
  have hkey := Dict.mem_keys_of_get? hr'
  have hold : (id, i) ∈ F → (id ∈ s'.running ∧ pos.offset + pos.length ≤ r'.numComputedTokens) ∨
      id ∈ [] := by
    intro hin
    rw [hmm] at hpos
    obtain ⟨h1, h2⟩ := (hb id i r pos hin hr hpos).resolve_right List.not_mem_nil
    exact Or.inl ⟨(h.running id).mpr ⟨h1, hkey⟩, by omega⟩
  rw [hl, List.mem_append, List.mem_append] at hmem
  obtain hin | hin | hin := hmem
  · exact hold hin
  · exact hold (hF _ hin)
  · obtain ⟨h1, -, h3⟩ := hall id i hin
    exact Or.inl ⟨(h.running id).mpr ⟨h1, hkey⟩, h3 r' pos hr' hpos⟩

theorem Onward.held (h : Onward s s') (hh : Held available F s)
    (hF : ∀ pair ∈ s.encoderCacheManager.freed, pair ∈ F) :
    Held available (F ++ s'.encoderCacheManager.freed) s' := by
  obtain ⟨l, hl, hall⟩ := h.freed
  intro id i hi
  obtain ⟨hc, hk⟩ := h.cached id i hi
  obtain ⟨h1, h2, h3⟩ := hh id i hc
  refine ⟨hk h1, h2, fun hmem => ?_⟩
  rw [hl, List.mem_append, List.mem_append] at hmem
  obtain hin | hin | hin := hmem
  · exact h3 hin
  · exact h3 (hF _ hin)
  · exact (hall id i hin).2.1 hi

/-! ## A scheduling step -/

variable {out : SchedulerOutput}

theorem schedule_wf (hw : s.WF p) (h : s.schedule p available = .ok (out, s')) : s'.WF p := by
  obtain ⟨_, st, _, _, _, -, -, -, hst, rfl, -⟩ := schedule_eq_ok hw h
  exact ⟨hst.sched.requestId, hst.sched.known, hst.sched.nodup, hst.sched.running,
    hst.sched.waiting, hst.sched.running_le⟩

/-- The same requests are there, with their placeholder ranges. -/
theorem schedule_requests (hw : s.WF p) (h : s.schedule p available = .ok (out, s')) :
    (∀ id, id ∈ s'.requests.keys ↔ id ∈ s.requests.keys) ∧
      ∀ id r', s'.requests.get? id = some r' → ∃ r, s.requests.get? id = some r ∧
        r'.mmPositions = r.mmPositions := by
  obtain ⟨_, st, _, _, _, -, -, hm, -, rfl, -⟩ := schedule_eq_ok hw h
  have hinv : ∀ id, (st.sched.requests.get? id).map (·.mmPositions) =
      (s.requests.get? id).map (·.mmPositions) := by
    refine (hm.invariant (P := fun st => st.WF p ∧ ∀ id,
      (st.sched.requests.get? id).map (·.mmPositions) =
        (s.requests.get? id).map (·.mmPositions)) ?_ ⟨Scheduling.WF.start hw, fun _ => rfl⟩).2
    rintro st₁ st₂ ⟨hw₁, h₁⟩ hm₁
    exact ⟨hm₁.wf hw₁, fun id => (hm₁.mmPositions id).trans (h₁ id)⟩
  refine ⟨fun id => ?_, fun id r' hr' => ?_⟩
  · have := congrArg Option.isSome (hinv id)
    rw [Option.isSome_map, Option.isSome_map] at this
    rw [Dict.mem_keys, Dict.mem_keys]
    exact Bool.eq_iff_iff.mp this
  · have := hinv id
    change st.sched.requests.get? id = some r' at hr'
    rw [hr', Option.map_some] at this
    obtain ⟨r, hr, hmm⟩ := Option.map_eq_some_iff.mp this.symm
    exact ⟨r, hr, hmm.symm⟩

theorem schedule_behind (hw : s.WF p) (h : s.schedule p available = .ok (out, s'))
    (hb : Behind F [] s) :
    ∃ st, Scheduling.loops p available s = .ok st ∧ Behind F st.preemptedReqs s' := by
  obtain ⟨st₀, st, _, _, _, hl, heq, hm, -, rfl, -⟩ := schedule_eq_ok hw h
  refine ⟨st₀, hl, ?_⟩
  have hpre : st₀.preemptedReqs = st.preemptedReqs := by rw [heq]
  rw [hpre]
  refine (hm.invariant (P := fun st => st.WF p ∧ Behind F st.preemptedReqs st.sched) ?_
    ⟨Scheduling.WF.start hw, hb⟩).2
  exact fun st₁ st₂ h₁ hm₁ => ⟨hm₁.wf h₁.1, hm₁.behind h₁.1 h₁.2⟩

theorem schedule_held (hw : s.WF p) (h : s.schedule p available = .ok (out, s'))
    (hb : Behind F [] s) (hh : Held available F s) : Held available F s' := by
  obtain ⟨_, st, _, _, _, -, -, hm, -, rfl, -⟩ := schedule_eq_ok hw h
  refine (hm.invariant (P := fun st => st.WF p ∧ Behind F st.preemptedReqs st.sched ∧
    Held available F st.sched) ?_ ⟨Scheduling.WF.start hw, hb, hh⟩).2.2
  exact fun st₁ st₂ h₁ hm₁ =>
    ⟨hm₁.wf h₁.1, hm₁.behind h₁.1 h₁.2.1, hm₁.held h₁.1 h₁.2.1 h₁.2.2⟩

/-- **The windows of an output only meet inputs that are held.** -/
theorem schedule_covered (hw : s.WF p) (h : s.schedule p available = .ok (out, s'))
    (hp : ∀ id r, s.requests.get? id = some r → WellPlaced r.mmPositions) {id : ReqId} {n : ℕ}
    {r : Request} {i : ℕ} {pos : PlaceholderRange} (hn : out.numScheduledTokens.get? id = some n)
    (hr : s'.requests.get? id = some r) (hpos : r.mmPositions[i]? = some pos)
    (h1 : pos.offset < r.numComputedTokens + n) (h2 : r.numComputedTokens < pos.offset + pos.length) :
    i ∈ s'.encoderCacheManager.getCachedInputIds id := by
  obtain ⟨_, st, _, _, _, -, -, hm, -, rfl, htok, -⟩ := schedule_eq_ok hw h
  have hcov : Covered st := by
    refine (hm.invariant (P := fun st => st.WF p ∧ (∀ id r, st.sched.requests.get? id = some r →
      WellPlaced r.mmPositions) ∧ Covered st) ?_
      ⟨Scheduling.WF.start hw, hp, fun _ _ _ _ _ hg => (Option.some_ne_none _ hg.symm).elim⟩).2.2
    rintro st₁ st₂ ⟨hw₁, hp₁, hc₁⟩ hm₁
    refine ⟨hm₁.wf hw₁, fun id r hr => ?_, hm₁.covered hw₁ hp₁ hc₁⟩
    have hmm := hm₁.mmPositions id
    rw [hr, Option.map_some] at hmm
    obtain ⟨r₁, hr₁, he⟩ := Option.map_eq_some_iff.mp hmm.symm
    rw [← he]
    exact hp₁ id r₁ hr₁
  rw [htok] at hn
  exact hcov id n r i pos hn hr hpos h1 h2

end

end Scheduler

end SpaceServe
