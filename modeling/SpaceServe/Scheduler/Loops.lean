import SpaceServe.Scheduler.Moves

/-!
# The loops of `schedule`

The two loops of `schedule`, with the preemption loop inside the first, are followed round by
round. The first loop has passed a part `done` of `running`; requests scheduled so far are in it,
and preemption only takes requests behind it.

* `allocLoop_moves`, `runningLoop_moves`, `waitingLoop_moves`;
* **`loops_moves`**: the loops of `schedule` are a sequence of moves;
* **`schedule_eq_ok`**: how a call of `schedule` that returned has run.
-/

set_option autoImplicit false

namespace SpaceServe

open Py

/-! ## The loops are sequences of moves -/

section Loops

variable {p : SchedulerParams} {available : ReqId → ℕ → Bool}

/-- What preemption leaves alone. -/
structure SameLocal (id : ReqId) (st st' : Scheduling) : Prop where
  request : st'.sched.requests.get? id = st.sched.requests.get? id
  ecm : st'.sched.encoderCacheManager = st.sched.encoderCacheManager
  tokens : st'.numScheduledTokens = st.numScheduledTokens
  tokenBudget : st'.tokenBudget = st.tokenBudget
  encoderBudget : st'.encoderBudget = st.encoderBudget

theorem SameLocal.trans {id : ReqId} {st₁ st₂ st₃ : Scheduling} (h : SameLocal id st₁ st₂)
    (h' : SameLocal id st₂ st₃) : SameLocal id st₁ st₃ :=
  ⟨h'.request.trans h.request, h'.ecm.trans h.ecm, h'.tokens.trans h.tokens,
    h'.tokenBudget.trans h.tokenBudget, h'.encoderBudget.trans h.encoderBudget⟩

/-- A refused allocation creates the block list of the request. -/
theorem put_eq_reserve {st : Scheduling} {id : ReqId} {request : Request} (kv : KVCacheManager)
    (hreq : st.sched.requests.get? id = some request) :
    st.put kv id request = { st with sched := { st.sched with kv := kv } } := by
  rw [Scheduling.put, Dict.set_eq_self hreq]

theorem refused (available : ReqId → ℕ → Bool) {st : Scheduling} (h : st.WF p) {id : ReqId} {request request' : Request} {n : ℕ}
    {computed : List ℕ} {kv : KVCacheManager} (hreq : st.sched.requests.get? id = some request)
    (halloc : st.sched.kv.allocateSlots p.kv request n computed = .ok (none, kv, request')) :
    Move p available st (st.put kv id request') ∧ SameLocal id st (st.put kv id request') ∧
      (st.put kv id request').sched.running = st.sched.running ∧
      (st.put kv id request').sched.waiting = st.sched.waiting := by
  obtain ⟨-, ⟨-, -, rfl, rfl⟩ | ⟨-, -, new, kv₁, hnew, -⟩⟩ := KVCacheManager.allocateSlots_eq_ok halloc
  · rw [put_eq_reserve _ hreq, h.sched.requestId id request' hreq]
    exact ⟨Move.reserve (Dict.mem_keys_of_get? hreq), ⟨rfl, rfl, rfl, rfl, rfl⟩, rfl, rfl⟩
  · cases hnew

theorem preemptLast_eq_ok {st st' : Scheduling} {id : ReqId}
    (h : Scheduling.preemptLast p st = .ok (id, st')) :
    ∃ request kv, st.sched.running.getLast? = some id ∧ st.sched.requests.get? id = some request ∧
      st.sched.kv.free p.kv request = .ok kv ∧ st' = st.preempt id request kv := by
  unfold Scheduling.preemptLast at h
  rw [bind_eq_ok] at h
  obtain ⟨id', hlast, h⟩ := h
  rw [bind_eq_ok] at h
  obtain ⟨request, hreq, h⟩ := h
  rw [bind_eq_ok] at h
  obtain ⟨kv, hfree, h⟩ := h
  cases h
  exact ⟨request, kv, ofOption_eq_ok.mp hlast, request_eq_ok.mp hreq, hfree, rfl⟩

/-- Preempting behind the current request. -/
theorem preempted_move (available : ReqId → ℕ → Bool) {st st' : Scheduling} (h : st.WF p) {id id' : ReqId}
    {done rest : List ReqId} (hrun : st.sched.running = done ++ id :: rest)
    (hdone : ∀ x ∈ st.numScheduledTokens.keys, x ∈ done)
    (hp : Scheduling.preemptLast p st = .ok (id', st')) :
    Move p available st st' ∧ st'.preemptedReqs ≠ [] ∧ (id' ≠ id → SameLocal id st st' ∧
      ∃ rest', st'.sched.running = done ++ id :: rest' ∧ rest'.length < rest.length) := by
  obtain ⟨request, kv, hlast, hreq, hfree, rfl⟩ := preemptLast_eq_ok hp
  obtain ⟨ys, hys⟩ := List.getLast?_eq_some_iff.mp hlast
  have hnd := h.sched.running_nodup
  have hns : id' ∉ st.numScheduledTokens.keys := by
    intro hk
    have hd := hdone id' hk
    have hl : id' ∈ id :: rest := by
      rw [hrun, List.getLast?_append_of_ne_nil _ (List.cons_ne_nil _ _)] at hlast
      exact List.mem_of_getLast? hlast
    rw [hrun] at hnd
    exact (List.nodup_append.mp hnd).2.2 id' hd id' hl rfl
  refine ⟨Move.preempt hys hns hreq hfree, by simp [Scheduling.preempt], fun hne => ?_⟩
  refine ⟨⟨Dict.get?_set_ne _ (Ne.symm hne) _, rfl, rfl, rfl, rfl⟩, ?_⟩
  change ∃ rest', st.sched.running.dropLast = done ++ id :: rest' ∧ _
  rw [hrun] at hys ⊢
  obtain rfl | ⟨rest, x, rfl⟩ := List.eq_nil_or_concat rest
  · have := List.append_inj_right' hys rfl
    simp only [List.cons.injEq, and_true] at this
    exact absurd this.symm hne
  · refine ⟨rest, ?_, by simp⟩
    rw [List.concat_eq_append, ← List.cons_append, ← List.append_assoc, List.dropLast_concat]

/-- The allocation loop: preemptions behind the request, then its slots or its own preemption. -/
theorem allocLoop_moves (available : ReqId → ℕ → Bool) {id : ReqId} {n : ℕ} {done : List ReqId} :
    ∀ {fuel : ℕ} {st st' : Scheduling} {rest : List ReqId} {res : Option (List ℕ)}, st.WF p →
      st.sched.running = done ++ id :: rest → (∀ x ∈ st.numScheduledTokens.keys, x ∈ done) →
      Scheduling.allocLoop p id n fuel st = .ok (res, st') →
      (res = none ∧ Moves p available st st' ∧ st'.preemptedReqs ≠ []) ∨
      ∃ new st₁ rest' request kv request', res = some new ∧ Moves p available st st₁ ∧
        SameLocal id st st₁ ∧ st₁.sched.running = done ++ id :: rest' ∧
        rest'.length ≤ rest.length ∧ st₁.sched.requests.get? id = some request ∧
        st₁.sched.kv.allocateSlots p.kv request n [] = .ok (some new, kv, request') ∧
        st' = st₁.put kv id request'
  | 0, _, _, _, _, _, _, _, h => by cases h
  | fuel + 1, st, st', rest, res, hw, hrun, hdone, h => by
    rw [Scheduling.allocLoop, bind_eq_ok] at h
    obtain ⟨request, hreq, h⟩ := h
    rw [request_eq_ok] at hreq
    rw [bind_eq_ok] at h
    obtain ⟨⟨res₁, kv, request'⟩, halloc, h⟩ := h
    cases res₁ with
    | some new =>
      cases h
      exact Or.inr ⟨new, st, rest, request, kv, request', rfl, Relation.ReflTransGen.refl,
        ⟨rfl, rfl, rfl, rfl, rfl⟩, hrun, Nat.le_refl _, hreq, halloc, rfl⟩
    | none =>
      obtain ⟨hm₁, hs₁, hr₁, -⟩ := refused available hw hreq halloc
      simp only [bind_eq_ok] at h
      obtain ⟨⟨id', st₂⟩, hp, h⟩ := h
      have hw₁ := hm₁.wf hw
      obtain ⟨hm₂, hne, hrest⟩ := preempted_move available hw₁ (hr₁.trans hrun)
        (by rw [hs₁.tokens]; exact hdone) hp
      have hmoves : Moves p available st st₂ :=
        (Relation.ReflTransGen.single hm₁).tail hm₂
      by_cases he : id' = id
      · rw [if_pos he] at h
        cases h
        exact Or.inl ⟨rfl, hmoves, hne⟩
      · rw [if_neg he] at h
        obtain ⟨hs₂, rest', hr₂, hlt⟩ := hrest he
        obtain ⟨h1, h2, h3⟩ | ⟨new, st₃, rest₃, r₃, kv₃, r₃', h1, h2, h3, h4, hle, h5⟩ :=
          allocLoop_moves available (hm₂.wf hw₁) hr₂
            (by rw [hs₂.tokens, hs₁.tokens]; exact hdone) h
        · exact Or.inl ⟨h1, hmoves.trans h2, h3⟩
        · exact Or.inr ⟨new, st₃, rest₃, r₃, kv₃, r₃', h1, hmoves.trans h2,
            (hs₁.trans hs₂).trans h3, h4, by omega, h5⟩

/-- What `_try_schedule_encoder_inputs` reads of the scheduler. -/
theorem encoderLoop_congr {s s' : Scheduler} (h : s'.encoderCacheManager = s.encoderCacheManager)
    (request : Request) (nc : ℕ) : ∀ (poss : List PlaceholderRange) (i : ℕ) (inputs : List ℕ)
      (n eb : ℤ), s'.encoderLoop available request nc poss i inputs n eb =
        s.encoderLoop available request nc poss i inputs n eb
  | [], _, _, _, _ => rfl
  | pos :: rest, i, inputs, n, eb => by
    simp only [Scheduler.encoderLoop, h, encoderLoop_congr h request nc rest]

theorem tryScheduleEncoderInputs_congr {s s' : Scheduler}
    (h : s'.encoderCacheManager = s.encoderCacheManager) (request : Request) (nc : ℕ) (n eb : ℤ) :
    s'.tryScheduleEncoderInputs available request nc n eb =
      s.tryScheduleEncoderInputs available request nc n eb := by
  unfold Scheduler.tryScheduleEncoderInputs
  rw [encoderLoop_congr h]

/-- One round of the loop over `running` that reaches the allocation. -/
theorem tryRunning_moves {st st' : Scheduling} (h : st.WF p) {id : ReqId} {request : Request}
    {done rest : List ReqId} {inputs : List ℕ} {n eb : ℤ} {can : Bool}
    (hrun : st.sched.running = done ++ id :: rest)
    (hdone : ∀ x ∈ st.numScheduledTokens.keys, x ∈ done)
    (hreq : st.sched.requests.get? id = some request)
    (hpos : 0 < min ((request.numTokens : ℤ) - request.numComputedTokens) st.tokenBudget)
    (htry : st.sched.tryScheduleEncoderInputs available request request.numComputedTokens
      (min ((request.numTokens : ℤ) - request.numComputedTokens) st.tokenBudget)
      st.encoderBudget = .ok (inputs, n, eb)) (hn : n ≠ 0)
    (hr : Scheduling.tryRunning p st id inputs n eb = .ok (can, st')) :
    Moves p available st st' ∧ (can = false → st'.preemptedReqs ≠ []) ∧
      (can = true → ∃ rest', st'.sched.running = done ++ id :: rest' ∧
        rest'.length ≤ rest.length ∧ ∀ x ∈ st'.numScheduledTokens.keys, x ∈ done ++ [id]) := by
  unfold Scheduling.tryRunning at hr
  rw [bind_eq_ok] at hr
  obtain ⟨⟨res, st₂⟩, hal, hr⟩ := hr
  obtain ⟨rfl, hm, hne⟩ | ⟨new, st₁, rest', r₁, kv, r', rfl, hm, hs, hrun₁, hlen, hreq₁, halloc,
    rfl⟩ := allocLoop_moves available h hrun hdone hal
  · cases hr
    exact ⟨hm, fun _ => hne, fun hc => Bool.noConfusion hc⟩
  · obtain rfl : request = r₁ := Option.some.inj ((hreq.symm.trans hs.request.symm).trans hreq₁)
    simp only [bind_eq_ok] at hr
    obtain ⟨st₃, hst, hr⟩ := hr
    cases hr
    have hw₁ := hm.wf h
    have hns : id ∉ st₁.numScheduledTokens.keys := by
      intro hk
      rw [hs.tokens] at hk
      have hnd := h.sched.running_nodup
      rw [hrun] at hnd
      exact (List.nodup_append.mp hnd).2.2 id (hdone id hk) id List.mem_cons_self rfl
    have hgrant : Move p available st₁ st' := by
      refine Move.grant (by rw [hrun₁]; simp) hns hreq₁ (by rw [hs.tokenBudget]; exact hpos) ?_ hn
        halloc hst
      rw [tryScheduleEncoderInputs_congr hs.ecm, hs.tokenBudget, hs.encoderBudget]
      exact htry
    refine ⟨hm.tail hgrant, fun hc => Bool.noConfusion hc, fun _ => ⟨rest', ?_, hlen, ?_⟩⟩
    · obtain ⟨ecm, -, rfl⟩ := scheduleRunning_eq_ok hst
      exact hrun₁
    · obtain ⟨ecm, -, rfl⟩ := scheduleRunning_eq_ok hst
      obtain ⟨hs', rfl⟩ := KVCacheManager.allocateSlots_request halloc
      intro x hx
      change x ∈ (st₁.numScheduledTokens.set request.requestId n.toNat).keys at hx
      rw [Dict.mem_keys_set, hw₁.sched.requestId id request hreq₁, hs.tokens] at hx
      rw [List.mem_append, List.mem_singleton]
      exact hx.elim Or.inr fun h' => Or.inl (hdone x h')

/-- **The loop over the running requests is a sequence of moves.** -/
theorem runningLoop_moves : ∀ {fuel : ℕ} {st st' : Scheduling} {done rest : List ReqId}, st.WF p →
    st.sched.running = done ++ rest → (∀ x ∈ st.numScheduledTokens.keys, x ∈ done) →
    Scheduling.runningLoop p available fuel done.length st = .ok st' → Moves p available st st' := by
  intro fuel
  induction fuel with
  | zero =>
    intro st st' done rest hw hrun hdone h
    unfold Scheduling.runningLoop at h
    split at h
    · cases h; exact Relation.ReflTransGen.refl
    · split_ifs at h
      cases h; exact Relation.ReflTransGen.refl
  | succ fuel ih =>
    intro st st' done rest hw hrun hdone h
    unfold Scheduling.runningLoop at h
    split at h
    · cases h; exact Relation.ReflTransGen.refl
    · rename_i id hid
      by_cases hb : st.tokenBudget ≤ 0
      · rw [if_pos hb] at h
        cases h; exact Relation.ReflTransGen.refl
      rw [if_neg hb] at h
      obtain ⟨rest, rfl⟩ : ∃ rest', rest = id :: rest' := by
        rw [hrun, List.getElem?_append_right (Nat.le_refl _), Nat.sub_self] at hid
        cases rest with
        | nil => cases hid
        | cons x rest' => cases hid; exact ⟨rest', rfl⟩
      simp only [bind_eq_ok] at h
      obtain ⟨request, hreq, _, hpos, ⟨inputs, n, eb⟩, htry, h⟩ := h
      rw [request_eq_ok] at hreq
      rw [assert_eq_ok] at hpos
      by_cases hn : n = 0
      · rw [if_pos hn] at h
        have hrun' : st.sched.running = (done ++ [id]) ++ rest := by rw [hrun]; simp
        rw [show done.length + 1 = (done ++ [id]).length by simp] at h
        exact ih hw hrun' (fun x hx => List.mem_append_left _ (hdone x hx)) h
      · rw [if_neg hn, bind_eq_ok] at h
        obtain ⟨⟨can, st₁⟩, hr, h⟩ := h
        obtain ⟨hm, -, hcan⟩ := tryRunning_moves hw hrun hdone hreq hpos htry hn hr
        cases can with
        | false => cases h; exact hm
        | true =>
          obtain ⟨rest', hrun', -, hdone'⟩ := hcan rfl
          rw [show done.length + 1 = (done ++ [id]).length by simp] at h
          have hrun'' : st₁.sched.running = (done ++ [id]) ++ rest' := by rw [hrun']; simp
          exact hm.trans (ih (hm.wf hw) hrun'' hdone' h)

/-- **The loop over the waiting requests is a sequence of moves.** -/
theorem waitingLoop_moves : ∀ {w : List ReqId} {st st' : Scheduling}, st.WF p →
    st.sched.waiting = w → st.preemptedReqs = [] →
    Scheduling.waitingLoop p available w st = .ok st' → Moves p available st st'
  | [], st, st', _, _, _, h => by cases h; exact Relation.ReflTransGen.refl
  | id :: rest, st, st', hw, hwait, hpre, h => by
    rw [Scheduling.waitingLoop] at h
    by_cases hb : st.tokenBudget ≤ 0 ∨ st.sched.running.length = p.maxNumRunningReqs
    · rw [if_pos hb] at h
      cases h; exact Relation.ReflTransGen.refl
    rw [if_neg hb] at h
    simp only [bind_eq_ok] at h
    obtain ⟨⟨computed, nc, request, st₁⟩, hc, _, hpos, ⟨inputs, n, eb⟩, htry, h⟩ := h
    rw [assert_eq_ok] at hpos
    have hlook : Move p available st st₁ := Move.lookup hwait hc
    obtain ⟨hw₁, hreq₁⟩ := hw.lookup hc
    by_cases hn : n = 0
    · rw [if_pos hn] at h
      cases h
      exact Relation.ReflTransGen.single hlook
    rw [if_neg hn, bind_eq_ok] at h
    obtain ⟨⟨res, kv, request'⟩, halloc, h⟩ := h
    cases res with
    | none =>
      cases h
      exact (Relation.ReflTransGen.single hlook).tail (refused available hw₁ hreq₁ halloc).1
    | some new =>
      simp only [bind_eq_ok] at h
      obtain ⟨st₂, hst, h⟩ := h
      have henter : Move p available st st₂ :=
        Move.enter hwait hpre (fun e => hb (Or.inr e)) hc hpos htry hn halloc hst
      have hw₂ := henter.wf hw
      obtain ⟨-, ecm, -, rfl⟩ := scheduleWaiting_eq_ok hst
      obtain ⟨request₀, bs, -, -, rfl, -⟩ := cachedPrefix_eq_ok hc
      refine Relation.ReflTransGen.trans (Relation.ReflTransGen.single henter)
        (waitingLoop_moves hw₂ ?_ hpre h)
      change st.sched.waiting.tail = rest
      rw [hwait, List.tail_cons]

/-- **The loops of `schedule` are a sequence of moves.** -/
theorem loops_moves {s : Scheduler} (h : s.WF p) {st : Scheduling}
    (hl : Scheduling.loops p available s = .ok st) :
    Moves p available (Scheduling.start p s) st := by
  unfold Scheduling.loops at hl
  rw [bind_eq_ok] at hl
  obtain ⟨st₁, h₁, hl⟩ := hl
  have hst := Scheduling.WF.start h
  have hm := runningLoop_moves hst (show _ = [] ++ s.running from rfl) (fun x hx => by cases hx) h₁
  by_cases hp : st₁.preemptedReqs = []
  · rw [if_pos hp] at hl
    exact hm.trans (waitingLoop_moves (hm.wf hst) rfl hp hl)
  · rw [if_neg hp] at hl
    cases hl
    exact hm

/-- How a call of `schedule` that returned has run: moves, then the output is read off. -/
theorem schedule_eq_ok {s s' : Scheduler} (h : s.WF p) {out : SchedulerOutput}
    (hs : s.schedule p available = .ok (out, s')) :
    ∃ st₀ st newReqs resumedReqs runningReqs, Scheduling.loops p available s = .ok st₀ ∧
      st = { st₀ with sched := { st₀.sched with kv := st.sched.kv } } ∧
      Moves p available (Scheduling.start p s) st ∧ st.WF p ∧
      s' = { st.sched with
        finishedReqIds := []
        cachedReqsData := out.scheduledCachedReqs.foldl Scheduling.keepRequestData
          st.sched.cachedReqsData
        encoderCacheManager := { st.sched.encoderCacheManager with freed := [] } } ∧
      out.numScheduledTokens = st.numScheduledTokens ∧
      out.totalNumScheduledTokens = st.totalTokens ∧
      out.scheduledEncoderInputs = st.scheduledEncoderInputs ∧
      out.finishedReqIds = st.sched.finishedReqIds ∧
      out.freeEncoderInputIds = st.sched.encoderCacheManager.freed ∧
      st.scheduledNewReqs.mapM st.withBlocks = .ok newReqs ∧
      st.scheduledResumedReqs.mapM st.withBlocks = .ok resumedReqs ∧
      st.scheduledRunningReqs.mapM st.withBlocks = .ok runningReqs ∧
      out.scheduledNewReqs = (newReqs.map fun x => .fromRequest x.1 x.2) ∧
      out.scheduledCachedReqs = (resumedReqs.map fun x => .fromRequest x.1 true x.2) ++
        runningReqs.map fun x => .fromRequest x.1 false x.2 := by
  unfold Scheduler.schedule at hs
  simp only [bind_eq_ok] at hs
  obtain ⟨st₀, hl, _, -, ⟨k, st⟩, hc, ho⟩ := hs
  have hm₀ := loops_moves h hl
  have hm : st = { st₀ with sched := { st₀.sched with kv := st.sched.kv } } ∧
      Moves p available (Scheduling.start p s) st := by
    unfold Scheduling.commonPrefix at hc
    split at hc
    · cases hc; exact ⟨rfl, hm₀⟩
    · rename_i id hid
      simp only [bind_eq_ok] at hc
      obtain ⟨request, hreq, ⟨n, kv⟩, hn, hc⟩ := hc
      cases hc
      rw [request_eq_ok] at hreq
      unfold KVCacheManager.getNumCommonPrefixBlocks at hn
      rw [bind_eq_ok] at hn
      obtain ⟨_, -, hn⟩ := hn
      cases hn
      rw [(hm₀.wf (Scheduling.WF.start h)).sched.requestId id request hreq]
      exact ⟨rfl, hm₀.tail (Move.reserve (Dict.mem_keys_of_get? hreq))⟩
  obtain ⟨heq, hm⟩ := hm
  unfold Scheduling.output at ho
  simp only [bind_eq_ok] at ho
  obtain ⟨newReqs, h1, resumedReqs, h2, runningReqs, h3, ho⟩ := ho
  cases ho
  exact ⟨st₀, st, newReqs, resumedReqs, runningReqs, hl, heq, hm, hm.wf (Scheduling.WF.start h), rfl,
    rfl, rfl, rfl, rfl, rfl, h1, h2, h3, rfl, rfl⟩

/-- A request that is scheduled gets at least one token. -/
theorem Move.tokens_pos {st st' : Scheduling} (hm : Move p available st st')
    (h : ∀ id n, st.numScheduledTokens.get? id = some n → 0 < n) :
    ∀ id n, st'.numScheduledTokens.get? id = some n → 0 < n := by
  have hset : ∀ {d : Dict ReqId ℕ} {k : ReqId} {v : ℕ}, (∀ id n, d.get? id = some n → 0 < n) →
      0 < v → ∀ id n, (d.set k v).get? id = some n → 0 < n := by
    intro d k v hd hv id n hg
    rw [Dict.get?_set] at hg
    split_ifs at hg
    · cases hg; exact hv
    · exact hd id n hg
  cases hm with
  | reserve => exact h
  | preempt => exact h
  | grant _ _ _ hpos htry hn _ hst =>
    obtain ⟨ecm, -, rfl⟩ := scheduleRunning_eq_ok hst
    have := tryScheduleEncoderInputs_le (by omega) htry
    exact hset h (by omega)
  | lookup _ hc =>
    obtain ⟨_, _, -, -, rfl, -⟩ := cachedPrefix_eq_ok hc
    exact h
  | enter _ _ _ hc hpos htry hn _ hst =>
    have := tryScheduleEncoderInputs_le (by omega) htry
    obtain ⟨_, _, -, -, rfl, -⟩ := cachedPrefix_eq_ok hc
    obtain ⟨-, ecm, -, rfl⟩ := scheduleWaiting_eq_ok hst
    exact hset h (by omega)

theorem Moves.tokens_pos {s : Scheduler} {st : Scheduling}
    (hm : Moves p available (Scheduling.start p s) st) :
    ∀ id n, st.numScheduledTokens.get? id = some n → 0 < n :=
  hm.invariant (P := fun st => ∀ id n, st.numScheduledTokens.get? id = some n → 0 < n)
    (fun _ _ h hm => hm.tokens_pos h) (fun _ _ hg => by cases hg)

end Loops

end SpaceServe
