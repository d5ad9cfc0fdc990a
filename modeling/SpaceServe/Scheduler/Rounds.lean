import SpaceServe.Scheduler.Loops

/-!
# The rounds of the scheduling loops

Both loops of `schedule` look at one request after the other. `RunningLook` and `WaitingLook` say in
which local state a loop looks at a request and what it finds for it; a round either ends the loop or
leads to the next one.

* `RunningLook`, `RunningRound`, `RunningEnd`: the loop over `running`;
* `WaitingLook`, `WaitingRound`, `WaitingEnd`: the loop over `waiting`;
* `AtRunning`, `AtWaiting`: the local states of a call in which a round begins;
* **`runningLoop_rounds`**, **`waitingLoop_rounds`**, **`loops_rounds`**: the loops are rounds;
* `AtRunning.moves`, `AtWaiting.moves`: rounds are moves;
* `tryRunning_inputs`: what a round does to the encoder cache.
-/

set_option autoImplicit false

namespace SpaceServe

open Py

section Rounds

variable (p : SchedulerParams) (available : ReqId → ℕ → Bool)

/-- The loop over `running` looks at its request number `i`: the inputs, the number of tokens and the
budget that `_try_schedule_encoder_inputs` returns. -/
structure RunningLook (i : ℕ) (st : Scheduling) (id : ReqId) (request : Request) (inputs : List ℕ)
    (n eb : ℤ) : Prop where
  here : st.sched.running[i]? = some id
  budget : 0 < st.tokenBudget
  known : st.sched.requests.get? id = some request
  behind : 0 < min ((request.numTokens : ℤ) - request.numComputedTokens) st.tokenBudget
  tries : st.sched.tryScheduleEncoderInputs available request request.numComputedTokens
    (min ((request.numTokens : ℤ) - request.numComputedTokens) st.tokenBudget) st.encoderBudget =
      .ok (inputs, n, eb)

/-- A round of the loop over `running` that leads to the next one. -/
inductive RunningRound : ℕ × Scheduling → ℕ × Scheduling → Prop
  /-- The request gets no tokens in this step. -/
  | pass {i : ℕ} {st : Scheduling} {id : ReqId} {request : Request} {inputs : List ℕ} {eb : ℤ} :
      RunningLook available i st id request inputs 0 eb → RunningRound (i, st) (i + 1, st)
  /-- The request gets its slots. -/
  | take {i : ℕ} {st st' : Scheduling} {id : ReqId} {request : Request} {inputs : List ℕ} {n eb : ℤ} :
      RunningLook available i st id request inputs n eb → n ≠ 0 →
      st.tryRunning p id inputs n eb = .ok (true, st') → RunningRound (i, st) (i + 1, st')

/-- How the loop over `running` ends. -/
inductive RunningEnd : ℕ × Scheduling → Scheduling → Prop
  | ended {i : ℕ} {st : Scheduling} : st.sched.running[i]? = none ∨ st.tokenBudget ≤ 0 →
      RunningEnd (i, st) st
  /-- The request was preempted itself. -/
  | preempted {i : ℕ} {st st' : Scheduling} {id : ReqId} {request : Request} {inputs : List ℕ}
      {n eb : ℤ} : RunningLook available i st id request inputs n eb → n ≠ 0 →
      st.tryRunning p id inputs n eb = .ok (false, st') → RunningEnd (i, st) st'

/-- The loop over `waiting` looks at the first request: the cached prefix, and what
`_try_schedule_encoder_inputs` returns. -/
structure WaitingLook (st : Scheduling) (id : ReqId) (rest : List ReqId) (computed : List ℕ) (nc : ℕ)
    (request : Request) (st₁ : Scheduling) (inputs : List ℕ) (n eb : ℤ) : Prop where
  here : st.sched.waiting = id :: rest
  budget : 0 < st.tokenBudget
  room : st.sched.running.length ≠ p.maxNumRunningReqs
  lookup : st.cachedPrefix p id = .ok (computed, nc, request, st₁)
  behind : 0 < min ((request.numTokens : ℤ) - nc) st₁.tokenBudget
  tries : st₁.sched.tryScheduleEncoderInputs available request nc
    (min ((request.numTokens : ℤ) - nc) st₁.tokenBudget) st₁.encoderBudget = .ok (inputs, n, eb)

/-- A round of the loop over `waiting` that leads to the next one. -/
inductive WaitingRound : Scheduling → Scheduling → Prop
  | take {st st₁ st' : Scheduling} {id : ReqId} {rest : List ReqId} {computed : List ℕ} {nc : ℕ}
      {request request' : Request} {inputs : List ℕ} {n eb : ℤ} {new : List ℕ} {kv : KVCacheManager} :
      WaitingLook p available st id rest computed nc request st₁ inputs n eb → n ≠ 0 →
      st₁.sched.kv.allocateSlots p.kv request n.toNat computed = .ok (some new, kv, request') →
      (st₁.put kv id request').scheduleWaiting id request' computed new nc n.toNat inputs eb =
        .ok st' → WaitingRound st st'

/-- How the loop over `waiting` ends. -/
inductive WaitingEnd : Scheduling → Scheduling → Prop
  | ended {st : Scheduling} : st.sched.waiting = [] ∨ st.tokenBudget ≤ 0 ∨
      st.sched.running.length = p.maxNumRunningReqs → WaitingEnd st st
  /-- The request gets no tokens in this step. -/
  | pass {st st₁ : Scheduling} {id : ReqId} {rest : List ReqId} {computed : List ℕ} {nc : ℕ}
      {request : Request} {inputs : List ℕ} {eb : ℤ} :
      WaitingLook p available st id rest computed nc request st₁ inputs 0 eb → WaitingEnd st st₁
  /-- There are too few free blocks. -/
  | refused {st st₁ : Scheduling} {id : ReqId} {rest : List ReqId} {computed : List ℕ} {nc : ℕ}
      {request request' : Request} {inputs : List ℕ} {n eb : ℤ} {kv : KVCacheManager} :
      WaitingLook p available st id rest computed nc request st₁ inputs n eb → n ≠ 0 →
      st₁.sched.kv.allocateSlots p.kv request n.toNat computed = .ok (none, kv, request') →
      WaitingEnd st (st₁.put kv id request')

/-- A call of `schedule` begins round `i` of its loop over `running` in the local state `st`. -/
def AtRunning (s : Scheduler) (i : ℕ) (st : Scheduling) : Prop :=
  Relation.ReflTransGen (RunningRound p available) (0, Scheduling.start p s) (i, st)

/-- A call of `schedule` begins a round of its loop over `waiting` in the local state `st`. -/
def AtWaiting (s : Scheduler) (st : Scheduling) : Prop :=
  ∃ i st₀ st₁, AtRunning p available s i st₀ ∧ RunningEnd p available (i, st₀) st₁ ∧
    st₁.preemptedReqs = [] ∧ Relation.ReflTransGen (WaitingRound p available) st₁ st

end Rounds

section

variable {p : SchedulerParams} {available : ReqId → ℕ → Bool}

/-- A lookup leaves the encoder cache and the budgets alone. -/
theorem cachedPrefix_local {st st₁ : Scheduling} {id : ReqId} {computed : List ℕ} {nc : ℕ}
    {request : Request} (h : st.cachedPrefix p id = .ok (computed, nc, request, st₁)) :
    st₁.sched.encoderCacheManager = st.sched.encoderCacheManager ∧
      st₁.tokenBudget = st.tokenBudget ∧ st₁.encoderBudget = st.encoderBudget := by
  obtain ⟨_, _, -, -, rfl, -⟩ := cachedPrefix_eq_ok h
  exact ⟨rfl, rfl, rfl⟩

theorem WaitingLook.tries_before {st st₁ : Scheduling} {id : ReqId} {rest : List ReqId}
    {computed : List ℕ} {nc : ℕ} {request : Request} {inputs : List ℕ} {n eb : ℤ}
    (h : WaitingLook p available st id rest computed nc request st₁ inputs n eb) :
    st.sched.tryScheduleEncoderInputs available request nc
      (min ((request.numTokens : ℤ) - nc) st.tokenBudget) st.encoderBudget = .ok (inputs, n, eb) := by
  obtain ⟨h1, h2, h3⟩ := cachedPrefix_local h.lookup
  have htry := h.tries
  rw [tryScheduleEncoderInputs_congr h1, h2, h3] at htry
  exact htry

/-- **The loop over the running requests is a sequence of rounds.** -/
theorem runningLoop_rounds : ∀ {fuel i : ℕ} {st st' : Scheduling},
    Scheduling.runningLoop p available fuel i st = .ok st' →
    ∃ x, Relation.ReflTransGen (RunningRound p available) (i, st) x ∧ RunningEnd p available x st' := by
  intro fuel
  induction fuel with
  | zero =>
    intro i st st' h
    unfold Scheduling.runningLoop at h
    split at h
    · rename_i hnone
      cases h
      exact ⟨_, .refl, .ended (Or.inl hnone)⟩
    · split_ifs at h with hb
      cases h
      exact ⟨_, .refl, .ended (Or.inr hb)⟩
  | succ fuel ih =>
    intro i st st' h
    unfold Scheduling.runningLoop at h
    split at h
    · rename_i hnone
      cases h
      exact ⟨_, .refl, .ended (Or.inl hnone)⟩
    rename_i id hid
    by_cases hb : st.tokenBudget ≤ 0
    · rw [if_pos hb] at h
      cases h
      exact ⟨_, .refl, .ended (Or.inr hb)⟩
    rw [if_neg hb] at h
    simp only [bind_eq_ok] at h
    obtain ⟨request, hreq, _, hpos, ⟨inputs, n, eb⟩, htry, h⟩ := h
    rw [request_eq_ok] at hreq
    rw [assert_eq_ok] at hpos
    have hlook : RunningLook available i st id request inputs n eb :=
      ⟨hid, by omega, hreq, hpos, htry⟩
    by_cases hn : n = 0
    · rw [if_pos hn] at h
      subst hn
      obtain ⟨x, hx, hend⟩ := ih h
      exact ⟨x, Relation.ReflTransGen.head (.pass hlook) hx, hend⟩
    · rw [if_neg hn, bind_eq_ok] at h
      obtain ⟨⟨can, st₁⟩, hr, h⟩ := h
      cases can with
      | false =>
        cases h
        exact ⟨_, .refl, .preempted hlook hn hr⟩
      | true =>
        obtain ⟨x, hx, hend⟩ := ih h
        exact ⟨x, Relation.ReflTransGen.head (.take hlook hn hr) hx, hend⟩

/-- **The loop over the waiting requests is a sequence of rounds.** -/
theorem waitingLoop_rounds : ∀ {w : List ReqId} {st st' : Scheduling}, st.sched.waiting = w →
    Scheduling.waitingLoop p available w st = .ok st' →
    ∃ st₁, Relation.ReflTransGen (WaitingRound p available) st st₁ ∧ WaitingEnd p available st₁ st'
  | [], st, st', hw, h => by
    cases h
    exact ⟨st, .refl, .ended (Or.inl hw)⟩
  | id :: rest, st, st', hw, h => by
    rw [Scheduling.waitingLoop] at h
    by_cases hb : st.tokenBudget ≤ 0 ∨ st.sched.running.length = p.maxNumRunningReqs
    · rw [if_pos hb] at h
      cases h
      exact ⟨st, .refl, .ended (Or.inr hb)⟩
    rw [if_neg hb] at h
    rw [not_or, not_le] at hb
    simp only [bind_eq_ok] at h
    obtain ⟨⟨computed, nc, request, st₁⟩, hc, _, hpos, ⟨inputs, n, eb⟩, htry, h⟩ := h
    rw [assert_eq_ok] at hpos
    have hlook : WaitingLook p available st id rest computed nc request st₁ inputs n eb :=
      ⟨hw, hb.1, hb.2, hc, hpos, htry⟩
    by_cases hn : n = 0
    · rw [if_pos hn] at h
      subst hn
      cases h
      exact ⟨st, .refl, .pass hlook⟩
    rw [if_neg hn, bind_eq_ok] at h
    obtain ⟨⟨res, kv, request'⟩, halloc, h⟩ := h
    cases res with
    | none =>
      cases h
      exact ⟨st, .refl, .refused hlook hn halloc⟩
    | some new =>
      simp only [bind_eq_ok] at h
      obtain ⟨st₂, hst, h⟩ := h
      have hround : WaitingRound p available st st₂ := .take hlook hn halloc hst
      have hw₂ : st₂.sched.waiting = rest := by
        obtain ⟨-, ecm, -, rfl⟩ := scheduleWaiting_eq_ok hst
        change st₁.sched.waiting.tail = rest
        rw [cachedPrefix_waiting hc, hw, List.tail_cons]
      obtain ⟨st₃, hx, hend⟩ := waitingLoop_rounds hw₂ h
      exact ⟨st₃, Relation.ReflTransGen.head hround hx, hend⟩

/-- **The two loops of a call of `schedule`.** -/
theorem loops_rounds {s : Scheduler} {st : Scheduling}
    (h : Scheduling.loops p available s = .ok st) :
    ∃ i st₀ st₁, AtRunning p available s i st₀ ∧ RunningEnd p available (i, st₀) st₁ ∧
      ((st₁.preemptedReqs ≠ [] ∧ st = st₁) ∨ (st₁.preemptedReqs = [] ∧
        ∃ st₂, Relation.ReflTransGen (WaitingRound p available) st₁ st₂ ∧
          WaitingEnd p available st₂ st)) := by
  unfold Scheduling.loops at h
  rw [bind_eq_ok] at h
  obtain ⟨st₁, h₁, h⟩ := h
  obtain ⟨⟨i, st₀⟩, hx, hend⟩ := runningLoop_rounds h₁
  refine ⟨i, st₀, st₁, hx, hend, ?_⟩
  by_cases hpre : st₁.preemptedReqs = []
  · rw [if_pos hpre] at h
    exact Or.inr ⟨hpre, waitingLoop_rounds rfl h⟩
  · rw [if_neg hpre] at h
    cases h
    exact Or.inl ⟨hpre, rfl⟩

/-! ## Rounds are moves -/

/-- What holds where the loop over `running` begins a round: it has passed `i` requests, and those it
scheduled are among them. -/
structure Passed (i : ℕ) (st : Scheduling) (before after : List ReqId) : Prop where
  running : st.sched.running = before ++ after
  length : before.length = i
  scheduled : ∀ x ∈ st.numScheduledTokens.keys, x ∈ before

/-- The request looked at comes after those that were passed. -/
theorem Passed.look {i : ℕ} {st : Scheduling} {before after : List ReqId}
    (h : Passed i st before after) {id : ReqId} (hid : st.sched.running[i]? = some id) :
    ∃ rest, st.sched.running = before ++ id :: rest := by
  rw [h.running, ← h.length, List.getElem?_append_right (Nat.le_refl _), Nat.sub_self] at hid
  cases after with
  | nil => cases hid
  | cons x rest =>
    cases hid
    exact ⟨rest, h.running⟩

theorem RunningRound.moves {x y : ℕ × Scheduling} (hr : RunningRound p available x y)
    (hw : x.2.WF p) {before after : List ReqId} (hp : Passed x.1 x.2 before after) :
    Moves p available x.2 y.2 ∧ ∃ before' after', Passed y.1 y.2 before' after' := by
  cases hr with
  | @pass i st id _ _ _ hlook =>
    obtain ⟨rest, hrest⟩ := hp.look hlook.here
    refine ⟨Relation.ReflTransGen.refl, before ++ [id], rest, ?_, ?_, fun x hx => ?_⟩
    · rw [List.append_assoc]
      exact hrest
    · rw [List.length_append, hp.length]
      rfl
    · exact List.mem_append_left _ (hp.scheduled x hx)
  | @take i st st' id _ _ _ _ hlook hn htry =>
    obtain ⟨rest, hrest⟩ := hp.look hlook.here
    obtain ⟨hm, -, hcan⟩ := tryRunning_moves hw hrest hp.scheduled hlook.known hlook.behind
      hlook.tries hn htry
    obtain ⟨rest', hrun', -, hsched⟩ := hcan rfl
    refine ⟨hm, before ++ [id], rest', ?_, ?_, hsched⟩
    · rw [List.append_assoc]
      exact hrun'
    · rw [List.length_append, hp.length]
      rfl

/-- Allocating slots for a request leaves the encoder cache alone. -/
theorem allocLoop_ecm {id : ReqId} {n : ℕ} : ∀ {fuel : ℕ} {st st' : Scheduling}
    {res : Option (List ℕ)}, Scheduling.allocLoop p id n fuel st = .ok (res, st') →
    st'.sched.encoderCacheManager = st.sched.encoderCacheManager
  | 0, _, _, _, h => by cases h
  | fuel + 1, st, st', res, h => by
    rw [Scheduling.allocLoop, bind_eq_ok] at h
    obtain ⟨request, -, h⟩ := h
    rw [bind_eq_ok] at h
    obtain ⟨⟨res₁, kv, request'⟩, -, h⟩ := h
    cases res₁ with
    | some new =>
      cases h
      rfl
    | none =>
      simp only [bind_eq_ok] at h
      obtain ⟨⟨id', st₂⟩, hp, h⟩ := h
      obtain ⟨r, kv', -, -, -, rfl⟩ := preemptLast_eq_ok hp
      split_ifs at h
      · cases h
        rfl
      · have ih := allocLoop_ecm h
        exact ih

/-- What a round does to the encoder cache: the inputs of the request are allocated if it gets its
slots. -/
theorem tryRunning_inputs {st st' : Scheduling} (hw : st.WF p) {id : ReqId} {request : Request}
    {before rest : List ReqId} {inputs : List ℕ} {n eb : ℤ} {can : Bool}
    (hrun : st.sched.running = before ++ id :: rest)
    (hsched : ∀ x ∈ st.numScheduledTokens.keys, x ∈ before)
    (hreq : st.sched.requests.get? id = some request)
    (h : Scheduling.tryRunning p st id inputs n eb = .ok (can, st')) :
    (can = false ∧ st'.sched.encoderCacheManager = st.sched.encoderCacheManager) ∨
    (can = true ∧ ∃ hs, inputs.foldlM (fun m i => m.allocate (request.setKvBlockHashes hs) i)
      st.sched.encoderCacheManager = .ok st'.sched.encoderCacheManager) := by
  unfold Scheduling.tryRunning at h
  rw [bind_eq_ok] at h
  obtain ⟨⟨res, st₂⟩, hal, h⟩ := h
  have hecm := allocLoop_ecm hal
  obtain ⟨rfl, -, -⟩ | ⟨new, st₁, rest', r₁, kv, r', rfl, -, hs, -, -, hreq₁, halloc, rfl⟩ :=
    allocLoop_moves (fun _ _ => false) hw hrun hsched hal
  · cases h
    exact Or.inl ⟨rfl, hecm⟩
  · obtain rfl : request = r₁ := Option.some.inj ((hreq.symm.trans hs.request.symm).trans hreq₁)
    simp only [bind_eq_ok] at h
    obtain ⟨st₃, hst, h⟩ := h
    cases h
    obtain ⟨ecm, hf, rfl⟩ := scheduleRunning_eq_ok hst
    obtain ⟨hs', rfl⟩ := KVCacheManager.allocateSlots_request halloc
    exact Or.inr ⟨rfl, hs', by rw [← hs.ecm]; exact hf⟩

/-- The states where a round over `running` begins are reached by moves. -/
theorem AtRunning.moves {s : Scheduler} (hw : s.WF p) {i : ℕ} {st : Scheduling}
    (h : AtRunning p available s i st) : Moves p available (Scheduling.start p s) st ∧ st.WF p ∧
      ∃ before after, Passed i st before after := by
  have hst := Scheduling.WF.start hw
  have hind : ∀ x : ℕ × Scheduling,
      Relation.ReflTransGen (RunningRound p available) (0, Scheduling.start p s) x →
      Moves p available (Scheduling.start p s) x.2 ∧
        ∃ before after, Passed x.1 x.2 before after := by
    intro x hx
    induction hx with
    | refl => exact ⟨Relation.ReflTransGen.refl, [], s.running, rfl, rfl, fun x hx => by cases hx⟩
    | tail _ hr ih =>
      obtain ⟨hm, before, after, hp⟩ := ih
      obtain ⟨hm', hp'⟩ := hr.moves (hm.wf hst) hp
      exact ⟨hm.trans hm', hp'⟩
  obtain ⟨hm, hp⟩ := hind (i, st) h
  exact ⟨hm, hm.wf hst, hp⟩

theorem RunningEnd.moves {i : ℕ} {st st' : Scheduling} (hr : RunningEnd p available (i, st) st')
    (hw : st.WF p) {before after : List ReqId} (hp : Passed i st before after) :
    Moves p available st st' := by
  cases hr with
  | ended => exact Relation.ReflTransGen.refl
  | preempted hlook hn htry =>
    obtain ⟨rest, hrest⟩ := hp.look hlook.here
    exact (tryRunning_moves hw hrest hp.scheduled hlook.known hlook.behind hlook.tries hn htry).1

theorem WaitingRound.move {st st' : Scheduling} (hr : WaitingRound p available st st')
    (hpre : st.preemptedReqs = []) : Move p available st st' ∧ st'.preemptedReqs = [] := by
  cases hr with
  | take hlook hn halloc hst =>
    refine ⟨Move.enter hlook.here hpre hlook.room hlook.lookup hlook.behind hlook.tries hn halloc hst,
      ?_⟩
    obtain ⟨-, ecm, -, rfl⟩ := scheduleWaiting_eq_ok hst
    obtain ⟨_, _, -, -, rfl, -⟩ := cachedPrefix_eq_ok hlook.lookup
    exact hpre

/-- The states where a round over `waiting` begins are reached by moves. -/
theorem AtWaiting.moves {s : Scheduler} (hw : s.WF p) {st : Scheduling}
    (h : AtWaiting p available s st) : Moves p available (Scheduling.start p s) st ∧ st.WF p ∧
      st.preemptedReqs = [] := by
  obtain ⟨i, st₀, st₁, hat, hend, hpre, hrounds⟩ := h
  obtain ⟨hm₀, hw₀, before, after, hp⟩ := hat.moves hw
  have hm₁ := hm₀.trans (hend.moves hw₀ hp)
  have hind : Moves p available (Scheduling.start p s) st ∧ st.preemptedReqs = [] := by
    induction hrounds with
    | refl => exact ⟨hm₁, hpre⟩
    | tail _ hr ih =>
      obtain ⟨hm, hpre'⟩ := hr.move ih.2
      exact ⟨ih.1.tail hm, hpre'⟩
  exact ⟨hind.1, hind.1.wf (Scheduling.WF.start hw), hind.2⟩

end

end SpaceServe
