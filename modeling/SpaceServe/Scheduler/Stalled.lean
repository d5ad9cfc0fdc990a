import SpaceServe.Scheduler.Progress

/-!
# Calls that schedule nothing

Whether a call of `schedule` schedules a token is decided by the state before it: it schedules none
if and only if every running request waits for an encoder input and no waiting request can be
admitted, or the first running request that waits for none is refused its blocks even when the
requests behind it have given back theirs.

* `Waits`, `NoneAdmitted`, `Starved`, `Stalled`: the states before such a call;
* `schedule_stalled`, `Stalled.schedule`, **`stalled_iff`**.
-/

set_option autoImplicit false

namespace SpaceServe

open Py

section Stalled

variable (p : SchedulerParams) (available : ReqId → ℕ → Bool) (s : Scheduler)

/-- The running request number `j` waits for an encoder input: `_try_schedule_encoder_inputs` gives it
no tokens. -/
def Waits (j : ℕ) : Prop :=
  ∃ id r inputs eb, RunningLook available j (Scheduling.start p s) id r inputs 0 eb

/-- No waiting request can be admitted: there is none, or no room for one, or the first one waits for
an encoder input or is refused its blocks. -/
def NoneAdmitted : Prop :=
  s.waiting = [] ∨ s.running.length = p.maxNumRunningReqs ∨
    ∃ id rest computed nc r st₁ inputs n eb,
      WaitingLook p available (Scheduling.start p s) id rest computed nc r st₁ inputs n eb ∧
      (n = 0 ∨ ∃ kv r', st₁.sched.kv.allocateSlots p.kv r n.toNat computed = .ok (none, kv, r'))

/-- The running request number `j` waits for no encoder input, but is refused its blocks, with all
requests behind it preempted. -/
def RefusedLast (j : ℕ) : Prop :=
  ∃ id r inputs n eb st, RunningLook available j (Scheduling.start p s) id r inputs n eb ∧ n ≠ 0 ∧
    Relation.ReflTransGen (PreemptRound p id n.toNat) (Scheduling.start p s) st ∧
    Refuses p st id n.toNat ∧ st.sched.running.getLast? = some id

/-- A call of `schedule` finds nothing to schedule. -/
inductive Stalled : Prop
  | noBudget : p.maxNumScheduledTokens = 0 → Stalled
  | allWait : (∀ j < s.running.length, Waits p available s j) → NoneAdmitted p available s → Stalled
  | refused {i : ℕ} : (∀ j < i, Waits p available s j) → RefusedLast p available s i → Stalled

end Stalled

section

variable {p : SchedulerParams} {available : ReqId → ℕ → Bool} {s s' : Scheduler}
  {st st' : Scheduling}

/-! ## Tokens -/

/-- What a request is scheduled for is positive. -/
def Scheduling.Positive (st : Scheduling) : Prop :=
  ∀ id n, st.numScheduledTokens.get? id = some n → 0 < n

/-- A grant of tokens. -/
theorem Scheduling.Positive.record (h : st.Positive) {request : Request} {ids : List ℕ} {n : ℕ}
    {inputs : List ℕ} {eb : ℤ} (hn : 0 < n) (hst : st.record request ids n inputs eb = .ok st') :
    st'.Positive ∧ request.requestId ∈ st'.numScheduledTokens.keys := by
  obtain ⟨ecm, -, rfl⟩ := record_eq_ok hst
  refine ⟨fun id m hm => ?_, (Dict.mem_keys_set _ _ _ _).mpr (Or.inl rfl)⟩
  change (st.numScheduledTokens.set request.requestId n).get? id = some m at hm
  rw [Dict.get?_set] at hm
  split_ifs at hm
  · cases hm
    exact hn
  · exact h id m hm

theorem RunningLook.nonneg {i : ℕ} {id : ReqId} {r : Request} {inputs : List ℕ} {n eb : ℤ}
    (h : RunningLook available i st id r inputs n eb) : 0 ≤ n :=
  (tryScheduleEncoderInputs_le h.behind.le h.tries).1

theorem WaitingLook.nonneg {st₁ : Scheduling} {id : ReqId} {rest : List ReqId} {computed : List ℕ}
    {nc : ℕ} {r : Request} {inputs : List ℕ} {n eb : ℤ}
    (h : WaitingLook p available st id rest computed nc r st₁ inputs n eb) : 0 ≤ n :=
  (tryScheduleEncoderInputs_le h.behind.le h.tries).1

theorem tryRunning_positive (h : st.Positive) {id : ReqId} {inputs : List ℕ} {n eb : ℤ} {can : Bool}
    (hn : 0 < n) (htry : st.tryRunning p id inputs n eb = .ok (can, st')) : st'.Positive := by
  unfold Scheduling.tryRunning at htry
  rw [bind_eq_ok] at htry
  obtain ⟨⟨res, st₁⟩, hal, htry⟩ := htry
  have h₁ : st₁.Positive := by
    unfold Scheduling.Positive
    rw [allocLoop_tokens hal]
    exact h
  cases res with
  | none =>
    cases htry
    exact h₁
  | some new =>
    simp only [bind_eq_ok] at htry
    obtain ⟨st₂, hst, htry⟩ := htry
    cases htry
    unfold Scheduling.scheduleRunning at hst
    rw [bind_eq_ok] at hst
    obtain ⟨r, -, hst⟩ := hst
    have hpos : 0 < n.toNat := by omega
    refine (Scheduling.Positive.record ?_ hpos hst).1
    exact h₁

/-- A round that admits a request grants it tokens. -/
theorem WaitingRound.tokens (hr : WaitingRound p available st st') :
    st'.numScheduledTokens.keys ≠ [] ∧ (st.Positive → st'.Positive) := by
  cases hr with
  | take hlook hn halloc hst =>
    have hpos := hlook.nonneg
    obtain ⟨-, ecm, -, rfl⟩ := scheduleWaiting_eq_ok hst
    obtain ⟨_, _, -, -, rfl, -⟩ := cachedPrefix_eq_ok hlook.lookup
    refine ⟨List.ne_nil_of_mem ((Dict.mem_keys_set _ _ _ _).mpr (Or.inl rfl)), fun h x m hm => ?_⟩
    change (st.numScheduledTokens.set _ _).get? x = some m at hm
    rw [Dict.get?_set] at hm
    split_ifs at hm
    · cases hm
      omega
    · exact h x m hm

theorem WaitingEnd.tokens (hr : WaitingEnd p available st st') :
    st'.numScheduledTokens = st.numScheduledTokens := by
  cases hr with
  | ended => rfl
  | pass hlook =>
    obtain ⟨_, _, -, -, rfl, -⟩ := cachedPrefix_eq_ok hlook.lookup
    rfl
  | refused hlook =>
    obtain ⟨_, _, -, -, rfl, -⟩ := cachedPrefix_eq_ok hlook.lookup
    rfl

/-! ## A call that schedules nothing -/

/-- The tokens of a call, read off its output. -/
theorem schedule_granted {out : SchedulerOutput} (hs : s.schedule p available = .ok (out, s')) :
    ∃ st, Scheduling.loops p available s = .ok st ∧ out.totalNumScheduledTokens = st.totalTokens := by
  unfold Scheduler.schedule at hs
  simp only [bind_eq_ok] at hs
  obtain ⟨st₀, hl, _, -, ⟨k, st⟩, hc, ho⟩ := hs
  have hst : st.numScheduledTokens = st₀.numScheduledTokens := by
    unfold Scheduling.commonPrefix at hc
    split at hc
    · cases hc
      rfl
    · simp only [bind_eq_ok] at hc
      obtain ⟨_, -, ⟨_, _⟩, -, hc⟩ := hc
      cases hc
      rfl
  unfold Scheduling.output at ho
  simp only [bind_eq_ok] at ho
  obtain ⟨_, -, _, -, _, -, ho⟩ := ho
  cases ho
  exact ⟨st₀, hl, by rw [Scheduling.totalTokens, Scheduling.totalTokens, hst]⟩

/-- Nothing is granted when the total is zero. -/
theorem Scheduling.Positive.keys_eq_nil (h : st.Positive) (hzero : st.totalTokens = 0) :
    st.numScheduledTokens.keys = [] := by
  rw [List.eq_nil_iff_forall_not_mem]
  intro id hid
  obtain ⟨n, hn⟩ := Dict.exists_get?_of_mem hid
  have hpos := h id n hn
  have hle := Dict.le_total (fun n => n) hn
  unfold Scheduling.totalTokens at hzero
  omega

theorem AtRunning.positive {i : ℕ} (hat : AtRunning p available s i st) : st.Positive := by
  have hind : ∀ x : ℕ × Scheduling,
      Relation.ReflTransGen (RunningRound p available) (0, Scheduling.start p s) x →
      x.2.Positive := by
    intro x hx
    induction hx with
    | refl => exact fun id n hn => by cases hn
    | tail _ hr ih =>
      cases hr with
      | pass hlook => exact ih
      | take hlook hn htry =>
        have hpos := hlook.nonneg
        exact tryRunning_positive ih (by omega) htry
  exact hind (i, st) hat

theorem RunningEnd.positive {i : ℕ} (hend : RunningEnd p available (i, st) st') (h : st.Positive) :
    st'.Positive := by
  cases hend with
  | ended => exact h
  | preempted hlook hn htry =>
    have hpos := hlook.nonneg
    exact tryRunning_positive h (by omega) htry

/-- A request that is preempted itself is granted nothing. -/
theorem tryRunning_false {id : ReqId} {inputs : List ℕ} {n eb : ℤ}
    (h : st.tryRunning p id inputs n eb = .ok (false, st')) :
    Scheduling.allocLoop p id n.toNat (st.sched.running.length + 1) st = .ok (none, st') := by
  unfold Scheduling.tryRunning at h
  rw [bind_eq_ok] at h
  obtain ⟨⟨res, st₁⟩, hal, h⟩ := h
  cases res with
  | none =>
    cases h
    exact hal
  | some new =>
    simp only [bind_eq_ok] at h
    obtain ⟨_, -, h⟩ := h
    cases h

/-- **A call that schedules nothing** was stalled before. -/
theorem schedule_stalled {out : SchedulerOutput} (hs : s.schedule p available = .ok (out, s'))
    (hzero : out.totalNumScheduledTokens = 0) : Stalled p available s := by
  obtain ⟨st, hl, htotal⟩ := schedule_granted hs
  rw [htotal] at hzero
  obtain ⟨i, st₀, st₁, hat, hend, hcase⟩ := loops_rounds hl
  have hpos₁ := hend.positive hat.positive
  -- nothing is granted in either loop
  have hnone : st₁.numScheduledTokens.keys = [] ∧
      (st₁.preemptedReqs = [] → WaitingEnd p available st₁ st) := by
    obtain ⟨hpre, rfl⟩ | ⟨hpre, st₂, hrounds, hend'⟩ := hcase
    · exact ⟨hpos₁.keys_eq_nil hzero, fun hc => absurd hc hpre⟩
    · have hpos₂ : st₂.Positive := by
        clear hend'
        induction hrounds with
        | refl => exact hpos₁
        | tail _ hr ih => exact hr.tokens.2 ih
      have hkeys₂ : st₂.numScheduledTokens.keys = [] := by
        refine hpos₂.keys_eq_nil ?_
        rw [Scheduling.totalTokens, ← hend'.tokens]
        exact hzero
      obtain rfl | ⟨_, -, hr⟩ := Relation.ReflTransGen.cases_tail hrounds
      · exact ⟨hkeys₂, fun _ => hend'⟩
      · exact absurd hkeys₂ hr.tokens.1
  obtain ⟨hkeys, hwait⟩ := hnone
  have hkeys₀ : st₀.numScheduledTokens.keys = [] := by
    cases hend with
    | ended => exact hkeys
    | preempted _ _ htry =>
      rw [allocLoop_tokens (tryRunning_false htry)] at hkeys
      exact hkeys
  obtain ⟨rfl, hall⟩ := hat.idle hkeys₀
  cases hend with
  | ended hover =>
    by_cases hbudget : p.maxNumScheduledTokens = 0
    · exact .noBudget hbudget
    have hpos : ¬ (Scheduling.start p s).tokenBudget ≤ 0 := by
      change ¬ (p.maxNumScheduledTokens : ℤ) ≤ 0
      omega
    have hlen : s.running.length ≤ i := List.getElem?_eq_none_iff.mp (hover.resolve_right hpos)
    refine .allWait (fun j hj => hall j (by omega)) ?_
    cases hwait rfl with
    | ended hover =>
      obtain hnil | hbudget | hfull := hover
      · exact Or.inl hnil
      · exact absurd hbudget hpos
      · exact Or.inr (Or.inl hfull)
    | pass hlook => exact Or.inr (Or.inr ⟨_, _, _, _, _, _, _, _, _, hlook, Or.inl rfl⟩)
    | refused hlook _ halloc =>
      exact Or.inr (Or.inr ⟨_, _, _, _, _, _, _, _, _, hlook, Or.inr ⟨_, _, halloc⟩⟩)
  | preempted hlook hn htry =>
    obtain ⟨st₂, hrounds, hr, hlast⟩ := allocLoop_starved (tryRunning_false htry)
    exact .refused hall ⟨_, _, _, _, _, _, hlook, hn, hrounds, hr, hlast⟩

/-! ## A stalled call -/

/-- The requests that wait are passed. -/
theorem atRunning_of_waits {k : ℕ} (h : ∀ j < k, Waits p available s j) :
    AtRunning p available s k (Scheduling.start p s) := by
  induction k with
  | zero => exact .refl
  | succ k ih =>
    obtain ⟨_, _, _, _, hlook⟩ := h k (Nat.lt_succ_self k)
    exact (ih fun j hj => h j (Nat.lt_succ_of_lt hj)).tail (.pass hlook)

/-- The loop over `running` ends where no round follows. -/
theorem AtRunning.eq_of_stuck {i k : ℕ} {st₀ st₁ : Scheduling} (hat : AtRunning p available s i st)
    (hend : RunningEnd p available (i, st) st₁) (hk : AtRunning p available s k st₀)
    (hstuck : ∀ y, ¬ RunningRound p available (k, st₀) y) : i = k ∧ st = st₀ := by
  obtain h | h := Relation.ReflTransGen.total_of_right_unique RunningRound.unique hat hk
  · obtain heq | ⟨y, hy, -⟩ := Relation.ReflTransGen.cases_head h
    · exact Prod.mk.inj heq
    · exact absurd hy hend.stuck
  · obtain heq | ⟨y, hy, -⟩ := Relation.ReflTransGen.cases_head h
    · exact Prod.mk.inj heq.symm
    · exact absurd hy (hstuck y)

/-- If the loop over `running` has granted nothing and nobody is admitted, nothing is granted. -/
theorem loops_idle (hl : Scheduling.loops p available s = .ok st) {k : ℕ}
    (hk : AtRunning p available s k (Scheduling.start p s))
    (hlook : ∀ id r inputs n eb,
      ¬ RunningLook available k (Scheduling.start p s) id r inputs n eb)
    (hround : ∀ st', ¬ WaitingRound p available (Scheduling.start p s) st') : st.totalTokens = 0 := by
  obtain ⟨i, st₀, st₁, hat, hend, hcase⟩ := loops_rounds hl
  have hstuck : ∀ y, ¬ RunningRound p available (k, Scheduling.start p s) y := by
    intro y hy
    cases hy with
    | pass hl' => exact hlook _ _ _ _ _ hl'
    | take hl' => exact hlook _ _ _ _ _ hl'
  obtain ⟨rfl, rfl⟩ := hat.eq_of_stuck hend hk hstuck
  obtain rfl : st₁ = Scheduling.start p s := by
    cases hend with
    | ended => rfl
    | preempted hl' => exact absurd hl' (hlook _ _ _ _ _)
  obtain ⟨hc, -⟩ | ⟨-, st₂, hrounds, hend'⟩ := hcase
  · exact absurd rfl hc
  obtain rfl : st₂ = Scheduling.start p s := by
    obtain heq | ⟨y, hy, -⟩ := Relation.ReflTransGen.cases_head hrounds
    · exact heq.symm
    · exact absurd hy (hround y)
  rw [Scheduling.totalTokens, hend'.tokens]
  rfl

/-- Nobody is admitted. -/
theorem NoneAdmitted.not_round (h : NoneAdmitted p available s) (st' : Scheduling) :
    ¬ WaitingRound p available (Scheduling.start p s) st' := by
  intro hr
  cases hr with
  | take hlook hn halloc hst =>
    obtain hnil | hfull | ⟨id, rest, computed, nc, r, st₁, inputs, n, eb, hlook', hwhy⟩ := h
    · have hhere : s.waiting = _ := hlook.here
      rw [hnil] at hhere
      cases hhere
    · exact hlook.room hfull
    · obtain ⟨rfl, -⟩ := List.cons.inj (hlook.here.symm.trans hlook'.here)
      cases hlook.lookup.symm.trans hlook'.lookup
      cases hlook.tries.symm.trans hlook'.tries
      obtain hzero | ⟨kv, r', hnone⟩ := hwhy
      · exact hn hzero
      · rw [halloc] at hnone
        cases hnone

/-- **A stalled call** schedules nothing. -/
theorem Stalled.schedule (h : Stalled p available s) {out : SchedulerOutput}
    (hs : s.schedule p available = .ok (out, s')) : out.totalNumScheduledTokens = 0 := by
  obtain ⟨st, hl, htotal⟩ := schedule_granted hs
  rw [htotal]
  cases h with
  | noBudget hzero =>
    have hbudget : (Scheduling.start p s).tokenBudget = 0 := by
      change (p.maxNumScheduledTokens : ℤ) = 0
      rw [hzero]
      rfl
    refine loops_idle hl (k := 0) .refl (fun id r inputs n eb hlook => ?_) fun st' hr => ?_
    · have := hlook.budget
      omega
    · cases hr with
      | take hlook =>
        have := hlook.budget
        omega
  | allWait hall hnone =>
    refine loops_idle hl (atRunning_of_waits hall) (fun id r inputs n eb hlook => ?_) hnone.not_round
    have hhere : s.running[s.running.length]? = some id := hlook.here
    rw [List.getElem?_eq_none (Nat.le_refl _)] at hhere
    cases hhere
  | @refused k hall hrefused =>
    obtain ⟨id, r, inputs, n, eb, st₂, hlook, hn, hrounds, hr, hlast⟩ := hrefused
    obtain ⟨i, st₀, st₁, hat, hend, hcase⟩ := loops_rounds hl
    have hstuck : ∀ y, ¬ RunningRound p available (k, Scheduling.start p s) y := by
      intro y hy
      cases hy with
      | pass hlook' => exact absurd (hlook.unique hlook').2.2.2.1 hn
      | take hlook' _ htry =>
        obtain ⟨rfl, -, rfl, rfl, rfl⟩ := hlook.unique hlook'
        unfold Scheduling.tryRunning at htry
        rw [bind_eq_ok] at htry
        obtain ⟨⟨res, st₃⟩, hal, htry⟩ := htry
        obtain rfl := allocLoop_none hrounds hr hlast hal
        cases htry
    obtain ⟨rfl, rfl⟩ := hat.eq_of_stuck hend (atRunning_of_waits hall) hstuck
    cases hend with
    | ended hover =>
      obtain hnone | hbudget := hover
      · rw [hlook.here] at hnone
        cases hnone
      · exact absurd hlook.budget (by omega)
    | preempted hlook' _ htry =>
      obtain ⟨rfl, -, rfl, rfl, rfl⟩ := hlook.unique hlook'
      have hpre := tryRunning_preempted htry (Or.inr (hr.of_rounds hrounds))
      obtain ⟨-, rfl⟩ | ⟨hc, -⟩ := hcase
      · rw [Scheduling.totalTokens, allocLoop_tokens (tryRunning_false htry)]
        rfl
      · exact absurd hc hpre

/-- **Which calls schedule nothing.** -/
theorem stalled_iff {out : SchedulerOutput} (hs : s.schedule p available = .ok (out, s')) :
    out.totalNumScheduledTokens = 0 ↔ Stalled p available s :=
  ⟨schedule_stalled hs, fun h => h.schedule hs⟩

end

end SpaceServe
