import SpaceServe.Scheduler.Rounds

/-!
# Preemptions

A round of the loop over `running` preempts the last running request as long as the KV-cache manager
refuses the blocks. `AtPreemption` says in which local states this happens, before it happens, so that
what a preemption would do wrong can be excluded there.

* `Refuses`, `PreemptRound`, `AtPreemption`: the local states in which a request has to go;
* `allocLoop_starved`, `allocLoop_none`: when the request itself has to go;
* `RunningRound.unique`, `RunningEnd.stuck`: the rounds of a call are determined;
* **`loops_preempts`**: whoever is preempted was the last running request in such a state;
* **`AtPreemption.preempts`**: a call with such a state preempts a request.
-/

set_option autoImplicit false

namespace SpaceServe

open Py

section Preemptions

variable (p : SchedulerParams) (available : ReqId → ℕ → Bool)

/-- The KV-cache manager refuses a running request `n` tokens. -/
def Refuses (st : Scheduling) (id : ReqId) (n : ℕ) : Prop :=
  ∃ request kv request', st.sched.requests.get? id = some request ∧
    st.sched.kv.allocateSlots p.kv request n [] = .ok (none, kv, request')

/-- A request behind `id` is preempted, so that `id` may get `n` tokens. -/
def PreemptRound (id : ReqId) (n : ℕ) (st st' : Scheduling) : Prop :=
  ∃ request kv request' victim, st.sched.requests.get? id = some request ∧
    st.sched.kv.allocateSlots p.kv request n [] = .ok (none, kv, request') ∧
    Scheduling.preemptLast p (st.put kv id request') = .ok (victim, st') ∧ victim ≠ id

/-- A call of `schedule` has to preempt the last running request in the local state `st`. -/
def AtPreemption (s : Scheduler) (st : Scheduling) : Prop :=
  ∃ i st₀ id request inputs n eb, AtRunning p available s i st₀ ∧
    RunningLook available i st₀ id request inputs n eb ∧ n ≠ 0 ∧
    Relation.ReflTransGen (PreemptRound p id n.toNat) st₀ st ∧ Refuses p st id n.toNat

end Preemptions

section

variable {p : SchedulerParams} {available : ReqId → ℕ → Bool} {s : Scheduler} {id : ReqId} {n : ℕ}

/-! ## Who is preempted -/

/-- Those preempted while blocks are allocated were last when these were refused. -/
theorem allocLoop_preempts {P : ReqId → Prop} : ∀ {fuel : ℕ} {st st' : Scheduling}
    {res : Option (List ℕ)}, Scheduling.allocLoop p id n fuel st = .ok (res, st') →
    (∀ st₁, Relation.ReflTransGen (PreemptRound p id n) st st₁ → Refuses p st₁ id n →
      ∀ victim, st₁.sched.running.getLast? = some victim → P victim) →
    (∀ x ∈ st.preemptedReqs, P x) → ∀ x ∈ st'.preemptedReqs, P x
  | 0, _, _, _, h, _, _ => by cases h
  | fuel + 1, st, st', res, h, hlast, hpre => by
    rw [Scheduling.allocLoop, bind_eq_ok] at h
    obtain ⟨request, hreq, h⟩ := h
    rw [request_eq_ok] at hreq
    rw [bind_eq_ok] at h
    obtain ⟨⟨res₁, kv, request'⟩, halloc, h⟩ := h
    cases res₁ with
    | some new =>
      cases h
      exact hpre
    | none =>
      simp only [bind_eq_ok] at h
      obtain ⟨⟨victim, st₂⟩, hp, h⟩ := h
      obtain ⟨r, kv', hv, -, -, he⟩ := preemptLast_eq_ok hp
      have hvictim : P victim := hlast st .refl ⟨request, kv, request', hreq, halloc⟩ victim hv
      have hpre₂ : ∀ x ∈ st₂.preemptedReqs, P x := by
        rw [he]
        intro x hx
        obtain hx | hx := List.mem_append.mp hx
        · exact hpre x hx
        · rw [List.mem_singleton.mp hx]
          exact hvictim
      split_ifs at h with hid
      · cases h
        exact hpre₂
      · have hround : PreemptRound p id n st st₂ :=
          ⟨request, kv, request', victim, hreq, halloc, hp, hid⟩
        exact allocLoop_preempts h (fun st₁ h₁ => hlast st₁ (.head hround h₁)) hpre₂

theorem scheduleRunning_preemptedReqs {st st' : Scheduling} {new : List ℕ} {inputs : List ℕ} {eb : ℤ}
    (h : st.scheduleRunning id new n inputs eb = .ok st') : st'.preemptedReqs = st.preemptedReqs := by
  unfold Scheduling.scheduleRunning at h
  rw [bind_eq_ok] at h
  obtain ⟨r, -, h⟩ := h
  obtain ⟨ecm, -, rfl⟩ := record_eq_ok h
  rfl

theorem tryRunning_preempts {P : ReqId → Prop} {st st' : Scheduling} {inputs : List ℕ} {n eb : ℤ}
    {can : Bool} (h : Scheduling.tryRunning p st id inputs n eb = .ok (can, st'))
    (hlast : ∀ st₁, Relation.ReflTransGen (PreemptRound p id n.toNat) st st₁ →
      Refuses p st₁ id n.toNat → ∀ victim, st₁.sched.running.getLast? = some victim → P victim)
    (hpre : ∀ x ∈ st.preemptedReqs, P x) : ∀ x ∈ st'.preemptedReqs, P x := by
  unfold Scheduling.tryRunning at h
  rw [bind_eq_ok] at h
  obtain ⟨⟨res, st₂⟩, hal, h⟩ := h
  have hpre₂ := allocLoop_preempts hal hlast hpre
  cases res with
  | none =>
    cases h
    exact hpre₂
  | some new =>
    simp only [bind_eq_ok] at h
    obtain ⟨st₃, hst, h⟩ := h
    cases h
    rw [scheduleRunning_preemptedReqs hst]
    exact hpre₂

theorem WaitingRound.preemptedReqs {st st' : Scheduling} (hr : WaitingRound p available st st') :
    st'.preemptedReqs = st.preemptedReqs := by
  cases hr with
  | take hlook _ _ hst =>
    obtain ⟨-, ecm, -, rfl⟩ := scheduleWaiting_eq_ok hst
    obtain ⟨_, _, -, -, rfl, -⟩ := cachedPrefix_eq_ok hlook.lookup
    rfl

theorem WaitingEnd.preemptedReqs {st st' : Scheduling} (hr : WaitingEnd p available st st') :
    st'.preemptedReqs = st.preemptedReqs := by
  cases hr with
  | ended => rfl
  | pass hlook =>
    obtain ⟨_, _, -, -, rfl, -⟩ := cachedPrefix_eq_ok hlook.lookup
    rfl
  | refused hlook =>
    obtain ⟨_, _, -, -, rfl, -⟩ := cachedPrefix_eq_ok hlook.lookup
    rfl

/-- The loop over `waiting` preempts nobody. -/
theorem loops_preemptedReqs {st : Scheduling} (h : Scheduling.loops p available s = .ok st) :
    ∃ i st₀ st₁, AtRunning p available s i st₀ ∧ RunningEnd p available (i, st₀) st₁ ∧
      st.preemptedReqs = st₁.preemptedReqs := by
  obtain ⟨i, st₀, st₁, hat, hend, hcase⟩ := loops_rounds h
  refine ⟨i, st₀, st₁, hat, hend, ?_⟩
  obtain ⟨-, rfl⟩ | ⟨-, st₂, hrounds, hend'⟩ := hcase
  · rfl
  · rw [hend'.preemptedReqs]
    clear hend'
    induction hrounds with
    | refl => rfl
    | tail _ hr ih => exact hr.preemptedReqs.trans ih

/-- **Whoever is preempted** was the last running request when blocks were refused. -/
theorem loops_preempts {P : ReqId → Prop} {st : Scheduling}
    (h : Scheduling.loops p available s = .ok st)
    (hlast : ∀ st₁, AtPreemption p available s st₁ →
      ∀ victim, st₁.sched.running.getLast? = some victim → P victim) :
    ∀ x ∈ st.preemptedReqs, P x := by
  obtain ⟨i, st₀, st₁, hat, hend, heq⟩ := loops_preemptedReqs h
  have hind : ∀ x : ℕ × Scheduling,
      Relation.ReflTransGen (RunningRound p available) (0, Scheduling.start p s) x →
      ∀ id ∈ x.2.preemptedReqs, P id := by
    intro x hx
    induction hx with
    | refl => exact fun id hid => (List.not_mem_nil hid).elim
    | tail hx hr ih =>
      cases hr with
      | pass hlook => exact ih
      | take hlook hn htry =>
        refine tryRunning_preempts htry (fun st₁ h₁ hr₁ => ?_) ih
        exact hlast st₁ ⟨_, _, _, _, _, _, _, hx, hlook, hn, h₁, hr₁⟩
  rw [heq]
  cases hend with
  | ended => exact hind _ hat
  | preempted hlook hn htry =>
    refine tryRunning_preempts htry (fun st₁ h₁ hr₁ => ?_) (hind _ hat)
    exact hlast st₁ ⟨_, _, _, _, _, _, _, hat, hlook, hn, h₁, hr₁⟩

/-- A request is not scheduled if its blocks are refused even when it is the last one. -/
theorem allocLoop_starved : ∀ {fuel : ℕ} {st st' : Scheduling},
    Scheduling.allocLoop p id n fuel st = .ok (none, st') →
    ∃ st₁, Relation.ReflTransGen (PreemptRound p id n) st st₁ ∧ Refuses p st₁ id n ∧
      st₁.sched.running.getLast? = some id
  | 0, _, _, h => by cases h
  | fuel + 1, st, st', h => by
    rw [Scheduling.allocLoop, bind_eq_ok] at h
    obtain ⟨request, hreq, h⟩ := h
    rw [request_eq_ok] at hreq
    rw [bind_eq_ok] at h
    obtain ⟨⟨res₁, kv, request'⟩, halloc, h⟩ := h
    cases res₁ with
    | some new => cases h
    | none =>
      simp only [bind_eq_ok] at h
      obtain ⟨⟨victim, st₂⟩, hp, h⟩ := h
      split_ifs at h with hid
      · obtain ⟨r, kv', hv, -, -, -⟩ := preemptLast_eq_ok hp
        obtain rfl : victim = id := hid
        exact ⟨st, .refl, ⟨request, kv, request', hreq, halloc⟩, hv⟩
      · obtain ⟨st₁, hrounds, hr, hlast⟩ := allocLoop_starved h
        have hround : PreemptRound p id n st st₂ :=
          ⟨request, kv, request', victim, hreq, halloc, hp, hid⟩
        exact ⟨st₁, .head hround hrounds, hr, hlast⟩

/-- Such a request is not scheduled. -/
theorem allocLoop_none {st st₁ : Scheduling}
    (hrounds : Relation.ReflTransGen (PreemptRound p id n) st st₁) (hr : Refuses p st₁ id n)
    (hlast : st₁.sched.running.getLast? = some id) : ∀ {fuel : ℕ} {st' : Scheduling}
    {res : Option (List ℕ)}, Scheduling.allocLoop p id n fuel st = .ok (res, st') → res = none := by
  induction hrounds using Relation.ReflTransGen.head_induction_on with
  | refl =>
    intro fuel st' res h
    obtain ⟨request, kv, request', hreq, halloc⟩ := hr
    cases fuel with
    | zero => cases h
    | succ fuel =>
      rw [Scheduling.allocLoop, request_eq_ok.mpr hreq, ok_bind, halloc, ok_bind] at h
      simp only [bind_eq_ok] at h
      obtain ⟨⟨victim, st₂⟩, hp, h⟩ := h
      obtain ⟨r, kv', hv, -, -, -⟩ := preemptLast_eq_ok hp
      obtain rfl : victim = id := Option.some.inj (hv.symm.trans hlast)
      rw [if_pos rfl] at h
      cases h
      rfl
  | head hround _ ih =>
    intro fuel st' res h
    obtain ⟨request, kv, request', victim, hreq, halloc, hp, hid⟩ := hround
    cases fuel with
    | zero => cases h
    | succ fuel =>
      rw [Scheduling.allocLoop, request_eq_ok.mpr hreq, ok_bind, halloc, ok_bind] at h
      simp only [hp, ok_bind, if_neg hid] at h
      exact ih h

/-- Allocating slots for a request grants no tokens. -/
theorem allocLoop_tokens : ∀ {fuel : ℕ} {st st' : Scheduling} {res : Option (List ℕ)},
    Scheduling.allocLoop p id n fuel st = .ok (res, st') →
    st'.numScheduledTokens = st.numScheduledTokens
  | 0, _, _, _, h => by cases h
  | fuel + 1, st, st', res, h => by
    rw [Scheduling.allocLoop, bind_eq_ok] at h
    obtain ⟨request, -, h⟩ := h
    rw [bind_eq_ok] at h
    obtain ⟨⟨res₁, kv, request'⟩, -, h⟩ := h
    cases res₁ with
    | some new =>
      cases h
      rfl
    | none =>
      simp only [bind_eq_ok] at h
      obtain ⟨⟨victim, st₂⟩, hp, h⟩ := h
      obtain ⟨r, kv', -, -, -, rfl⟩ := preemptLast_eq_ok hp
      split_ifs at h
      · cases h
        rfl
      · have ih := allocLoop_tokens h
        exact ih

/-! ## Rounds are determined -/

theorem RunningLook.unique {i : ℕ} {st : Scheduling} {id id' : ReqId} {r r' : Request}
    {inputs inputs' : List ℕ} {n n' eb eb' : ℤ} (h : RunningLook available i st id r inputs n eb)
    (h' : RunningLook available i st id' r' inputs' n' eb') :
    id = id' ∧ r = r' ∧ inputs = inputs' ∧ n = n' ∧ eb = eb' := by
  obtain rfl : id = id' := Option.some.inj (h.here.symm.trans h'.here)
  obtain rfl : r = r' := Option.some.inj (h.known.symm.trans h'.known)
  have htry := Except.ok.inj (h.tries.symm.trans h'.tries)
  cases htry
  exact ⟨rfl, rfl, rfl, rfl, rfl⟩

theorem RunningRound.unique : Relator.RightUnique (RunningRound p available) := by
  intro x y y' h h'
  cases h with
  | pass hlook =>
    cases h' with
    | pass => rfl
    | take hlook' hn => exact absurd (hlook.unique hlook').2.2.2.1.symm hn
  | take hlook hn htry =>
    cases h' with
    | pass hlook' => exact absurd (hlook.unique hlook').2.2.2.1 hn
    | take hlook' _ htry' =>
      obtain ⟨rfl, -, rfl, rfl, rfl⟩ := hlook.unique hlook'
      cases htry.symm.trans htry'
      rfl

/-- No round follows the end of the loop. -/
theorem RunningEnd.stuck {x y : ℕ × Scheduling} {st : Scheduling} (h : RunningEnd p available x st) :
    ¬ RunningRound p available x y := by
  intro hr
  cases h with
  | @ended i st hover =>
    have hlook : ∀ {id r inputs n eb}, ¬ RunningLook available i st id r inputs n eb := by
      intro id r inputs n eb hl
      obtain hnone | hbudget := hover
      · rw [hl.here] at hnone
        cases hnone
      · exact absurd hl.budget (by omega)
    cases hr with
    | pass hl => exact hlook hl
    | take hl => exact hlook hl
  | preempted hl hn htry =>
    cases hr with
    | pass hl' => exact absurd (hl.unique hl').2.2.2.1 hn
    | take hl' _ htry' =>
      obtain ⟨rfl, -, rfl, rfl, rfl⟩ := hl.unique hl'
      cases htry.symm.trans htry'

/-! ## Where somebody is preempted -/

theorem allocLoop_preempted : ∀ {fuel : ℕ} {st st' : Scheduling} {res : Option (List ℕ)},
    Scheduling.allocLoop p id n fuel st = .ok (res, st') →
    (st.preemptedReqs ≠ [] ∨ Refuses p st id n) → st'.preemptedReqs ≠ []
  | 0, _, _, _, h, _ => by cases h
  | fuel + 1, st, st', res, h, hpre => by
    rw [Scheduling.allocLoop, bind_eq_ok] at h
    obtain ⟨request, hreq, h⟩ := h
    rw [request_eq_ok] at hreq
    rw [bind_eq_ok] at h
    obtain ⟨⟨res₁, kv, request'⟩, halloc, h⟩ := h
    cases res₁ with
    | some new =>
      cases h
      refine hpre.resolve_right ?_
      rintro ⟨r, _, _, hr, hnone⟩
      obtain rfl := Option.some.inj (hreq.symm.trans hr)
      rw [halloc] at hnone
      cases hnone
    | none =>
      simp only [bind_eq_ok] at h
      obtain ⟨⟨victim, st₂⟩, hp, h⟩ := h
      obtain ⟨r, kv', -, -, -, he⟩ := preemptLast_eq_ok hp
      have hpre₂ : st₂.preemptedReqs ≠ [] := by
        rw [he]
        exact List.append_ne_nil_of_right_ne_nil _ (List.cons_ne_nil _ _)
      split_ifs at h
      · cases h
        exact hpre₂
      · exact allocLoop_preempted h (Or.inl hpre₂)

theorem tryRunning_preempted {st st' : Scheduling} {inputs : List ℕ} {n eb : ℤ} {can : Bool}
    (h : Scheduling.tryRunning p st id inputs n eb = .ok (can, st'))
    (hpre : st.preemptedReqs ≠ [] ∨ Refuses p st id n.toNat) : st'.preemptedReqs ≠ [] := by
  unfold Scheduling.tryRunning at h
  rw [bind_eq_ok] at h
  obtain ⟨⟨res, st₂⟩, hal, h⟩ := h
  have hpre₂ := allocLoop_preempted hal hpre
  cases res with
  | none =>
    cases h
    exact hpre₂
  | some new =>
    simp only [bind_eq_ok] at h
    obtain ⟨st₃, hst, h⟩ := h
    cases h
    rw [scheduleRunning_preemptedReqs hst]
    exact hpre₂

/-- The first refusal of a round is one where the round begins. -/
theorem Refuses.of_rounds {st₀ st : Scheduling}
    (h : Relation.ReflTransGen (PreemptRound p id n) st₀ st) (hr : Refuses p st id n) :
    Refuses p st₀ id n := by
  obtain rfl | ⟨_, ⟨request, kv, request', -, hreq, halloc, -⟩, -⟩ :=
    Relation.ReflTransGen.cases_head h
  · exact hr
  · exact ⟨request, kv, request', hreq, halloc⟩

/-- **A call in which blocks are refused** preempts a request. -/
theorem AtPreemption.preempts {st st' : Scheduling} (h : AtPreemption p available s st)
    (hl : Scheduling.loops p available s = .ok st') : st'.preemptedReqs ≠ [] := by
  obtain ⟨i, st₀, id, request, inputs, n, eb, hat, hlook, hn, hrounds, hr⟩ := h
  have hr₀ := hr.of_rounds hrounds
  obtain ⟨j, st₁, st₂, hat₁, hend, heq⟩ := loops_preemptedReqs hl
  rw [heq]
  -- what a round or the end of the loop does with a request that was refused, or after one
  have hround : ∀ {x y : ℕ × Scheduling}, x = (i, st₀) ∨ x.2.preemptedReqs ≠ [] →
      RunningRound p available x y → y.2.preemptedReqs ≠ [] := by
    rintro x y hx hr'
    cases hr' with
    | pass hlook' =>
      obtain hx | hx := hx
      · cases hx
        exact absurd (hlook.unique hlook').2.2.2.1 hn
      · exact hx
    | take hlook' _ htry =>
      refine tryRunning_preempted htry (hx.symm.imp_right fun hx => ?_)
      cases hx
      obtain ⟨rfl, -, -, rfl, -⟩ := hlook.unique hlook'
      exact hr₀
  have hstop : ∀ {x : ℕ × Scheduling}, x = (i, st₀) ∨ x.2.preemptedReqs ≠ [] →
      RunningEnd p available x st₂ → st₂.preemptedReqs ≠ [] := by
    rintro x hx hend'
    cases hend' with
    | ended hover =>
      refine hx.resolve_left fun hx => ?_
      cases hx
      obtain hnone | hbudget := hover
      · rw [hlook.here] at hnone
        cases hnone
      · exact absurd hlook.budget (by omega)
    | preempted hlook' _ htry =>
      refine tryRunning_preempted htry (hx.symm.imp_right fun hx => ?_)
      cases hx
      obtain ⟨rfl, -, -, rfl, -⟩ := hlook.unique hlook'
      exact hr₀
  have hpath : Relation.ReflTransGen (RunningRound p available) (i, st₀) (j, st₁) := by
    obtain hpath | hpath := Relation.ReflTransGen.total_of_right_unique RunningRound.unique hat hat₁
    · exact hpath
    · obtain heq' | ⟨y, hy, -⟩ := Relation.ReflTransGen.cases_head hpath
      · rw [heq']
      · exact absurd hy hend.stuck
  have hind : ∀ {x : ℕ × Scheduling}, Relation.ReflTransGen (RunningRound p available) (i, st₀) x →
      x = (i, st₀) ∨ x.2.preemptedReqs ≠ [] := by
    intro x hx
    induction hx with
    | refl => exact Or.inl rfl
    | tail _ hr' ih => exact Or.inr (hround ih hr')
  exact hstop (hind hpath) hend

end

end SpaceServe
