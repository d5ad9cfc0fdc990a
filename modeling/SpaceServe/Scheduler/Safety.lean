import SpaceServe.Scheduler.Runs
import SpaceServe.Scheduler.TextSteps

/-!
# Step safety for text-only requests

Under the invariant for text-only requests nothing the scheduler does raises, and its loops end.

* `TextInv.not_excuses`, **`schedule_total`**;
* `updateOne_total`, **`updateFromOutput_total`**, `finishRequests_total`;
* `TextAdmissible`, `TextReachable`: runs of the scheduler as the engine drives it;
* **`scheduler_step_safety`**: in every run, every call returns, and what a scheduling step gives.
-/

set_option autoImplicit false

namespace SpaceServe

open Py KVCacheManager

/-! ## Scheduling returns -/

section Schedule

variable {p : SchedulerParams} {available : ReqId → ℕ → Bool} {id : ReqId} {r : Request}

/-- Requests within the limits are no reason to raise. -/
theorem TextInv.not_excuses {s : Scheduler} {got : ReqId → ℕ} (h : TextInv p s got) (e : Exn) :
    ¬ Excuses p s e := by
  rintro ⟨id, r, hr, hex⟩
  have hlen := h.len id r hr
  cases hex with
  | missing _ hm => exact hm (r.mmHashes_length_eq (h.text id r hr))
  | tooLong hl => omega
  | noTokens h0 => omega

variable (available) in
/-- **A scheduling step returns.** -/
theorem schedule_total {s : Scheduler} (hw : s.WF p) (h : TextInv p s fun _ => 0)
    (hb : BlocksInv p s fun _ => 0) : ∃ out s', s.schedule p available = .ok (out, s') := by
  obtain ⟨⟨out, s'⟩, hs⟩ := (schedule_raises available hw hb).returns h.not_excuses
  exact ⟨out, s', hs⟩

end Schedule

/-! ## Updates return -/

section Update

variable {p : SchedulerParams} {s s' : Scheduler} {got : ReqId → ℕ} {id : ReqId} {r : Request}

/-- What holds of a scheduler of text-only requests in the middle of a step. -/
structure TextState (p : SchedulerParams) (s : Scheduler) (got : ReqId → ℕ) : Prop where
  wf : s.WF p
  inv : TextInv p s got
  noInputs : ∀ id, s.encoderCacheManager.getCachedInputIds id = []

/-- The outcome of a step has a sampled token for every scheduled request. -/
def Covers (out : SchedulerOutput) (mo : ModelRunnerOutput) : Prop :=
  ∀ id ∈ out.numScheduledTokens.keys,
    ((mo.reqIdToIndex.get? id).bind fun i => mo.sampledTokenIds[i]?).isSome = true

instance (out : SchedulerOutput) (mo : ModelRunnerOutput) : Decidable (Covers out mo) :=
  List.decidableBAll _ _

/-- No encoder input is allocated for text-only requests. -/
theorem Move.noInputs {available : ReqId → ℕ → Bool} {st st' : Scheduling}
    (h : TextInv p st.sched st.got) (hm : Move p available st st') :
    st'.sched.encoderCacheManager = st.sched.encoderCacheManager := by
  cases hm with
  | reserve => rfl
  | preempt => rfl
  | grant _ _ hr _ htry _ _ hst =>
    rw [tryScheduleEncoderInputs_text _ _ (h.text _ _ hr)] at htry
    cases htry
    obtain ⟨ecm, hf, rfl⟩ := scheduleRunning_eq_ok hst
    cases hf
    rfl
  | lookup _ hc =>
    obtain ⟨_, _, -, -, rfl, -⟩ := cachedPrefix_eq_ok hc
    rfl
  | enter _ _ _ hc _ htry _ _ hst =>
    obtain ⟨r₀, _, hr₀, -, rfl, -, -, hs, rfl⟩ := cachedPrefix_eq_ok hc
    have ht : (r₀.setKvBlockHashes hs).TextOnly := h.text _ r₀ hr₀
    rw [tryScheduleEncoderInputs_text _ _ ht] at htry
    cases htry
    obtain ⟨-, ecm, hf, rfl⟩ := scheduleWaiting_eq_ok hst
    cases hf
    rfl

theorem Moves.textState {available : ReqId → ℕ → Bool} {st st' : Scheduling}
    (hm : Moves p available st st') (hw : st.WF p) (h : TextState p st.sched st.got) :
    TextState p st'.sched st'.got :=
  (hm.invariant (P := fun st => st.WF p ∧ TextState p st.sched st.got)
    (fun _ _ h hm => ⟨hm.wf h.1, (hm.wf h.1).sched, hm.textInv h.1 h.2.inv, fun id => by
      rw [hm.noInputs h.2.inv]; exact h.2.noInputs id⟩) ⟨hw, h⟩).2

/-- After a token was appended, whether to stop can be decided. -/
theorem checkStop_total (t : TokenId) :
    ∃ stopped r', Scheduler.checkStop p (r.appendOutputTokenIds t) = .ok (stopped, r') := by
  unfold Scheduler.checkStop
  split_ifs
  · exact ⟨_, _, rfl⟩
  · rw [show (r.appendOutputTokenIds t).outputTokenIds.getLast? = some t by
      simp [Request.appendOutputTokenIds], ofOption_some, ok_bind]
    split_ifs <;> exact ⟨_, _, rfl⟩

/-- **One round of the update returns.** -/
theorem updateOne_total {out : SchedulerOutput} {mo : ModelRunnerOutput} (hmo : Covers out mo)
    {u : Scheduler.Updating} {rest : List ReqId}
    (h : TextState p (u.view (id :: rest)) (pendingOf out (id :: rest))) :
    ∃ u', Scheduler.updateOne p out mo u id = .ok u' := by
  have hid : id ∈ (u.view (id :: rest)).running := by simp [Scheduler.Updating.view]
  obtain ⟨r, hr⟩ := h.wf.get?_of_running hid
  have hrun := h.inv.running id r hid hr
  rw [pendingOf, if_pos List.mem_cons_self] at hrun
  have hk : (out.numScheduledTokens.get? id).getD 0 ≠ 0 → id ∈ out.numScheduledTokens.keys := by
    intro hg
    by_contra hk
    rw [(out.numScheduledTokens.get?_eq_none id).mpr hk] at hg
    exact hg rfl
  unfold Scheduler.updateOne
  generalize (out.numScheduledTokens.get? id).getD 0 = g at *
  simp only
  by_cases hg : g = 0
  · rw [if_pos hg]
    exact ⟨_, rfl⟩
  have hrel : Scheduler.releaseInputs { r with numComputedTokens := r.numComputedTokens + g }
      u.sched.encoderCacheManager = .ok u.sched.encoderCacheManager := by
    unfold Scheduler.releaseInputs
    rw [show u.sched.encoderCacheManager.getCachedInputIds r.requestId = [] from h.noInputs _]
    rfl
  have hreq : u.sched.request id = .ok r := request_eq_ok.mpr hr
  rw [if_neg hg, hreq, ok_bind, assert_of (by exact hrun.granted), ok_bind, hrel, ok_bind]
  split_ifs
  · obtain ⟨t, ht⟩ := Option.isSome_iff_exists.mp (hmo id (hk hg))
    obtain ⟨i, hi, ht⟩ := Option.bind_eq_some_iff.mp ht
    unfold Scheduler.generate
    rw [hi, ofOption_some, ok_bind, ht, ofOption_some, ok_bind]
    obtain ⟨stopped, r', hstop⟩ := checkStop_total (p := p)
      (r := { r with numComputedTokens := r.numComputedTokens + g }) t
    rw [hstop, ok_bind]
    obtain ⟨⟨status, reason, hr', hfin⟩, -⟩ := Scheduler.checkStop_eq_ok hstop
    cases stopped with
    | false => exact ⟨_, rfl⟩
    | true =>
      have hrid : r'.requestId = id := by rw [hr']; exact h.wf.requestId id r hr
      obtain ⟨s', hs'⟩ := freeRequest_total (p := p)
        (s := { u.sched with requests := u.sched.requests.set id r' }) (r := r') h.inv.accounted
        (h.noInputs _) (by rw [hr']; exact hfin rfl)
        (by rw [hrid]; exact (Dict.mem_keys_set _ _ _ _).mpr (Or.inl rfl))
      simp only [if_true, Dict.set_set]
      rw [hs']
      exact ⟨_, rfl⟩
  · exact ⟨_, rfl⟩

/-- **One round of the update keeps the invariant.** -/
theorem TextState.updateOne {out : SchedulerOutput} {mo : ModelRunnerOutput}
    {u u' : Scheduler.Updating} {rest : List ReqId}
    (h : TextState p (u.view (id :: rest)) (pendingOf out (id :: rest)))
    (hu : Scheduler.updateOne p out mo u id = .ok u') :
    TextState p (u'.view rest) (pendingOf out rest) := by
  have hid : id ∈ (u.view (id :: rest)).running := by simp [Scheduler.Updating.view]
  have hgot : pendingOf out rest = Function.update (pendingOf out (id :: rest)) id 0 :=
    pendingOf_tail h.wf.view_not_mem
  have hg : pendingOf out (id :: rest) id = _ := pendingOf_head out rest
  obtain ⟨hzero, hview⟩ | ⟨-, r, r₁, s₁, ts, hr, hrel, hadv, hcase⟩ :=
    Scheduler.updateOne_view h.wf hu
  · have hsame : pendingOf out rest = pendingOf out (id :: rest) := by
      rw [hgot, ← hzero, ← hg]
      exact Function.update_eq_self _ _
    rw [hview, hsame]
    exact h
  · have hecm : s₁.encoderCacheManager = u.sched.encoderCacheManager := by
      unfold Scheduler.releaseInputs at hrel
      rw [show u.sched.encoderCacheManager.getCachedInputIds _ = [] from h.noInputs _] at hrel
      exact (Except.ok.inj hrel).symm
    have hno : ∀ x, s₁.encoderCacheManager.getCachedInputIds x = [] := by
      rw [hecm]; exact h.noInputs
    rw [← hg] at hadv
    obtain ⟨hs, hst, hmax⟩ | hdrop := hcase
    · rw [hs, hgot]
      exact ⟨h.wf.advance hid hr hadv hst, h.inv.advance hid hr hadv hmax, hno⟩
    · -- a request that has stopped may be at the length limit: it is dropped as it was before
      have hd := Scheduler.Drop.of_advance (s := u.view (id :: rest)) hr hadv hdrop
      rw [hecm] at hd
      have hno' : ∀ x, (u'.view rest).encoderCacheManager.getCachedInputIds x = [] := by
        rw [hd.sched]; exact h.noInputs
      refine ⟨h.wf.drop hd, (h.inv.drop h.wf hd).congr_got ?_, hno'⟩
      intro x hx
      rw [hgot, Function.update_of_ne]
      rintro rfl
      rw [hd.sched] at hx
      exact ((h.wf.mem_erase _ _).1.mp hx).1 rfl

/-- **An update returns**, and afterwards no granted tokens are left to count. -/
theorem TextState.updateFromOutput {out : SchedulerOutput} {mo : ModelRunnerOutput}
    (hmo : Covers out mo)
    (h : TextState p s fun id => (out.numScheduledTokens.get? id).getD 0) :
    ∃ outputs s', s.updateFromOutput p out mo = .ok (outputs, s') ∧ TextState p s' fun _ => 0 := by
  have hstart : TextState p s (pendingOf out s.running) :=
    ⟨h.wf, h.inv.congr_got fun id hid => if_pos hid, h.noInputs⟩
  have hloop : ∀ (rest : List ReqId) (u : Scheduler.Updating),
      TextState p (u.view rest) (pendingOf out rest) →
      ∃ u', rest.foldlM (Scheduler.updateOne p out mo) u = .ok u' ∧
        TextState p (u'.view []) (pendingOf out []) := by
    intro rest
    induction rest with
    | nil => intro u hu; exact ⟨u, rfl, hu⟩
    | cons id rest ih =>
      intro u hu
      obtain ⟨u₁, h₁⟩ := updateOne_total hmo hu
      rw [List.foldlM_cons, h₁, ok_bind]
      exact ih u₁ (hu.updateOne h₁)
  obtain ⟨u, hu, hfin⟩ := hloop s.running ⟨s, [], []⟩ hstart
  unfold Scheduler.updateFromOutput
  rw [hu, ok_bind]
  refine ⟨_, _, rfl, ?_⟩
  rw [Scheduler.Updating.view, List.append_nil] at hfin
  exact ⟨hfin.wf, hfin.inv.congr_got fun id _ => by simp [pendingOf], hfin.noInputs⟩

/-- **Aborts return.** -/
theorem TextState.finishRequests {status : RequestStatus} (hfin : status.isFinished = true)
    (ids : List ReqId) (h : TextState p s got) :
    ∃ s', s.finishRequests p ids status = .ok s' ∧ TextState p s' got := by
  unfold Scheduler.finishRequests
  rw [assert_of hfin, ok_bind]
  refine foldlM_total (P := fun s => TextState p s got) (fun s id _ h => ?_) h
  obtain ⟨s', hs'⟩ := finishOne_returns h.wf h.inv.accounted hfin fun _ => h.noInputs id
  refine ⟨s', hs', ?_⟩
  obtain ⟨-, rfl⟩ | ⟨r, hd⟩ := Scheduler.finishOne_eq_ok h.wf hs'
  · exact h
  · exact ⟨h.wf.drop hd, h.inv.drop h.wf hd, by rw [hd.sched]; exact h.noInputs⟩

end Update

/-! ## Runs -/

namespace SchedulerRun

variable (p : SchedulerParams)

/-- The calls of an engine on text-only requests: the ids are fresh, the prompts have passed
`Processor._validate_model_inputs`, and an output is executed before anything else is called. -/
def TextAdmissible (σ : SchedulerRun) : SchedulerEvent → Prop
  | .addRequest r => σ.pending = none ∧ r.IsNew ∧ r.requestId ∉ σ.sched.requests.keys ∧
      r.TextOnly ∧ 1 ≤ r.promptTokenIds.length ∧ r.promptTokenIds.length < p.kv.maxModelLen
  | .finishRequests _ status => σ.pending = none ∧ status.isFinished = true
  | .schedule _ => σ.pending = none
  | .updateFromOutput mo => ∃ out ∈ σ.pending, Covers out mo
  | .resetPrefixCache => σ.pending = none

instance (σ : SchedulerRun) : (e : SchedulerEvent) → Decidable (TextAdmissible p σ e)
  | .addRequest r => inferInstanceAs (Decidable (σ.pending = none ∧ r.IsNew ∧
      r.requestId ∉ σ.sched.requests.keys ∧ r.TextOnly ∧ 1 ≤ r.promptTokenIds.length ∧
      r.promptTokenIds.length < p.kv.maxModelLen))
  | .finishRequests _ status =>
    inferInstanceAs (Decidable (σ.pending = none ∧ status.isFinished = true))
  | .schedule _ => inferInstanceAs (Decidable (σ.pending = none))
  | .updateFromOutput mo => inferInstanceAs (Decidable (∃ out ∈ σ.pending, Covers out mo))
  | .resetPrefixCache => inferInstanceAs (Decidable (σ.pending = none))

/-- The states of the runs on text-only requests. -/
def TextReachable : SchedulerRun → Prop :=
  Reachable (fun σ e => step p σ e) (TextAdmissible p) (init p)

variable {p}

/-- **A scheduling step from a good state**: it returns a good state, and what it granted. -/
theorem schedule_spec {s : Scheduler} (h : TextState p s fun _ => 0)
    (hb : BlocksInv p s fun _ => 0) (available : ReqId → ℕ → Bool) :
    ∃ st out s', Scheduling.loops p available s = .ok st ∧
      s.schedule p available = .ok (out, s') ∧
      (TextState p s' fun id => (out.numScheduledTokens.get? id).getD 0) ∧
      (∀ id n, out.numScheduledTokens.get? id = some n → 0 < n ∧ id ∈ s'.running) ∧
      out.totalNumScheduledTokens = out.numScheduledTokens.total (fun n => n) ∧
      out.totalNumScheduledTokens ≤ p.maxNumScheduledTokens ∧
      ∀ id ∈ st.preemptedReqs, id ∉ out.numScheduledTokens.keys := by
  obtain ⟨out, s', hs⟩ := schedule_total available h.wf h.inv hb
  obtain ⟨st₀, st, _, _, _, hl, heq, hm, hw, hs', htok, htot, -⟩ := schedule_eq_ok h.wf hs
  have hst := hm.textState (Scheduling.WF.start h.wf)
    (show TextState p s (Scheduling.start p s).got from h)
  have hpos := hm.tokens_pos
  have hbudget := hw.budget
  have hnonneg := hw.budget_nonneg
  refine ⟨st₀, out, s', hl, hs, ?_, ?_, ?_, ?_, ?_⟩
  · rw [htok, hs']
    exact ⟨⟨hst.wf.requestId, hst.wf.known, hst.wf.nodup, hst.wf.running, hst.wf.waiting,
      hst.wf.running_le⟩, ⟨hst.inv.accounted, hst.inv.text, hst.inv.len, hst.inv.chain,
      hst.inv.idle, hst.inv.running, hst.inv.filled, hst.inv.hits⟩, hst.noInputs⟩
  · intro id n hg
    rw [htok] at hg
    rw [hs']
    exact ⟨hpos id n hg, hw.scheduled id (Dict.mem_keys_of_get? hg)⟩
  · rw [htot, htok]
    rfl
  · rw [htot]
    omega
  · intro id hid hk
    rw [htok] at hk
    have hpre : id ∈ st.preemptedReqs := by rw [heq]; exact hid
    exact hw.sched.not_mem_waiting (hw.scheduled id hk) (hw.preempted id hpre)

/-- **Every admissible call returns and keeps the invariant.** -/
theorem step_total {σ : SchedulerRun} (h : TextState p σ.sched σ.got)
    (hb : BlocksInv p σ.sched σ.got) {e : SchedulerEvent} (ha : TextAdmissible p σ e) :
    ∃ σ', step p σ e = .ok σ' ∧ TextState p σ'.sched σ'.got := by
  cases e with
  | addRequest r =>
    obtain ⟨-, hnew, hfresh, htext, hlen⟩ := ha
    have hnum : r.numTokens = r.promptTokenIds.length := by
      rw [Request.numTokens, Request.allTokenIds, hnew.2.2.1, List.append_nil]
    exact ⟨_, rfl, h.wf.addRequest hfresh hnew,
      h.inv.addRequest h.wf hfresh hnew htext (by omega), h.noInputs⟩
  | finishRequests ids status =>
    obtain ⟨s', hs', h'⟩ := h.finishRequests ha.2 ids
    refine ⟨{ σ with sched := s' }, ?_, h'⟩
    rw [step, hs', ok_bind]
  | schedule available =>
    rw [got_of_none ha] at h hb
    obtain ⟨-, out, s', -, hs, h', -, htot, -⟩ := schedule_spec h hb available
    refine ⟨_, by rw [step, hs, ok_bind], ?_⟩
    by_cases hz : out.totalNumScheduledTokens = 0
    · refine ⟨h'.wf, h'.inv.congr_got fun id _ => ?_, h'.noInputs⟩
      rw [got_of_none (if_pos hz)]
      cases hg : out.numScheduledTokens.get? id with
      | none => rfl
      | some n =>
        have hle := Dict.le_total (fun n => n) hg
        change 0 = n
        omega
    · rw [got_of_some (if_neg hz)]
      exact h'
  | updateFromOutput mo =>
    obtain ⟨out, hp, hmo⟩ := ha
    rw [Option.mem_def] at hp
    rw [got_of_some hp] at h
    obtain ⟨outputs, s', hs', h'⟩ := h.updateFromOutput hmo
    refine ⟨⟨s', none⟩, ?_, h'⟩
    simp only [step, hp, hs', ok_bind]
  | resetPrefixCache =>
    exact ⟨_, rfl, ⟨h.wf.requestId, h.wf.known, h.wf.nodup, h.wf.running, h.wf.waiting,
      h.wf.running_le⟩, h.inv.resetPrefixCache, h.noInputs⟩

theorem TextAdmissible.fresh {σ : SchedulerRun} {e : SchedulerEvent} (h : TextAdmissible p σ e) :
    σ.Fresh e := by
  cases e with
  | addRequest r => exact ⟨h.2.1, h.2.2.1⟩
  | finishRequests ids status => trivial
  | schedule available => trivial
  | updateFromOutput mo => trivial
  | resetPrefixCache => trivial

theorem TextReachable.freshRun {σ : SchedulerRun} (h : TextReachable p σ) : FreshRun p σ :=
  h.mono fun _ _ ha => TextAdmissible.fresh ha

/-- **The invariant holds in every state of a run.** -/
theorem TextReachable.textState {σ : SchedulerRun} (h : TextReachable p σ) :
    TextState p σ.sched σ.got := by
  induction h with
  | start => exact ⟨wf_init p, TextInv.init p, fun _ => rfl⟩
  | next hreach ha hs ih =>
    obtain ⟨σ₁, h₁, h'⟩ := step_total ih (TextReachable.freshRun hreach).blocksInv.2 ha
    rw [hs] at h₁
    cases h₁
    exact h'

/-- **Step safety.** In every state of a run on text-only requests every call of the engine returns.
A scheduling step stays within the token budget; each scheduled request gets at least one token and
no more than it is behind, and owns the blocks for them, within its limit; no request that was
preempted in the step got tokens in it. -/
theorem scheduler_step_safety {σ : SchedulerRun} {e : SchedulerEvent} (h : TextReachable p σ)
    (ha : TextAdmissible p σ e) :
    (∃ σ', step p σ e = .ok σ') ∧ ∀ available, e = .schedule available →
      ∃ st out s', Scheduling.loops p available σ.sched = .ok st ∧
        σ.sched.schedule p available = .ok (out, s') ∧
        out.numScheduledTokens.total (fun n => n) ≤ p.maxNumScheduledTokens ∧
        (∀ id n, out.numScheduledTokens.get? id = some n → ∃ r, s'.requests.get? id = some r ∧
          1 ≤ n ∧ n ≤ r.numTokens - r.numComputedTokens ∧
          cdiv (r.numComputedTokens + n) p.kv.blockSize ≤ (s'.kv.blocksOf id).length ∧
          (s'.kv.blocksOf id).length ≤ p.kv.maxNumBlocksPerReq) ∧
        ∀ id ∈ st.preemptedReqs, id ∉ out.numScheduledTokens.keys := by
  have hst := h.textState
  have hb := h.freshRun.blocksInv.2
  refine ⟨?_, ?_⟩
  · obtain ⟨σ', hσ', -⟩ := step_total hst hb ha
    exact ⟨σ', hσ'⟩
  · rintro available rfl
    rw [got_of_none ha] at hst hb
    obtain ⟨st, out, s', hl, hs, h', hgot, htot, hle, hpre⟩ := schedule_spec hst hb available
    refine ⟨st, out, s', hl, hs, by omega, ?_, hpre⟩
    intro id n hg
    obtain ⟨hn, hid⟩ := hgot id n hg
    obtain ⟨r, hr⟩ := h'.wf.get?_of_running hid
    have hrun := h'.inv.running id r hid hr
    rw [hg, Option.getD_some] at hrun
    have hgr := hrun.granted
    exact ⟨r, hr, hn, by omega, (cdiv_le_iff p.kv.blockSize_pos _ _).mpr hrun.covered, hrun.le_max⟩

/-- A pool of six blocks of two tokens, and steps of three tokens. -/
def smallParams : SchedulerParams where
  kv := sixBlocks
  maxNumRunningReqs := 2
  maxNumScheduledTokens := 3
  maxNumEncoderInputTokens := 4
  encoderCacheSize := 8

/-- A prompt has been computed when another with the same first block arrives. -/
def sharedPrefixRun : List SchedulerEvent :=
  [.addRequest (.ofPrompt "a" [1, 2, 3] []),
    .schedule fun _ _ => false,
    .updateFromOutput ⟨Dict.empty.set "a" 0, [7]⟩,
    .addRequest (.ofPrompt "b" [1, 2, 5] [])]

theorem scheduler_step_safety_shared_prefix :
    ∃ σ, σ.sched.running = ["a"] ∧ σ.sched.waiting = ["b"] ∧ TextReachable smallParams σ ∧
      ∃ st out s', Scheduling.loops smallParams (fun _ _ => false) σ.sched = .ok st ∧
        σ.sched.schedule smallParams (fun _ _ => false) = .ok (out, s') ∧
        out.numScheduledTokens.total (fun n => n) ≤ 3 ∧
        (∀ id n, out.numScheduledTokens.get? id = some n → ∃ r, s'.requests.get? id = some r ∧
          1 ≤ n ∧ n ≤ r.numTokens - r.numComputedTokens ∧
          cdiv (r.numComputedTokens + n) 2 ≤ (s'.kv.blocksOf id).length ∧
          (s'.kv.blocksOf id).length ≤ 4) ∧
        ∀ id ∈ st.preemptedReqs, id ∉ out.numScheduledTokens.keys := by
  have hrun : ((runChecked (fun σ e => step smallParams σ e) (TextAdmissible smallParams)
      (init smallParams) sharedPrefixRun).map fun σ =>
        (σ.sched.running, σ.sched.waiting, σ.pending)) = some (["a"], ["b"], none) := by
    decide +kernel
  obtain ⟨σ, hσ, hq⟩ := Option.map_eq_some_iff.mp hrun
  simp only [Prod.mk.injEq] at hq
  have hreach : TextReachable smallParams σ := reachable_of_runChecked .start hσ
  exact ⟨σ, hq.1, hq.2.1, hreach,
    (scheduler_step_safety hreach (e := .schedule fun _ _ => false) hq.2.2).2 _ rfl⟩

end SchedulerRun

end SpaceServe
