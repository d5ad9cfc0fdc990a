import SpaceServe.Scheduler.Runs

/-!
# What an update emits

`update_from_output` returns at most one output for each running request, with the token that the
request has just sampled.

* `StopsAt`, `checkStop_stops`: the stop conditions of `_check_stop`;
* `updatedRequest`: the request object after its round, also when the round frees it;
* `Emits`, `updateOne_emits`: what one round emits;
* `updateOne_requestId`, `updateOne_frame`, `updateFold_frame`: rounds of other requests;
* **`updateFromOutput_emits`**; `finishRequests_get?`;
* `Sound`: what holds of a scheduler between the steps of an engine.
-/

set_option autoImplicit false

namespace SpaceServe

open Py

/-- The outputs for one request. -/
def outputsOf (id : ReqId) (outputs : List EngineCoreOutput) : List EngineCoreOutput :=
  outputs.filter fun o => decide (o.requestId = id)

theorem outputsOf_append (id : ReqId) (l l' : List EngineCoreOutput) :
    outputsOf id (l ++ l') = outputsOf id l ++ outputsOf id l' := List.filter_append ..

theorem outputsOf_eq_nil {id : ReqId} {l : List EngineCoreOutput} :
    outputsOf id l = [] ↔ ∀ o ∈ l, o.requestId ≠ id := by
  simp [outputsOf, List.filter_eq_nil_iff]

theorem outputsOf_of_forall {id : ReqId} {l : List EngineCoreOutput}
    (h : ∀ o ∈ l, o.requestId = id) : outputsOf id l = l := by
  rw [outputsOf, List.filter_eq_self]
  exact fun o ho => decide_eq_true (h o ho)

namespace Scheduler

variable {p : SchedulerParams}

/-! ## Stopping -/

variable (p) in
/-- A stop condition of `_check_stop` holds of a request that has sampled the given tokens. -/
def StopsAt (r : Request) (tokens : List TokenId) : Prop :=
  p.kv.maxModelLen ≤ r.promptTokenIds.length + tokens.length ∨
  r.samplingParams.maxTokens ≤ tokens.length ∨
  (r.samplingParams.ignoreEos = false ∧ ∃ t ∈ tokens.getLast?, some t = r.eosTokenId) ∨
  ∃ t ∈ tokens.getLast?, t ∈ r.samplingParams.stopTokenIds

/-- Whether a request stops is decided by these conditions. -/
theorem checkStop_stops {r r' : Request} {stopped : Bool}
    (h : checkStop p r = .ok (stopped, r')) :
    stopped = true ↔ StopsAt p r r.outputTokenIds := by
  have hlen : r.numTokens = r.promptTokenIds.length + r.outputTokenIds.length :=
    List.length_append
  unfold checkStop at h
  unfold StopsAt
  rw [← hlen]
  split_ifs at h with h1
  · cases h
    exact ⟨fun _ => h1.imp_right Or.inl, fun _ => rfl⟩
  · rw [not_or] at h1
    rw [bind_eq_ok] at h
    obtain ⟨t, ht, h⟩ := h
    rw [ofOption_eq_ok] at ht
    simp only [ht, Option.mem_def, Option.some.injEq, exists_eq_left']
    split_ifs at h with h2 h3
    · cases h
      exact ⟨fun _ => Or.inr (Or.inr (Or.inl h2)), fun _ => rfl⟩
    · cases h
      exact ⟨fun _ => Or.inr (Or.inr (Or.inr h3)), fun _ => rfl⟩
    · cases h
      refine ⟨fun hc => Bool.noConfusion hc, fun hc => ?_⟩
      obtain hc | hc | hc | hc := hc
      · exact absurd hc h1.1
      · exact absurd hc h1.2
      · exact absurd hc h2
      · exact absurd hc h3

/-! ## One round -/

variable (p) in
/-- The object of a request after its round of the loop of `update_from_output`, also when the round
frees it. -/
def updatedRequest (output : SchedulerOutput) (out : ModelRunnerOutput) (id : ReqId)
    (request : Request) : Except Exn Request :=
  let numTokensScheduled := (output.numScheduledTokens.get? id).getD 0
  if numTokensScheduled = 0 then .ok request
  else
    let request := { request with
      numComputedTokens := request.numComputedTokens + numTokensScheduled }
    if request.numComputedTokens = request.numTokens then do
      let reqIndex ← ofOption .keyError (out.reqIdToIndex.get? id)
      let tokenId ← ofOption (.indexError "list index out of range") out.sampledTokenIds[reqIndex]?
      let (_, request) ← checkStop p (request.appendOutputTokenIds tokenId)
      .ok request
    else .ok request

variable (p) in
/-- What a round emits for its request `r`, which it leaves as `r'`, and what is left of the request in
the scheduler: nothing, or the output with its token. -/
inductive Emits (id : ReqId) (r r' : Request) : List EngineCoreOutput → Option Request → Prop
  | silent : r'.outputTokenIds = r.outputTokenIds → Emits id r r' [] (some r')
  | token (t : TokenId) (o : EngineCoreOutput) (stopped : Bool) : o.requestId = id →
      o.newTokenIds = [t] → r'.outputTokenIds = r.outputTokenIds ++ [t] →
      (stopped = true ↔ StopsAt p r (r.outputTokenIds ++ [t])) →
      (r.status.isFinished = false → o.finished = stopped) →
      Emits id r r' [o] (if stopped = true then none else some r')

/-- What is left of a request is the object of its round. -/
theorem Emits.eq_of_some {id : ReqId} {r r' r₁ : Request} {new : List EngineCoreOutput}
    {o : Option Request} (h : Emits p id r r' new o) (ho : o = some r₁) : r₁ = r' := by
  cases h with
  | silent => exact (Option.some.inj ho).symm
  | token t o stopped =>
    split_ifs at ho
    exact (Option.some.inj ho).symm

/-- A request as an update leaves it. -/
def Sampled (r r' : Request) : Prop :=
  r' = { r with
    status := r'.status
    stopReason := r'.stopReason
    numComputedTokens := r'.numComputedTokens
    outputTokenIds := r'.outputTokenIds }

theorem Sampled.refl (r : Request) : Sampled r r := rfl

theorem Sampled.stopsAt {r r' : Request} (h : Sampled r r') (tokens : List TokenId) :
    StopsAt p r' tokens ↔ StopsAt p r tokens := by
  rw [h]
  rfl

/-- The request that a round stops is the one it sampled for. -/
theorem sampled_of_checkStop {r r' : Request} {g : ℕ} {t : TokenId} {stopped : Bool}
    (h : checkStop p (Request.appendOutputTokenIds
      { r with numComputedTokens := r.numComputedTokens + g } t) = .ok (stopped, r')) :
    Sampled r r' ∧ r'.outputTokenIds = r.outputTokenIds ++ [t] ∧
      (stopped = true ↔ StopsAt p r (r.outputTokenIds ++ [t])) ∧
      (r.status.isFinished = false → r'.status.isFinished = stopped) := by
  have hstop := checkStop_stops h
  obtain ⟨⟨status, reason, hr', hfin⟩, hsame⟩ := checkStop_eq_ok h
  refine ⟨?_, ?_, hstop, fun hst => ?_⟩
  · rw [hr']
    rfl
  · rw [hr']
    rfl
  · cases stopped with
    | true =>
      rw [hr']
      exact hfin rfl
    | false =>
      rw [(hsame rfl).1]
      exact hst

/-- **What one round of the loop emits.** -/
theorem updateOne_emits {output : SchedulerOutput} {out : ModelRunnerOutput} {u u' : Updating}
    {id : ReqId} (hid : ∀ r, u.sched.requests.get? id = some r → r.requestId = id)
    (h : updateOne p output out u id = .ok u') :
    (∀ id', id' ≠ id → u'.sched.requests.get? id' = u.sched.requests.get? id') ∧
      ∃ new, u'.outputs = u.outputs ++ new ∧ (∀ o ∈ new, o.requestId = id) ∧
        ∀ r, u.sched.requests.get? id = some r → ∃ r', updatedRequest p output out id r = .ok r' ∧
          Sampled r r' ∧ Emits p id r r' new (u'.sched.requests.get? id) := by
  unfold updateOne at h
  unfold updatedRequest
  generalize (output.numScheduledTokens.get? id).getD 0 = g at *
  simp only at h ⊢
  by_cases hg : g = 0
  · rw [if_pos hg] at h
    cases h
    simp only [if_pos hg, Except.ok.injEq]
    refine ⟨fun _ _ => trivial, [], (List.append_nil _).symm, fun o ho => (List.not_mem_nil ho).elim,
      fun r hr => ⟨r, rfl, Sampled.refl r, ?_⟩⟩
    rw [hr]
    exact .silent rfl
  simp only [if_neg hg, bind_eq_ok, request_eq_ok, assert_eq_ok] at h
  simp only [if_neg hg]
  obtain ⟨r, hr, -, -, ecm, -, h⟩ := h
  have hrid := hid r hr
  have hnum : ({ r with numComputedTokens := r.numComputedTokens + g } : Request).numTokens =
      r.numTokens := rfl
  rw [hnum] at h
  by_cases hfull : r.numComputedTokens + g = r.numTokens
  · rw [if_pos hfull] at h
    simp only [generate, bind_eq_ok] at h
    obtain ⟨i, hi, t, ht, ⟨stopped, r₁⟩, hstop, s₂, hs₂, h⟩ := h
    cases h
    obtain ⟨hsam, htok, hstops, hfin⟩ := sampled_of_checkStop hstop
    have hlast : r₁.outputTokenIds.drop (r₁.outputTokenIds.length - 1) = [t] := by
      rw [htok]
      simp
    have hframe : s₂.requests.get? id = (if stopped = true then none else some r₁) ∧
        ∀ id', id' ≠ id → s₂.requests.get? id' = u.sched.requests.get? id' := by
      cases stopped with
      | false =>
        cases hs₂
        refine ⟨Dict.get?_set_self _ _ _, fun id' hne => ?_⟩
        simp only [Dict.get?_set_ne _ hne]
      | true =>
        obtain ⟨-, -, -, hs₂⟩ := freeRequest_eq_ok hs₂
        have hid₁ : r₁.requestId = id := by rw [hsam]; exact hrid
        rw [hs₂, hid₁]
        refine ⟨Dict.get?_pop_self _ _, fun id' hne => ?_⟩
        simp only [Dict.get?_pop_ne _ hne, Dict.get?_set_ne _ hne]
    refine ⟨hframe.2, _, rfl, fun o ho => ?_, fun r₀ hr₀ => ⟨r₁, ?_, ?_⟩⟩
    · obtain rfl := List.mem_singleton.mp ho
      rfl
    · rw [hr] at hr₀
      cases hr₀
      rw [hnum, if_pos hfull, bind_eq_ok]
      refine ⟨i, hi, ?_⟩
      rw [bind_eq_ok]
      refine ⟨t, ht, ?_⟩
      rw [hstop]
      rfl
    · rw [hr] at hr₀
      cases hr₀
      refine ⟨hsam, ?_⟩
      simp only [hframe.1]
      exact .token t _ stopped rfl hlast htok hstops hfin
  · rw [if_neg hfull] at h
    cases h
    refine ⟨fun id' hne => Dict.get?_set_ne _ hne _, [], (List.append_nil _).symm,
      fun o ho => (List.not_mem_nil ho).elim, fun r₀ hr₀ => ?_⟩
    rw [hr] at hr₀
    cases hr₀
    rw [hnum, if_neg hfull]
    refine ⟨_, rfl, rfl, ?_⟩
    simp only [Dict.get?_set_self]
    exact .silent rfl

/-! ## The loop -/

/-- Requests stay under their ids. -/
theorem updateOne_requestId {output : SchedulerOutput} {out : ModelRunnerOutput} {u u' : Updating}
    {id : ReqId} (hid : ∀ k r, u.sched.requests.get? k = some r → r.requestId = k)
    (h : updateOne p output out u id = .ok u') :
    ∀ k r, u'.sched.requests.get? k = some r → r.requestId = k := by
  intro k r' hr'
  obtain ⟨hframe, new, -, -, hown⟩ := updateOne_emits (hid id) h
  by_cases hk : k = id
  · subst hk
    obtain ⟨r, hr⟩ : ∃ r, u.sched.requests.get? k = some r := by
      obtain ⟨-, rfl⟩ | ⟨-, r, -, -, -, hr, -⟩ := updateOne_eq_ok h
      · exact ⟨r', hr'⟩
      · exact ⟨r, hr⟩
    obtain ⟨r₁, -, hsam, hem⟩ := hown r hr
    rw [hr'] at hem
    obtain rfl := hem.eq_of_some rfl
    rw [hsam]
    exact hid k r hr
  · rw [hframe k hk] at hr'
    exact hid k r' hr'

/-- Rounds of other requests leave a request and its outputs alone. -/
theorem updateOne_frame {output : SchedulerOutput} {out : ModelRunnerOutput} {u u' : Updating}
    {id id' : ReqId} (hid : ∀ k r, u.sched.requests.get? k = some r → r.requestId = k)
    (h : updateOne p output out u id' = .ok u') (hne : id ≠ id') :
    u'.sched.requests.get? id = u.sched.requests.get? id ∧
      outputsOf id u'.outputs = outputsOf id u.outputs := by
  obtain ⟨hframe, new, hnew, hids, -⟩ := updateOne_emits (hid id') h
  refine ⟨hframe id hne, ?_⟩
  have hnil : outputsOf id new = [] := by
    rw [outputsOf_eq_nil]
    intro o ho
    rw [hids o ho]
    exact hne.symm
  rw [hnew, outputsOf_append, hnil, List.append_nil]

theorem updateFold_frame {output : SchedulerOutput} {out : ModelRunnerOutput} {u u' : Updating}
    {id : ReqId} {l : List ReqId} (hid : ∀ k r, u.sched.requests.get? k = some r → r.requestId = k)
    (hl : id ∉ l) (h : l.foldlM (updateOne p output out) u = .ok u') :
    (∀ k r, u'.sched.requests.get? k = some r → r.requestId = k) ∧
      u'.sched.requests.get? id = u.sched.requests.get? id ∧
      outputsOf id u'.outputs = outputsOf id u.outputs := by
  refine foldlM_invariant (P := fun v : Updating =>
    (∀ k r, v.sched.requests.get? k = some r → r.requestId = k) ∧
    v.sched.requests.get? id = u.sched.requests.get? id ∧
    outputsOf id v.outputs = outputsOf id u.outputs) ?_ ⟨hid, rfl, rfl⟩ h
  rintro u₁ id' u₂ hid' ⟨h1, h2, h3⟩ hu
  obtain ⟨j2, j3⟩ := updateOne_frame h1 hu (ne_of_mem_of_not_mem hid' hl).symm
  exact ⟨updateOne_requestId h1 hu, j2.trans h2, j3.trans h3⟩

/-- **What an update emits**, for each request. -/
theorem updateFromOutput_emits {s s' : Scheduler} {output : SchedulerOutput}
    {out : ModelRunnerOutput} {outputs : List EngineCoreOutput} (hw : s.WF p)
    (h : s.updateFromOutput p output out = .ok (outputs, s')) (id : ReqId) :
    (id ∉ s.running ∧ s'.requests.get? id = s.requests.get? id ∧ outputsOf id outputs = []) ∨
    (id ∈ s.running ∧ ∃ r r', s.requests.get? id = some r ∧
      updatedRequest p output out id r = .ok r' ∧ Sampled r r' ∧
      Emits p id r r' (outputsOf id outputs) (s'.requests.get? id)) := by
  unfold updateFromOutput at h
  rw [bind_eq_ok] at h
  obtain ⟨u, hu, h⟩ := h
  cases h
  by_cases hrun : id ∈ s.running
  · -- the rounds before and after the one of the request do not touch it
    obtain ⟨r, hr⟩ := hw.get?_of_running hrun
    obtain ⟨l₁, l₂, hl⟩ := List.append_of_mem hrun
    have hnd := hw.running_nodup
    rw [hl] at hnd hu
    have h₁ : id ∉ l₁ := fun hm =>
      (List.nodup_append.mp hnd).2.2 id hm id List.mem_cons_self rfl
    have h₂ : id ∉ l₂ := (List.nodup_cons.mp (List.nodup_append.mp hnd).2.1).1
    simp only [List.foldlM_append, List.foldlM_cons, bind_eq_ok] at hu
    obtain ⟨u₁, hu₁, u₂, hu₂, hu⟩ := hu
    obtain ⟨hid₁, hr₁, ho₁⟩ := updateFold_frame hw.requestId h₁ hu₁
    obtain ⟨-, new, hnew, hids, hown⟩ := updateOne_emits (hid₁ id) hu₂
    obtain ⟨-, hr₂, ho₂⟩ := updateFold_frame (updateOne_requestId hid₁ hu₂) h₂ hu
    refine Or.inr ⟨hrun, r, ?_⟩
    obtain ⟨r', hupd, hsam, hem⟩ := hown r (hr₁.trans hr)
    refine ⟨r', hr, hupd, hsam, ?_⟩
    have hout : outputsOf id u.outputs = new := by
      rw [ho₂, hnew, outputsOf_append, ho₁, outputsOf_of_forall hids]
      rfl
    change Emits p id r r' (outputsOf id u.outputs) (u.sched.requests.get? id)
    rw [hout, hr₂]
    exact hem
  · obtain ⟨-, hr, ho⟩ := updateFold_frame hw.requestId hrun hu
    exact Or.inl ⟨hrun, hr, ho⟩

/-! ## Aborts -/

theorem foldlM_finishOne_get? {status : RequestStatus} : ∀ {ids : List ReqId} {s s' : Scheduler},
    s.WF p → ids.foldlM (finishOne p status) s = .ok s' →
      ∀ id, s'.requests.get? id = if id ∈ ids then none else s.requests.get? id
  | [], s, s', _, h, id => by
    cases h
    rfl
  | id₁ :: ids, s, s', hw, h, id => by
    rw [List.foldlM_cons, bind_eq_ok] at h
    obtain ⟨s₁, h₁, h⟩ := h
    obtain ⟨hnone, rfl⟩ | ⟨r, hd⟩ := finishOne_eq_ok hw h₁
    · rw [foldlM_finishOne_get? hw h id]
      by_cases he : id = id₁
      · subst he
        simp [hnone]
      · simp [he]
    · rw [foldlM_finishOne_get? (hw.drop hd) h id, hd.sched]
      by_cases he : id = id₁
      · subst he
        simp
      · simp [he, Dict.get?_pop_ne]

/-- **Aborts remove exactly the requests they name.** -/
theorem finishRequests_get? {s s' : Scheduler} {ids : List ReqId} {status : RequestStatus}
    (hw : s.WF p) (h : s.finishRequests p ids status = .ok s') (id : ReqId) :
    s'.requests.get? id = if id ∈ ids then none else s.requests.get? id := by
  unfold finishRequests at h
  rw [bind_eq_ok] at h
  obtain ⟨_, -, h⟩ := h
  exact foldlM_finishOne_get? hw h id

/-! ## Between the calls -/

variable (p) in
/-- What holds of a scheduler between the steps of an engine. -/
structure Sound (s : Scheduler) : Prop where
  wf : s.WF p
  blocks : BlocksInv p s fun _ => 0

variable {s s' : Scheduler} {out : SchedulerOutput} {mo : ModelRunnerOutput}
  {outputs : List EngineCoreOutput} {available : ReqId → ℕ → Bool}

theorem Sound.init (p : SchedulerParams) : Sound p (.init p) :=
  ⟨SchedulerRun.wf_init p, BlocksInv.init p⟩

theorem Sound.addRequest (h : Sound p s) {r : Request} (hnew : r.IsNew)
    (hid : r.requestId ∉ s.requests.keys) : Sound p (s.addRequest r) :=
  ⟨h.wf.addRequest hid hnew, h.blocks.addRequest h.wf hid hnew⟩

theorem Sound.finishRequests (h : Sound p s) {ids : List ReqId} {status : RequestStatus}
    (hs : s.finishRequests p ids status = .ok s') : Sound p s' :=
  ⟨(finishRequests_onward h.wf hs).1, h.blocks.finishRequests h.wf hs⟩

theorem Sound.resetPrefixCache (h : Sound p s) : Sound p (s.resetPrefixCache p) :=
  ⟨⟨h.wf.requestId, h.wf.known, h.wf.nodup, h.wf.running, h.wf.waiting, h.wf.running_le⟩,
    h.blocks.resetPrefixCache⟩

theorem Sound.schedule (h : Sound p s) (hs : s.schedule p available = .ok (out, s')) :
    Sound p s' :=
  ⟨schedule_wf h.wf hs, (h.blocks.schedule h.wf hs).1.mono fun _ _ => Nat.zero_le _⟩

theorem Sound.update (h : Sound p s) (hs : s.schedule p available = .ok (out, s')) {s₂ : Scheduler}
    (hu : s'.updateFromOutput p out mo = .ok (outputs, s₂)) : Sound p s₂ :=
  ⟨(updateFromOutput_onward (schedule_wf h.wf hs) hu).1,
    (h.blocks.schedule h.wf hs).1.updateFromOutput (schedule_wf h.wf hs) hu⟩

end Scheduler

end SpaceServe
