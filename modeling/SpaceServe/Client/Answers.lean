import SpaceServe.Client.Results
import SpaceServe.Engine.Paged

/-!
# Which requests are answered

Without prefix caching a request computes all its placeholders itself before it gets its first token.
As the encoder sends one output for each request that it serves, a request with an image is answered
only if it has no other and is served.

* `NoGain`, `schedule_noGain`: a call of `schedule` computes nothing by itself;
* `updatedRequest_full`: a token is sampled once everything is computed;
* `FedInv`, `FedInv.step`: the placeholders that are computed belong to outputs that were delivered;
* **`answered_served`**.
-/

set_option autoImplicit false

namespace SpaceServe

open Py EncoderScheduler EncoderCore

section

variable {p : SchedulerParams} {available : ReqId → ℕ → Bool}

/-! ## What is computed -/

/-- Nothing more of the request is computed. -/
structure NoGain (r r' : Request) : Prop where
  mmPositions : r'.mmPositions = r.mmPositions
  promptTokenIds : r'.promptTokenIds = r.promptTokenIds
  computed : r'.numComputedTokens ≤ r.numComputedTokens

theorem NoGain.refl (r : Request) : NoGain r r := ⟨rfl, rfl, Nat.le_refl _⟩

theorem NoGain.trans {r r₁ r₂ : Request} (h : NoGain r r₁) (h' : NoGain r₁ r₂) : NoGain r r₂ :=
  ⟨h'.mmPositions.trans h.mmPositions, h'.promptTokenIds.trans h.promptTokenIds,
    h'.computed.trans h.computed⟩

/-- One request was written. -/
theorem noGain_set {d : Dict ReqId Request} {id : ReqId} {r q : Request} (hr : d.get? id = some r)
    (hq : NoGain r q) : ∀ id' r', (d.set id q).get? id' = some r' →
      ∃ r, d.get? id' = some r ∧ NoGain r r' := by
  intro id' r' h
  rw [Dict.get?_set] at h
  split_ifs at h with he
  · cases h
    exact ⟨r, he ▸ hr, hq⟩
  · exact ⟨r', h, NoGain.refl r'⟩

theorem Move.noGain (hoff : p.kv.enableCaching = false) {st st' : Scheduling}
    (hm : Move p available st st') : ∀ id r', st'.sched.requests.get? id = some r' →
      ∃ r, st.sched.requests.get? id = some r ∧ NoGain r r' := by
  cases hm with
  | reserve => exact fun id r' hr' => ⟨r', hr', NoGain.refl r'⟩
  | preempt hrun hid hreq hfree => exact noGain_set hreq ⟨rfl, rfl, Nat.zero_le _⟩
  | grant hid hns hreq hpos htry hn halloc hst =>
    obtain ⟨ecm, -, rfl⟩ := scheduleRunning_eq_ok hst
    obtain ⟨hs, rfl⟩ := KVCacheManager.allocateSlots_request halloc
    exact noGain_set hreq ⟨rfl, rfl, Nat.le_refl _⟩
  | lookup hwait hc =>
    obtain ⟨request₀, bs, hreq, -, rfl, -, -, hs, rfl⟩ := cachedPrefix_eq_ok hc
    exact noGain_set hreq ⟨rfl, rfl, Nat.le_refl _⟩
  | enter hwait hpre hroom hc hpos htry hn halloc hst =>
    obtain ⟨request₀, bs, hreq, hg, rfl, hcomputed, rfl, hs, rfl⟩ := cachedPrefix_eq_ok hc
    obtain ⟨-, ecm, -, rfl⟩ := scheduleWaiting_eq_ok hst
    obtain ⟨hs', rfl⟩ := KVCacheManager.allocateSlots_request halloc
    -- without caching no blocks are found
    have hbs : bs = [] := by
      rw [KVCacheManager.getComputedBlocks, if_pos hoff] at hg
      exact (Prod.mk.inj (Except.ok.inj hg)).1.symm
    obtain ⟨-, rfl⟩ | ⟨-, hne, -⟩ := hcomputed
    · intro id' r' hr'
      simp only [Scheduling.admitted, Scheduling.log, Scheduling.put, Dict.set_set] at hr'
      refine noGain_set hreq ⟨?_, ?_, ?_⟩ id' r' hr'
      · rfl
      · rfl
      · rw [hbs, List.length_nil, Nat.zero_mul]
        exact Nat.zero_le _
    · exact absurd hbs hne

/-- **A call of `schedule` computes nothing by itself**, without prefix caching. -/
theorem schedule_noGain (hoff : p.kv.enableCaching = false) {s s' : Scheduler} {out : SchedulerOutput}
    (hw : s.WF p) (h : s.schedule p available = .ok (out, s')) : ∀ id r',
      s'.requests.get? id = some r' → ∃ r, s.requests.get? id = some r ∧ NoGain r r' := by
  obtain ⟨_, st, _, _, _, -, -, hm, -, rfl, -⟩ := schedule_eq_ok hw h
  refine hm.invariant (P := fun st => ∀ id r', st.sched.requests.get? id = some r' →
    ∃ r, s.requests.get? id = some r ∧ NoGain r r') ?_ fun id r hr => ⟨r, hr, NoGain.refl r⟩
  intro st₁ st₂ h₁ hm₁ id r' hr'
  obtain ⟨r₁, hr₁, h₂⟩ := hm₁.noGain hoff id r' hr'
  obtain ⟨r, hr, h₃⟩ := h₁ id r₁ hr₁
  exact ⟨r, hr, h₃.trans h₂⟩

/-- A round computes what was scheduled, and samples a token once everything is computed. -/
theorem updatedRequest_full {out : SchedulerOutput} {mo : ModelRunnerOutput} {id : ReqId}
    {r r' : Request} (h : Scheduler.updatedRequest p out mo id r = .ok r') :
    r'.numComputedTokens = r.numComputedTokens + (out.numScheduledTokens.get? id).getD 0 ∧
      (r'.outputTokenIds ≠ r.outputTokenIds → r'.numComputedTokens = r.numTokens) := by
  unfold Scheduler.updatedRequest at h
  simp only at h
  split_ifs at h with h0 hfull
  · cases h
    exact ⟨by rw [h0]; rfl, fun hne => absurd rfl hne⟩
  · simp only [bind_eq_ok] at h
    obtain ⟨i, -, t, -, ⟨stopped, r₁⟩, hstop, h⟩ := h
    cases h
    obtain ⟨⟨status, reason, hr', -⟩, -⟩ := Scheduler.checkStop_eq_ok hstop
    rw [hr']
    exact ⟨rfl, fun _ => hfull⟩
  · cases h
    exact ⟨rfl, fun hne => absurd rfl hne⟩

end

/-! ## Runs of the engine -/

section

variable {ρ : Type} {positions : ReqId → List PlaceholderRange} {p : SchedulerParams}
  {c c' : EngineCore (GPUModelRunner (List ρ))} {t t' : Traces}
  {e : EngineEvent (List ρ) (List TokenId)}

/-- The placeholders that are computed belong to outputs that were delivered. -/
structure FedInv (c : EngineCore (GPUModelRunner (List ρ))) (t : Traces) : Prop where
  inside : ∀ id r, c.scheduler.requests.get? id = some r →
    ∀ pos ∈ r.mmPositions, pos.offset + pos.length ≤ r.promptTokenIds.length
  cached : ∀ id i v, cachedOutput c.executor.encoderCache id i = some v → (id, i) ∈ t.delivered
  fed : ∀ id r i pos, c.scheduler.requests.get? id = some r → r.mmPositions[i]? = some pos →
    pos.offset < r.numComputedTokens → (id, i) ∈ t.delivered

/-- What a call of `schedule` schedules was delivered before. -/
theorem FedInv.window (h : FedInv c t) (ho : OutputInv positions p c t) {s : Scheduler}
    {out : SchedulerOutput}
    (hs : c.scheduler.schedule p (c.available (uniProcExecutor ρ p.maxNumRunningReqs)) =
      .ok (out, s)) {id : ReqId} {n i : ℕ} {r : Request} {pos : PlaceholderRange}
    (hn : out.numScheduledTokens.get? id = some n) (hr : s.requests.get? id = some r)
    (hpos : r.mmPositions[i]? = some pos) (h1 : pos.offset < r.numComputedTokens + n)
    (h2 : r.numComputedTokens < pos.offset + pos.length) : (id, i) ∈ t.delivered := by
  have hin := Scheduler.schedule_covered ho.queues.wf hs
    (fun id r hr => (ho.placed id r hr).1 ▸ (ho.placed id r hr).2) hn hr hpos h1 h2
  have hav := (Scheduler.schedule_held ho.queues.wf hs ho.behind ho.held id i hin).2.1
  obtain ⟨v, hv⟩ := Option.isSome_iff_exists.mp hav
  exact h.cached id i v hv

/-- So was what it leaves computed after the update. -/
theorem FedInv.computed (hoff : p.kv.enableCaching = false) (h : FedInv c t)
    (ho : OutputInv positions p c t) {s : Scheduler} {out : SchedulerOutput}
    (hs : c.scheduler.schedule p (c.available (uniProcExecutor ρ p.maxNumRunningReqs)) =
      .ok (out, s)) {mo : ModelRunnerOutput} {id : ReqId} {i : ℕ} {r r' : Request}
    {pos : PlaceholderRange} (hr : s.requests.get? id = some r)
    (hupd : Scheduler.updatedRequest p out mo id r = .ok r') (hpos : r.mmPositions[i]? = some pos)
    (hlt : pos.offset < r'.numComputedTokens) : (id, i) ∈ t.delivered := by
  obtain ⟨r₀, hr₀, hgain⟩ := schedule_noGain hoff ho.queues.wf hs id r hr
  have hpos₀ : r₀.mmPositions[i]? = some pos := hgain.mmPositions ▸ hpos
  by_cases hold : pos.offset < r.numComputedTokens
  · exact h.fed id r₀ i pos hr₀ hpos₀ (Nat.lt_of_lt_of_le hold hgain.computed)
  · obtain ⟨hplace, hwell⟩ := ho.placed id r₀ hr₀
    have hlen : 0 < pos.length := by
      rw [← hplace] at hwell
      exact hwell.2 pos (List.mem_of_getElem? hpos₀)
    rw [(updatedRequest_full hupd).1] at hlt
    cases hn : out.numScheduledTokens.get? id with
    | none =>
      rw [hn, Option.getD_none] at hlt
      omega
    | some n =>
      rw [hn, Option.getD_some] at hlt
      exact h.window ho hs hn hr hpos hlt (by omega)

/-- **Every event keeps it**, without prefix caching. -/
theorem FedInv.step (hoff : p.kv.enableCaching = false) (h : FedInv c t)
    (ho : OutputInv positions p c t) (hu : UniqueIds t.seen e)
    (hin : ∀ r, e = .addRequest r →
      ∀ pos ∈ r.mmPositions, pos.offset + pos.length ≤ r.promptTokenIds.length)
    (hs : Stepped p (uniProcExecutor ρ p.maxNumRunningReqs) c t e c' t') : FedInv c' t' := by
  have hmono : ∀ pair ∈ t.delivered, pair ∈ t'.delivered := by
    rw [hs.delivered_eq]
    exact fun pair hp => List.mem_append_left _ hp
  have hcached := hs.cached (P := fun id i _ => (id, i) ∈ t'.delivered)
    (fun id i v hv => hmono _ (h.cached id i v hv)) fun res hres y hy => by
      rw [hs.delivered_eq, Option.mem_def.mp hres]
      exact List.mem_append_right _ (List.mem_map_of_mem hy)
  -- a scheduler in which nothing more is computed
  have hkeep : ∀ {s : Scheduler}, (∀ id r', s.requests.get? id = some r' →
      ∃ r, c.scheduler.requests.get? id = some r ∧ NoGain r r') →
      (∀ id r, s.requests.get? id = some r →
        ∀ pos ∈ r.mmPositions, pos.offset + pos.length ≤ r.promptTokenIds.length) ∧
      ∀ id r i pos, s.requests.get? id = some r → r.mmPositions[i]? = some pos →
        pos.offset < r.numComputedTokens → (id, i) ∈ t.delivered := by
    intro s hsame
    refine ⟨fun id r' hr' pos hpos => ?_, fun id r' i pos hr' hpos hlt => ?_⟩
    · obtain ⟨r, hr, hgain⟩ := hsame id r' hr'
      rw [hgain.promptTokenIds]
      exact h.inside id r hr pos (hgain.mmPositions ▸ hpos)
    · obtain ⟨r, hr, hgain⟩ := hsame id r' hr'
      exact h.fed id r i pos hr (hgain.mmPositions ▸ hpos) (Nat.lt_of_lt_of_le hlt hgain.computed)
  cases hs with
  | add r =>
    have hnew : ∀ id r', (c.scheduler.requests.set r.requestId r).get? id = some r' →
        r' = r ∨ c.scheduler.requests.get? id = some r' := by
      intro id r' hr'
      rw [Dict.get?_set] at hr'
      split_ifs at hr' with he
      · exact Or.inl (Option.some.inj hr').symm
      · exact Or.inr hr'
    refine ⟨fun id r' hr' pos hpos => ?_, hcached, fun id r' i pos hr' hpos hlt => ?_⟩
    · obtain rfl | hr' := hnew id r' hr'
      · exact hin r' rfl pos hpos
      · exact h.inside id r' hr' pos hpos
    · obtain rfl | hr' := hnew id r' hr'
      · rw [hu.1.2.2.2.1] at hlt
        exact absurd hlt (Nat.not_lt_zero _)
      · exact h.fed id r' i pos hr' hpos hlt
  | abort hf =>
    obtain ⟨h1, h2⟩ := hkeep fun id r' hr' =>
      ⟨r', finishRequests_later ho.queues.wf hf hr', NoGain.refl r'⟩
    exact ⟨h1, hcached, h2⟩
  | reset => exact ⟨h.inside, hcached, h.fed⟩
  | result hh =>
    exact ⟨h.inside, hcached, fun id r i pos hr hpos hlt => hmono _ (h.fed id r i pos hr hpos hlt)⟩
  | idle => exact ⟨h.inside, hcached, h.fed⟩
  | discard hsched hh hz =>
    obtain ⟨h1, h2⟩ := hkeep (schedule_noGain hoff ho.queues.wf hsched)
    exact ⟨h1, hcached, fun id r i pos hr hpos hlt => hmono _ (h2 id r i pos hr hpos hlt)⟩
  | execute hsched hh hz he hup =>
    rename_i polled outcome out s s' w w' output outputs
    obtain ⟨h1, h2⟩ := hkeep (schedule_noGain hoff ho.queues.wf hsched)
    have hw := Scheduler.schedule_wf ho.queues.wf hsched
    refine ⟨fun id r' hr' pos hpos => ?_, hcached, fun id r' i pos hr' hpos hlt => ?_⟩
    · obtain ⟨-, hsame, -⟩ | ⟨-, r, r₁, hr, hupd, hsam, hem⟩ :=
        Scheduler.updateFromOutput_emits hw hup id
      · exact h1 id r' (hsame ▸ hr') pos hpos
      · obtain rfl := hem.eq_of_some hr'
        rw [hsam] at hpos ⊢
        exact h1 id r hr pos hpos
    · obtain ⟨-, hsame, -⟩ | ⟨-, r, r₁, hr, hupd, hsam, hem⟩ :=
        Scheduler.updateFromOutput_emits hw hup id
      · exact hmono _ (h2 id r' i pos (hsame ▸ hr') hpos hlt)
      · obtain rfl := hem.eq_of_some hr'
        have hmm : r'.mmPositions = r.mmPositions := by rw [hsam]
        exact hmono _ (h.computed hoff ho hsched hr hupd (hmm ▸ hpos) hlt)

/-- **A request that gets a token** has had all its outputs delivered, without prefix caching. -/
theorem FedInv.answered (hoff : p.kv.enableCaching = false) (h : FedInv c t)
    (ho : OutputInv positions p c t) {polled : Option (EncoderResult (List ρ))}
    {sampled : List TokenId} {progress : Progress} {ex : Execution}
    (hc : c.call p (uniProcExecutor ρ p.maxNumRunningReqs) polled sampled =
      .ok (progress, some ex, c')) {o : EngineCoreOutput} (hout : o ∈ ex.outputs) {i : ℕ}
    (hi : i < (positions o.requestId).length) : (o.requestId, i) ∈ t.delivered := by
  obtain ⟨-, hnone, -⟩ | ⟨out, s, w, hs, hh, ⟨-, -, hnone, -⟩ |
    ⟨-, -, output, w', outputs, s', he, hup, hex, -⟩⟩ := EngineCore.call_eq_ok hc
  · cases hnone
  · cases hnone
  obtain rfl := Option.some.inj hex
  have hw := Scheduler.schedule_wf ho.queues.wf hs
  have hmem : o ∈ outputsOf o.requestId outputs := List.mem_filter.mpr ⟨hout, by simp⟩
  obtain ⟨-, -, hnil⟩ | ⟨-, r, r', hr, hupd, hsam, hem⟩ :=
    Scheduler.updateFromOutput_emits hw hup o.requestId
  · rw [hnil] at hmem
    cases hmem
  -- a token was sampled, so everything is computed
  have htok : r'.outputTokenIds ≠ r.outputTokenIds := by
    intro hsame
    generalize outputsOf o.requestId outputs = l at hem hmem
    generalize s'.requests.get? o.requestId = left at hem
    cases hem with
    | silent => cases hmem
    | token tok o' stopped _ _ hnew =>
      rw [hsame] at hnew
      exact absurd (congrArg List.length hnew) (by simp)
  have hfull := (updatedRequest_full hupd).2 htok
  obtain ⟨r₀, hr₀, hgain⟩ := schedule_noGain hoff ho.queues.wf hs _ r hr
  have hplace := hgain.mmPositions.trans (ho.placed _ r₀ hr₀).1
  have hpos : r.mmPositions[i]? = some (positions o.requestId)[i] := by
    rw [hplace]
    exact List.getElem?_eq_getElem hi
  refine h.computed hoff ho hs hr hupd hpos ?_
  have hle := h.inside _ r₀ hr₀ (positions o.requestId)[i]
    (hgain.mmPositions ▸ List.mem_of_getElem? hpos)
  have hwell : WellPlaced (positions o.requestId) := (ho.placed _ r₀ hr₀).2
  have hlen := hwell.2 _ (List.getElem_mem hi)
  rw [← hgain.promptTokenIds] at hle
  have hnum : r.numTokens = r.promptTokenIds.length + r.outputTokenIds.length := by
    rw [Request.numTokens, Request.allTokenIds, List.length_append]
  omega

end

/-! ## Runs of the client and its processes -/

namespace AsyncMPClient

section

variable {ρ : Type} {positions : ReqId → List PlaceholderRange} {p : SchedulerParams}
  {enc : MultiModalKwargs → List ρ} {σ : AsyncMPClient ρ}

theorem ClientRun.fed (hoff : p.kv.enableCaching = false) (h : ClientRun positions p enc σ) :
    FedInv σ.engine.core σ.engine.log.traces := by
  have hinv := h.acceptedEngine.invariant (P := fun τ : EngineRun (GPUModelRunner (List ρ)) =>
    OutputInv positions p τ.core τ.log.traces ∧ FedInv τ.core τ.log.traces) ?_ ?_
  · exact hinv.2
  · refine ⟨OutputInv.init, ?_, ?_, ?_⟩
    · intro id r hr; cases hr
    · intro id i v hv; cases hv
    · intro id r i pos hr; cases hr
  · rintro τ e τ' ⟨ho, hf⟩ ⟨⟨hord, huniq, hplaced, -⟩, hacc⟩ hs
    have hstep := step_stepped hord hs
    exact ⟨ho.step huniq hplaced hstep,
      hf.step hoff ho huniq (fun r hr => (hacc r hr).inside) hstep⟩

/-- **Which requests with images are answered**: without prefix caching only those that are served, and
of these only those with a single image. -/
theorem answered_served (hoff : p.kv.enableCaching = false) (h : ClientRun positions p enc σ)
    {polled : Option (EncoderResult (List ρ))} {sampled : List TokenId} {progress : Progress}
    {ex : Execution} {c : EngineCore (GPUModelRunner (List ρ))}
    (hc : σ.engine.core.call p (uniProcExecutor ρ p.maxNumRunningReqs) polled sampled =
      .ok (progress, some ex, c)) {o : EngineCoreOutput} (ho : o ∈ ex.outputs)
    (himage : positions o.requestId ≠ []) :
    (positions o.requestId).length = 1 ∧ ∃ q ∈ served p σ.submitted, q.requestId = o.requestId := by
  have hplaced : EngineRun.PlacedRun positions p σ.engine :=
    h.engine.mono fun _ _ he => ⟨he.1, he.2.1, he.2.2.1⟩
  obtain ⟨done, pending, hσ⟩ := h.inv
  -- every input is the last one of a request that is served
  have hall : ∀ i < (positions o.requestId).length,
      ∃ q ∈ done, q.requestId = o.requestId ∧ lastInput p.encoder q = some i := by
    intro i hi
    have hdel := (h.fed hoff).answered hoff hplaced.outputInv hc ho hi
    change _ ∈ σ.engine.log.delivered at hdel
    rw [hσ.delivered] at hdel
    obtain ⟨q, hq, hpair⟩ := List.mem_filterMap.mp hdel
    obtain ⟨j, hj, he⟩ := Option.map_eq_some_iff.mp hpair
    obtain ⟨hid, rfl⟩ := Prod.mk.inj he
    exact ⟨q, hq, hid, hj⟩
  have hpos := List.length_pos_iff.mpr himage
  obtain ⟨q, hq, hid, hlast⟩ := hall 0 hpos
  refine ⟨?_, q, ?_, hid⟩
  · by_contra hne
    obtain ⟨q', hq', hid', hlast'⟩ := hall 1 (by omega)
    have hsub : ∀ r ∈ done, r ∈ σ.submitted := fun r hr => by
      rw [hσ.order]
      simp [hr]
    obtain rfl : q' = q :=
      List.inj_on_of_nodup_map hσ.fresh (hsub q' hq') (hsub q hq) (hid'.trans hid.symm)
    rw [hlast] at hlast'
    cases hlast'
  · rw [hσ.done_eq.1] at hq
    exact List.mem_of_mem_take hq

end

open SchedulerRun (smallParams)

/-- The small engine without prefix caching. -/
def uncachedParams : SchedulerParams :=
  { smallParams with kv := { smallParams.kv with enableCaching := false } }

/-- The first of three requests is answered. -/
theorem answered_served_wedged : ∃ (σ : AsyncMPClient ℕ) (progress : Progress) (ex : Execution)
    (c : EngineCore (GPUModelRunner (List ℕ))) (o : EngineCoreOutput),
    ClientRun secondHasNone uncachedParams oneRow σ ∧
    σ.submitted.map (·.requestId) = ["a", "b", "c"] ∧
    σ.engine.core.call uncachedParams (uniProcExecutor ℕ uncachedParams.maxNumRunningReqs) none [8] =
      .ok (progress, some ex, c) ∧ o ∈ ex.outputs ∧ o.requestId = "a" ∧
    (secondHasNone "a").length = 1 ∧ ∃ q ∈ served uncachedParams σ.submitted, q.requestId = "a" := by
  obtain ⟨σ, hrun, hids, hcall⟩ := exists_reachable (fun σ e => step uncachedParams oneRow σ e)
    (fun σ e => Admissible uncachedParams oneRow σ secondHasNone e) (init uncachedParams) wedgedEvents
    (fun σ => σ.submitted.map (·.requestId) = ["a", "b", "c"] ∧
      (σ.engine.core.call uncachedParams (uniProcExecutor ℕ uncachedParams.maxNumRunningReqs) none
        [8]).toOption.any (fun y => decide
          (y.2.1.map (fun ex => ex.outputs.map (·.requestId)) = some ["a"])) = true) (by decide +kernel)
  obtain ⟨⟨progress, exec, c⟩, hok, hx⟩ := exists_ok_of_any hcall
  obtain ⟨ex, hex, houts⟩ := Option.map_eq_some_iff.mp (of_decide_eq_true hx)
  obtain rfl : exec = some ex := hex
  obtain ⟨o, hout, ho⟩ := List.mem_map.mp (show "a" ∈ ex.outputs.map (·.requestId) by rw [houts]; simp)
  obtain ⟨hlen, hserved⟩ := answered_served rfl hrun hok hout (by rw [ho]; decide)
  rw [ho] at hlen hserved
  exact ⟨σ, progress, ex, c, o, hrun, hids, hok, hout, ho, hlen, hserved⟩

end AsyncMPClient

end SpaceServe
