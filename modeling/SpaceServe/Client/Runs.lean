import SpaceServe.Client.Model
import SpaceServe.Engine.Embeddings

/-!
# Runs of the client and its processes

The encoder takes the requests in the order in which they were submitted and puts one result on the
queue for each; the engine takes the results in that order. So the requests fall into those whose result
the engine has, those whose result is on the queue, those that wait in the encoder and those that have
not reached it.

* `EngineEvent.added`, `EngineEvent.result`, `Stepped.seen_eq`, `Stepped.delivered_eq`,
  `Stepped.cached`: what an event of the engine adds;
* `ClientInv`, `ClientInv.ran`, **`ClientInv.step`**;
* **`ClientRun.engine`**: the engine of every such run is in a state of a run of its own.
-/

set_option autoImplicit false

namespace SpaceServe

open Py EncoderScheduler EncoderCore

/-! ## What an event of the engine adds -/

section Stepped

variable {E V O : Type}

/-- The request that an event adds. -/
def EngineEvent.added : EngineEvent V O → List ReqId
  | .addRequest r => [r.requestId]
  | _ => []

/-- The encoder result that an event brings. -/
def EngineEvent.result : EngineEvent V O → Option (EncoderResult V)
  | .encoderResult res => some res
  | .advance polled _ => polled
  | _ => none

variable {p : SchedulerParams} {x : Executor E V O} {c c' : EngineCore E} {t t' : Traces}
  {e : EngineEvent V O}

theorem Stepped.seen_eq (h : Stepped p x c t e c' t') : t'.seen = t.seen ++ e.added := by
  cases h <;> simp [EngineEvent.added]

theorem Stepped.delivered_eq (h : Stepped p x c t e c' t') :
    t'.delivered = t.delivered ++ polledPairs e.result := by
  cases h <;> simp [EngineEvent.result, polledPairs]

/-- What holds of the outputs in the cache and of those that an event brings, holds of the outputs in
the cache afterwards. -/
theorem Stepped.cached {ρ : Type} {c c' : EngineCore (GPUModelRunner (List ρ))} {m : ℕ}
    {e : EngineEvent (List ρ) (List TokenId)} {P : ReqId → ℕ → List ρ → Prop}
    (hs : Stepped p (uniProcExecutor ρ m) c t e c' t')
    (h : ∀ id i v, cachedOutput c.executor.encoderCache id i = some v → P id i v)
    (hres : ∀ res ∈ e.result, ∀ y ∈ res.outputs, P y.1.1 y.1.2 y.2) :
    ∀ id i v, cachedOutput c'.executor.encoderCache id i = some v → P id i v := by
  have hhandle : ∀ {polled : Option (EncoderResult (List ρ))} {w : GPUModelRunner (List ρ)},
      (∀ res ∈ polled, ∀ y ∈ res.outputs, P y.1.1 y.1.2 y.2) →
      EngineCore.handle (uniProcExecutor ρ m) c.executor polled = .ok w →
      ∀ id i v, cachedOutput w.encoderCache id i = some v → P id i v := by
    intro polled w hpolled hh id i v hv
    obtain hv | ⟨res, hr, hv⟩ := ((EngineRun.handle_uniProc hh).2.2 id i).1 v hv
    · exact h id i v hv
    · exact hpolled res hr _ hv
  cases hs with
  | add r => exact h
  | abort hf => exact h
  | reset => exact h
  | result hh =>
    rename_i res w
    have hh' : EngineCore.handle (uniProcExecutor ρ m) c.executor (some res) = .ok w := hh
    exact hhandle hres hh'
  | idle => exact h
  | discard hsched hh hz => exact hhandle hres hh
  | execute hsched hh hz he hup =>
    intro id i v hv
    rw [GPUModelRunner.cachedOutput_executeModel he] at hv
    split_ifs at hv
    exact hhandle hres hh id i v hv

end Stepped

namespace AsyncMPClient

variable {ρ : Type} {positions : ReqId → List PlaceholderRange} {p : SchedulerParams}
  {enc : MultiModalKwargs → List ρ} {done pending : List Request} {σ σ' : AsyncMPClient ρ}

/-- The requests that messages add. -/
def addedBy (messages : List EngineCoreRequestUnion) : List Request := messages.filterMap (·.added)

/-- The requests on their way to the engine. -/
def onWay (σ : AsyncMPClient ρ) : List Request := addedBy σ.engineInput ++ σ.sending

variable (positions p enc) in
/-- The requests in `done` have their result in the engine, those in `pending` on the queue. -/
structure ClientInv (done pending : List Request) (σ : AsyncMPClient ρ) : Prop where
  accepted : ∀ r ∈ σ.submitted, Accepted p enc positions r
  fresh : (σ.submitted.map (·.requestId)).Nodup
  ids : (σ.engine.log.seen ++ σ.onWay.map (·.requestId)).Perm (σ.submitted.map (·.requestId))
  sent : ∀ r ∈ σ.onWay, r ∈ σ.submitted
  encoder : σ.encoder.Inv p.encoder
  order : σ.submitted = done ++ pending ++ σ.encoder.scheduler.waiting ++ σ.encoderInput
  taken : σ.encoder.scheduler.running.length = (done ++ pending).length
  fits : ∀ r ∈ done ++ pending, FirstFits p.encoder r
  results : σ.results = pending.map (sentResult p.encoder enc)
  delivered : σ.engine.log.delivered = done.filterMap (sentPair p.encoder)
  cache : ∀ id i v, cachedOutput σ.engine.core.executor.encoderCache id i = some v →
    ∃ r ∈ done, ((id, i), v) ∈ (sentResult p.encoder enc r).outputs

theorem ClientInv.init : ClientInv positions p enc [] [] (init p : AsyncMPClient ρ) := by
  refine ⟨?_, List.nodup_nil, List.Perm.refl _, ?_, ⟨Nat.zero_le _, rfl⟩, rfl, rfl, ?_, rfl, rfl, ?_⟩
  · intro r hr; cases hr
  · intro r hr; cases hr
  · intro r hr; cases hr
  · intro id i v hv; cases hv

/-- The results on the queue are those of submitted requests, with one row for each placeholder. -/
theorem ClientInv.fit (h : ClientInv positions p enc done pending σ) {res : EncoderResult (List ρ)}
    (hres : res ∈ σ.results) : Fits positions res := by
  rw [h.results] at hres
  obtain ⟨r, hr, rfl⟩ := List.mem_map.mp hres
  have hacc := h.accepted r (by rw [h.order]; simp [hr])
  rintro ⟨⟨id, i⟩, v⟩ hy pos hpos
  obtain ⟨hid, hlast, x, hx, hv⟩ := outputs_sentResult.mp hy
  simp only at hid hlast hx hv hpos ⊢
  rw [hid, ← hacc.ranges] at hpos
  have hzip : (r.mmInputs.zip r.mmPositions)[i]? = some (x, pos) := by
    rw [List.getElem?_zip_eq_some]
    exact ⟨hx, hpos⟩
  rw [hv]
  exact hacc.sized _ (List.mem_of_getElem? hzip)

/-! ## Steps of the engine -/

theorem orderly_advance {c : EngineCore (GPUModelRunner (List ρ))} {sampled : List TokenId} :
    c.Orderly (.advance none sampled : EngineEvent (List ρ) (List TokenId)) := fun _ => rfl

theorem orderly_polled {c : EngineCore (GPUModelRunner (List ρ))} {sampled : List TokenId}
    {res : EncoderResult (List ρ)} (h : c.spinning = true) :
    c.Orderly (.advance (some res) sampled : EngineEvent (List ρ) (List TokenId)) := by
  intro hno
  rw [h] at hno
  cases hno

/-- What a step of the engine leaves of the invariant, when it has taken the result of `g`. -/
theorem ClientInv.ran (h : ClientInv positions p enc done pending σ)
    {e : EngineEvent (List ρ) (List TokenId)} {engine : EngineRun (GPUModelRunner (List ρ))}
    (ho : σ.engine.core.Orderly e)
    (hs : σ.engine.step p (uniProcExecutor ρ p.maxNumRunningReqs) e = .ok engine)
    {g : Option Request} (hg : e.result = g.map (sentResult p.encoder enc)) :
    engine.log.seen = σ.engine.log.seen ++ e.added ∧
      engine.log.delivered = (done ++ g.toList).filterMap (sentPair p.encoder) ∧
      ∀ id i v, cachedOutput engine.core.executor.encoderCache id i = some v →
        ∃ r ∈ done ++ g.toList, ((id, i), v) ∈ (sentResult p.encoder enc r).outputs := by
  have hstep := step_stepped ho hs
  refine ⟨hstep.seen_eq, ?_, hstep.cached (fun id i v hv => ?_) fun res hres y hy => ?_⟩
  · have hdel : engine.log.delivered = σ.engine.log.delivered ++ polledPairs e.result :=
      hstep.delivered_eq
    rw [hdel, h.delivered, List.filterMap_append, hg]
    congr 1
    cases g with
    | none => rfl
    | some r =>
      rw [Option.map_some, Option.toList_some, polledPairs, pairs_sentResult]
      cases hp : sentPair p.encoder r <;> simp [hp]
  · obtain ⟨r, hr, hv⟩ := h.cache id i v hv
    exact ⟨r, List.mem_append_left _ hr, hv⟩
  · rw [hg, Option.mem_def, Option.map_eq_some_iff] at hres
    obtain ⟨r, rfl, rfl⟩ := hres
    exact ⟨r, by simp, hy⟩

/-- The engine has taken the first result off the queue. -/
theorem ClientInv.took (h : ClientInv positions p enc done pending σ)
    {e : EngineEvent (List ρ) (List TokenId)} {engine : EngineRun (GPUModelRunner (List ρ))}
    {res : EncoderResult (List ρ)} {rest : List (EncoderResult (List ρ))}
    (hq : σ.results = res :: rest) (he : e.result = some res) (hadd : e.added = [])
    (ho : σ.engine.core.Orderly e)
    (hs : σ.engine.step p (uniProcExecutor ρ p.maxNumRunningReqs) e = .ok engine) :
    ∃ done' pending', ClientInv positions p enc done' pending' (σ.took rest engine) := by
  cases pending with
  | nil =>
    rw [h.results] at hq
    cases hq
  | cons r pending =>
    have hr := h.results
    rw [hq, List.map_cons, List.cons.injEq] at hr
    obtain ⟨hres, hrest⟩ := hr
    obtain ⟨hseen, hdel, hcache⟩ := h.ran ho hs (g := some r) (by rw [he, hres]; rfl)
    have hsplit : done ++ [r] ++ pending = done ++ r :: pending := by simp
    rw [hadd, List.append_nil] at hseen
    refine ⟨done ++ [r], pending, h.accepted, h.fresh, ?_, h.sent, ⟨h.encoder.1, h.encoder.2⟩, ?_, ?_,
      ?_, hrest, hdel, hcache⟩
    · change (engine.log.seen ++ σ.onWay.map (·.requestId)).Perm _
      rw [hseen]
      exact h.ids
    · rw [hsplit]
      exact h.order
    · rw [hsplit]
      exact h.taken
    · rw [hsplit]
      exact h.fits

/-- The engine has moved without taking a result. -/
theorem ClientInv.moved (h : ClientInv positions p enc done pending σ)
    {e : EngineEvent (List ρ) (List TokenId)} {engine : EngineRun (GPUModelRunner (List ρ))}
    {engineInput : List EngineCoreRequestUnion} (he : e.result = none)
    (hin : (addedBy σ.engineInput = addedBy engineInput ∧ e.added = []) ∨
      ∃ r, addedBy σ.engineInput = r :: addedBy engineInput ∧ e.added = [r.requestId])
    (ho : σ.engine.core.Orderly e)
    (hs : σ.engine.step p (uniProcExecutor ρ p.maxNumRunningReqs) e = .ok engine) :
    ClientInv positions p enc done pending
      { σ with
        engineInput := engineInput
        engine := engine } := by
  obtain ⟨hseen, hdel, hcache⟩ := h.ran ho hs (g := none) he
  rw [Option.toList_none, List.append_nil] at hdel hcache
  have hids := h.ids
  have hsent := h.sent
  unfold onWay at hids hsent
  refine ⟨h.accepted, h.fresh, ?_, fun r hr => hsent r ?_, h.encoder, h.order, h.taken, h.fits,
    h.results, hdel, hcache⟩
  · change (engine.log.seen ++ (addedBy engineInput ++ σ.sending).map _).Perm _
    rw [hseen]
    obtain ⟨h1, h2⟩ | ⟨r, h1, h2⟩ := hin
    · rw [h2, List.append_nil, ← h1]
      exact hids
    · rw [h1] at hids
      rw [h2]
      simpa using hids
  · change r ∈ addedBy engineInput ++ σ.sending at hr
    obtain ⟨h1, -⟩ | ⟨r', h1, -⟩ := hin
    · rw [h1]
      exact hr
    · rw [h1]
      exact List.mem_cons_of_mem _ hr

/-- **Every event keeps the order of the requests.** -/
theorem ClientInv.step (h : ClientInv positions p enc done pending σ) {e : Event}
    (ha : Admissible p enc σ positions e) (hm : Moved p enc σ e σ') :
    ∃ done' pending', ClientInv positions p enc done' pending' σ' := by
  cases hm with
  | skip _ => exact ⟨done, pending, h⟩
  | submit r =>
    refine ⟨done, pending, fun r' hr' => ?_, ?_, ?_, fun r' hr' => ?_, h.encoder, ?_, h.taken, h.fits,
      h.results, h.delivered, h.cache⟩
    · obtain hr' | hr' := List.mem_append.mp hr'
      · exact h.accepted r' hr'
      · rw [List.mem_singleton.mp hr']
        exact ha.1
    · rw [List.map_append, List.map_singleton, List.nodup_append]
      refine ⟨h.fresh, List.nodup_singleton _, fun a ha' b hb => ?_⟩
      rw [List.mem_singleton.mp hb]
      exact fun he => ha.2 (he ▸ ha')
    · have hids := h.ids.append_right [r.requestId]
      simpa [onWay] using hids
    · change r' ∈ addedBy σ.engineInput ++ (σ.sending ++ [r]) at hr'
      rw [← List.append_assoc, List.mem_append] at hr'
      obtain hr' | hr' := hr'
      · exact List.mem_append_left _ (h.sent r' hr')
      · exact List.mem_append_right _ hr'
    · rw [h.order]
      simp
  | forward hk =>
    rename_i k r
    obtain ⟨hlt, hget⟩ := List.getElem?_eq_some_iff.mp hk
    have hperm : (r :: σ.sending.eraseIdx k).Perm σ.sending := by
      rw [← hget]
      exact List.getElem_cons_eraseIdx_perm hlt
    have hway : (addedBy (σ.engineInput ++ [.add r]) ++ σ.sending.eraseIdx k).Perm
        σ.onWay := by
      rw [addedBy, List.filterMap_append, List.append_assoc]
      exact hperm.append_left _
    refine ⟨done, pending, h.accepted, h.fresh, ?_, fun r' hr' => h.sent r' (hway.mem_iff.mp hr'),
      h.encoder, h.order, h.taken, h.fits, h.results, h.delivered, h.cache⟩
    exact ((hway.map _).append_left _).trans h.ids
  | post hne hnone =>
    rename_i message
    have hway : addedBy (σ.engineInput ++ [message]) = addedBy σ.engineInput := by
      rw [addedBy, List.filterMap_append]
      simp [hnone, addedBy]
    refine ⟨done, pending, h.accepted, h.fresh, ?_, fun r' hr' => h.sent r' ?_, h.encoder, h.order,
      h.taken, h.fits, h.results, h.delivered, h.cache⟩
    · change (σ.engine.log.seen ++ (addedBy (σ.engineInput ++ [message]) ++
        σ.sending).map _).Perm _
      rw [hway]
      exact h.ids
    · change r' ∈ addedBy (σ.engineInput ++ [message]) ++ σ.sending at hr'
      rw [hway] at hr'
      exact hr'
  | hand hi =>
    rename_i r rest
    refine ⟨done, pending, h.accepted, h.fresh, h.ids, h.sent, ⟨h.encoder.1, h.encoder.2⟩, ?_, h.taken,
      h.fits, h.results, h.delivered, h.cache⟩
    rw [h.order, hi]
    simp [EncoderCore.addRequest, EncoderScheduler.addRequest]
  | send hw htake hrun hq hinv =>
    rename_i r encoder
    refine ⟨done, pending ++ [r], h.accepted, h.fresh, h.ids, h.sent, hinv, ?_, ?_, ?_, ?_, h.delivered,
      h.cache⟩
    · rw [h.order, hw]
      simp
    · rw [hrun]
      have := h.taken
      simp only [List.length_append, List.length_singleton] at this ⊢
      omega
    · intro r' hr'
      rw [← List.append_assoc, List.mem_append] at hr'
      obtain hr' | hr' := hr'
      · exact h.fits r' hr'
      · rw [List.mem_singleton.mp hr']
        exact htake.2.2
    · change encoder.encoderResultQueue = _
      rw [hq, h.results, List.map_append]
      rfl
  | handle hspin hi hs =>
    rename_i message rest engine
    refine ⟨done, pending, h.moved ?_ ?_ ?_ hs⟩
    · cases message <;> rfl
    · rw [hi]
      cases message with
      | add r => exact Or.inr ⟨r, rfl, rfl⟩
      | abort ids => exact Or.inl ⟨rfl, rfl⟩
      | resetPrefixCache => exact Or.inl ⟨rfl, rfl⟩
    · cases message <;> exact hspin
  | receive hspin hq hs =>
    rename_i res rest engine
    have ho : σ.engine.core.Orderly (.encoderResult res : EngineEvent (List ρ) (List TokenId)) := hspin
    exact h.took hq rfl rfl ho hs
  | poll hspin hq hs => exact h.took hq rfl rfl (orderly_polled hspin) hs
  | advance hs => exact ⟨done, pending, h.moved rfl (Or.inl ⟨rfl, rfl⟩) orderly_advance hs⟩

/-! ## Runs -/

theorem ClientRun.inv (h : ClientRun positions p enc σ) :
    ∃ done pending, ClientInv positions p enc done pending σ := by
  refine h.invariant (P := fun σ => ∃ done pending, ClientInv positions p enc done pending σ)
    ⟨[], [], ClientInv.init⟩ ?_
  rintro σ e σ' ⟨done, pending, hσ⟩ ha hs
  exact hσ.step ha (step_moved hσ.encoder hs)

/-- The engine of every such run is in a state of a run of its own, to which accepted requests are
added. -/
theorem ClientRun.acceptedEngine (h : ClientRun positions p enc σ) :
    Reachable (fun τ e => EngineRun.step p (uniProcExecutor ρ p.maxNumRunningReqs) τ e)
      (fun τ e => (τ.core.Orderly e ∧ UniqueIds τ.log.seen e ∧ Placed positions e ∧
        Fitting positions e ∧ AcceptedPrompt p e) ∧
          ∀ r, e = .addRequest r → Accepted p enc positions r)
      (EngineRun.init p (.init p.maxNumRunningReqs)) σ.engine := by
  have hstep : ∀ (σ : AsyncMPClient ρ) e σ',
      (∃ done pending, ClientInv positions p enc done pending σ) → Admissible p enc σ positions e →
      AsyncMPClient.step p enc σ e = .ok σ' →
      ∃ done pending, ClientInv positions p enc done pending σ' := by
    rintro σ e σ' ⟨done, pending, hσ⟩ ha hs
    exact hσ.step ha (step_moved hσ.encoder hs)
  change Reachable _ _ ((fun σ : AsyncMPClient ρ => σ.engine) (AsyncMPClient.init p))
    ((fun σ => σ.engine) σ)
  refine Reachable.project h ⟨[], [], ClientInv.init⟩ hstep ?_
  rintro σ e σ' ⟨done, pending, hσ⟩ ha hs
  have hm := step_moved hσ.encoder hs
  cases hm with
  | skip _ => exact Or.inl rfl
  | submit r => exact Or.inl rfl
  | forward hk => exact Or.inl rfl
  | post hne hnone => exact Or.inl rfl
  | hand hi => exact Or.inl rfl
  | send hw htake hrun hq hinv => exact Or.inl rfl
  | handle hspin hi hs' =>
    rename_i message rest engine
    refine Or.inr ⟨message.event, ⟨⟨by cases message <;> exact hspin, ?_⟩, ?_⟩, hs'⟩
    · cases message with
      | abort ids => exact ⟨trivial, trivial, trivial, trivial⟩
      | resetPrefixCache => exact ⟨trivial, trivial, trivial, trivial⟩
      | add r =>
        have hr : r ∈ σ.onWay := by
          unfold onWay
          rw [hi]
          exact List.mem_append_left _ List.mem_cons_self
        have hacc := hσ.accepted r (hσ.sent r hr)
        have hnd := hσ.ids.nodup_iff.mpr hσ.fresh
        have hnew : r.requestId ∉ σ.engine.log.seen := fun hseen =>
          (List.nodup_append.mp hnd).2.2 _ hseen _ (List.mem_map_of_mem hr) rfl
        exact ⟨⟨hacc.isNew, hnew⟩, ⟨hacc.ranges, hacc.placed⟩, trivial, hacc.nonempty, hacc.short⟩
    · intro r he
      cases message with
      | abort ids => cases he
      | resetPrefixCache => cases he
      | add r' =>
        cases he
        refine hσ.accepted r (hσ.sent r ?_)
        unfold onWay
        rw [hi]
        exact List.mem_append_left _ List.mem_cons_self
  | receive hspin hq hs' =>
    rename_i res rest engine
    refine Or.inr ⟨.encoderResult res, ⟨⟨hspin, trivial, trivial, ?_, trivial⟩, fun r he => ?_⟩,
      hs'⟩
    · exact hσ.fit (by rw [hq]; exact List.mem_cons_self)
    · cases he
  | poll hspin hq hs' =>
    refine Or.inr ⟨_, ⟨⟨orderly_polled hspin, trivial, trivial, fun res hres => ?_, trivial⟩,
      fun r he => ?_⟩, hs'⟩
    · obtain rfl := Option.some.inj hres
      exact hσ.fit (by rw [hq]; exact List.mem_cons_self)
    · cases he
  | advance hs' =>
    refine Or.inr ⟨_, ⟨⟨orderly_advance, trivial, trivial, fun res hres => ?_, trivial⟩,
      fun r he => ?_⟩, hs'⟩
    · cases hres
    · cases he

/-- **The engine of every such run** is in a state of a run of its own, with accepted prompts, unique
ids and encoder outputs that fit. -/
theorem ClientRun.engine (h : ClientRun positions p enc σ) :
    EngineRun.AcceptedRun positions p σ.engine :=
  h.acceptedEngine.mono fun _ _ he => he.1

end AsyncMPClient

end SpaceServe
