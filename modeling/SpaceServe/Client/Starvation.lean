import SpaceServe.Scheduler.Progress
import SpaceServe.Client.Answers

/-!
# An engine that spins for good

The encoder sends one output for each request that it serves, so that a request may wait for an input
that never comes. `EngineCore.step` calls `schedule` again until there is something to execute, and while
it does the engine takes no message of the client.

* `Starves`, `Starved`, `Starves.tries_zero`, **`Starved.schedule`**: a scheduler that only finds requests
  which wait for such inputs;
* `Undelivered`, `Undelivered.submit`, `ClientInv.not_cached`: the inputs that never come;
* `Livelocked`, `starved_advance`, `Livelocked.step`, **`livelock`**: the engine spins for good, whatever the
  client sends.
-/

set_option autoImplicit false

namespace SpaceServe

open Py EncoderScheduler EncoderCore

/-! ## A starved scheduler -/

/-- A request with `nc` computed tokens waits for an input that never comes. -/
def Starves (never : ReqId → ℕ → Prop) (r : Request) (nc : ℕ) : Prop :=
  ∃ i pos, r.mmPositions[i]? = some pos ∧ pos.offset ≤ nc ∧ nc < pos.offset + pos.length ∧
    never r.requestId i

/-- All running requests wait for inputs that never come, and so does the first waiting one, unless no
further request may run. -/
structure Starved (p : SchedulerParams) (never : ReqId → ℕ → Prop) (s : Scheduler) : Prop where
  running : ∀ id ∈ s.running, ∀ r, s.requests.get? id = some r →
    Starves never r r.numComputedTokens
  waiting : ∀ id ∈ s.waiting.head?, s.running.length = p.maxNumRunningReqs ∨
    (p.kv.enableCaching = false ∧ ∀ r, s.requests.get? id = some r → Starves never r 0)

section Starved

variable {p : SchedulerParams} {available : ReqId → ℕ → Bool} {never never' : ReqId → ℕ → Prop}
  {F : List (ReqId × ℕ)} {s s' : Scheduler} {r : Request} {nc : ℕ}

theorem Starves.mono (h : Starves never r nc) (hle : ∀ id i, never id i → never' id i) :
    Starves never' r nc := by
  obtain ⟨i, pos, hi, h1, h2, hnever⟩ := h
  exact ⟨i, pos, hi, h1, h2, hle _ i hnever⟩

/-- Such a request gets no tokens. -/
theorem Starves.tries_zero (h : Starves never r nc)
    (hnever : ∀ id i, never id i → available id i = false) (hwell : WellPlaced r.mmPositions)
    (hheld : Held available F s) {inputs : List ℕ} {n eb n' eb' : ℤ} (hn : 0 ≤ n)
    (htry : s.tryScheduleEncoderInputs available r nc n eb = .ok (inputs, n', eb')) : n' = 0 := by
  obtain ⟨i, pos, hi, h1, h2, hnev⟩ := h
  have hle := (tryScheduleEncoderInputs_le hn htry).1
  by_contra hne
  have hav : available r.requestId i = true := by
    obtain hc | hc := tryScheduleEncoderInputs_covers hwell (by omega) htry i pos hi (by omega) h2
    · exact (hheld _ i hc).2.1
    · exact (tryScheduleEncoderInputs_inputs htry i hc).1
  rw [hnever _ i hnev] at hav
  cases hav

theorem Starved.mono (h : Starved p never s) (hle : ∀ id i, never id i → never' id i)
    (hrun : s'.running = s.running) (hwait : s'.waiting = s.waiting)
    (hreq : ∀ id r', s'.requests.get? id = some r' → ∃ r hs, s.requests.get? id = some r ∧
      r' = r.setKvBlockHashes hs) : Starved p never' s' := by
  refine ⟨fun id hid r' hr' => ?_, fun id hid => ?_⟩
  · obtain ⟨r, hs, hr, rfl⟩ := hreq id r' hr'
    rw [hrun] at hid
    exact (h.running id hid r hr).mono hle
  · rw [hwait] at hid
    rw [hrun]
    refine (h.waiting id hid).imp_right fun hhead => ⟨hhead.1, fun r' hr' => ?_⟩
    obtain ⟨r, hs, hr, rfl⟩ := hreq id r' hr'
    exact (hhead.2 r hr).mono hle

/-- What a starved scheduler finds for the first waiting request. -/
theorem Starved.look (h : Starved p never s)
    (hwell : ∀ id r, s.requests.get? id = some r → WellPlaced r.mmPositions)
    (hheld : Held available F s) (hnever : ∀ id i, never id i → available id i = false)
    {id : ReqId} {rest : List ReqId} {computed : List ℕ} {request : Request} {st₁ : Scheduling}
    {inputs : List ℕ} {n eb : ℤ} (hlook : WaitingLook p available (Scheduling.start p s) id rest
      computed nc request st₁ inputs n eb) : n = 0 := by
  have hhere : s.waiting = id :: rest := hlook.here
  obtain hfull | ⟨hcaching, hhead⟩ := h.waiting id (by rw [hhere]; rfl)
  · exact absurd hfull hlook.room
  have htry := hlook.tries_before
  have hbehind := hlook.behind
  rw [(cachedPrefix_local hlook.lookup).2.1] at hbehind
  obtain ⟨r₀, bs, hr₀, hg, -, hcomp, hnc, hash, rfl⟩ := cachedPrefix_eq_ok hlook.lookup
  -- without a cache no prefix is found
  have hbs : bs = [] := by
    unfold KVCacheManager.getComputedBlocks at hg
    rw [if_pos hcaching, Except.ok.injEq, Prod.mk.injEq] at hg
    exact hg.1.symm
  obtain rfl : nc = 0 := by
    obtain ⟨-, rfl⟩ | ⟨-, hne, -⟩ := hcomp
    · rw [hnc, hbs, List.length_nil, Nat.zero_mul]
    · exact absurd hbs hne
  have hstarves : Starves never (r₀.setKvBlockHashes hash) 0 := hhead r₀ hr₀
  exact hstarves.tries_zero hnever (hwell id r₀ hr₀) hheld hbehind.le htry

/-- **A starved scheduler stays starved**: a call of `schedule` schedules nothing. -/
theorem Starved.schedule (h : Starved p never s) (hw : s.WF p)
    (hwell : ∀ id r, s.requests.get? id = some r → WellPlaced r.mmPositions)
    (hheld : Held available F s) (hnever : ∀ id i, never id i → available id i = false)
    {out : SchedulerOutput} (hs : s.schedule p available = .ok (out, s')) :
    out.totalNumScheduledTokens = 0 ∧ Starved p never s' := by
  obtain ⟨st₀, st, _, _, _, hl, heq, -, -, rfl, -, htotal, -⟩ := schedule_eq_ok hw hs
  obtain ⟨i, st₁, st₂, hat, hend, hcase⟩ := loops_rounds hl
  have hrunning : ∀ {j : ℕ} {id : ReqId} {r : Request} {inputs : List ℕ} {n eb : ℤ},
      RunningLook available j (Scheduling.start p s) id r inputs n eb → n = 0 := by
    intro j id r inputs n eb hlook
    exact (h.running id (List.mem_of_getElem? hlook.here) r hlook.known).tries_zero hnever
      (hwell id r hlook.known) hheld hlook.behind.le hlook.tries
  -- every running request is passed
  have hpass : ∀ x : ℕ × Scheduling,
      Relation.ReflTransGen (RunningRound p available) (0, Scheduling.start p s) x →
      x.2 = Scheduling.start p s := by
    intro x hx
    induction hx with
    | refl => rfl
    | tail _ hr ih =>
      cases hr with
      | pass hlook => exact ih
      | take hlook hn _ =>
        cases ih
        exact absurd (hrunning hlook) hn
  obtain rfl : st₁ = Scheduling.start p s := hpass _ hat
  obtain rfl : st₂ = Scheduling.start p s := by
    cases hend with
    | ended => rfl
    | preempted hlook hn _ => exact absurd (hrunning hlook) hn
  obtain ⟨hc, -⟩ | ⟨-, st₃, hrounds, hend'⟩ := hcase
  · exact absurd rfl hc
  obtain rfl : st₃ = Scheduling.start p s := by
    obtain heq' | ⟨y, hr, -⟩ := Relation.ReflTransGen.cases_head hrounds
    · exact heq'.symm
    · cases hr with
      | take hlook hn => exact absurd (h.look hwell hheld hnever hlook) hn
  -- at most the hashes of the first waiting request have changed
  have hlast : st₀.numScheduledTokens = .empty ∧ st₀.sched.running = s.running ∧
      st₀.sched.waiting = s.waiting ∧ ∀ id r', st₀.sched.requests.get? id = some r' →
        ∃ r hs, s.requests.get? id = some r ∧ r' = r.setKvBlockHashes hs := by
    cases hend' with
    | ended => exact ⟨rfl, rfl, rfl, fun id r hr => ⟨r, _, hr, rfl⟩⟩
    | pass hlook =>
      obtain ⟨r₀, _, hr₀, -, rfl, -, -, hash, rfl⟩ := cachedPrefix_eq_ok hlook.lookup
      refine ⟨rfl, rfl, rfl, fun id r hr => ?_⟩
      change (s.requests.set _ (r₀.setKvBlockHashes hash)).get? id = some r at hr
      rw [Dict.get?_set] at hr
      split_ifs at hr with he
      · cases hr
        exact ⟨r₀, hash, he ▸ hr₀, rfl⟩
      · exact ⟨r, _, hr, rfl⟩
    | refused hlook hn => exact absurd (h.look hwell hheld hnever hlook) hn
  obtain ⟨htok, hrun, hwait, hreq⟩ := hlast
  refine ⟨?_, h.mono (fun _ _ hnev => hnev) ?_ ?_ fun id r' hr' => ?_⟩
  · have hst : st.numScheduledTokens = st₀.numScheduledTokens := by rw [heq]
    rw [htotal, Scheduling.totalTokens, hst, htok]
    rfl
  · change st.sched.running = s.running
    rw [heq]
    exact hrun
  · change st.sched.waiting = s.waiting
    rw [heq]
    exact hwait
  · change st.sched.requests.get? id = some r' at hr'
    rw [heq] at hr'
    exact hreq id r' hr'

/-- `step` returns without a call of `schedule` if there is nothing to do. -/
theorem EngineCore.advance_idle {E V O : Type} {x : Executor E V O} {c c' : EngineCore E}
    {polled : Option (EncoderResult V)} {outcome : O}
    (h : c.advance p x polled outcome = .ok (.idle, c')) :
    c.spinning = false ∧ c.scheduler.hasUnfinishedRequests = false := by
  obtain ⟨⟨progress, exec, c₁⟩, hcall, h⟩ := bind_eq_ok.mp h
  cases h
  by_contra hidle
  rw [call, if_neg hidle] at hcall
  simp only [bind_eq_ok] at hcall
  obtain ⟨_, -, _, -, hcall⟩ := hcall
  split_ifs at hcall
  · cases hcall
  · simp only [bind_eq_ok] at hcall
    obtain ⟨_, -, _, -, hcall⟩ := hcall
    cases hcall

end Starved

namespace AsyncMPClient

section

variable {ρ : Type} {positions : ReqId → List PlaceholderRange} {p : SchedulerParams}
  {enc : MultiModalKwargs → List ρ} {done pending : List Request} {σ σ₁ σ₂ σ' : AsyncMPClient ρ}
  {id : ReqId} {i : ℕ}

/-! ## Inputs that never come -/

/-- The output of input `i` of a submitted request never comes: the encoder does not serve the request,
or it sends the output of another input. -/
def Undelivered (p : SchedulerParams) (submitted : List Request) (id : ReqId) (i : ℕ) : Prop :=
  id ∈ submitted.map (·.requestId) ∧
    ∀ q ∈ served p submitted, q.requestId = id → lastInput p.encoder q ≠ some i

instance (p : SchedulerParams) (submitted : List Request) (id : ReqId) (i : ℕ) :
    Decidable (Undelivered p submitted id i) := by unfold Undelivered; infer_instance

/-- Later requests do not change who is served among the earlier ones. -/
theorem mem_served_of_append {l : List Request} {q r : Request} (h : q ∈ served p (l ++ [r]))
    (hne : q ≠ r) : q ∈ served p l := by
  unfold served at h ⊢
  rw [List.takeWhile_append] at h
  split_ifs at h with hall
  · rw [(List.takeWhile_prefix _).eq_of_length hall]
    rw [List.take_append, List.mem_append] at h
    obtain h | h := h
    · exact h
    · have hq := (List.takeWhile_prefix _).subset (List.mem_of_mem_take h)
      exact absurd (List.mem_singleton.mp hq) hne
  · exact h

theorem Undelivered.submit {l : List Request} {r : Request} (h : Undelivered p l id i)
    (hnew : r.requestId ∉ l.map (·.requestId)) : Undelivered p (l ++ [r]) id i := by
  refine ⟨?_, fun q hq hid => ?_⟩
  · rw [List.map_append]
    exact List.mem_append_left _ h.1
  · refine h.2 q (mem_served_of_append hq ?_) hid
    rintro rfl
    exact hnew (hid ▸ h.1)

theorem ClientInv.not_cached (h : ClientInv positions p enc done pending σ)
    (hu : Undelivered p σ.submitted id i) :
    cachedOutput σ.engine.core.executor.encoderCache id i = none := by
  rw [Option.eq_none_iff_forall_not_mem]
  intro v hv
  obtain ⟨r, hr, hv⟩ := h.cache id i v hv
  obtain ⟨hid, hlast, -⟩ := outputs_sentResult.mp hv
  rw [h.done_eq.1] at hr
  exact hu.2 r (List.mem_of_mem_take hr) hid.symm hlast

/-! ## The livelock -/

/-- `EngineCore.step` is in its loop, with a starved scheduler. -/
structure Livelocked (p : SchedulerParams) (σ : AsyncMPClient ρ) : Prop where
  spinning : σ.engine.core.spinning = true
  starved : Starved p (Undelivered p σ.submitted) σ.engine.core.scheduler

/-- A call of `schedule` with a starved scheduler leads into the loop, and does not lead out of it. -/
theorem starved_advance (hrun : ClientRun positions p enc σ)
    (h : Starved p (Undelivered p σ.submitted) σ.engine.core.scheduler)
    (hbusy : σ.engine.core.spinning = true ∨
      σ.engine.core.scheduler.hasUnfinishedRequests = true)
    {polled : Option (EncoderResult (List ρ))} {sampled : List TokenId}
    {engine : EngineRun (GPUModelRunner (List ρ))}
    (hs : σ.engine.step p (uniProcExecutor ρ p.maxNumRunningReqs) (.advance polled sampled) =
      .ok engine) : engine.core.spinning = true ∧
      Starved p (Undelivered p σ.submitted) engine.core.scheduler ∧
      engine.log.executed = σ.engine.log.executed := by
  obtain ⟨done, pending, hσ⟩ := hrun.inv
  have hplaced : EngineRun.PlacedRun positions p σ.engine :=
    hrun.engine.mono fun _ _ he => ⟨he.1, he.2.1, he.2.2.1⟩
  have hinv := hplaced.outputInv
  obtain ⟨⟨progress, c⟩, hnext, hs⟩ := bind_eq_ok.mp hs
  cases hs
  obtain ⟨rfl, -⟩ | ⟨out, s, executor, hsched, -, hcase⟩ := EngineCore.advance_eq_ok hnext
  · obtain ⟨hspin, hnone⟩ := EngineCore.advance_idle hnext
    rw [hspin, hnone] at hbusy
    obtain hbusy | hbusy := hbusy <;> cases hbusy
  obtain ⟨hzero, hstarved⟩ := h.schedule hinv.queues.wf
    (fun id r hr => (hinv.placed id r hr).1 ▸ (hinv.placed id r hr).2) hinv.held
    (fun id i hu => Option.isSome_eq_false_iff.mpr (Option.isNone_iff_eq_none.mpr (hσ.not_cached hu)))
    hsched
  obtain ⟨-, rfl, rfl⟩ | ⟨hne, -⟩ := hcase
  · refine ⟨rfl, hstarved, ?_⟩
    cases polled <;> rfl
  · exact absurd hzero hne

/-- A call of `schedule` is one of the engine. -/
theorem step_advance_eq_ok {b : Bool} {sampled : List TokenId}
    (hs : step p enc σ (.advance b sampled) = .ok σ') : ∃ polled,
      σ.engine.step p (uniProcExecutor ρ p.maxNumRunningReqs) (.advance polled sampled) =
        .ok σ'.engine ∧ σ'.submitted = σ.submitted ∧ σ'.engineInput = σ.engineInput := by
  rw [step] at hs
  split at hs
  · obtain ⟨engine, he, hs⟩ := bind_eq_ok.mp hs
    cases hs
    exact ⟨_, he, rfl, rfl⟩
  · obtain ⟨engine, he, hs⟩ := bind_eq_ok.mp hs
    cases hs
    exact ⟨_, he, rfl, rfl⟩

/-- **A livelock stays one**: the engine executes nothing and takes no message, whatever happens. -/
theorem Livelocked.step (h : Livelocked p σ) (hrun : ClientRun positions p enc σ) {e : Event}
    (ha : Admissible p enc σ positions e) (hs : step p enc σ e = .ok σ') :
    Livelocked p σ' ∧ σ.engineInput <+: σ'.engineInput ∧
      σ'.engine.log.executed = σ.engine.log.executed := by
  obtain ⟨done, pending, hσ⟩ := hrun.inv
  cases step_moved hσ.encoder hs with
  | skip _ => exact ⟨h, List.prefix_rfl, rfl⟩
  | submit r =>
    refine ⟨⟨h.spinning, h.starved.mono (fun id i hu => hu.submit ha.2) rfl rfl fun id r hr => ?_⟩,
      List.prefix_rfl, rfl⟩
    exact ⟨r, _, hr, rfl⟩
  | forward _ => exact ⟨⟨h.spinning, h.starved⟩, List.prefix_append _ _, rfl⟩
  | post _ _ => exact ⟨⟨h.spinning, h.starved⟩, List.prefix_append _ _, rfl⟩
  | hand _ => exact ⟨⟨h.spinning, h.starved⟩, List.prefix_rfl, rfl⟩
  | send _ _ _ _ _ => exact ⟨⟨h.spinning, h.starved⟩, List.prefix_rfl, rfl⟩
  | handle hspin _ _ =>
    rw [h.spinning] at hspin
    cases hspin
  | receive hspin _ _ =>
    rw [h.spinning] at hspin
    cases hspin
  | poll _ _ hengine =>
    obtain ⟨h1, h2, h3⟩ := starved_advance hrun h.starved (Or.inl h.spinning) hengine
    exact ⟨⟨h1, h2⟩, List.prefix_rfl, h3⟩
  | advance hengine =>
    obtain ⟨h1, h2, h3⟩ := starved_advance hrun h.starved (Or.inl h.spinning) hengine
    exact ⟨⟨h1, h2⟩, List.prefix_rfl, h3⟩

/-- Nothing leads out of it. -/
theorem Livelocked.run (h : Livelocked p σ) (hrun : ClientRun positions p enc σ)
    (hmore : Reachable (fun σ e => AsyncMPClient.step p enc σ e)
      (fun σ e => Admissible p enc σ positions e) σ σ') :
    ClientRun positions p enc σ' ∧ Livelocked p σ' ∧ σ.engineInput <+: σ'.engineInput ∧
      σ'.engine.log.executed = σ.engine.log.executed := by
  refine hmore.invariant (P := fun σ' => ClientRun positions p enc σ' ∧ Livelocked p σ' ∧
    σ.engineInput <+: σ'.engineInput ∧ σ'.engine.log.executed = σ.engine.log.executed)
    ⟨hrun, h, List.prefix_rfl, rfl⟩ ?_
  rintro σ₁ e σ₂ ⟨hrun₁, h₁, hpre, hexec⟩ ha hs
  obtain ⟨h₂, hpre', hexec'⟩ := h₁.step hrun₁ ha hs
  exact ⟨hrun₁.next ha hs, h₂, hpre.trans hpre', hexec'.trans hexec⟩

/-- **A livelock.** An engine that calls `step` with a starved scheduler and unfinished requests spins for
good: whatever happens, nothing is executed any more, and no message of the client that has not been
handled yet ever is, aborts included. -/
theorem livelock (hrun : ClientRun positions p enc σ)
    (hstarved : Starved p (Undelivered p σ.submitted) σ.engine.core.scheduler)
    (hbusy : σ.engine.core.spinning = true ∨
      σ.engine.core.scheduler.hasUnfinishedRequests = true)
    {b : Bool} {sampled : List TokenId} (hs : step p enc σ (.advance b sampled) = .ok σ₁)
    (hmore : Reachable (fun σ e => step p enc σ e) (fun σ e => Admissible p enc σ positions e) σ₁ σ₂)
    (hlater : Reachable (fun σ e => step p enc σ e) (fun σ e => Admissible p enc σ positions e) σ₂ σ') :
    σ'.engine.core.spinning = true ∧ σ'.engine.log.executed = σ.engine.log.executed ∧
      σ.engineInput <+: σ₂.engineInput ∧ σ₂.engineInput <+: σ'.engineInput := by
  obtain ⟨polled, hengine, hsub, hin⟩ := step_advance_eq_ok hs
  obtain ⟨hspin, hstarved₁, hexec₁⟩ := starved_advance hrun hstarved hbusy hengine
  rw [← hsub] at hstarved₁
  have hlive : Livelocked p σ₁ := ⟨hspin, hstarved₁⟩
  obtain ⟨hrun₂, h₂, hpre₂, hexec₂⟩ := hlive.run (hrun.next (by trivial) hs) hmore
  obtain ⟨-, h', hpre', hexec'⟩ := h₂.run hrun₂ hlater
  exact ⟨h'.spinning, hexec'.trans (hexec₂.trans hexec₁), hin ▸ hpre₂, hpre'⟩

end

/-- The first request has two images. -/
def twoImages (id : ReqId) : List PlaceholderRange := if id = "a" then [⟨0, 1⟩, ⟨1, 1⟩] else []

/-- A request with two images waits for the first of them; the client aborts it, and resets the cache. -/
theorem livelock_two_images : ∃ σ σ₂ σ' : AsyncMPClient ℕ,
    ClientRun twoImages uncachedParams oneRow σ ∧ σ.engine.core.scheduler.waiting = ["a"] ∧
    σ₂.engineInput = [.abort ["a"]] ∧ σ₂.engineInput <+: σ'.engineInput ∧
    σ'.engine.core.spinning = true ∧ σ'.engine.log.executed = σ.engine.log.executed := by
  obtain ⟨σ, hrun, hrunning, hwait, hr, hu, hin, hadvance⟩ := exists_reachable
    (fun σ e => AsyncMPClient.step uncachedParams oneRow σ e)
    (fun σ e => Admissible uncachedParams oneRow σ twoImages e) (init uncachedParams)
    [.addRequest (.ofPrompt "a" [5, 5, 6] [⟨0, 1⟩, ⟨1, 1⟩]), .encoderInput, .encoderStep, .sendInput 0,
      .engineInput, .encoderResult]
    (fun σ => σ.engine.core.scheduler.running = [] ∧ σ.engine.core.scheduler.waiting = ["a"] ∧
      (σ.engine.core.scheduler.requests.get? "a").map (fun r => (r.requestId, r.mmPositions)) =
        some ("a", [⟨0, 1⟩, ⟨1, 1⟩]) ∧
      Undelivered uncachedParams σ.submitted "a" 0 ∧ σ.engineInput.length = 0 ∧
      (AsyncMPClient.step uncachedParams oneRow σ (.advance false [])).toOption.any
        (fun σ₁ => σ₁.engineInput.length = 0) = true) (by decide +kernel)
  obtain ⟨σ₁, hs, hin₁⟩ := exists_ok_of_any hadvance
  have hin₁ : σ₁.engineInput = [] := List.eq_nil_of_length_eq_zero (of_decide_eq_true hin₁)
  have hstarved : Starved uncachedParams (Undelivered uncachedParams σ.submitted)
      σ.engine.core.scheduler := by
    refine ⟨fun id hid => ?_, fun id hid => Or.inr ⟨rfl, fun r hget => ?_⟩⟩
    · rw [hrunning] at hid
      cases hid
    · rw [hwait] at hid
      cases hid
      rw [hget, Option.map_some, Option.some.injEq, Prod.mk.injEq] at hr
      refine ⟨0, ⟨0, 1⟩, ?_, Nat.le_refl 0, Nat.zero_lt_one, hr.1 ▸ hu⟩
      rw [hr.2]
      rfl
  have hbusy : σ.engine.core.scheduler.hasUnfinishedRequests = true := by
    rw [Scheduler.hasUnfinishedRequests, hwait]
    exact decide_eq_true (Nat.lt_of_lt_of_le Nat.zero_lt_one (Nat.le_add_right _ _))
  -- the abort is sent, and never taken
  have habort : AsyncMPClient.step uncachedParams oneRow σ₁ (.abortRequests ["a"]) =
      .ok { σ₁ with engineInput := σ₁.engineInput ++ [.abort ["a"]] } := by
    rw [AsyncMPClient.step, if_neg (List.cons_ne_nil "a" [])]
  obtain ⟨hspin, hexec, -, hpre⟩ := livelock hrun hstarved (Or.inr hbusy) hs
    (Reachable.start.next (by trivial) habort)
    (Reachable.start.next (e := .resetPrefixCache) (by trivial) rfl)
  refine ⟨σ, _, _, hrun, hwait, ?_, hpre, hspin, hexec⟩
  rw [hin₁]
  rfl

end AsyncMPClient

end SpaceServe
