import SpaceServe.Engine.Results
import SpaceServe.Scheduler.Sent
import SpaceServe.Worker.Gather
import SpaceServe.Worker.Update

/-!
# The model runner finds the encoder outputs it needs

With a single process, the scheduler looks at the encoder cache and the worker then drops from it
what the same output has released, before it gathers the rows of the scheduled windows. The two
agree: the scheduled windows only meet inputs that the scheduler holds, and what it holds has a result
that is not dropped.

* `Fits`: an encoder output has one row for each placeholder of its input;
* `WorkerInv`, `OutputInv`: the worker's states, rows and outputs agree with the scheduler;
* `OutputInv.ready`: what an execution finds; `OutputInv.step`;
* **`gather_finds_outputs`**.
-/

set_option autoImplicit false

namespace SpaceServe

open Py

section

variable {ρ : Type} (positions : ReqId → List PlaceholderRange)

/-- An encoder output has one row for each placeholder of its input. -/
def Fits (res : EncoderResult (List ρ)) : Prop :=
  ∀ y ∈ res.outputs, ∀ pos ∈ (positions y.1.1)[y.1.2]?, y.2.length = pos.length

instance (res : EncoderResult (List ρ)) : Decidable (Fits positions res) := by
  unfold Fits; infer_instance

/-- Requests come with their placeholder ranges, which are in order and do not overlap. -/
def Placed {O : Type} : EngineEvent (List ρ) O → Prop
  | .addRequest r => r.mmPositions = positions r.requestId ∧ WellPlaced (positions r.requestId)
  | _ => True

instance {O : Type} : (e : EngineEvent (List ρ) O) → Decidable (Placed positions e)
  | .addRequest r => inferInstanceAs (Decidable (r.mmPositions = positions r.requestId ∧
      WellPlaced (positions r.requestId)))
  | .abortRequests _ => inferInstanceAs (Decidable True)
  | .resetPrefixCache => inferInstanceAs (Decidable True)
  | .encoderResult _ => inferInstanceAs (Decidable True)
  | .advance _ _ => inferInstanceAs (Decidable True)

/-- Encoder results come with one row for each placeholder. -/
def Fitting {O : Type} : EngineEvent (List ρ) O → Prop
  | .encoderResult res => Fits positions res
  | .advance polled _ => ∀ res ∈ polled, Fits positions res
  | _ => True

instance {O : Type} : (e : EngineEvent (List ρ) O) → Decidable (Fitting positions e)
  | .addRequest _ => inferInstanceAs (Decidable True)
  | .abortRequests _ => inferInstanceAs (Decidable True)
  | .resetPrefixCache => inferInstanceAs (Decidable True)
  | .encoderResult res => inferInstanceAs (Decidable (Fits positions res))
  | .advance polled _ => inferInstanceAs (Decidable (∀ res ∈ polled, Fits positions res))

/-- The states and the rows of the worker. -/
structure WorkerInv (m : ℕ) (w : GPUModelRunner (List ρ)) (t : Traces) : Prop where
  seen : ∀ id ∈ w.requests.keys, id ∈ t.seen
  states : ∀ id st, w.requests.get? id = some st →
    st.reqId = id ∧ st.blockIds.isSome = true ∧ st.mmPositions = positions id
  rows : ∀ id ∈ w.inputBatch.reqIdToIndex.keys, id ∈ w.requests.keys
  batch : ∃ n, w.inputBatch.Inv m n []

/-- The outputs in the encoder cache fit the placeholder ranges. -/
def CacheFits (cache : Dict ReqId (Dict ℕ (List ρ))) : Prop :=
  ∀ id, FitsRanges (cachedOutput cache id) (positions id) 0

/-- The worker and its encoder cache agree with the scheduler. -/
structure OutputInv (p : SchedulerParams) (c : EngineCore (GPUModelRunner (List ρ)))
    (t : Traces) : Prop where
  queues : Queues p c.scheduler t
  placed : ∀ id r, c.scheduler.requests.get? id = some r →
    r.mmPositions = positions id ∧ WellPlaced (positions id)
  behind : Behind c.scheduler.encoderCacheManager.freed [] c.scheduler
  held : Held (fun id i => (cachedOutput c.executor.encoderCache id i).isSome)
    c.scheduler.encoderCacheManager.freed c.scheduler
  known : KnownTo c.executor.requests.keys c.scheduler
  worker : WorkerInv positions p.maxNumRunningReqs c.executor t

variable {positions} {p : SchedulerParams}

theorem Held.mono {available available' : ReqId → ℕ → Bool} {F F' : List (ReqId × ℕ)}
    {s : Scheduler} (h : Held available F s) (hF : ∀ pair ∈ F', pair ∈ F)
    (hav : ∀ id i, id ∈ s.requests.keys → available id i = true → (id, i) ∉ F →
      available' id i = true) : Held available' F' s := by
  intro id i hi
  obtain ⟨h1, h2, h3⟩ := h id i hi
  exact ⟨h1, hav id i h1 h2 h3, fun hmem => h3 (hF _ hmem)⟩

theorem KnownTo.onward {K : List ReqId} {s s' : Scheduler} (h : KnownTo K s)
    (ho : Scheduler.Onward s s') : KnownTo K s' := by
  refine ⟨fun id r' hr' hst => ?_, fun id r' hr' hst => ?_, fun id hid => ?_⟩
  · obtain ⟨r, hr, -, -, hs⟩ := ho.requests id r' hr'
    exact h.waiting id r hr (hs ▸ hst)
  · obtain ⟨r, hr, -, -, hs⟩ := ho.requests id r' hr'
    exact h.preempted id r hr (hs ▸ hst)
  · exact h.running id ((ho.running id).mp hid).1

theorem CacheFits.handled {m : ℕ} {w w' : GPUModelRunner (List ρ)}
    {polled : Option (EncoderResult (List ρ))} (h : CacheFits positions w.encoderCache)
    (hh : EngineCore.handle (uniProcExecutor ρ m) w polled = .ok w')
    (hfit : ∀ res ∈ polled, Fits positions res) : CacheFits positions w'.encoderCache := by
  intro id i pos v hpos hv
  rw [Nat.zero_add] at hv
  obtain hv | ⟨res, hres, hv⟩ := ((EngineRun.handle_uniProc hh).2.2 id i).1 v hv
  · exact h id i pos v hpos (by rw [Nat.zero_add]; exact hv)
  · exact hfit res hres ((id, i), v) hv pos hpos

theorem WorkerInv.congr {m : ℕ} {w w' : GPUModelRunner (List ρ)} {t t' : Traces}
    (h : WorkerInv positions m w t) (hreq : w'.requests = w.requests)
    (hbatch : w'.inputBatch = w.inputBatch) (hseen : ∀ id ∈ t.seen, id ∈ t'.seen) :
    WorkerInv positions m w' t' := by
  refine ⟨fun id hid => hseen id (h.seen id (hreq ▸ hid)), ?_, ?_, ?_⟩
  · rw [hreq]; exact h.states
  · rw [hreq, hbatch]; exact h.rows
  · rw [hbatch]; exact h.batch

/-! ## One execution -/

theorem OutputInv.placedAfter {c : EngineCore (GPUModelRunner (List ρ))} {t : Traces}
    (h : OutputInv positions p c t) {available : ReqId → ℕ → Bool} {out : SchedulerOutput}
    {s : Scheduler} (hs : c.scheduler.schedule p available = .ok (out, s)) :
    ∀ id r, s.requests.get? id = some r →
      r.mmPositions = positions id ∧ WellPlaced (positions id) := by
  intro id r hr
  obtain ⟨r₀, hr₀, he⟩ := (Scheduler.schedule_requests h.queues.wf hs).2 id r hr
  exact he ▸ h.placed id r₀ hr₀

/-- An output may be sent to the worker. -/
theorem OutputInv.sentTo {c : EngineCore (GPUModelRunner (List ρ))} {t : Traces}
    (h : OutputInv positions p c t) {available : ReqId → ℕ → Bool} {out : SchedulerOutput}
    {s : Scheduler} (hs : c.scheduler.schedule p available = .ok (out, s))
    {w : GPUModelRunner (List ρ)} (hreq : w.requests = c.executor.requests)
    (hbatch : w.inputBatch = c.executor.inputBatch) :
    Sent c.executor.requests.keys s out ∧ GPUModelRunner.SentTo p.maxNumRunningReqs w out := by
  have hsent := schedule_sent h.queues.wf h.known hs
  have hw := Scheduler.schedule_wf h.queues.wf hs
  refine ⟨hsent, ⟨fun id st hst => ?_, hsent.scheduled, ?_, fun data hdata hk => ?_,
    fun data hdata => ?_⟩⟩
  · rw [hreq] at hst
    obtain ⟨h1, h2, -⟩ := h.worker.states id st hst
    exact ⟨h1, h2⟩
  · exact Nat.le_trans (out.numScheduledTokens.keys_nodup.subperm hsent.running).length_le
      hw.running_le
  · rw [hbatch] at hk
    exact absurd (h.worker.rows _ hk) (hsent.new data hdata).1
  · obtain ⟨hK, r, hr, -⟩ := hsent.cached data hdata
    refine ⟨hreq ▸ hK, ?_⟩
    have hkey := ((Scheduler.schedule_requests h.queues.wf hs).1 _).mp (Dict.mem_keys_of_get? hr)
    exact Alive.not_finished h.queues hs (Or.inl hkey)

/-- What the scheduler holds is in the worker's cache when it gathers. -/
theorem OutputInv.heldAfter {c : EngineCore (GPUModelRunner (List ρ))} {t : Traces} {m : ℕ}
    (h : OutputInv positions p c t) {out : SchedulerOutput} {s : Scheduler}
    (hs : c.scheduler.schedule p (c.available (uniProcExecutor ρ m)) = .ok (out, s))
    {polled : Option (EncoderResult (List ρ))} {w w₁ : GPUModelRunner (List ρ)}
    (hh : EngineCore.handle (uniProcExecutor ρ m) c.executor polled = .ok w)
    (hw₁ : ∀ id i, cachedOutput w₁.encoderCache id i =
      if id ∈ out.finishedReqIds ∨ (id, i) ∈ out.freeEncoderInputIds then none
      else cachedOutput w.encoderCache id i) :
    Held (fun id i => (cachedOutput w₁.encoderCache id i).isSome) [] s := by
  have hheld := Scheduler.schedule_held h.queues.wf hs h.behind h.held
  have hfree := (Prod.mk.inj (schedule_notices hs).1).2
  refine hheld.mono (fun pair hp => (List.not_mem_nil hp).elim) fun id i hid hav hF => ?_
  have hkey := ((Scheduler.schedule_requests h.queues.wf hs).1 id).mp hid
  have hfin := Alive.not_finished h.queues hs (Or.inl hkey)
  rw [hw₁, if_neg (by rw [not_or, hfree]; exact ⟨hfin, hF⟩)]
  exact ((EngineRun.handle_uniProc hh).2.2 id i).2.mpr (Or.inl hav)

/-- What the worker has after `_update_states`: its states and rows agree with the scheduler, and
each scheduled request finds the outputs it needs. -/
structure Ready (p : SchedulerParams) (positions : ReqId → List PlaceholderRange)
    (w₁ : GPUModelRunner (List ρ)) (out : SchedulerOutput) (s : Scheduler) (t : Traces) : Prop where
  worker : WorkerInv positions p.maxNumRunningReqs w₁ t
  known : KnownTo w₁.requests.keys s
  rows : ∀ id, id ∈ w₁.inputBatch.reqIdToIndex.keys ↔ id ∈ out.numScheduledTokens.keys
  ready : ∀ id n, out.numScheduledTokens.get? id = some n → ∃ st r, s.requests.get? id = some r ∧
    st.mmPositions = r.mmPositions ∧ ReadyRow w₁ out id st r.numComputedTokens n

theorem OutputInv.ready {c : EngineCore (GPUModelRunner (List ρ))} {t : Traces} {m : ℕ}
    (h : OutputInv positions p c t) {out : SchedulerOutput} {s : Scheduler}
    (hs : c.scheduler.schedule p (c.available (uniProcExecutor ρ m)) = .ok (out, s))
    {polled : Option (EncoderResult (List ρ))} {w : GPUModelRunner (List ρ)}
    (hh : EngineCore.handle (uniProcExecutor ρ m) c.executor polled = .ok w) :
    ∃ changed w₁, w.updateStates p.maxNumRunningReqs out = .ok (changed, w₁) ∧
      Ready p positions w₁ out s t := by
  obtain ⟨hreq, hbatch, -⟩ := EngineRun.handle_uniProc hh
  obtain ⟨hsent, hto⟩ := h.sentTo hs hreq hbatch
  have hw := Scheduler.schedule_wf h.queues.wf hs
  have hkeys := (Scheduler.schedule_requests h.queues.wf hs).1
  obtain ⟨n₀, hn₀⟩ := h.worker.batch
  obtain ⟨changed, w₁, hup, ⟨⟨n₁, hinv⟩, hrows, -, hnew, hcached, hother, -⟩⟩ :=
    GPUModelRunner.updateStates_spec (hbatch ▸ hn₀) hto
  have hcache := GPUModelRunner.cachedOutput_updateStates hup
  have hheld := h.heldAfter hs hh hcache
  have hplaced := h.placedAfter hs
  -- the state of a scheduled request
  have hstate : ∀ id ∈ out.numScheduledTokens.keys, ∃ st r, w₁.requests.get? id = some st ∧
      s.requests.get? id = some r ∧ st.reqId = id ∧ st.blockIds.isSome = true ∧
      st.mmPositions = positions id ∧ st.numComputedTokens = r.numComputedTokens := by
    intro id hid
    rw [← hsent.scheduled.mem_iff, List.mem_append] at hid
    obtain hid | hid := hid
    · obtain ⟨data, hdata, rfl⟩ := List.mem_map.mp hid
      obtain ⟨-, r, hr, hpos, hnc⟩ := hsent.new data hdata
      exact ⟨_, r, hnew data hdata, hr, rfl, rfl, hpos.trans (hplaced _ r hr).1,
        congrArg Nat.cast hnc⟩
    · obtain ⟨data, hdata, rfl⟩ := List.mem_map.mp hid
      obtain ⟨-, r, hr, hnc⟩ := hsent.cached data hdata
      obtain ⟨st, hst, hst₁⟩ := hcached data hdata
      rw [hreq] at hst
      obtain ⟨h1, -, h3⟩ := h.worker.states _ st hst
      exact ⟨_, r, hst₁, hr, h1, rfl, h3, congrArg Nat.cast hnc⟩
  -- the requests the worker knows
  have hknows : ∀ id, id ∈ w₁.requests.keys ↔ id ∈ out.numScheduledTokens.keys ∨
      (id ∉ out.finishedReqIds ∧ id ∈ c.executor.requests.keys) := by
    intro id
    by_cases hid : id ∈ out.numScheduledTokens.keys
    · obtain ⟨st, -, hst, -⟩ := hstate id hid
      exact ⟨fun _ => Or.inl hid, fun _ => Dict.mem_keys_of_get? hst⟩
    · rw [or_iff_right hid, Dict.mem_keys, hother id hid, hreq, Dict.mem_keys]
      split_ifs with hfin
      · exact ⟨fun hc => Bool.noConfusion hc, fun hc => (hc.1 hfin).elim⟩
      · exact ⟨fun hc => ⟨hfin, hc⟩, And.right⟩
  have hseen : ∀ id ∈ w₁.requests.keys, id ∈ t.seen := by
    intro id hid
    obtain hid | ⟨-, hid⟩ := (hknows id).mp hid
    · exact h.queues.seen id ((hkeys id).mp ((hw.known id).mpr (Or.inl (hsent.running id hid))))
    · exact h.worker.seen id hid
  refine ⟨changed, w₁, hup, ⟨hseen, fun id st hst => ?_, fun id hid => ?_, n₁, hinv⟩, ?_, hrows, ?_⟩
  · by_cases hid : id ∈ out.numScheduledTokens.keys
    · obtain ⟨st', r, hst', -, h1, h2, h3, -⟩ := hstate id hid
      rw [hst] at hst'
      cases hst'
      exact ⟨h1, h2, h3⟩
    · rw [hother id hid] at hst
      split_ifs at hst
      rw [hreq] at hst
      exact h.worker.states id st hst
  · exact (hknows id).mpr (Or.inl ((hrows id).mp hid))
  · -- what was known or new before is known now
    have hiff : ∀ id ∈ s.requests.keys, id ∈ w₁.requests.keys ↔
        id ∈ c.executor.requests.keys ++ out.scheduledNewReqs.map (·.reqId) := by
      intro id hid
      have hfin := Alive.not_finished h.queues hs (Or.inl ((hkeys id).mp hid))
      rw [hknows, ← hsent.scheduled.mem_iff, List.mem_append, List.mem_append]
      constructor
      · rintro ((hn | hc) | ⟨-, hK⟩)
        · exact Or.inr hn
        · obtain ⟨data, hdata, rfl⟩ := List.mem_map.mp hc
          exact Or.inl (hsent.cached data hdata).1
        · exact Or.inl hK
      · rintro (hK | hn)
        · exact Or.inr ⟨hfin, hK⟩
        · exact Or.inl (Or.inl hn)
    refine ⟨fun id r hr hst => ?_, fun id r hr hst => ?_, fun id hid => ?_⟩
    · rw [hiff id (Dict.mem_keys_of_get? hr)]
      exact hsent.known.waiting id r hr hst
    · rw [hiff id (Dict.mem_keys_of_get? hr)]
      exact hsent.known.preempted id r hr hst
    · rw [hiff id ((hw.known id).mpr (Or.inl hid))]
      exact hsent.known.running id hid
  · intro id n hn
    obtain ⟨st, r, hst, hr, -, -, hpos, hnc⟩ := hstate id (Dict.mem_keys_of_get? hn)
    obtain ⟨hrpos, hwell⟩ := hplaced id r hr
    refine ⟨st, r, hr, hpos.trans hrpos.symm, hn, hst, hnc, hsent.pos id n hn, hpos ▸ hwell, ?_⟩
    intro k pos hk h1 h2
    rw [hpos, ← hrpos] at hk
    have hin := Scheduler.schedule_covered h.queues.wf hs
      (fun id r hr => (h.placed id r hr).1 ▸ (h.placed id r hr).2) hn hr hk h1 h2
    obtain ⟨output, ho⟩ := Option.isSome_iff_exists.mp (hheld id k hin).2.1
    exact ⟨output, by rw [Nat.zero_add]; exact ho⟩

/-! ## Runs -/

/-- The tokens that were sampled make no difference. -/
theorem WorkerInv.sampled {m : ℕ} {w w' : GPUModelRunner (List ρ)} {t : Traces}
    (h : WorkerInv positions m w t) (hids : w'.inputBatch.reqIds = w.inputBatch.reqIds)
    (hidx : w'.inputBatch.reqIdToIndex = w.inputBatch.reqIdToIndex)
    (hreq : ∀ id, (w'.requests.get? id).map (fun st => { st with outputTokenIds := [] }) =
      (w.requests.get? id).map fun st => { st with outputTokenIds := [] }) :
    (∀ id, id ∈ w'.requests.keys ↔ id ∈ w.requests.keys) ∧ WorkerInv positions m w' t := by
  have hkeys : ∀ id, id ∈ w'.requests.keys ↔ id ∈ w.requests.keys := by
    intro id
    have he := congrArg Option.isSome (hreq id)
    rw [Option.isSome_map, Option.isSome_map] at he
    rw [Dict.mem_keys, Dict.mem_keys, he]
  refine ⟨hkeys, fun id hid => h.seen id ((hkeys id).mp hid), fun id st' hst' => ?_, ?_, ?_⟩
  · have he := hreq id
    rw [hst', Option.map_some] at he
    obtain ⟨st, hst, heq⟩ := Option.map_eq_some_iff.mp he.symm
    obtain ⟨h1, h2, h3⟩ := h.states id st hst
    simp only [CachedRequestState.mk.injEq] at heq
    obtain ⟨e1, -, -, e3, -, -, e2, -⟩ := heq
    exact ⟨e1 ▸ h1, e2 ▸ h2, e3 ▸ h3⟩
  · intro id hid
    rw [hidx] at hid
    exact (hkeys id).mpr (h.rows id hid)
  · obtain ⟨n, hn⟩ := h.batch
    exact ⟨n, hn.congr hids hidx⟩

theorem KnownTo.congr {K K' : List ReqId} {s : Scheduler} (h : KnownTo K s)
    (hK : ∀ id, id ∈ K' ↔ id ∈ K) : KnownTo K' s :=
  ⟨fun id r hr hst => mt (hK id).mp (h.waiting id r hr hst),
    fun id r hr hst => (hK id).mpr (h.preempted id r hr hst),
    fun id hid => (hK id).mpr (h.running id hid)⟩

theorem OutputInv.init : OutputInv positions p
    (EngineCore.init p (.init p.maxNumRunningReqs) : EngineCore (GPUModelRunner (List ρ)))
    EngineLog.empty.traces := by
  refine ⟨Queues.init p, ?_, ?_, ?_, ⟨?_, ?_, ?_⟩, ⟨?_, ?_, ?_, 0, InputBatch.Inv.init _⟩⟩
  · intro id r hr; cases hr
  · intro id i r pos hmem; cases hmem
  · intro id i hi; cases hi
  · intro id r hr; cases hr
  · intro id r hr; cases hr
  · intro id hid; cases hid
  · intro id hid; cases hid
  · intro id st hst; cases hst
  · intro id hid; cases hid

/-- **Every event keeps the agreement.** -/
theorem OutputInv.step {c c' : EngineCore (GPUModelRunner (List ρ))} {t t' : Traces}
    {e : EngineEvent (List ρ) (List TokenId)} (h : OutputInv positions p c t)
    (hu : UniqueIds t.seen e) (hp : Placed positions e)
    (hs : Stepped p (uniProcExecutor ρ p.maxNumRunningReqs) c t e c' t') :
    OutputInv positions p c' t' := by
  have hq := h.queues.step hu hs
  cases hs with
  | add r =>
    obtain ⟨hnew, hfresh⟩ := hu
    have hnone : r.requestId ∉ c.executor.requests.keys := mt (h.worker.seen _) hfresh
    refine ⟨hq, fun id r' hr' => ?_, ?_, fun id i hi => ?_, ?_, ?_⟩
    · change (c.scheduler.requests.set r.requestId r).get? id = some r' at hr'
      rw [Dict.get?_set] at hr'
      split_ifs at hr' with he
      · cases hr'
        exact he ▸ hp
      · exact h.placed id r' hr'
    · exact h.behind.addRequest fun pair hpair he =>
        hfresh (he ▸ h.queues.released pair (h.queues.freed pair hpair))
    · obtain ⟨h1, h2⟩ := h.held id i hi
      exact ⟨(Dict.mem_keys_set _ _ _ _).mpr (Or.inr h1), h2⟩
    · refine ⟨?_, ?_, fun id hid => h.known.running id hid⟩
      · exact status_set (P := fun id st => st = .waiting → id ∉ c.executor.requests.keys)
          h.known.waiting r.requestId r fun _ => hnone
      · refine status_set (P := fun id st => st = .preempted → id ∈ c.executor.requests.keys)
          h.known.preempted r.requestId r fun hpre => ?_
        rw [hnew.1] at hpre
        cases hpre
    · exact h.worker.congr rfl rfl fun id hid => List.mem_append_left _ hid
  | abort hf =>
    obtain ⟨-, ho⟩ := Scheduler.finishRequests_onward h.queues.wf hf
    refine ⟨hq, fun id r' hr' => ?_, ?_, ?_, h.known.onward ho, h.worker⟩
    · obtain ⟨r, hr, he, -⟩ := ho.requests id r' hr'
      exact he ▸ h.placed id r hr
    · exact (ho.behind h.behind fun pair hp => hp).mono fun pair hp => List.mem_append_right _ hp
    · exact (ho.held h.held fun pair hp => hp).mono (fun pair hp => List.mem_append_right _ hp)
        fun id i _ hav _ => hav
  | reset =>
    exact ⟨hq, h.placed, h.behind, h.held,
      ⟨h.known.waiting, h.known.preempted, h.known.running⟩, h.worker⟩
  | result hh =>
    rename_i res w
    have hh' : EngineCore.handle (uniProcExecutor ρ p.maxNumRunningReqs) c.executor (some res) =
      .ok w := hh
    obtain ⟨hreq, hbatch, hout⟩ := EngineRun.handle_uniProc hh'
    refine ⟨hq, h.placed, h.behind, ?_, ?_, ?_⟩
    · exact h.held.mono (fun _ hp => hp) fun id i _ hav _ => (hout id i).2.mpr (Or.inl hav)
    · rw [hreq]
      exact h.known
    · exact h.worker.congr hreq hbatch fun id hid => hid
  | idle => exact h
  | discard hsched hh hz =>
    rename_i polled outcome out s w
    obtain ⟨hreq, hbatch, hout⟩ := EngineRun.handle_uniProc hh
    have hempty := (Prod.mk.inj (schedule_notices hsched).2).2
    have hsent := schedule_sent h.queues.wf h.known hsched
    have hnew : ∀ id, id ∉ out.scheduledNewReqs.map (·.reqId) := by
      intro id hid
      have hkey := hsent.scheduled.mem_iff.mp (List.mem_append_left _ hid)
      rw [hsent.nothing hz] at hkey
      cases hkey
    refine ⟨hq, h.placedAfter hsched, ?_, ?_, ?_, ?_⟩
    · rw [hempty]
      exact fun _ _ _ _ hmem => (List.not_mem_nil hmem).elim
    · refine (Scheduler.schedule_held h.queues.wf hsched h.behind h.held).mono (fun pair hp => ?_)
        fun id i _ hav _ => (hout id i).2.mpr (Or.inl hav)
      rw [hempty] at hp
      cases hp
    · refine hsent.known.congr fun id => ?_
      rw [hreq, List.mem_append, or_iff_left (hnew id)]
    · exact h.worker.congr hreq hbatch fun id hid => hid
  | execute hsched hh hz he hup =>
    rename_i polled outcome out s s' w w' output outputs
    have hempty := (Prod.mk.inj (schedule_notices hsched).2).2
    have hempty' : ∀ pair ∈ s.encoderCacheManager.freed, pair ∈ ([] : List (ReqId × ℕ)) := by
      rw [hempty]
      exact fun pair hp => hp
    obtain ⟨-, ho⟩ := Scheduler.updateFromOutput_onward
      (Scheduler.schedule_wf h.queues.wf hsched) hup
    obtain ⟨changed, w₁, hup₁, hready⟩ := h.ready hsched hh
    obtain ⟨_, w₂, _, hup₂, -, henc, hids, hidx, hreq⟩ := GPUModelRunner.executeModel_eq_ok he
    rw [hup₁] at hup₂
    cases hup₂
    obtain ⟨hkeys, hworker⟩ := hready.worker.sampled hids hidx hreq
    have hheld := h.heldAfter hsched hh (GPUModelRunner.cachedOutput_updateStates hup₁)
    rw [← henc] at hheld
    refine ⟨hq, fun id r' hr' => ?_, ?_, ?_, (hready.known.congr hkeys).onward ho, ?_⟩
    · obtain ⟨r, hr, hmm, -⟩ := ho.requests id r' hr'
      exact hmm ▸ h.placedAfter hsched id r hr
    · exact ho.behind (F := []) (fun _ _ _ _ hmem => (List.not_mem_nil hmem).elim) hempty'
    · exact ho.held hheld hempty'
    · exact hworker.congr rfl rfl fun id hid => hid

theorem CacheFits.step {c c' : EngineCore (GPUModelRunner (List ρ))} {t t' : Traces} {m : ℕ}
    {e : EngineEvent (List ρ) (List TokenId)} (h : CacheFits positions c.executor.encoderCache)
    (hf : Fitting positions e) (hs : Stepped p (uniProcExecutor ρ m) c t e c' t') :
    CacheFits positions c'.executor.encoderCache := by
  cases hs with
  | add r => exact h
  | abort hfin => exact h
  | reset => exact h
  | result hh =>
    rename_i res w
    have hh' : EngineCore.handle (uniProcExecutor ρ m) c.executor (some res) = .ok w := hh
    refine h.handled hh' fun res' hres => ?_
    cases hres
    exact hf
  | idle => exact h
  | discard hsched hh hz => exact h.handled hh hf
  | execute hsched hh hz he hup =>
    intro id i pos v hpos hv
    rw [GPUModelRunner.cachedOutput_executeModel he] at hv
    split_ifs at hv
    exact h.handled hh hf id i pos v hpos hv

namespace EngineRun

variable (positions p)

/-- The runs of an engine with a single process, with unique request ids and placeholder ranges that
are in order and do not overlap. -/
def PlacedRun : EngineRun (GPUModelRunner (List ρ)) → Prop :=
  Reachable (fun σ e => step p (uniProcExecutor ρ p.maxNumRunningReqs) σ e)
    (fun σ e => σ.core.Orderly e ∧ UniqueIds σ.log.seen e ∧ Placed positions e)
    (init p (.init p.maxNumRunningReqs))

/-- Those in which each encoder output has one row for each placeholder of its input. -/
def FittingRun : EngineRun (GPUModelRunner (List ρ)) → Prop :=
  Reachable (fun σ e => step p (uniProcExecutor ρ p.maxNumRunningReqs) σ e)
    (fun σ e => σ.core.Orderly e ∧ UniqueIds σ.log.seen e ∧ Placed positions e ∧
      Fitting positions e)
    (init p (.init p.maxNumRunningReqs))

variable {positions p}

theorem PlacedRun.outputInv {σ : EngineRun (GPUModelRunner (List ρ))} (h : PlacedRun positions p σ) :
    OutputInv positions p σ.core σ.log.traces :=
  h.invariant (P := fun σ => OutputInv positions p σ.core σ.log.traces) OutputInv.init
    fun _ _ _ hσ ha hs => hσ.step ha.2.1 ha.2.2 (step_stepped ha.1 hs)

theorem FittingRun.cacheFits {σ : EngineRun (GPUModelRunner (List ρ))} (h : FittingRun positions p σ) :
    CacheFits positions σ.core.executor.encoderCache := by
  refine h.invariant (P := fun σ => CacheFits positions σ.core.executor.encoderCache) ?_ ?_
  · exact fun id i pos v _ hv => by cases hv
  · exact fun σ e σ' hσ ha hs => hσ.step ha.2.2.2 (step_stepped ha.1 hs)

/-- **The model runner finds the encoder outputs it needs**: after `_update_states` no assertion of
`_gather_encoder_outputs` fails, and the slices of each scheduled request have one row for each
placeholder of its window. -/
theorem gather_finds_outputs {σ : EngineRun (GPUModelRunner (List ρ))}
    (h : PlacedRun positions p σ) {polled : Option (EncoderResult (List ρ))}
    {out : SchedulerOutput} {s : Scheduler} {w : GPUModelRunner (List ρ)}
    (hs : σ.core.scheduler.schedule p
      (σ.core.available (uniProcExecutor ρ p.maxNumRunningReqs)) = .ok (out, s))
    (hh : EngineCore.handle (uniProcExecutor ρ p.maxNumRunningReqs) σ.core.executor polled =
      .ok w) :
    ∃ (changed : Bool) (w' : GPUModelRunner (List ρ)) (rows : List ReqId)
      (slices : List (List (List ρ))),
      w.updateStates p.maxNumRunningReqs out = .ok (changed, w') ∧
      rows.Perm out.numScheduledTokens.keys ∧
      w'.gatherEncoderOutputs out = .ok slices.flatten ∧
      (FittingRun positions p σ → (∀ res ∈ polled, Fits positions res) →
        List.Forall₂ (fun id sl => ∃ r n, s.requests.get? id = some r ∧
          out.numScheduledTokens.get? id = some n ∧
          OneRowEach w'.encoderCache id r.mmPositions r.numComputedTokens n sl) rows slices) := by
  have hinv := h.outputInv
  obtain ⟨changed, w', hup, hready⟩ := hinv.ready hs hh
  obtain ⟨n', hb⟩ := hready.worker.batch
  obtain ⟨rows, htake, hnd, hmem⟩ := hb.rows
  have hrows : rows.Perm out.numScheduledTokens.keys :=
    (List.perm_ext_iff_of_nodup hnd out.numScheduledTokens.keys_nodup).mpr fun id =>
      (hmem id).trans (hready.rows id)
  obtain ⟨slices, hg, hall⟩ := gatherEncoderOutputs_spec htake fun id hid => by
    obtain ⟨n, hn⟩ := Dict.exists_get?_of_mem (hrows.mem_iff.mp hid)
    obtain ⟨st, r, -, -, hr⟩ := hready.ready id n hn
    exact ⟨st, _, n, hr⟩
  refine ⟨changed, w', rows, slices, hup, hrows, hg, fun hfitting hpolled => ?_⟩
  have hfits := hfitting.cacheFits
  refine hall.imp fun id sl => ?_
  rintro ⟨st, nc, n, hrow, hone⟩
  obtain ⟨st', r, hr, hmm, hrow'⟩ := hready.ready id n hrow.scheduled
  obtain rfl := Option.some.inj (hrow.state.symm.trans hrow'.state)
  obtain rfl := Int.ofNat.inj (hrow.computed.symm.trans hrow'.computed)
  rw [hmm, (hinv.placedAfter hs id r hr).1] at hone
  refine ⟨r, n, hr, hrow.scheduled, ?_⟩
  rw [(hinv.placedAfter hs id r hr).1]
  refine hone fun i pos v hpos hv => ?_
  rw [GPUModelRunner.cachedOutput_updateStates hup] at hv
  split_ifs at hv
  exact hfits.handled hh hpolled id i pos v hpos hv

end EngineRun

end

namespace EngineRun

open SchedulerRun (smallParams)

/-- What a call of `schedule` schedules. -/
def scheduledTokens (σ : EngineRun (GPUModelRunner (List ℕ))) : List (ReqId × ℕ) :=
  match σ.core.scheduler.schedule smallParams (σ.core.available smallExecutor) with
  | .ok (out, _) => out.numScheduledTokens.entries
  | .error _ => []

theorem gather_finds_outputs_one_image : ∃ (σ : EngineRun (GPUModelRunner (List ℕ)))
    (out : SchedulerOutput) (s : Scheduler) (changed : Bool) (w' : GPUModelRunner (List ℕ))
    (slices : List (List (List ℕ))) (r : Request) (sl : List (List ℕ)),
    FittingRun (fun _ => [⟨0, 1⟩]) smallParams σ ∧
    σ.core.scheduler.schedule smallParams (σ.core.available smallExecutor) = .ok (out, s) ∧
    out.numScheduledTokens.entries = [("a", 2)] ∧
    σ.core.executor.updateStates smallParams.maxNumRunningReqs out = .ok (changed, w') ∧
    w'.gatherEncoderOutputs out = .ok slices.flatten ∧ s.requests.get? "a" = some r ∧
    sl ∈ slices ∧ OneRowEach w'.encoderCache "a" r.mmPositions r.numComputedTokens 2 sl := by
  obtain ⟨σ, hfit, htok⟩ := exists_reachable (fun σ e => step smallParams smallExecutor σ e)
    (fun σ e => σ.core.Orderly e ∧ UniqueIds σ.log.seen e ∧ Placed (fun _ => [⟨0, 1⟩]) e ∧
      Fitting (fun _ => [⟨0, 1⟩]) e)
    (init smallParams (.init smallParams.maxNumRunningReqs))
    [.addRequest (.ofPrompt "a" [5, 6] [⟨0, 1⟩]), .encoderResult (oneResult "a" 0 [42])]
    (fun σ => scheduledTokens σ = [("a", 2)]) (by decide +kernel)
  unfold scheduledTokens at htok
  split at htok
  · rename_i out s hs
    have hh : EngineCore.handle smallExecutor σ.core.executor none = .ok σ.core.executor := rfl
    obtain ⟨changed, w', rows, slices, hup, hrows, hg, hall⟩ := gather_finds_outputs
      (hfit.mono fun σ e he => ⟨he.1, he.2.1, he.2.2.1⟩) hs hh
    have hkeys : out.numScheduledTokens.keys = ["a"] := by rw [Dict.keys, htok]; rfl
    rw [hkeys, List.perm_singleton] at hrows
    subst hrows
    have hall' := hall hfit fun res hres => by cases hres
    cases hall' with
    | cons hone hnil =>
      rename_i sl slices
      obtain ⟨r, n, hr, hn, hrows⟩ := hone
      have hn' : out.numScheduledTokens.get? "a" = some 2 := by rw [Dict.get?, htok]; rfl
      obtain rfl := Option.some.inj (hn.symm.trans hn')
      exact ⟨σ, out, s, changed, w', sl :: slices, r, sl, hfit, hs, htok, hup, hg, hr,
        List.mem_cons_self, hrows⟩
  · cases htok

end EngineRun

end SpaceServe
