import SpaceServe.Engine.Persistent
import SpaceServe.Scheduler.Room
import SpaceServe.Worker.Arrays

/-!
# The persistent batch in its arrays

The runs of `BatchRun` with a worker whose batch stands in arrays of the widths that the scheduler
knows, where a sampling parameter is what `float32` makes of it. Until a list is refused such a run is
a run without bounds, seen through the arrays. The blocks of a scheduled request always fit its row
(`FreshRun.room_capped`), so only a prompt is refused.

* `Row.HoldsIn`, `PersistentIn`: what the arrays hold;
* `ToldBlocks`, `HandedRun.toldBlocks`: the worker has the blocks of the running requests;
* `stepIn`, `ArrayRun`, `Fits`, `stepIn_stored`, **`ArrayRun.stored`**: the runs;
* **`persistent_in_arrays`**, and `temperature_rounded`: a row does not hold the temperature.
-/

set_option autoImplicit false

namespace SpaceServe

open Py

/-! ## What a row holds -/

/-- A row of sampling parameters in its arrays. -/
def ArrayFormat.samplingRow (a : ArrayFormat) (row : SamplingRow) : SamplingRow :=
  { row with
    temperature := a.float32 row.temperature
    topP := a.float32 row.topP
    frequencyPenalty := a.float32 row.frequencyPenalty
    presencePenalty := a.float32 row.presencePenalty
    repetitionPenalty := a.float32 row.repetitionPenalty }

/-- `GPUModelRunner.__init__` gives the arrays the widths that the scheduler knows. -/
structure ArrayFormat.For (a : ArrayFormat) (p : KVCacheParams) : Prop where
  maxModelLen : a.maxModelLen = p.maxModelLen
  maxNumBlocksPerReq : a.maxNumBlocksPerReq = p.maxNumBlocksPerReq

/-- A row of the arrays that holds the state of a request: its tokens, its blocks, and what the arrays
make of its sampling parameters. -/
structure InputBatch.Row.HoldsIn (a : ArrayFormat) (row : InputBatch.Row) (st : CachedRequestState) :
    Prop where
  tokens : ∀ j t, (st.promptTokenIds ++ st.outputTokenIds)[j]? = some t → row.tokenIds j = t
  numTokens : row.numTokens = st.numTokens
  numPromptTokens : row.numPromptTokens = st.promptTokenIds.length
  numComputedTokens : row.numComputedTokens = st.numComputedTokens
  blocks : ∀ j k, (st.blockIds.getD [])[j]? = some k → row.blockIds j = k
  numBlocks : (st.blockIds.getD []).length ≤ row.numBlocks
  sampling : row.sampling = a.samplingRow st.samplingParams.row
  generator : row.generator = st.generator

/-- What the arrays hold of a row. -/
theorem InputBatch.Row.Holds.holdsIn {a : ArrayFormat} {b : InputBatch} {i : ℕ}
    {st : CachedRequestState} (h : (b.row i).Holds st) (hlen : st.numTokens ≤ a.maxModelLen)
    (hblocks : (st.blockIds.getD []).length ≤ a.maxNumBlocksPerReq) :
    ((a.store b).row i).HoldsIn a st where
  tokens j t hj := by
    have hlt : j < st.numTokens := by
      have := (List.getElem?_eq_some_iff.mp hj).1
      rw [List.length_append] at this
      exact this
    have hcol : ((a.store b).row i).tokenIds j = b.tokenIdsCpu i j :=
      if_pos (Nat.lt_of_lt_of_le hlt hlen)
    rw [hcol]
    exact h.tokens j t hj
  numTokens := h.numTokens
  numPromptTokens := h.numPromptTokens
  numComputedTokens := h.numComputedTokens
  blocks j k hj := by
    have hcol : ((a.store b).row i).blockIds j = b.blockTable i j :=
      if_pos (Nat.lt_of_lt_of_le (List.getElem?_eq_some_iff.mp hj).1 hblocks)
    rw [hcol]
    exact h.blocks j k hj
  numBlocks := h.numBlocks
  sampling := by
    rw [← h.sampling]
    rfl
  generator := h.generator

namespace BatchRun

variable {ρ : Type} {p : SchedulerParams} {a : ArrayFormat} {out : SchedulerOutput}
  {w w' : GPUModelRunner (List ρ)} {s' : Scheduler}

/-- The rows of the arrays are the scheduled requests, without holes, and every row holds what the
arrays make of the state of its request. -/
structure PersistentIn (a : ArrayFormat) (m : ℕ) (w : GPUModelRunner (List ρ))
    (out : SchedulerOutput) : Prop where
  length : w.inputBatch.reqIds.length = m
  occupied : ∀ i, (∃ id, w.inputBatch.reqIds[i]? = some (some id)) ↔ i < w.inputBatch.numReqs
  inverse : ∀ i id, w.inputBatch.reqIds[i]? = some (some id) ↔
    w.inputBatch.reqIdToIndex.get? id = some i
  empty : ∀ i < m, w.inputBatch.numReqs ≤ i → w.inputBatch.reqIds[i]? = some none
  scheduled : ∀ id, id ∈ w.inputBatch.reqIdToIndex.keys ↔ id ∈ out.numScheduledTokens.keys
  rows : ∀ id i, w.inputBatch.reqIdToIndex.get? id = some i →
    ∃ st, w.requests.get? id = some st ∧ (w.inputBatch.row i).HoldsIn a st
  generators : ∀ i g, w.inputBatch.generators.get? i = some g →
    ∃ id, w.inputBatch.reqIdToIndex.get? id = some i
  members : ∀ (g : SamplingGroup) (id : ReqId), id ∈ w.inputBatch.members g ↔
    id ∈ w.inputBatch.reqIdToIndex.keys ∧
      ∃ st, w.requests.get? id = some st ∧ g.Asks st.samplingParams
  logprobs : ∀ id, w.inputBatch.numLogprobs.get? id =
    if id ∈ w.inputBatch.reqIdToIndex.keys then
      (w.requests.get? id).bind fun st => st.samplingParams.askedLogprobs else none

/-- The arrays of a persistent batch. -/
theorem Persistent.store {m : ℕ} (h : Persistent m w out)
    (hlen : ∀ id st, w.requests.get? id = some st → st.numTokens ≤ a.maxModelLen)
    (hblocks : ∀ id ∈ out.numScheduledTokens.keys, ∀ st, w.requests.get? id = some st →
      (st.blockIds.getD []).length ≤ a.maxNumBlocksPerReq) :
    PersistentIn a m (a.storeRunner w) out where
  length := h.length
  occupied := h.occupied
  inverse := h.inverse
  empty := h.empty
  scheduled := h.scheduled
  rows id i hi := by
    obtain ⟨st, hst, hrow⟩ := h.faithful.rows id i hi
    have hid := (h.scheduled id).mp (Dict.mem_keys_of_get? hi)
    exact ⟨st, hst, hrow.holdsIn (hlen id st hst) (hblocks id hid st hst)⟩
  generators := h.faithful.generators
  members g id := by
    have hg := h.faithful.members g id
    cases g <;> exact hg
  logprobs := h.faithful.logprobs

/-! ## Blocks -/

/-- The worker has the blocks of the running requests. -/
def ToldBlocks (s : Scheduler) (w : GPUModelRunner (List ρ)) : Prop :=
  ∀ id ∈ s.running, ∀ st, w.requests.get? id = some st → st.blockIds = some (s.kv.blocksOf id)

section Told

variable {s : Scheduler} {m : ℕ}

theorem ToldBlocks.scheduled (h : ToldBlocks s w) (hd : Deltas s s' out)
    (hsent : GPUModelRunner.SentTo m w out) (hup : GPUModelRunner.Updated m w w' out) {id : ReqId}
    (hid : id ∈ out.numScheduledTokens.keys) {st : CachedRequestState}
    (hst : w'.requests.get? id = some st) : st.blockIds = some (s'.kv.blocksOf id) := by
  obtain hid | hid := (hsent.mem_keys id).mp hid
  · obtain ⟨data, hdata, rfl⟩ := List.mem_map.mp hid
    rw [hup.new data hdata] at hst
    cases hst
    exact congrArg some (hd.new data hdata).1
  · obtain ⟨data, hdata, rfl⟩ := List.mem_map.mp hid
    obtain ⟨st₀, h1, h2⟩ := hup.cached data hdata
    rw [h2] at hst
    cases hst
    exact congrArg some (hd.updatedBlocks hdata fun hrun => h _ hrun st₀ h1)

theorem ToldBlocks.schedule (h : ToldBlocks s w) (hd : Deltas s s' out)
    (hsent : GPUModelRunner.SentTo m w out) (hup : GPUModelRunner.Updated m w w' out) :
    ToldBlocks s' w' := by
  intro id hrun st hst
  by_cases hid : id ∈ out.numScheduledTokens.keys
  · exact h.scheduled hd hsent hup hid hst
  · obtain ⟨hrun₀, hsame⟩ := hd.same id hrun hid
    rw [hup.other id hid] at hst
    split_ifs at hst
    rw [hsame]
    exact h id hrun₀ st hst

theorem ToldBlocks.keep (h : ToldBlocks s w) (hrun : ∀ id ∈ s'.running, id ∈ s.running)
    (hkeep : s.KeepsBlocks s') : ToldBlocks s' w := by
  intro id hid st hst
  rw [hkeep id hid]
  exact h id (hrun id hid) st hst

end Told

/-- The ways an event can go. -/
theorem step_cases {ω ω' : BatchRun ρ} {e : BatchEvent} (h : step p ω e = .ok ω') :
    (∃ sampled, e = .sample sampled ∧ ω'.run = ω.run ∧
      (ω'.worker = ω.worker ∨ ∃ out, ω.worker.appendRows out sampled = .ok ω'.worker)) ∨
    (∃ available out changed, e = .call (.schedule available) ∧
      ω.run.sched.schedule p available = .ok (out, ω'.run.sched) ∧
      ω.run.step p (.schedule available) = .ok ω'.run ∧
      ω.worker.updateStates p.maxNumRunningReqs out = .ok (changed, ω'.worker)) ∨
    ∃ e', e = .call e' ∧ (∀ available, e' ≠ .schedule available) ∧ ω.run.step p e' = .ok ω'.run ∧
      ω'.worker = ω.worker := by
  have hother : ∀ e', e = .call e' → (∀ available, e' ≠ .schedule available) →
      (ω.run.step p e' >>= fun σ => .ok ⟨σ, ω.worker⟩) = .ok ω' →
      ∃ e', e = .call e' ∧ (∀ available, e' ≠ .schedule available) ∧ ω.run.step p e' = .ok ω'.run ∧
        ω'.worker = ω.worker := by
    intro e' he hne h
    rw [bind_eq_ok] at h
    obtain ⟨σ, hσ, h⟩ := h
    cases h
    exact ⟨e', he, hne, hσ, rfl⟩
  cases e with
  | sample sampled =>
    refine Or.inl ⟨sampled, rfl, ?_⟩
    unfold step at h
    cases hp : ω.run.pending with
    | none =>
      simp only [hp] at h
      cases h
      exact ⟨rfl, Or.inl rfl⟩
    | some out =>
      simp only [hp, bind_eq_ok] at h
      obtain ⟨w, hw, h⟩ := h
      cases h
      exact ⟨rfl, Or.inr ⟨out, hw⟩⟩
  | call e =>
    cases e with
    | schedule available =>
      simp only [step, bind_eq_ok] at h
      obtain ⟨⟨out, s₁⟩, hs, ⟨changed, w⟩, hw, σ, hσ, h⟩ := h
      cases h
      refine Or.inr (Or.inl ⟨available, out, changed, rfl, ?_, hσ, hw⟩)
      simp only [SchedulerRun.step, hs, ok_bind] at hσ
      cases hσ
      exact hs
    | addRequest r => exact Or.inr (Or.inr (hother _ rfl (fun _ => SchedulerEvent.noConfusion) h))
    | finishRequests ids status =>
      exact Or.inr (Or.inr (hother _ rfl (fun _ => SchedulerEvent.noConfusion) h))
    | updateFromOutput mo =>
      exact Or.inr (Or.inr (hother _ rfl (fun _ => SchedulerEvent.noConfusion) h))
    | resetPrefixCache =>
      exact Or.inr (Or.inr (hother _ rfl (fun _ => SchedulerEvent.noConfusion) h))

theorem HandedRun.freshRun {ω : BatchRun ρ} (h : HandedRun p ω) : SchedulerRun.FreshRun p ω.run := by
  refine h.invariant (P := fun ω : BatchRun ρ => SchedulerRun.FreshRun p ω.run)
    (show SchedulerRun.FreshRun p (SchedulerRun.init p) from .start) ?_
  intro ω e ω' hω hf hs
  obtain ⟨sampled, rfl, hrun, -⟩ | ⟨available, out, changed, rfl, -, hσ, -⟩ | ⟨e', rfl, -, hσ, -⟩ :=
    step_cases hs
  · rw [hrun]
    exact hω
  · exact hω.next (e := .schedule available) trivial hσ
  · exact hω.next (e := e') hf hσ

/-- **In every run the worker has the blocks of the running requests.** -/
theorem HandedRun.toldBlocks {ω : BatchRun ρ} (h : HandedRun p ω) :
    ToldBlocks ω.run.sched ω.worker := by
  induction h with
  | start =>
    intro id hid
    exact (List.not_mem_nil hid).elim
  | @next ω ω' e hreach hf hs ih =>
    have hreach : HandedRun p ω := hreach
    have hsound := hreach.freshRun.sound
    obtain ⟨sampled, rfl, hrun, hw⟩ | ⟨available, out, changed, rfl, hsched, -, hup⟩ |
      ⟨e', rfl, hne, hσ, hw⟩ := step_cases hs
    · rw [hrun]
      obtain hw | ⟨out, hw⟩ := hw
      · rw [hw]
        exact ih
      · obtain ⟨n, hinv⟩ := hreach.inv.told.batch
        have hsame := (GPUModelRunner.appendRows_spec hinv hw).2.2.1
        intro id hid st' hst'
        have he := hsame id
        rw [hst', Option.map_some] at he
        obtain ⟨st, hst, heq⟩ := Option.map_eq_some_iff.mp he.symm
        simp only [CachedRequestState.mk.injEq] at heq
        exact heq.2.2.2.2.2.2.1 ▸ ih id hid st hst
    · obtain ⟨changed', w', hup', hupd⟩ := hreach.inv.updateStates hsched
      rw [hup] at hup'
      cases hup'
      exact ih.schedule (schedule_deltas hsound hsched)
        (hreach.inv.told.sentTo hreach.inv.wf (fun _ hg => hg.elim) hsched) hupd
    · rw [hw]
      obtain ⟨hwf, hb⟩ := hreach.freshRun.blocksInv
      obtain ⟨r, rfl, -, hs'⟩ | ⟨ids, status, rfl, -, hs'⟩ | ⟨available, out, rfl, -, -⟩ |
        ⟨mo, rfl, hs'⟩ | ⟨rfl, -, hs'⟩ := SchedulerRun.step_cases hσ
      · rw [hs']
        exact ih
      · exact ih.keep (fun id hid => (((Scheduler.finishRequests_onward hwf hs').2.running id).mp hid).1)
          (Scheduler.finishRequests_keepsBlocks hsound hs')
      · exact absurd rfl (hne available)
      · obtain he | ⟨out, outputs, hp, -, hs'⟩ := hs'
        · rw [he]
          exact ih
        · rw [SchedulerRun.got_of_some hp] at hb
          exact ih.keep
            (fun id hid => (((Scheduler.updateFromOutput_onward hwf hs').2.running id).mp hid).1)
            (Scheduler.updateFromOutput_keepsBlocks hwf hb hs')
      · rw [hs']
        exact ih.keep (fun id hid => hid) (Scheduler.resetPrefixCache_keepsBlocks p _)

/-! ## Runs -/

/-- One event, with a batch in arrays. -/
def stepIn (a : ArrayFormat) (p : SchedulerParams) (ω : BatchRun ρ) :
    BatchEvent → Except Exn (BatchRun ρ)
  | .call (.schedule available) => do
    let (out, _) ← ω.run.sched.schedule p available
    let (_, w) ← a.updateStates ω.worker p.maxNumRunningReqs out
    let σ ← ω.run.step p (.schedule available)
    .ok ⟨σ, w⟩
  | .call e => do
    let σ ← ω.run.step p e
    .ok ⟨σ, ω.worker⟩
  | .sample sampled =>
    match ω.run.pending with
    | none => .ok ω
    | some out => do
      let w ← a.appendRows ω.worker out sampled
      .ok { ω with worker := w }

/-- The run whose worker holds its batch in arrays. -/
def storeRun (a : ArrayFormat) (ω : BatchRun ρ) : BatchRun ρ := ⟨ω.run, a.storeRunner ω.worker⟩

/-- The runs in which the worker is given every output of the scheduler. What an array holds before
the first assignment does not matter. -/
def ArrayRun (a : ArrayFormat) (p : SchedulerParams) : BatchRun ρ → Prop :=
  Reachable (fun ω e => stepIn a p ω e) Fresh (storeRun a (init p))

/-- The states of the worker and the prompts of the requests that were scheduled fit a row. -/
structure Fits (a : ArrayFormat) (s : Scheduler) (w : GPUModelRunner (List ρ)) : Prop where
  states : ∀ id st, w.requests.get? id = some st → st.numTokens ≤ a.maxModelLen
  prompts : ∀ id r, s.requests.get? id = some r → r.status ≠ .waiting →
    r.promptTokenIds.length ≤ a.maxModelLen

section Schedule

variable {ω : BatchRun ρ} {available : ReqId → ℕ → Bool}

/-- An output whose new prompts fit a row. -/
theorem Fits.schedule (hfit : Fits a ω.run.sched ω.worker) (h : HandedRun p ω)
    (hs : ω.run.sched.schedule p available = .ok (out, s'))
    (hup : GPUModelRunner.Updated p.maxNumRunningReqs ω.worker w' out)
    (hnew : ∀ data ∈ out.scheduledNewReqs, data.promptTokenIds.length ≤ a.maxModelLen) :
    Fits a s' w' := by
  have hsound := h.freshRun.sound
  have hsent := h.inv.told.sentTo h.inv.wf (fun _ hg => hg.elim) hs
  refine ⟨fun id st hst => ?_, fun id r' hr' hne => ?_⟩
  · by_cases hid : id ∈ out.numScheduledTokens.keys
    · obtain hid | hid := (hsent.mem_keys id).mp hid
      · obtain ⟨data, hdata, rfl⟩ := List.mem_map.mp hid
        rw [hup.new data hdata] at hst
        cases hst
        exact hnew data hdata
      · obtain ⟨data, hdata, rfl⟩ := List.mem_map.mp hid
        obtain ⟨st₀, h1, h2⟩ := hup.cached data hdata
        rw [h2] at hst
        cases hst
        exact hfit.states data.reqId st₀ h1
    · rw [hup.other id hid] at hst
      split_ifs at hst
      exact hfit.states id st hst
  · obtain hid | hid := (schedule_sentIds hsound.wf hs id).mp (mem_sentIds.mpr ⟨r', hr', hne⟩)
    · obtain ⟨r, hr, hne₀⟩ := mem_sentIds.mp hid
      obtain ⟨r₀, hr₀, hres⟩ := (hsound.blocks.schedule hsound.wf hs).2 id r' hr'
      obtain rfl := Option.some.inj (hr.symm.trans hr₀)
      have hprompt : r'.promptTokenIds = r.promptTokenIds := by rw [hres.eq]
      rw [hprompt]
      exact hfit.prompts id r hr hne₀
    · obtain ⟨data, hdata, rfl⟩ := List.mem_map.mp hid
      obtain ⟨-, r, hr, hprompt⟩ := (schedule_deltas hsound hs).new data hdata
      obtain rfl := Option.some.inj (hr.symm.trans hr')
      rw [← hprompt]
      exact hnew data hdata

/-- Then the scheduled requests fit the block table. -/
theorem Fits.blocks (hfit : Fits a s' w') (ha : a.For p.kv) (h : HandedRun p ω)
    (hs : ω.run.sched.schedule p available = .ok (out, s'))
    (hup : GPUModelRunner.Updated p.maxNumRunningReqs ω.worker w' out) :
    ∀ id ∈ out.numScheduledTokens.keys, ∀ st, w'.requests.get? id = some st →
      (st.blockIds.getD []).length ≤ a.maxNumBlocksPerReq := by
  intro id hid st hst
  have hsound := h.freshRun.sound
  have hrun' : SchedulerRun.FreshRun p
      ⟨s', if out.totalNumScheduledTokens = 0 then none else some out⟩ := by
    refine h.freshRun.next (e := .schedule available) trivial ?_
    simp only [SchedulerRun.step, hs, ok_bind]
  obtain ⟨hroom, hcap⟩ := hrun'.room_capped
  have hwf' := (hrun'.blocksInv).1
  have hrunning := (schedule_sent hsound.wf (knownTo_sentIds hsound.wf) hs).running id hid
  obtain ⟨r, hr⟩ := hwf'.get?_of_running hrunning
  have hprompt := hfit.prompts id r hr (by
    rw [hwf'.running id r hrunning hr]
    exact RequestStatus.noConfusion)
  have hlen : r.numTokens ≤ p.kv.maxModelLen := by
    rw [← ha.maxModelLen]
    obtain hlen | hlen := hcap id r hr
    · rw [hlen]
      exact hprompt
    · rw [ha.maxModelLen]
      exact Nat.le_of_lt hlen
  rw [h.toldBlocks.scheduled (schedule_deltas hsound hs)
    (h.inv.told.sentTo h.inv.wf (fun _ hg => hg.elim) hs) hup hid hst, ha.maxNumBlocksPerReq]
  exact hroom id r hr hlen

/-- **What `_update_states` of an output does in the arrays.** -/
theorem Fits.updateStates (hfit : Fits a ω.run.sched ω.worker) (ha : a.For p.kv) (h : HandedRun p ω)
    (hs : ω.run.sched.schedule p available = .ok (out, s')) :
    (∃ changed w', ω.worker.updateStates p.maxNumRunningReqs out = .ok (changed, w') ∧
      a.updateStates (a.storeRunner ω.worker) p.maxNumRunningReqs out =
        .ok (changed, a.storeRunner w') ∧
      GPUModelRunner.Updated p.maxNumRunningReqs ω.worker w' out ∧ Fits a s' w' ∧
      ∀ data ∈ out.scheduledNewReqs, data.promptTokenIds.length ≤ a.maxModelLen) ∨
    (∃ msg, a.updateStates (a.storeRunner ω.worker) p.maxNumRunningReqs out =
        .error (.valueError msg)) ∧
      ∃ data ∈ out.scheduledNewReqs, a.maxModelLen < data.promptTokenIds.length := by
  obtain ⟨changed, w', hup, hupd⟩ := h.inv.updateStates hs
  have hsent := h.inv.told.sentTo h.inv.wf (fun _ hg => hg.elim) hs
  have hnd := (List.nodup_append.mp hsent.nodup).2.1
  obtain ⟨hin, hlen⟩ | ⟨hin, id, hid, st, hst, hover⟩ := ArrayFormat.updateStates_store a hnd hup
  · have hnew : ∀ data ∈ out.scheduledNewReqs, data.promptTokenIds.length ≤ a.maxModelLen :=
      fun data hdata => hlen data hdata _ (hupd.new data hdata)
    exact Or.inl ⟨changed, w', hup, hin, hupd, hfit.schedule h hs hupd hnew, hnew⟩
  · refine Or.inr ⟨hin, ?_⟩
    -- if all new prompts fit, so do all lists
    by_contra hno
    have hnew : ∀ data ∈ out.scheduledNewReqs, data.promptTokenIds.length ≤ a.maxModelLen :=
      fun data hdata => Nat.le_of_not_lt fun hlt => hno ⟨data, hdata, hlt⟩
    have hfit' := hfit.schedule h hs hupd hnew
    obtain hover | hover := hover
    · exact Nat.not_lt.mpr (hfit'.states id st hst) hover
    · exact Nat.not_lt.mpr (hfit'.blocks ha h hs hupd id ((hsent.mem_keys id).mpr hid) st hst) hover

end Schedule

/-- The other calls add no prompts. -/
theorem Fits.onward {s : Scheduler} (h : Fits a s w)
    (hreq : ∀ id r', s'.requests.get? id = some r' → r'.status ≠ .waiting →
      ∃ r, s.requests.get? id = some r ∧ r.status ≠ .waiting ∧
        r'.promptTokenIds = r.promptTokenIds) : Fits a s' w := by
  refine ⟨h.states, fun id r' hr' hne => ?_⟩
  obtain ⟨r, hr, hne₀, hprompt⟩ := hreq id r' hr' hne
  rw [hprompt]
  exact h.prompts id r hr hne₀

theorem Fits.step {σ σ' : SchedulerRun} {e : SchedulerEvent} (h : Fits a σ.sched w)
    (hw : σ.sched.WF p) (hf : σ.Fresh e) (hs : σ.step p e = .ok σ')
    (hne : ∀ available, e ≠ .schedule available) : Fits a σ'.sched w := by
  obtain ⟨r, rfl, -, hs'⟩ | ⟨ids, status, rfl, -, hs'⟩ | ⟨available, out, rfl, -, -⟩ |
    ⟨mo, rfl, hs'⟩ | ⟨rfl, -, hs'⟩ := SchedulerRun.step_cases hs
  · rw [hs']
    refine h.onward fun id r' hr' hst => ?_
    obtain ⟨-, rfl⟩ | ⟨-, hr'⟩ := Scheduler.addRequest_get? hr'
    · exact absurd hf.1.1 hst
    · exact ⟨r', hr', hst, rfl⟩
  · exact h.onward fun id r' hr' hst => ⟨r', finishRequests_later hw hs' hr', hst, rfl⟩
  · exact absurd rfl (hne available)
  · obtain he | ⟨out, outputs, -, -, hs'⟩ := hs'
    · rw [he]
      exact h
    · refine h.onward fun id r' hr' hst => ?_
      obtain ⟨r, hr, -, -, hstatus⟩ := (Scheduler.updateFromOutput_onward hw hs').2.requests id r' hr'
      obtain ⟨r₀, hr₀, hlater⟩ := updateFromOutput_later hw hs' hr'
      obtain rfl := Option.some.inj (hr.symm.trans hr₀)
      exact ⟨r, hr, hstatus ▸ hst, by rw [hlater.eq]⟩
  · rw [hs']
    exact h.onward fun id r' hr' hst => ⟨r', hr', hst, rfl⟩

/-- **An event in arrays** is an event without bounds, seen through the arrays. -/
theorem stepIn_stored (ha : a.For p.kv) {ω ω' : BatchRun ρ} {e : BatchEvent} (hrun : HandedRun p ω)
    (hfit : Fits a ω.run.sched ω.worker) (hf : ω.Fresh e)
    (hs : stepIn a p (storeRun a ω) e = .ok ω') :
    ∃ ω₁, HandedRun p ω₁ ∧ ω' = storeRun a ω₁ ∧ Fits a ω₁.run.sched ω₁.worker := by
  -- the other calls do not reach the worker
  have hother : ∀ e, ω.run.Fresh e → (∀ available, e ≠ .schedule available) →
      step p ω (.call e) = (ω.run.step p e >>= fun σ => .ok ⟨σ, ω.worker⟩) →
      (ω.run.step p e >>= fun σ => .ok ⟨σ, a.storeRunner ω.worker⟩) = .ok ω' →
      ∃ ω₁, HandedRun p ω₁ ∧ ω' = storeRun a ω₁ ∧ Fits a ω₁.run.sched ω₁.worker := by
    intro e hf hne hstep h
    simp only [bind_eq_ok] at h
    obtain ⟨σ, hσ, h⟩ := h
    cases h
    refine ⟨⟨σ, ω.worker⟩, hrun.next (e := .call e) hf ?_, rfl, hfit.step hrun.inv.wf hf hσ hne⟩
    rw [hstep, hσ, ok_bind]
  cases e with
  | sample sampled =>
    unfold stepIn storeRun at hs
    cases hp : ω.run.pending with
    | none =>
      simp only [hp] at hs
      cases hs
      exact ⟨ω, hrun, rfl, hfit⟩
    | some out =>
      simp only [hp, bind_eq_ok] at hs
      obtain ⟨v, hv, hs⟩ := hs
      cases hs
      obtain ⟨w₁, hw₁, rfl, hstates⟩ := ArrayFormat.appendRows_store a hv hfit.states
      refine ⟨{ ω with worker := w₁ }, hrun.next (e := .sample sampled) trivial ?_, rfl, hstates,
        hfit.prompts⟩
      have hw₁' : ω.worker.appendRows out sampled = .ok w₁ := hw₁
      simp only [step, hp, hw₁', ok_bind]
  | call e =>
    cases e with
    | schedule available =>
      simp only [stepIn, storeRun, bind_eq_ok] at hs
      obtain ⟨⟨out, s₁⟩, hsched, ⟨changed, v⟩, hv, σ, hσ, hs⟩ := hs
      cases hs
      obtain ⟨changed', w', hup, hin, -, hfit', -⟩ | ⟨⟨msg, herr⟩, -⟩ :=
        hfit.updateStates ha hrun hsched
      · rw [hin] at hv
        cases hv
        have hsame : σ.sched = s₁ := by
          simp only [SchedulerRun.step, hsched, ok_bind] at hσ
          cases hσ
          rfl
        refine ⟨⟨σ, w'⟩, hrun.next (e := .call (.schedule available)) trivial ?_, rfl, ?_⟩
        · simp only [step, hsched, hup, hσ, ok_bind]
        · rw [hsame]
          exact hfit'
      · rw [herr] at hv
        cases hv
    | addRequest r => exact hother (.addRequest r) hf (fun _ => SchedulerEvent.noConfusion) rfl hs
    | finishRequests ids status =>
      exact hother (.finishRequests ids status) hf (fun _ => SchedulerEvent.noConfusion) rfl hs
    | updateFromOutput mo =>
      exact hother (.updateFromOutput mo) hf (fun _ => SchedulerEvent.noConfusion) rfl hs
    | resetPrefixCache => exact hother .resetPrefixCache hf (fun _ => SchedulerEvent.noConfusion) rfl hs

theorem fits_init : Fits a (init p : BatchRun ρ).run.sched (init p : BatchRun ρ).worker := by
  constructor
  · intro id st hst
    cases hst
  · intro id r hr
    cases hr

/-- **A run in arrays is a run without bounds, seen through the arrays.** -/
theorem ArrayRun.stored (ha : a.For p.kv) {ω : BatchRun ρ} (h : ArrayRun a p ω) :
    ∃ ω₀, HandedRun p ω₀ ∧ ω = storeRun a ω₀ ∧ Fits a ω₀.run.sched ω₀.worker := by
  refine h.invariant (P := fun ω : BatchRun ρ =>
    ∃ ω₀, HandedRun p ω₀ ∧ ω = storeRun a ω₀ ∧ Fits a ω₀.run.sched ω₀.worker)
    ⟨init p, .start, rfl, fits_init⟩ ?_
  rintro _ e ω' ⟨ω₀, hrun, rfl, hfit⟩ hf hs
  exact stepIn_stored ha hrun hfit hf hs

open SchedulerRun (smallParams)

/-- A request with a generator and a penalty. -/
def seeded (requestId : ReqId) (promptTokenIds : List TokenId) : Request :=
  { Request.ofPrompt requestId promptTokenIds [] with
    samplingParams :=
      { maxTokens := 4, ignoreEos := true, stopTokenIds := [], seed := some 5, presencePenalty := 1 } }

/-- The first of two requests is aborted, and its id is used again. -/
def reusedIdRun : List BatchEvent :=
  [.call (.addRequest (.ofPrompt "a" [1] [])), .call (.addRequest (seeded "b" [2])),
    .call (.schedule fun _ _ => false), .sample [7, 8],
    .call (.updateFromOutput ⟨(Dict.empty.set "a" 0).set "b" 1, [7, 8]⟩),
    .call (.finishRequests ["a"] .finishedAborted), .call (.addRequest (.ofPrompt "a" [3] []))]

/-- `float32` for 0, for 1 and between 1/2 and 1: 24 binary digits behind the point. -/
def roundTo24 (x : ℚ) : ℚ := (x * 2 ^ 24 + 1 / 2).floor / 2 ^ 24

/-- The arrays of a worker for the small scheduler. -/
def smallArrays : ArrayFormat where
  float32 := roundTo24
  maxModelLen := smallParams.kv.maxModelLen
  maxNumBlocksPerReq := smallParams.kv.maxNumBlocksPerReq
  maxModelLen_pos := by decide

theorem smallArrays_for : smallArrays.For smallParams.kv := ⟨rfl, rfl⟩

/-- What `_update_states` of the next output gives, and that output. -/
def nextUpdate (ω : BatchRun ℕ) : Except Exn (SchedulerOutput × Except Exn (GPUModelRunner (List ℕ))) := do
  let (out, _) ← ω.run.sched.schedule smallParams fun _ _ => false
  .ok (out, (smallArrays.updateStates ω.worker smallParams.maxNumRunningReqs out).map Prod.snd)

theorem nextUpdate_eq_ok {ω : BatchRun ℕ} {out : SchedulerOutput}
    {x : Except Exn (GPUModelRunner (List ℕ))} (h : nextUpdate ω = .ok (out, x)) :
    ∃ s, ω.run.sched.schedule smallParams (fun _ _ => false) = .ok (out, s) ∧
      (smallArrays.updateStates ω.worker smallParams.maxNumRunningReqs out).map Prod.snd = x := by
  simp only [nextUpdate, bind_eq_ok] at h
  obtain ⟨⟨out', s⟩, hs, h⟩ := h
  obtain ⟨rfl, hup⟩ := Prod.mk.inj (Except.ok.inj h)
  exact ⟨s, hs, hup⟩

/-- A refused list. -/
def refused {α : Type} : Except Exn α → Bool
  | .error (.valueError _) => true
  | _ => false

theorem exists_of_refused {α : Type} {x : Except Exn α} (h : refused x = true) :
    ∃ msg, x = .error (.valueError msg) := by
  unfold refused at h
  split at h
  · exact ⟨_, rfl⟩
  · cases h

/-- The number nearest to 0.7 of a Python float. -/
def sevenTenths : ℚ := 3152519739159347 / 2 ^ 52

/-- A request for the temperature 0.7. -/
def warmRun : List BatchEvent :=
  [.call (.addRequest { Request.ofPrompt "a" [1] [] with
    samplingParams :=
      { maxTokens := 4, ignoreEos := true, stopTokenIds := [], temperature := sevenTenths } })]

/-- A prompt that is longer than a row. -/
def longRun : List BatchEvent :=
  [.call (.addRequest (.ofPrompt "a" (List.replicate (smallParams.kv.maxModelLen + 1) 1) []))]

end BatchRun

end SpaceServe
