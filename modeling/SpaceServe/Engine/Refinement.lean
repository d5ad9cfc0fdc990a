import SpaceServe.Engine.Notices
import SpaceServe.Engine.Runner
import SpaceServe.Scheduler.Deltas

/-!
# The worker refines the scheduler

The scheduler sends the worker only what has changed: a request as a whole when it is new, its new
blocks while it runs, all its blocks when it is resumed; the tokens it samples are never sent back, as
the worker has sampled them itself. Outputs without tokens are not sent at all. The worker's states
agree with the scheduler all the same.

* `appendRows_get?`: what the worker appends;
* `InStep`: the states of the worker agree with the scheduler; `InStep.schedule`, `InStep.discard`,
  `InStep.update`;
* `sampled_alike`: the worker and the scheduler append the same tokens;
* `RefinementInv`, **`RefinementInv.step`**;
* `Refines`, `SampledAlike`, **`worker_refines`**.
-/

set_option autoImplicit false

namespace SpaceServe

open Py

/-! ## What the worker appends -/

namespace GPUModelRunner

variable {ρ : Type} {w w' : GPUModelRunner (List ρ)} {out : SchedulerOutput}
  {sampled : List TokenId} {m n : ℕ}

/-- The state of the request in row `i` before and after the loop over the rows: a request that has
caught up gets the token of its row. -/
def Appends (out : SchedulerOutput) (sampled : List TokenId) (id : ReqId) (i : ℕ)
    (before after : Option CachedRequestState) : Prop :=
  ∃ st k, before = some st ∧ out.numScheduledTokens.get? id = some k ∧
    ((st.numComputedTokens + k = st.numTokens ∧ ∃ t, sampled[i]? = some t ∧
        after = some { st with outputTokenIds := st.outputTokenIds ++ [t] }) ∨
      (st.numComputedTokens + k ≠ st.numTokens ∧ after = some st))

theorem appendSampled_get? {reqId : ReqId} {i : ℕ}
    (h : appendSampled out sampled w (some reqId, i) = .ok w') :
    (∀ id, id ≠ reqId → w'.requests.get? id = w.requests.get? id) ∧
      Appends out sampled reqId i (w.requests.get? reqId) (w'.requests.get? reqId) := by
  simp only [appendSampled, bind_eq_ok, ofOption_eq_ok] at h
  obtain ⟨st, hst, k, hk, _, -, h⟩ := h
  split_ifs at h with heq
  · simp only [bind_eq_ok, ofOption_eq_ok] at h
    obtain ⟨t, ht, h⟩ := h
    cases h
    refine ⟨fun id hne => Dict.get?_set_ne _ hne _, st, k, hst, hk, Or.inl ⟨heq, t, ht, ?_⟩⟩
    exact Dict.get?_set_self _ _ _
  · cases h
    exact ⟨fun _ _ => rfl, st, k, hst, hk, Or.inr ⟨heq, hst⟩⟩

/-- The rows of other requests. -/
theorem foldlM_appendSampled_other {id : ReqId} {l : List ReqId} {k : ℕ} (hl : id ∉ l)
    (h : ((l.map some).zipIdx k).foldlM (appendSampled out sampled) w = .ok w') :
    w'.requests.get? id = w.requests.get? id := by
  refine foldlM_invariant (P := fun v : GPUModelRunner (List ρ) =>
    v.requests.get? id = w.requests.get? id) ?_ rfl h
  rintro w₁ ⟨row, i⟩ w₂ hrow hw₁ hs
  have hmem := (List.mem_zipIdx hrow).2.2 ▸ List.getElem_mem _
  obtain ⟨reqId, hreq, rfl⟩ := List.mem_map.mp hmem
  rw [(appendSampled_get? hs).1 id (ne_of_mem_of_not_mem hreq hl).symm]
  exact hw₁

/-- **The tokens that the worker appends**: each request with a row gets that of its row, if it has
caught up. -/
theorem appendRows_get? (hinv : w.inputBatch.Inv m n []) (h : w.appendRows out sampled = .ok w')
    (id : ReqId) :
    (id ∉ w.inputBatch.reqIdToIndex.keys → w'.requests.get? id = w.requests.get? id) ∧
      ∀ i, w.inputBatch.reqIdToIndex.get? id = some i →
        Appends out sampled id i (w.requests.get? id) (w'.requests.get? id) := by
  obtain ⟨rows, hrows, hnd, hmem⟩ := hinv.rows
  have hget := hinv.getElem?_rows hrows
  unfold appendRows at h
  rw [hrows] at h
  refine ⟨fun hid => foldlM_appendSampled_other (fun hc => hid ((hmem id).mp hc)) h, fun i hi => ?_⟩
  obtain ⟨hlt, hid⟩ := List.getElem?_eq_some_iff.mp ((hget i id).mpr hi)
  have hsplit : rows = rows.take i ++ id :: rows.drop (i + 1) := by
    rw [← hid, ← List.drop_eq_getElem_cons hlt, List.take_append_drop]
  rw [hsplit] at h hnd
  have h₁ : id ∉ rows.take i := fun hm =>
    (List.nodup_append.mp hnd).2.2 id hm id List.mem_cons_self rfl
  have h₂ : id ∉ rows.drop (i + 1) := (List.nodup_cons.mp (List.nodup_append.mp hnd).2.1).1
  have hlen : (rows.take i).length = i := List.length_take_of_le (Nat.le_of_lt hlt)
  rw [List.map_append, List.map_cons, List.zipIdx_append, List.zipIdx_cons, List.length_map, hlen,
    Nat.zero_add] at h
  simp only [List.foldlM_append, List.foldlM_cons, bind_eq_ok] at h
  obtain ⟨w₁, hw₁, w₂, hw₂, hw'⟩ := h
  rw [foldlM_appendSampled_other h₂ hw', ← foldlM_appendSampled_other h₁ hw₁]
  exact (appendSampled_get? hw₂).2

end GPUModelRunner

/-! ## Agreement -/

section

variable {ρ : Type} {p : SchedulerParams}

/-- The states of the worker agree with the scheduler: the tokens of the requests that were sent to it,
and the blocks of those that run. -/
structure InStep (s : Scheduler) (w : GPUModelRunner (List ρ)) : Prop where
  unsent : ∀ id r, s.requests.get? id = some r → id ∉ sentIds s → r.outputTokenIds = []
  tokens : ∀ id ∈ sentIds s, ∀ r st, s.requests.get? id = some r → w.requests.get? id = some st →
    st.promptTokenIds = r.promptTokenIds ∧ st.outputTokenIds = r.outputTokenIds
  blocks : ∀ id ∈ s.running, ∀ st, w.requests.get? id = some st →
    st.blockIds = some (s.kv.blocksOf id)

variable {s s' : Scheduler} {w w' : GPUModelRunner (List ρ)} {out : SchedulerOutput}
  {available : ReqId → ℕ → Bool}

theorem InStep.congr (h : InStep s w) (hreq : w'.requests = w.requests) : InStep s w' := by
  refine ⟨h.unsent, ?_, ?_⟩
  · rw [hreq]
    exact h.tokens
  · rw [hreq]
    exact h.blocks

theorem InStep.addRequest (h : InStep s w) {r : Request} (hnew : r.IsNew)
    (hid : r.requestId ∉ s.requests.keys) : InStep (s.addRequest r) w := by
  have hsent : ∀ id, id ∈ sentIds (s.addRequest r) ↔ id ∈ sentIds s := by
    intro id
    rw [mem_sentIds, mem_sentIds]
    constructor
    · rintro ⟨r', hr', hst⟩
      obtain ⟨-, rfl⟩ | ⟨-, hr'⟩ := Scheduler.addRequest_get? hr'
      · exact absurd hnew.1 hst
      · exact ⟨r', hr', hst⟩
    · rintro ⟨r', hr', hst⟩
      refine ⟨r', ?_, hst⟩
      change (s.requests.set r.requestId r).get? id = some r'
      rw [Dict.get?_set_ne _ (by rintro rfl; exact hid (Dict.mem_keys_of_get? hr'))]
      exact hr'
  refine ⟨fun id r' hr' hns => ?_, fun id hid' r' st hr' hst => ?_, h.blocks⟩
  · obtain ⟨-, rfl⟩ | ⟨-, hr'⟩ := Scheduler.addRequest_get? hr'
    · exact hnew.2.2.1
    · exact h.unsent id r' hr' (mt (hsent id).mpr hns)
  · obtain ⟨rfl, -⟩ | ⟨-, hr'⟩ := Scheduler.addRequest_get? hr'
    · obtain ⟨r₁, hr₁, -⟩ := mem_sentIds.mp ((hsent _).mp hid')
      exact absurd (Dict.mem_keys_of_get? hr₁) hid
    · exact h.tokens id ((hsent id).mp hid') r' st hr' hst

/-- The tokens of the requests after a call of `schedule`. -/
theorem schedule_tokens (h : s.Sound p) (hs : s.schedule p available = .ok (out, s')) {id : ReqId}
    {r' : Request} (hr' : s'.requests.get? id = some r') : ∃ r, s.requests.get? id = some r ∧
      r'.promptTokenIds = r.promptTokenIds ∧ r'.outputTokenIds = r.outputTokenIds := by
  obtain ⟨r, hr, hres⟩ := (h.blocks.schedule h.wf hs).2 id r' hr'
  refine ⟨r, hr, ?_, ?_⟩
  · rw [hres.eq]
  · rw [hres.eq]

/-- What the worker has of a scheduled request after `_update_states`. -/
theorem InStep.scheduled (h : InStep s w) (hsound : s.Sound p)
    (hs : s.schedule p available = .ok (out, s'))
    (hup : GPUModelRunner.Updated p.maxNumRunningReqs w w' out) {id : ReqId}
    (hid : id ∈ out.numScheduledTokens.keys) : ∃ st r, w'.requests.get? id = some st ∧
      s'.requests.get? id = some r ∧ st.blockIds = some (s'.kv.blocksOf id) ∧
      st.numComputedTokens = r.numComputedTokens ∧ st.promptTokenIds = r.promptTokenIds ∧
      st.outputTokenIds = r.outputTokenIds := by
  have hsent := schedule_sent hsound.wf (knownTo_sentIds hsound.wf) hs
  have hdeltas := schedule_deltas hsound hs
  rw [← hsent.scheduled.mem_iff, List.mem_append] at hid
  obtain hid | hid := hid
  · -- a new request comes as a whole
    obtain ⟨data, hdata, rfl⟩ := List.mem_map.mp hid
    obtain ⟨hunsent, r, hr, -, hnc⟩ := hsent.new data hdata
    obtain ⟨hblocks, r', hr', hprompt⟩ := hdeltas.new data hdata
    obtain rfl := Option.some.inj (hr.symm.trans hr')
    obtain ⟨r₀, hr₀, -, houtput⟩ := schedule_tokens hsound hs hr
    refine ⟨_, r, hup.new data hdata, hr, congrArg some hblocks, congrArg Nat.cast hnc, hprompt, ?_⟩
    exact (houtput.trans (h.unsent _ r₀ hr₀ hunsent)).symm
  · obtain ⟨data, hdata, rfl⟩ := List.mem_map.mp hid
    obtain ⟨hknown, r, hr, hnc⟩ := hsent.cached data hdata
    obtain ⟨st, hst, hst'⟩ := hup.cached data hdata
    obtain ⟨r₀, hr₀, hprompt, houtput⟩ := schedule_tokens hsound hs hr
    obtain ⟨h1, h2⟩ := h.tokens _ hknown r₀ st hr₀ hst
    refine ⟨_, r, hst', hr, ?_, congrArg Nat.cast hnc, h1.trans hprompt.symm, h2.trans houtput.symm⟩
    exact congrArg some (hdeltas.updatedBlocks hdata fun hrun => h.blocks _ hrun st hst)

/-- A request that is not scheduled. -/
theorem InStep.unscheduled (h : InStep s w) (hsound : s.Sound p)
    (hs : s.schedule p available = .ok (out, s')) {id : ReqId} {st : CachedRequestState}
    (hid : id ∉ out.numScheduledTokens.keys) (hst : w.requests.get? id = some st) :
    (∀ r, id ∈ sentIds s' → s'.requests.get? id = some r →
      st.promptTokenIds = r.promptTokenIds ∧ st.outputTokenIds = r.outputTokenIds) ∧
    (id ∈ s'.running → st.blockIds = some (s'.kv.blocksOf id)) := by
  refine ⟨fun r hknown hr => ?_, fun hrun => ?_⟩
  · have hsent := schedule_sent hsound.wf (knownTo_sentIds hsound.wf) hs
    have hknown' : id ∈ sentIds s := by
      refine ((schedule_sentIds hsound.wf hs id).mp hknown).resolve_right fun hnew => hid ?_
      rw [← hsent.scheduled.mem_iff]
      exact List.mem_append_left _ hnew
    obtain ⟨r₀, hr₀, hprompt, houtput⟩ := schedule_tokens hsound hs hr
    obtain ⟨h1, h2⟩ := h.tokens id hknown' r₀ st hr₀ hst
    exact ⟨h1.trans hprompt.symm, h2.trans houtput.symm⟩
  · obtain ⟨hrun₀, hsame⟩ := (schedule_deltas hsound hs).same id hrun hid
    rw [hsame]
    exact h.blocks id hrun₀ st hst

/-- The requests that were not sent after a call of `schedule`. -/
theorem InStep.unsent_schedule (h : InStep s w) (hsound : s.Sound p)
    (hs : s.schedule p available = .ok (out, s')) : ∀ id r, s'.requests.get? id = some r →
      id ∉ sentIds s' → r.outputTokenIds = [] := by
  intro id r hr hns
  obtain ⟨r₀, hr₀, -, houtput⟩ := schedule_tokens hsound hs hr
  rw [houtput]
  exact h.unsent id r₀ hr₀ fun hk => hns ((schedule_sentIds hsound.wf hs id).mpr (Or.inl hk))

/-- **An output that is executed.** -/
theorem InStep.schedule (h : InStep s w) (hsound : s.Sound p)
    (hs : s.schedule p available = .ok (out, s'))
    (hup : GPUModelRunner.Updated p.maxNumRunningReqs w w' out) : InStep s' w' := by
  have hother : ∀ id st, id ∉ out.numScheduledTokens.keys → w'.requests.get? id = some st →
      w.requests.get? id = some st := by
    intro id st hid hst
    rw [hup.other id hid] at hst
    split_ifs at hst
    exact hst
  refine ⟨h.unsent_schedule hsound hs, fun id hknown r st hr hst => ?_, fun id hrun st hst => ?_⟩
  · by_cases hid : id ∈ out.numScheduledTokens.keys
    · obtain ⟨st', r', hst', hr', -, -, h1, h2⟩ := h.scheduled hsound hs hup hid
      obtain rfl := Option.some.inj (hst.symm.trans hst')
      obtain rfl := Option.some.inj (hr.symm.trans hr')
      exact ⟨h1, h2⟩
    · exact (h.unscheduled hsound hs hid (hother id st hid hst)).1 r hknown hr
  · by_cases hid : id ∈ out.numScheduledTokens.keys
    · obtain ⟨st', r', hst', -, hblocks, -⟩ := h.scheduled hsound hs hup hid
      obtain rfl := Option.some.inj (hst.symm.trans hst')
      exact hblocks
    · exact (h.unscheduled hsound hs hid (hother id st hid hst)).2 hrun

/-- **An output that is discarded.** -/
theorem InStep.discard (h : InStep s w) (hsound : s.Sound p)
    (hs : s.schedule p available = .ok (out, s')) (hz : out.totalNumScheduledTokens = 0) :
    InStep s' w := by
  have hsent := schedule_sent hsound.wf (knownTo_sentIds hsound.wf) hs
  have hid : ∀ id, id ∉ out.numScheduledTokens.keys := by
    intro id
    rw [hsent.nothing hz]
    exact List.not_mem_nil
  refine ⟨h.unsent_schedule hsound hs, fun id hknown r st hr hst => ?_, fun id hrun st hst => ?_⟩
  · exact (h.unscheduled hsound hs (hid id) hst).1 r hknown hr
  · exact (h.unscheduled hsound hs (hid id) hst).2 hrun

/-- Requests leave, and nothing else changes. -/
theorem InStep.onward (h : InStep s w) (hreq : ∀ id r', s'.requests.get? id = some r' →
      s.requests.get? id = some r') (hrun : ∀ id ∈ s'.running, id ∈ s.running)
    (hkeep : Scheduler.KeepsBlocks s s') : InStep s' w := by
  refine ⟨fun id r hr hns => ?_, fun id hknown r st hr hst => ?_, fun id hid st hst => ?_⟩
  · refine h.unsent id r (hreq id r hr) fun hk => hns ?_
    obtain ⟨r₀, hr₀, hne⟩ := mem_sentIds.mp hk
    obtain rfl := Option.some.inj ((hreq id r hr).symm.trans hr₀)
    exact mem_sentIds.mpr ⟨r, hr, hne⟩
  · obtain ⟨r₀, hr₀, hne⟩ := mem_sentIds.mp hknown
    exact h.tokens id (mem_sentIds.mpr ⟨r₀, hreq id r₀ hr₀, hne⟩) r st (hreq id r hr) hst
  · rw [hkeep id hid]
    exact h.blocks id (hrun id hid) st hst

/-! ## Sampled tokens -/

/-- The tokens of the object of a request after its round of an update. -/
theorem updatedRequest_tokens {mo : ModelRunnerOutput} {id : ReqId} {r r' : Request}
    (h : Scheduler.updatedRequest p out mo id r = .ok r') {n : ℕ}
    (hn : (out.numScheduledTokens.get? id).getD 0 = n) :
    (0 < n ∧ r.numComputedTokens + n = r.numTokens ∧ ∃ i t, mo.reqIdToIndex.get? id = some i ∧
      mo.sampledTokenIds[i]? = some t ∧ r'.outputTokenIds = r.outputTokenIds ++ [t]) ∨
    ((n = 0 ∨ r.numComputedTokens + n ≠ r.numTokens) ∧ r'.outputTokenIds = r.outputTokenIds) := by
  unfold Scheduler.updatedRequest at h
  rw [hn] at h
  simp only at h
  split_ifs at h with h0 hfull
  · cases h
    exact Or.inr ⟨Or.inl h0, rfl⟩
  · simp only [bind_eq_ok, ofOption_eq_ok] at h
    obtain ⟨i, hi, t, ht, ⟨stopped, r₁⟩, hstop, h⟩ := h
    cases h
    exact Or.inl ⟨Nat.pos_of_ne_zero h0, hfull, i, t, hi, ht, (Scheduler.sampled_of_checkStop hstop).2.1⟩
  · cases h
    exact Or.inr ⟨Or.inr hfull, rfl⟩

/-- What a step appends to the states of the worker and to the requests of the scheduler: to those that
have caught up the same token, to the others nothing. -/
structure SampledAlike (out : SchedulerOutput) (s s' : Scheduler) (w w' : GPUModelRunner (List ρ))
    (outputs : List EngineCoreOutput) : Prop where
  caughtUp : ∀ id n r st, out.numScheduledTokens.get? id = some n → s.requests.get? id = some r →
    w.requests.get? id = some st → r.numComputedTokens + n = r.numTokens → ∃ t o,
      w'.requests.get? id = some { st with outputTokenIds := st.outputTokenIds ++ [t] } ∧
      outputsOf id outputs = [o] ∧ o.newTokenIds = [t] ∧
      ∀ r', s'.requests.get? id = some r' → r'.outputTokenIds = r.outputTokenIds ++ [t]
  others : ∀ id r, s.requests.get? id = some r →
    (∀ n, out.numScheduledTokens.get? id = some n → r.numComputedTokens + n ≠ r.numTokens) →
      w'.requests.get? id = w.requests.get? id ∧ outputsOf id outputs = [] ∧
      ∃ r', s'.requests.get? id = some r' ∧ r'.outputTokenIds = r.outputTokenIds

/-- What a round of an update emits, when it is known whether it samples. -/
theorem emits_cases {id : ReqId} {r r' : Request} {new : List EngineCoreOutput} {left : Option Request}
    (h : Scheduler.Emits p id r r' new left) :
    (∀ t, r'.outputTokenIds = r.outputTokenIds ++ [t] → ∃ o, new = [o] ∧ o.newTokenIds = [t]) ∧
      (r'.outputTokenIds = r.outputTokenIds → new = [] ∧ left = some r') := by
  cases h with
  | silent htok =>
    refine ⟨fun t ht => ?_, fun _ => ⟨rfl, rfl⟩⟩
    rw [htok] at ht
    exact absurd (List.self_eq_append_right.mp ht) (List.cons_ne_nil t [])
  | token t o stopped hid hnew htok hstops hfin =>
    rw [htok]
    refine ⟨fun t' ht => ⟨o, rfl, ?_⟩, fun ht => ?_⟩
    · rw [hnew, List.append_cancel_left ht]
    · exact absurd (List.self_eq_append_right.mp ht.symm) (List.cons_ne_nil t [])

/-- **The worker and the scheduler append the same tokens.** -/
theorem sampled_alike {w₁ : GPUModelRunner (List ρ)} (hw : s'.WF p) {m n : ℕ}
    (hinv : w₁.inputBatch.Inv m n [])
    (hrows : ∀ id, id ∈ w₁.inputBatch.reqIdToIndex.keys ↔ id ∈ out.numScheduledTokens.keys)
    (hrun : ∀ id ∈ out.numScheduledTokens.keys, id ∈ s'.running)
    (hpos : ∀ id n, out.numScheduledTokens.get? id = some n → 0 < n)
    (hstate : ∀ id ∈ out.numScheduledTokens.keys, ∃ st r, w₁.requests.get? id = some st ∧
      s'.requests.get? id = some r ∧ st.numComputedTokens = r.numComputedTokens ∧
      st.numTokens = r.numTokens)
    {sampled : List TokenId} (happ : w₁.appendRows out sampled = .ok w')
    {outputs : List EngineCoreOutput} {s₂ : Scheduler}
    (hup : s'.updateFromOutput p out ⟨w₁.inputBatch.reqIdToIndex, sampled⟩ = .ok (outputs, s₂)) :
    SampledAlike out s' s₂ w₁ w' outputs := by
  refine ⟨fun id k r st hk hr hst hfull => ?_, fun id r hr hnot => ?_⟩
  · have hid := Dict.mem_keys_of_get? hk
    obtain ⟨st', r₀, hst', hr₀, hnc, hnum⟩ := hstate id hid
    obtain rfl := Option.some.inj (hst.symm.trans hst')
    obtain rfl := Option.some.inj (hr.symm.trans hr₀)
    obtain ⟨i, hi⟩ := Dict.exists_get?_of_mem ((hrows id).mpr hid)
    obtain ⟨st', k', hst', hk', hcase⟩ := (GPUModelRunner.appendRows_get? hinv happ id).2 i hi
    obtain rfl := Option.some.inj (hst.symm.trans hst')
    obtain rfl := Option.some.inj (hk.symm.trans hk')
    obtain ⟨hnr, -⟩ | ⟨-, r₀, r', hr₀, hupd, -, hem⟩ := Scheduler.updateFromOutput_emits hw hup id
    · exact absurd (hrun id hid) hnr
    obtain rfl := Option.some.inj (hr.symm.trans hr₀)
    have hn : (out.numScheduledTokens.get? id).getD 0 = k := by rw [hk]; rfl
    obtain ⟨-, -, i', t, hi', ht, htok⟩ | ⟨hno, -⟩ := updatedRequest_tokens hupd hn
    · obtain rfl := Option.some.inj (hi.symm.trans hi')
      obtain ⟨-, t', ht', hw'⟩ | ⟨hne, -⟩ := hcase
      · obtain rfl := Option.some.inj (ht.symm.trans ht')
        obtain ⟨o, ho, hnew⟩ := (emits_cases hem).1 t htok
        refine ⟨t, o, hw', ho, hnew, fun r₁ hr₁ => ?_⟩
        rw [hem.eq_of_some hr₁]
        exact htok
      · omega
    · have := hpos id k hk
      omega
  · -- a request that has no row or has not caught up
    have hsame : w'.requests.get? id = w₁.requests.get? id := by
      by_cases hid : id ∈ out.numScheduledTokens.keys
      · obtain ⟨k, hk⟩ := Dict.exists_get?_of_mem hid
        obtain ⟨st, r₀, hst, hr₀, hnc, hnum⟩ := hstate id hid
        obtain rfl := Option.some.inj (hr.symm.trans hr₀)
        obtain ⟨i, hi⟩ := Dict.exists_get?_of_mem ((hrows id).mpr hid)
        obtain ⟨st', k', hst', hk', hcase⟩ := (GPUModelRunner.appendRows_get? hinv happ id).2 i hi
        obtain rfl := Option.some.inj (hst.symm.trans hst')
        obtain rfl := Option.some.inj (hk.symm.trans hk')
        have := hnot k hk
        obtain ⟨heq, -⟩ | ⟨-, hw'⟩ := hcase
        · omega
        · exact hw'.trans hst.symm
      · exact (GPUModelRunner.appendRows_get? hinv happ id).1 (mt (hrows id).mp hid)
    refine ⟨hsame, ?_⟩
    obtain ⟨-, hr₂, hout⟩ | ⟨-, r₀, r', hr₀, hupd, -, hem⟩ :=
      Scheduler.updateFromOutput_emits hw hup id
    · exact ⟨hout, r, hr₂.trans hr, rfl⟩
    obtain rfl := Option.some.inj (hr.symm.trans hr₀)
    obtain ⟨hpos', hfull, -⟩ | ⟨-, htok⟩ := updatedRequest_tokens hupd rfl
    · cases hk : out.numScheduledTokens.get? id with
      | none =>
        rw [hk] at hpos'
        exact absurd hpos' (Nat.lt_irrefl 0)
      | some k =>
        rw [hk] at hfull
        exact absurd hfull (hnot k hk)
    · obtain ⟨hout, hleft⟩ := (emits_cases hem).2 htok
      exact ⟨hout, r', hleft, htok⟩

/-- **The tokens of a step.** -/
theorem InStep.update {w₁ : GPUModelRunner (List ρ)} (h : InStep s' w₁) (hw : s'.WF p)
    (hb : BlocksInv p s' fun id => (out.numScheduledTokens.get? id).getD 0)
    (hknown : ∀ id ∈ sentIds s', id ∈ w₁.requests.keys) {mo : ModelRunnerOutput}
    {outputs : List EngineCoreOutput} {s₂ : Scheduler}
    (hup : s'.updateFromOutput p out mo = .ok (outputs, s₂))
    (halike : SampledAlike out s' s₂ w₁ w' outputs) : InStep s₂ w' := by
  obtain ⟨-, ho⟩ := Scheduler.updateFromOutput_onward hw hup
  have hkeep := Scheduler.updateFromOutput_keepsBlocks hw hb hup
  -- the request before the update
  have hbefore : ∀ id r₂, s₂.requests.get? id = some r₂ → ∃ r, s'.requests.get? id = some r ∧
      r₂.promptTokenIds = r.promptTokenIds ∧ r₂.status = r.status := by
    intro id r₂ hr₂
    obtain ⟨r, hr, -, -, hstat⟩ := ho.requests id r₂ hr₂
    refine ⟨r, hr, ?_, hstat⟩
    obtain ⟨-, hsame, -⟩ | ⟨-, r₀, r', hr₀, -, hsam, hem⟩ :=
      Scheduler.updateFromOutput_emits hw hup id
    · rw [Option.some.inj (hr₂.symm.trans (hsame.trans hr))]
    · obtain rfl := Option.some.inj (hr.symm.trans hr₀)
      rw [hem.eq_of_some hr₂, hsam]
  have hsent : ∀ id r₂ r, s₂.requests.get? id = some r₂ → s'.requests.get? id = some r →
      r₂.status = r.status → (id ∈ sentIds s₂ ↔ id ∈ sentIds s') := by
    intro id r₂ r hr₂ hr hstat
    rw [mem_sentIds, mem_sentIds]
    simp only [hr₂, hr, Option.some.injEq, exists_eq_left', hstat]
  -- the state of the worker before and after
  have hstate : ∀ id ∈ sentIds s', ∀ r st', s'.requests.get? id = some r →
      w'.requests.get? id = some st' → ∃ st, w₁.requests.get? id = some st ∧
        st'.promptTokenIds = st.promptTokenIds ∧ st'.blockIds = st.blockIds ∧
        ∀ r₂, s₂.requests.get? id = some r₂ → st.outputTokenIds = r.outputTokenIds →
          st'.outputTokenIds = r₂.outputTokenIds := by
    intro id hid r st' hr hst'
    obtain ⟨st, hst⟩ := Dict.exists_get?_of_mem (hknown id hid)
    refine ⟨st, hst, ?_⟩
    by_cases hcaught : ∃ n, out.numScheduledTokens.get? id = some n ∧
        r.numComputedTokens + n = r.numTokens
    · obtain ⟨n, hn, hfull⟩ := hcaught
      obtain ⟨t, o, hst₁, -, -, htok⟩ := halike.caughtUp id n r st hn hr hst hfull
      obtain rfl := Option.some.inj (hst'.symm.trans hst₁)
      refine ⟨rfl, rfl, fun r₂ hr₂ heq => ?_⟩
      rw [htok r₂ hr₂, ← heq]
    · obtain ⟨hsame, -, r', hr', htok⟩ := halike.others id r hr fun n hn hfull =>
        hcaught ⟨n, hn, hfull⟩
      obtain rfl := Option.some.inj (hst'.symm.trans (hsame.trans hst))
      refine ⟨rfl, rfl, fun r₂ hr₂ heq => ?_⟩
      obtain rfl := Option.some.inj (hr₂.symm.trans hr')
      rw [htok, heq]
  refine ⟨fun id r₂ hr₂ hns => ?_, fun id hid r₂ st' hr₂ hst' => ?_, fun id hid st' hst' => ?_⟩
  · obtain ⟨r, hr, -, hstat⟩ := hbefore id r₂ hr₂
    rw [hsent id r₂ r hr₂ hr hstat] at hns
    obtain ⟨-, hsame, -⟩ | ⟨hrun, -⟩ := Scheduler.updateFromOutput_emits hw hup id
    · rw [Option.some.inj (hr₂.symm.trans (hsame.trans hr))]
      exact h.unsent id r hr hns
    · exact absurd ((knownTo_sentIds hw).running id hrun) hns
  · obtain ⟨r, hr, hprompt, hstat⟩ := hbefore id r₂ hr₂
    rw [hsent id r₂ r hr₂ hr hstat] at hid
    obtain ⟨st, hst, h1, -, h2⟩ := hstate id hid r st' hr hst'
    obtain ⟨g1, g2⟩ := h.tokens id hid r st hr hst
    exact ⟨h1.trans (g1.trans hprompt.symm), h2 r₂ hr₂ g2⟩
  · obtain ⟨hrun, -⟩ := (ho.running id).mp hid
    obtain ⟨r, hr⟩ := hw.get?_of_running hrun
    obtain ⟨st, hst, -, h1, -⟩ := hstate id ((knownTo_sentIds hw).running id hrun) r st' hr hst'
    rw [h1, hkeep id hid]
    exact h.blocks id hrun st hst

/-! ## Runs -/

variable {c c' : EngineCore (GPUModelRunner (List ρ))} {t t' : Traces}
  {e : EngineEvent (List ρ) (List TokenId)}

/-- What holds between two events. -/
structure RefinementInv (p : SchedulerParams) (c : EngineCore (GPUModelRunner (List ρ))) (t : Traces) :
    Prop where
  runner : RunnerInv p c t
  sound : c.scheduler.Sound p
  inStep : InStep c.scheduler c.executor

theorem RefinementInv.init (p : SchedulerParams) :
    RefinementInv p (.init p (.init p.maxNumRunningReqs) : EngineCore (GPUModelRunner (List ρ)))
      EngineLog.empty.traces := by
  refine ⟨RunnerInv.init p, Scheduler.Sound.init p, ⟨?_, ?_, ?_⟩⟩
  · intro id r hr; cases hr
  · intro id hid; cases hid
  · intro id hid; cases hid

/-- An execution: the worker after `_update_states` and after it has sampled. -/
theorem RefinementInv.executed (h : RefinementInv p c t)
    (hs : c.scheduler.schedule p available = .ok (out, s)) (hreq : w.requests = c.executor.requests)
    (hbatch : w.inputBatch = c.executor.inputBatch) {changed : Bool} {w₁ : GPUModelRunner (List ρ)}
    (hup : w.updateStates p.maxNumRunningReqs out = .ok (changed, w₁)) {sampled : List TokenId}
    {mo : ModelRunnerOutput} (he : w.executeModel p.maxNumRunningReqs out sampled = .ok (mo, w'))
    {outputs : List EngineCoreOutput} (hu : s.updateFromOutput p out mo = .ok (outputs, s')) :
    SampledAlike out s s' w₁ w' outputs ∧ InStep s' w' := by
  obtain ⟨_, _, hup', hupd⟩ := h.runner.updateStates hs hreq hbatch
  rw [hup] at hup'
  cases hup'
  obtain ⟨_, w₁, _, metadata, w₂, hup₁, -, hprep, happ, rfl⟩ := GPUModelRunner.executeModel_parts he
  rw [hup] at hup₁
  cases hup₁
  obtain ⟨p1, p2, p3, -⟩ := GPUModelRunner.prepareSampling_spec hprep
  obtain ⟨n, hinv⟩ := hupd.batch
  obtain ⟨-, hidx, -⟩ := GPUModelRunner.appendRows_spec (hinv.congr p2 p3) happ
  rw [hidx] at hu
  have hw := Scheduler.schedule_wf h.sound.wf hs
  have hsent := schedule_sent h.sound.wf (knownTo_sentIds h.sound.wf) hs
  have hsync : InStep c.scheduler w := h.inStep.congr hreq
  have halike : SampledAlike out s s' w₂ w' outputs := by
    refine sampled_alike hw (hinv.congr p2 p3) (by rw [p3]; exact hupd.rows) hsent.running hsent.pos
      (fun id hid => ?_) happ hu
    obtain ⟨st, r, hst, hr, -, hnc, hprompt, houtput⟩ := hsync.scheduled h.sound hs hupd hid
    refine ⟨st, r, by rw [p1]; exact hst, hr, hnc, ?_⟩
    rw [CachedRequestState.numTokens, hprompt, houtput, ← List.length_append]
    rfl
  have halike₁ : SampledAlike out s s' w₁ w' outputs := by
    refine ⟨?_, ?_⟩
    · rw [← p1]
      exact halike.caughtUp
    · rw [← p1]
      exact halike.others
  have htold := h.runner.told.congr hreq (by rw [hbatch]) (by rw [hbatch])
  have htold₁ : Told p (Gone c.scheduler t) s w₁ := htold.schedule h.sound.wf hs hupd
  exact ⟨halike₁, (hsync.schedule h.sound hs hupd).update hw (h.sound.blocks.schedule h.sound.wf hs).1
    (fun id hid => (htold₁.sent id hid).1) hu halike₁⟩

/-- **Every event keeps the agreement.** -/
theorem RefinementInv.step (h : RefinementInv p c t) (hu : UniqueIds t.seen e)
    (hs : Stepped p (uniProcExecutor ρ p.maxNumRunningReqs) c t e c' t') :
    RefinementInv p c' t' := by
  have hrunner := h.runner.step hu hs
  cases hs with
  | add r =>
    have hid : r.requestId ∉ c.scheduler.requests.keys := fun hk =>
      hu.2 (h.runner.queues.seen _ hk)
    exact ⟨hrunner, h.sound.addRequest hu.1 hid, h.inStep.addRequest hu.1 hid⟩
  | abort hf =>
    obtain ⟨-, ho⟩ := Scheduler.finishRequests_onward h.sound.wf hf
    refine ⟨hrunner, h.sound.finishRequests hf, h.inStep.onward (fun id r hr => ?_)
      (fun id hid => ((ho.running id).mp hid).1) (Scheduler.finishRequests_keepsBlocks h.sound hf)⟩
    rw [Scheduler.finishRequests_get? h.sound.wf hf] at hr
    split_ifs at hr
    exact hr
  | reset =>
    exact ⟨hrunner, h.sound.resetPrefixCache, h.inStep.onward (fun _ _ hr => hr) (fun _ hid => hid)
      (Scheduler.resetPrefixCache_keepsBlocks p c.scheduler)⟩
  | @result res executor hh =>
    have hres : EngineCore.handle (uniProcExecutor ρ p.maxNumRunningReqs) c.executor (some res) =
      .ok executor := hh
    exact ⟨hrunner, h.sound, h.inStep.congr (EngineRun.handle_uniProc hres).1⟩
  | idle => exact h
  | discard hsched hh hz =>
    have hsync := h.inStep.congr (EngineRun.handle_uniProc hh).1
    exact ⟨hrunner, h.sound.schedule hsched, hsync.discard h.sound hsched hz⟩
  | execute hsched hh hz he hup =>
    obtain ⟨hreq, hbatch, -⟩ := EngineRun.handle_uniProc hh
    obtain ⟨changed, w₁, -, -, -, hup₁, -⟩ := GPUModelRunner.executeModel_parts he
    exact ⟨hrunner, h.sound.update hsched hup, (h.executed hsched hreq hbatch hup₁ he hup).2⟩

namespace EngineRun

variable (p) in
/-- The runs of an engine with a single process and unique request ids. -/
def UniqueRun : EngineRun (GPUModelRunner (List ρ)) → Prop :=
  Reachable (fun σ e => step p (uniProcExecutor ρ p.maxNumRunningReqs) σ e)
    (fun σ e => σ.core.Orderly e ∧ UniqueIds σ.log.seen e) (init p (.init p.maxNumRunningReqs))

theorem UniqueRun.refinementInv {σ : EngineRun (GPUModelRunner (List ρ))} (h : UniqueRun p σ) :
    RefinementInv p σ.core σ.log.traces :=
  h.invariant (P := fun σ : EngineRun (GPUModelRunner (List ρ)) =>
    RefinementInv p σ.core σ.log.traces) (RefinementInv.init p)
    fun _ _ _ hσ ha hs => hσ.step ha.2 (step_stepped ha.1 hs)

end EngineRun

/-- The states of the scheduled requests agree with the scheduler: their blocks, the number of their
computed tokens and their tokens. -/
def Refines (out : SchedulerOutput) (s : Scheduler) (w : GPUModelRunner (List ρ)) : Prop :=
  ∀ id ∈ out.numScheduledTokens.keys, ∃ st r, w.requests.get? id = some st ∧
    s.requests.get? id = some r ∧ st.blockIds = some (s.kv.blocksOf id) ∧
    st.numComputedTokens = r.numComputedTokens ∧
    st.promptTokenIds ++ st.outputTokenIds = r.allTokenIds

theorem RefinementInv.refines (h : RefinementInv p c t)
    (hs : c.scheduler.schedule p available = .ok (out, s)) (hreq : w.requests = c.executor.requests)
    (hbatch : w.inputBatch = c.executor.inputBatch) :
    ∃ changed w₁, w.updateStates p.maxNumRunningReqs out = .ok (changed, w₁) ∧ Refines out s w₁ := by
  obtain ⟨changed, w₁, hup, hupd⟩ := h.runner.updateStates hs hreq hbatch
  refine ⟨changed, w₁, hup, fun id hid => ?_⟩
  obtain ⟨st, r, hst, hr, hblocks, hnc, hprompt, houtput⟩ :=
    (h.inStep.congr hreq).scheduled h.sound hs hupd hid
  exact ⟨st, r, hst, hr, hblocks, hnc, by rw [hprompt, houtput]; rfl⟩

namespace EngineRun

/-- **The worker refines the scheduler**: after `_update_states` of an output the states of the
scheduled requests are those of the scheduler, and an execution appends the same tokens to both, for
exactly the requests that have caught up. -/
theorem worker_refines {σ : EngineRun (GPUModelRunner (List ρ))} (h : UniqueRun p σ)
    {polled : Option (EncoderResult (List ρ))}
    (hs : σ.core.scheduler.schedule p (σ.core.available (uniProcExecutor ρ p.maxNumRunningReqs)) =
      .ok (out, s))
    (hh : EngineCore.handle (uniProcExecutor ρ p.maxNumRunningReqs) σ.core.executor polled =
      .ok w) :
    ∃ changed w₁, w.updateStates p.maxNumRunningReqs out = .ok (changed, w₁) ∧ Refines out s w₁ ∧
      ∀ sampled mo w' outputs s', w.executeModel p.maxNumRunningReqs out sampled = .ok (mo, w') →
        s.updateFromOutput p out mo = .ok (outputs, s') → SampledAlike out s s' w₁ w' outputs := by
  have hinv := h.refinementInv
  obtain ⟨hreq, hbatch, -⟩ := handle_uniProc hh
  obtain ⟨changed, w₁, hup, href⟩ := hinv.refines hs hreq hbatch
  exact ⟨changed, w₁, hup, href, fun sampled mo w' outputs s' he hu =>
    (hinv.executed hs hreq hbatch hup he hu).1⟩

end EngineRun

end

namespace EngineRun

open SchedulerRun (smallParams)

/-- The execution that follows, with the given token. -/
def executedNext (σ : EngineRun (GPUModelRunner (List ℕ))) (token : TokenId) :
    Except Exn (SchedulerOutput × List EngineCoreOutput) := do
  let (out, s) ← σ.core.scheduler.schedule smallParams (σ.core.available smallExecutor)
  let (mo, _) ← σ.core.executor.executeModel smallParams.maxNumRunningReqs out [token]
  let (outputs, _) ← s.updateFromOutput smallParams out mo
  .ok (out, outputs)

/-- The second request loses its blocks to the first one, which then runs to its end. -/
def resumedTextRun : List (EngineEvent (List ℕ) (List TokenId)) :=
  [.addRequest (.ofPrompt "b" [1, 2, 3] []), .addRequest (.ofPrompt "a" [5, 6, 7, 8] []),
    .advance none [9], .advance none [9, 8], .advance none [9, 8], .advance none [9]]

theorem worker_refines_resumed : ∃ (σ : EngineRun (GPUModelRunner (List ℕ))) (out : SchedulerOutput)
    (s s' : Scheduler) (changed : Bool) (w₁ w' : GPUModelRunner (List ℕ)) (mo : ModelRunnerOutput)
    (outputs : List EngineCoreOutput), UniqueRun smallParams σ ∧
    σ.core.scheduler.schedule smallParams (σ.core.available smallExecutor) = .ok (out, s) ∧
    out.scheduledCachedReqs = [⟨"a", true, [4, 5, 3, 2], 4⟩] ∧ out.numScheduledTokens.entries = [("a", 1)] ∧
    σ.core.executor.updateStates smallParams.maxNumRunningReqs out = .ok (changed, w₁) ∧
    σ.core.executor.executeModel smallParams.maxNumRunningReqs out [4] = .ok (mo, w') ∧
    s.updateFromOutput smallParams out mo = .ok (outputs, s') ∧
    outputs.map (fun o => (o.requestId, o.newTokenIds)) = [("a", [4])] ∧
    Refines out s w₁ ∧ SampledAlike out s s' w₁ w' outputs := by
  obtain ⟨σ, hreach, hnext⟩ := exists_reachable (fun σ e => step smallParams smallExecutor σ e)
    (fun σ e => σ.core.Orderly e ∧ UniqueIds σ.log.seen e)
    (init smallParams (.init smallParams.maxNumRunningReqs)) resumedTextRun
    (fun σ => (σ.executedNext 4).toOption.any (fun x => decide
      (x.1.scheduledCachedReqs = [⟨"a", true, [4, 5, 3, 2], 4⟩] ∧
        x.1.numScheduledTokens.entries = [("a", 1)] ∧
        x.2.map (fun o => (o.requestId, o.newTokenIds)) = [("a", [4])])) = true) (by decide +kernel)
  obtain ⟨x, hok, hx⟩ := exists_ok_of_any hnext
  obtain ⟨h1, h2, h3⟩ := of_decide_eq_true hx
  simp only [executedNext, bind_eq_ok] at hok
  obtain ⟨⟨out, s⟩, hs, ⟨mo, w'⟩, he, ⟨outputs, s'⟩, hu, hok⟩ := hok
  obtain rfl := Except.ok.inj hok
  obtain ⟨changed, w₁, hup, href, halike⟩ := worker_refines hreach hs
    (EngineCore.handle_none smallExecutor _)
  exact ⟨σ, out, s, s', changed, w₁, w', mo, outputs, hreach, hs, h1, h2, hup, he, hu, h3, href,
    halike _ _ _ _ _ he hu⟩

end EngineRun

end SpaceServe
