import SpaceServe.Engine.Inputs
import SpaceServe.Scheduler.Exclusive

/-!
# No request writes over another's keys and values

The slots that `_prepare_inputs` computes for a scheduled window are in blocks that the request has not
filled yet, so every other request that holds such a block has filled it, and a step writes no slot
twice.

* `WritesOwn`: what a slot is to the other running requests; `KVWrites`: the slots of a batch;
* `BatchOf.kvWrites`: they are kept apart by `Exclusive`; `Exclusive.stepped`;
* **`kv_writes_exclusive`**.
-/

set_option autoImplicit false

namespace SpaceServe

open Py

section

variable {ρ : Type} {p : SchedulerParams} {s : Scheduler} {out : SchedulerOutput}
  {w : GPUModelRunner (List ρ)} {rows : List ReqId} {ns : List ℕ}

/-! ## The slots of a batch -/

/-- The slot at `k` is that of position `q` of a request, in a block that the other running requests
hold only at the same index, with all of its tokens computed. -/
def WritesOwn (p : SchedulerParams) (s : Scheduler) (inputs : ModelInputs) (id : ReqId) (q k : ℕ) : Prop :=
  ∃ block, (s.kv.blocksOf id)[q / p.kv.blockSize]? = some block ∧
    inputs.slotMapping[k]? = some ((block * p.kv.blockSize + q % p.kv.blockSize : ℕ) : ℤ) ∧
    ∀ id' ∈ s.running, id' ≠ id → ∀ r', s.requests.get? id' = some r' → ∀ j,
      (s.kv.blocksOf id')[j]? = some block →
        j = q / p.kv.blockSize ∧ (j + 1) * p.kv.blockSize ≤ r'.numComputedTokens

/-- Every scheduled token has a slot of its own, in a block that nobody else has yet to fill. -/
structure KVWrites (p : SchedulerParams) (s : Scheduler) (rows : List ReqId) (ns : List ℕ)
    (inputs : ModelInputs) : Prop where
  length : inputs.slotMapping.length = ns.sum
  own : ∀ (i : ℕ) id n r j, rows[i]? = some id → ns[i]? = some n → s.requests.get? id = some r → j < n →
    WritesOwn p s inputs id (r.numComputedTokens + j) (offset ns i + j)
  distinct : ∀ (k k' : ℕ) slot, inputs.slotMapping[k]? = some slot →
    inputs.slotMapping[k']? = some slot → k = k'

/-- A slot determines its block and the place in it. -/
theorem slot_inj {bs b b' q q' : ℕ} (hbs : 0 < bs)
    (h : ((b * bs + q % bs : ℕ) : ℤ) = ((b' * bs + q' % bs : ℕ) : ℤ)) : b = b' ∧ q % bs = q' % bs := by
  have h := Int.ofNat.inj h
  have hdiv : ∀ b q, (b * bs + q % bs) / bs = b := by
    intro b q
    rw [Nat.add_comm, Nat.add_mul_div_right _ _ hbs, Nat.div_eq_of_lt (Nat.mod_lt _ hbs), Nat.zero_add]
  have hb : b = b' := by rw [← hdiv b q, h, hdiv]
  subst hb
  exact ⟨rfl, Nat.add_left_cancel h⟩

/-- A position that is not computed is in a block that is not filled. -/
theorem not_filled {bs nc q : ℕ} (hbs : 0 < bs) (h : nc ≤ q) : ¬(q / bs + 1) * bs ≤ nc := by
  have := Nat.lt_div_mul_add hbs (a := q)
  rw [Nat.add_mul, Nat.one_mul]
  omega

variable {got : ReqId → ℕ}

/-- **The blocks that a request has yet to fill** are held by others only where they are filled. -/
theorem Exclusive.others (h : Exclusive p s) (hb : BlocksInv p s got) (hw : s.WF p)
    (hinj : Function.Injective p.kv.hash) (hzero : ∀ x, p.kv.hash x ≠ 0) {id id' : ReqId}
    {r r' : Request} {q j block : ℕ} (hid : id ∈ s.running) (hr : s.requests.get? id = some r)
    (hq : r.numComputedTokens ≤ q) (hblock : (s.kv.blocksOf id)[q / p.kv.blockSize]? = some block)
    (hid' : id' ∈ s.running) (hne : id' ≠ id) (hr' : s.requests.get? id' = some r')
    (hj : (s.kv.blocksOf id')[j]? = some block) :
    j = q / p.kv.blockSize ∧ (j + 1) * p.kv.blockSize ≤ r'.numComputedTokens := by
  refine ⟨hb.same_index hw hinj hzero hj hblock, ?_⟩
  obtain hfull | hfull := h id id' r r' _ j block hid hid' hne.symm hr hr' hblock hj
  · exact absurd hfull (not_filled p.kv.blockSize_pos hq)
  · exact hfull

/-- **The slots of a batch** in a state in which blocks have one writer. -/
theorem BatchOf.kvWrites (h : BatchOf s out w rows ns) (hne : rows ≠ []) (hshort : Short p s)
    (hb : BlocksInv p s fun id => (out.numScheduledTokens.get? id).getD 0) (hw : s.WF p)
    (hx : Exclusive p s) (hinj : Function.Injective p.kv.hash) (hzero : ∀ x, p.kv.hash x ≠ 0)
    (useCascade : ℤ → List ℕ → Bool) :
    ∃ inputs, w.prepareInputs p.kv useCascade out = .ok inputs ∧ KVWrites p s rows ns inputs := by
  obtain ⟨inputs, hok, -, hlen, hat⟩ := h.prepareInputs hne hshort hb useCascade
  have hbs := p.kv.blockSize_pos
  have hown : ∀ (i : ℕ) id n r j, rows[i]? = some id → ns[i]? = some n →
      s.requests.get? id = some r → j < n →
        WritesOwn p s inputs id (r.numComputedTokens + j) (offset ns i + j) := by
    intro i id n r j hi hn hr hj
    obtain ⟨-, -, block, hblock, hslot⟩ := hat i id n r j hi hn hr hj
    obtain ⟨_, _, -, hrow⟩ := h.row i id hi
    exact ⟨block, hblock, hslot, fun id' hid' hne' r' hr' j' hj' =>
      hx.others hb hw hinj hzero hrow.running hr (Nat.le_add_right _ _) hblock hid' hne' hr' hj'⟩
  -- a flat position is that of a token of a row
  have hplace : ∀ k slot, inputs.slotMapping[k]? = some slot → ∃ i id n r j, rows[i]? = some id ∧
      ns[i]? = some n ∧ s.requests.get? id = some r ∧ id ∈ s.running ∧ j < n ∧
      k = offset ns i + j := by
    intro k slot hk
    have hlt := (List.getElem?_eq_some_iff.mp hk).1
    rw [hlen] at hlt
    obtain ⟨i, n, j, hi, hj, rfl⟩ := exists_offset hlt
    have hrows : i < rows.length := by
      rw [h.scheduled.tokens.length_eq]
      exact (List.getElem?_eq_some_iff.mp hi).1
    obtain ⟨_, r, -, hrow⟩ := h.row i _ (List.getElem?_eq_getElem hrows)
    exact ⟨i, _, n, r, j, List.getElem?_eq_getElem hrows, hi, hrow.request, hrow.running, hj, rfl⟩
  have hnd : rows.Nodup := h.perm.nodup_iff.mpr out.numScheduledTokens.keys_nodup
  refine ⟨inputs, hok, hlen, hown, fun k k' slot hk hk' => ?_⟩
  obtain ⟨i, id, n, r, j, hi, hn, hr, hid, hj, rfl⟩ := hplace k slot hk
  obtain ⟨i', id', n', r', j', hi', hn', hr', hid', hj', rfl⟩ := hplace k' slot hk'
  obtain ⟨b, hblock, hslot, hother⟩ := hown i id n r j hi hn hr hj
  obtain ⟨b', hblock', hslot', -⟩ := hown i' id' n' r' j' hi' hn' hr' hj'
  rw [hk] at hslot
  rw [hk'] at hslot'
  obtain ⟨rfl, hmod⟩ := slot_inj hbs ((Option.some.inj hslot).symm.trans (Option.some.inj hslot'))
  by_cases hsame : id' = id
  · subst hsame
    obtain rfl := (List.getElem?_inj (List.getElem?_eq_some_iff.mp hi).1 hnd).mp (hi.trans hi'.symm)
    obtain rfl := Option.some.inj (hr.symm.trans hr')
    have hdiv := hb.same_index hw hinj hzero hblock hblock'
    have hq : r.numComputedTokens + j = r.numComputedTokens + j' := by
      rw [← Nat.div_add_mod (r.numComputedTokens + j) p.kv.blockSize, hdiv, hmod, Nat.div_add_mod]
    omega
  · -- the other request would have filled the block it writes to
    obtain ⟨-, hfull⟩ := hother id' hid' hsame r' hr' _ hblock'
    exact absurd hfull (not_filled hbs (Nat.le_add_right _ _))

/-! ## Runs of the engine -/

/-- **Blocks have one writer** after every step of the engine. -/
theorem Exclusive.stepped {E V O : Type} {x : Executor E V O} {c c' : EngineCore E} {t t' : Traces}
    {e : EngineEvent V O} (h : Exclusive p c.scheduler) (hsound : c.scheduler.Sound p)
    (hnew : UniqueIds t.seen e) (hseen : ∀ id ∈ c.scheduler.requests.keys, id ∈ t.seen)
    (hs : Stepped p x c t e c' t') : Exclusive p c'.scheduler := by
  cases hs with
  | add r => exact h.addRequest hsound.wf fun hk => hnew.2 (hseen _ hk)
  | abort hf => exact h.finishRequests hsound hf
  | reset => exact h.resetPrefixCache
  | result hh => exact h
  | idle => exact h
  | discard hsched hh hz => exact h.schedule hsound hsched
  | execute hsched hh hz he hup =>
    exact (h.schedule hsound hsched).update (Scheduler.schedule_wf hsound.wf hsched)
      (hsound.blocks.schedule hsound.wf hsched).1 hup

namespace EngineRun

theorem UniqueRun.exclusive {σ : EngineRun (GPUModelRunner (List ρ))} (h : UniqueRun p σ) :
    Exclusive p σ.core.scheduler := by
  have hinv : RefinementInv p σ.core σ.log.traces ∧ Exclusive p σ.core.scheduler := by
    refine h.invariant (P := fun σ : EngineRun (GPUModelRunner (List ρ)) =>
      RefinementInv p σ.core σ.log.traces ∧ Exclusive p σ.core.scheduler)
      ⟨RefinementInv.init p, Exclusive.init p⟩ ?_
    rintro σ e σ' ⟨hσ, hx⟩ ⟨ho, hu⟩ hs
    have hst := step_stepped ho hs
    exact ⟨hσ.step hu hst, hx.stepped hσ.sound hu hσ.runner.queues.seen hst⟩
  exact hinv.2

/-- **No request writes over another's keys and values.** With injective hashing every scheduled token
has a slot of its own, in a block that the other running requests hold only at the same index and have
filled. -/
theorem kv_writes_exclusive (hinj : Function.Injective p.kv.hash) (hzero : ∀ x, p.kv.hash x ≠ 0)
    {σ : EngineRun (GPUModelRunner (List ρ))} (h : PromptRun p σ) {available : ReqId → ℕ → Bool}
    {polled : Option (EncoderResult (List ρ))}
    (hs : σ.core.scheduler.schedule p available = .ok (out, s))
    (hh : EngineCore.handle (uniProcExecutor ρ p.maxNumRunningReqs) σ.core.executor polled = .ok w)
    (hz : out.totalNumScheduledTokens ≠ 0) (useCascade : ℤ → List ℕ → Bool) :
    ∃ changed w₁ rows ns inputs, w.updateStates p.maxNumRunningReqs out = .ok (changed, w₁) ∧
      BatchOf s out w₁ rows ns ∧ w₁.prepareInputs p.kv useCascade out = .ok inputs ∧
      KVWrites p s rows ns inputs := by
  have hinv := h.unique.refinementInv
  have hsound := hinv.sound
  obtain ⟨hreq, hbatch, -⟩ := handle_uniProc hh
  obtain ⟨changed, w₁, rows, ns, hup, hb⟩ := hinv.batch hs hreq hbatch
  obtain ⟨inputs, hok, hwrites⟩ := hb.kvWrites (hb.ne_nil hz) (h.short.schedule hsound hs)
    (hsound.blocks.schedule hsound.wf hs).1 (Scheduler.schedule_wf hsound.wf hs)
    (h.unique.exclusive.schedule hsound hs) hinj hzero useCascade
  exact ⟨changed, w₁, rows, ns, inputs, hup, hb, hok, hwrites⟩

end EngineRun

end

namespace EngineRun

open SchedulerRun (smallParams)

theorem kv_writes_exclusive_same_step : ∃ (σ : EngineRun (GPUModelRunner (List ℕ)))
    (out : SchedulerOutput) (s : Scheduler) (changed : Bool) (w₁ : GPUModelRunner (List ℕ))
    (rows : List ReqId) (ns : List ℕ) (inputs : ModelInputs), PromptRun smallParams σ ∧
    σ.core.scheduler.schedule smallParams (σ.core.available smallExecutor) = .ok (out, s) ∧
    s.kv.blocksOf "a" = [0, 1, 2, 3] ∧ s.kv.blocksOf "b" = [0, 4, 5] ∧
    σ.core.executor.updateStates smallParams.maxNumRunningReqs out = .ok (changed, w₁) ∧
    BatchOf s out w₁ rows ns ∧
    w₁.prepareInputs smallParams.kv (fun _ _ => true) out = .ok inputs ∧
    inputs.slotMapping = [0, 1, 8] ∧ KVWrites smallParams s rows ns inputs := by
  obtain ⟨σ, hσ, hnext⟩ := exists_reachable (fun σ e => step smallParams smallExecutor σ e)
    (fun σ e => σ.core.Orderly e ∧ UniqueIds σ.log.seen e ∧ AcceptedPrompt smallParams e)
    (init smallParams (.init smallParams.maxNumRunningReqs))
    [.addRequest (.ofPrompt "a" [1, 2] []), .addRequest (.ofPrompt "b" [1, 2, 5] [])]
    (fun σ => σ.preparedNext.toOption.any (fun x => decide (x.1.1.totalNumScheduledTokens ≠ 0 ∧
      x.1.2.kv.blocksOf "a" = [0, 1, 2, 3] ∧ x.1.2.kv.blocksOf "b" = [0, 4, 5] ∧
      x.2.slotMapping = [0, 1, 8])) = true) (by decide +kernel)
  obtain ⟨⟨⟨out, s⟩, inputs⟩, hok, hx⟩ := exists_ok_of_any hnext
  obtain ⟨hz, ha, hb, hslots⟩ := of_decide_eq_true hx
  obtain ⟨hs, changed, w₁, hup, hprep⟩ := preparedNext_eq_ok hok
  obtain ⟨_, _, rows, ns, _, hup', hbatch, hprep', hwrites⟩ := kv_writes_exclusive (ρ := ℕ)
    (p := smallParams) pairingHash_injective pairingHash_ne_zero hσ hs
    (EngineCore.handle_none smallExecutor _) hz
    fun _ _ => true
  rw [hup] at hup'
  cases hup'
  rw [hprep] at hprep'
  cases hprep'
  exact ⟨σ, out, s, changed, w₁, rows, ns, inputs, hσ, hs, ha, hb, hup, hbatch, hprep, hslots, hwrites⟩

end EngineRun

end SpaceServe
