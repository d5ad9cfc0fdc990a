import SpaceServe.Engine.Tokens

/-!
# Decoding

What an engine with its model emits for a request, against decoding the request on its own: token after token,
each chosen from a run of the model over the whole sequence before it, without blocks, caches, chunks or other
requests. Requests may be of any kind in runs in which the device stays up to date, and greedy without
penalties in all others.

* `step_engine`: the runs of a `StreamRun` are runs of the engine;
* `DecodingInv`, `DecodingInv.step`: every token is one that its request can get;
* `PlainRun`, `SampledRun`, `DecodingRun`;
* **`decoding_exact`**: the outputs of a greedy or seeded request are what decoding gives, up to the first
  stop;
* **`outputs_agree`**: they are the same in any two runs, of any two engines with this model;
* **`received_allowed`**: every token that a client receives is one that its request allows;
* **`mixed_topK_fails`**: a random batch in which only some requests have a `top_k` is not executed.
-/

set_option autoImplicit false

namespace SpaceServe

open Py

section

variable {F H Q K S O ρ : Type} [Field F] [LinearOrder F] [IsStrictOrderedRing F] {M : CausalLM F H Q K S O}
  {p : SchedulerParams} {useCascade : ℤ → List ℕ → Bool}

/-! ## Runs -/

namespace StreamRun

/-- The events of a `StreamRun` are those of the engine. -/
theorem step_engine {E V O : Type} {x : Executor E V O} {σ σ' : StreamRun E} {e : EngineEvent V O}
    (hs : step p x σ e = .ok σ') (log : EngineLog) : ∃ log',
      EngineRun.step p x ⟨σ.core, log⟩ e = .ok ⟨σ'.core, log'⟩ ∧ (log.seen = σ.ids → log'.seen = σ'.ids) := by
  have hnext : ∀ {progress : Progress} {c : EngineCore E}, σ.core.next p x e = .ok (progress, c) →
      ∃ log', EngineRun.step p x ⟨σ.core, log⟩ e = .ok ⟨c, log'⟩ ∧ log'.seen = (log.receive e).seen := by
    intro progress c hc
    unfold EngineRun.step
    rw [hc, ok_bind]
    refine ⟨_, rfl, ?_⟩
    cases progress <;> rfl
  cases e with
  | addRequest r =>
    cases hs
    obtain ⟨log', hstep, hseen⟩ := hnext rfl
    refine ⟨log', hstep, fun hlog => ?_⟩
    rw [hseen, ids, List.map_append]
    exact congrArg (· ++ [r.requestId]) hlog
  | abortRequests ids =>
    simp only [StreamRun.step, bind_eq_ok] at hs
    obtain ⟨⟨progress, c⟩, hc, hs⟩ := hs
    obtain rfl := Except.ok.inj hs
    obtain ⟨log', hstep, hseen⟩ := hnext hc
    exact ⟨log', hstep, fun hlog => hseen.trans hlog⟩
  | resetPrefixCache =>
    cases hs
    obtain ⟨log', hstep, hseen⟩ := hnext rfl
    exact ⟨log', hstep, fun hlog => hseen.trans hlog⟩
  | encoderResult res =>
    simp only [StreamRun.step, bind_eq_ok] at hs
    obtain ⟨⟨progress, c⟩, hc, hs⟩ := hs
    obtain rfl := Except.ok.inj hs
    obtain ⟨log', hstep, hseen⟩ := hnext hc
    exact ⟨log', hstep, fun hlog => hseen.trans hlog⟩
  | advance polled outcome =>
    simp only [StreamRun.step, bind_eq_ok] at hs
    obtain ⟨⟨progress, exec, c⟩, hcall, hs⟩ := hs
    obtain rfl := Except.ok.inj hs
    have hadvance : σ.core.next p x (.advance polled outcome) = .ok (progress, c) := by
      rw [EngineCore.next, EngineCore.advance, hcall]
      rfl
    obtain ⟨log', hstep, hseen⟩ := hnext hadvance
    refine ⟨log', hstep, fun hlog => ?_⟩
    cases polled with
    | none => exact hseen.trans hlog
    | some res => exact hseen.trans hlog

/-- What an event leaves of the requests that were added and of their tokens, if it is neither an arrival nor
a call of `schedule`. -/
theorem step_other {E V O : Type} {x : Executor E V O} {σ σ' : StreamRun E} {e : EngineEvent V O}
    (hs : step p x σ e = .ok σ') (hadd : ∀ r, e ≠ .addRequest r)
    (hadvance : ∀ polled outcome, e ≠ .advance polled outcome) :
    σ'.added = σ.added ∧ σ'.outputTokenIds = σ.outputTokenIds := by
  cases e with
  | addRequest r => exact absurd rfl (hadd r)
  | abortRequests ids =>
    simp only [StreamRun.step, bind_eq_ok] at hs
    obtain ⟨⟨progress, c⟩, -, hs⟩ := hs
    obtain rfl := Except.ok.inj hs
    exact ⟨rfl, rfl⟩
  | resetPrefixCache =>
    cases hs
    exact ⟨rfl, rfl⟩
  | encoderResult res =>
    simp only [StreamRun.step, bind_eq_ok] at hs
    obtain ⟨⟨progress, c⟩, -, hs⟩ := hs
    obtain rfl := Except.ok.inj hs
    exact ⟨rfl, rfl⟩
  | advance polled outcome => exact absurd rfl (hadvance polled outcome)

/-- Requests are greedy and ask for no penalties. -/
def PlainEvent {V O : Type} : EngineEvent V O → Prop
  | .addRequest r => r.samplingParams.Plain
  | _ => True

instance {V O : Type} : (e : EngineEvent V O) → Decidable (PlainEvent e)
  | .addRequest r => inferInstanceAs (Decidable r.samplingParams.Plain)
  | .abortRequests _ => inferInstanceAs (Decidable True)
  | .resetPrefixCache => inferInstanceAs (Decidable True)
  | .encoderResult _ => inferInstanceAs (Decidable True)
  | .advance _ _ => inferInstanceAs (Decidable True)

variable (M p) in
/-- What holds between two events. -/
structure DecodingInv (σ : StreamRun (PagedRunner ρ K)) : Prop where
  stream : StreamInv p σ
  paged : ∃ log : EngineLog, PagedInv M p σ.core log.traces ∧ log.seen = σ.ids
  text : ∀ r ∈ σ.added, SchedulerRun.TextPrompt p r
  chosen : ∀ r ∈ σ.added, ∀ ts, σ.outputTokenIds.get? r.requestId = some ts → ∀ (n : ℕ) token,
    ts[n]? = some token → M.Chosen r.samplingParams r.promptTokenIds (ts.take n) token

variable {σ σ' : StreamRun (PagedRunner ρ K)} {e : EngineEvent (List ρ) (Noise F)}

/-- A request of the scheduler was added, with these parameters and this prompt. -/
theorem StreamInv.exists_added {E : Type} {σ : StreamRun E} (h : StreamInv p σ) {id : ReqId} {r : Request}
    (hr : σ.core.scheduler.requests.get? id = some r) :
    ∃ r₀ ∈ σ.added, r₀.requestId = id ∧ Evolved r₀ r := by
  obtain ⟨r₀, hadd, rfl⟩ := List.mem_map.mp (h.known id (Dict.mem_keys_of_get? hr))
  obtain ⟨ts, -, hst⟩ := h.streams r₀ hadd
  exact ⟨r₀, hadd, rfl, (hst.live r hr).1⟩

omit [IsStrictOrderedRing F] in
theorem DecodingInv.init (kvCaches : ℕ → ℕ × ℕ → K) (offsets : Generator → ℕ) :
    DecodingInv M p (init p ⟨.init p.maxNumRunningReqs, kvCaches, offsets⟩ : StreamRun (PagedRunner ρ K)) := by
  refine ⟨StreamInv.init _, ⟨.empty, PagedInv.init kvCaches offsets, rfl⟩, ?_, ?_⟩
  all_goals
    intro r hr
    cases hr

/-- **Every event keeps the tokens right**, as long as its samples can be relied on. -/
theorem DecodingInv.step (h : DecodingInv M p σ) (hinj : Function.Injective p.kv.hash)
    (hzero : ∀ x, p.kv.hash x ≠ 0) (hpos : ∀ n queryLens, useCascade n queryLens = true → 0 < n)
    (ho : σ.core.Orderly e) (hu : UniqueIds σ.ids e) (ha : TextEvent p e) (hrel : Reliable p σ.core e)
    (hs : step p (pagedExecutor M p useCascade) σ e = .ok σ') : DecodingInv M p σ' := by
  obtain ⟨log, hpaged, hseen⟩ := h.paged
  obtain ⟨log', hstep, hseen'⟩ := step_engine hs log
  have hpaged' : PagedInv M p σ'.core log'.traces := by
    refine hpaged.step hinj hzero hpos ?_ ha (step_stepped ho hstep)
    rw [show log.traces.seen = σ.ids from hseen]
    exact hu
  have hstream := h.stream.step hu hs
  have hother : (∀ r, e ≠ .addRequest r) → (∀ polled outcome, e ≠ .advance polled outcome) →
      DecodingInv M p σ' := by
    intro h1 h2
    obtain ⟨hadded, htokens⟩ := step_other hs h1 h2
    refine ⟨hstream, ⟨log', hpaged', hseen' hseen⟩, ?_, ?_⟩
    · rw [hadded]
      exact h.text
    · rw [hadded, htokens]
      exact h.chosen
  cases e with
  | addRequest r =>
    cases hs
    refine ⟨hstream, ⟨log', hpaged', hseen' hseen⟩, fun r' hr' => ?_, fun r' hr' ts hts n token ht => ?_⟩
    · obtain hr' | hr' := List.mem_append.mp hr'
      · exact h.text r' hr'
      · obtain rfl := List.mem_singleton.mp hr'
        exact ha
    · obtain hr' | hr' := List.mem_append.mp hr'
      · have hne : r'.requestId ≠ r.requestId := fun he => hu.2 (he ▸ List.mem_map_of_mem hr')
        exact h.chosen r' hr' ts ((Dict.get?_set_ne _ hne _).symm.trans hts) n token ht
      · obtain rfl := List.mem_singleton.mp hr'
        obtain rfl := Option.some.inj ((Dict.get?_set_self _ _ _).symm.trans hts)
        rw [hu.1.2.2.1] at ht
        cases ht
  | abortRequests ids => exact hother (fun _ => by simp) fun _ _ => by simp
  | resetPrefixCache => exact hother (fun _ => by simp) fun _ _ => by simp
  | encoderResult res => exact hother (fun _ => by simp) fun _ _ => by simp
  | advance polled outcome =>
    simp only [StreamRun.step, bind_eq_ok] at hs
    obtain ⟨⟨progress, exec, c⟩, hcall, hs⟩ := hs
    obtain rfl := Except.ok.inj hs
    refine ⟨hstream, ⟨log', hpaged', hseen' hseen⟩, h.text, fun r hr ts' hts' n token ht => ?_⟩
    obtain ⟨ts, hts, hst⟩ := h.stream.streams r hr
    obtain hsame | ⟨r₁, next, hr₁, hnext, hchosen⟩ := call_chosen hpaged hinj hzero hpos hrel hcall hts
      fun r' hr' => (hst.live r' hr').2.1
    · obtain rfl := Option.some.inj (hsame.symm.trans hts')
      exact h.chosen r hr ts hts n token ht
    · obtain rfl := Option.some.inj (hnext.symm.trans hts')
      rw [(hst.live r₁ hr₁).1] at hchosen
      obtain hlt | rfl | hgt := Nat.lt_trichotomy n ts.length
      · rw [List.getElem?_append_left hlt] at ht
        rw [List.take_append_of_le_length (Nat.le_of_lt hlt)]
        exact h.chosen r hr ts hts n token ht
      · rw [List.getElem?_concat_length] at ht
        obtain rfl := Option.some.inj ht
        rw [List.take_left]
        exact hchosen
      · rw [List.getElem?_eq_none (by rw [List.length_append, List.length_singleton]; omega)] at ht
        cases ht

/-! ## What a client receives -/

/-- The parameters of an engine, when cascade attention pays on its device, and what its memory holds in the
beginning. -/
structure EngineConfig (K : Type) where
  params : SchedulerParams
  useCascade : ℤ → List ℕ → Bool
  kvCaches : ℕ → ℕ × ℕ → K
  offsets : Generator → ℕ
  hash_injective : Function.Injective params.kv.hash
  hash_ne_zero : ∀ x, params.kv.hash x ≠ 0
  useCascade_pos : ∀ n queryLens, useCascade n queryLens = true → 0 < n

/-- The runner of an engine in the beginning. -/
def EngineConfig.runner (C : EngineConfig K) : PagedRunner ρ K :=
  ⟨.init C.params.maxNumRunningReqs, C.kvCaches, C.offsets⟩

/-- The runs of an engine with text-only requests that are greedy and without penalties. -/
def PlainRun (M : CausalLM F H Q K S O) (C : EngineConfig K) : StreamRun (PagedRunner ρ K) → Prop :=
  Reachable (fun σ e => step C.params (pagedExecutor M C.params C.useCascade) σ e)
    (fun σ e => σ.core.Orderly e ∧ UniqueIds σ.ids e ∧ TextEvent C.params e ∧ PlainEvent e)
    (init C.params C.runner)

/-- The runs of an engine with text-only requests of any kind, in which finished requests leave the last rows
of the batch unless it changes otherwise. -/
def SampledRun (M : CausalLM F H Q K S O) (C : EngineConfig K) : StreamRun (PagedRunner ρ K) → Prop :=
  Reachable (fun σ e => step C.params (pagedExecutor M C.params C.useCascade) σ e)
    (fun σ e => σ.core.Orderly e ∧ UniqueIds σ.ids e ∧ TextEvent C.params e ∧
      EngineRun.LeavesLast C.params σ.core.forget (e.sampling []))
    (init C.params C.runner)

/-- The runs in which samples can be relied on. -/
def DecodingRun (M : CausalLM F H Q K S O) (C : EngineConfig K) (σ : StreamRun (PagedRunner ρ K)) : Prop :=
  PlainRun M C σ ∨ SampledRun M C σ

/-- The tokens that were emitted for a request. -/
def received {E : Type} (σ : StreamRun E) (id : ReqId) : List TokenId :=
  (outputsOf id σ.emitted).flatMap (·.newTokenIds)

variable {C C' : EngineConfig K}

theorem PlainRun.inv (h : PlainRun M C σ) :
    DecodingInv M C.params σ ∧ ∀ r ∈ σ.added, r.samplingParams.Plain := by
  refine h.invariant (P := fun σ : StreamRun (PagedRunner ρ K) => DecodingInv M C.params σ ∧
    ∀ r ∈ σ.added, r.samplingParams.Plain) ⟨DecodingInv.init C.kvCaches C.offsets, ?_⟩ ?_
  · intro r hr
    cases hr
  rintro σ e σ' ⟨hσ, hplain⟩ ⟨ho, hu, ha, hp⟩ hs
  refine ⟨hσ.step C.hash_injective C.hash_ne_zero C.useCascade_pos ho hu ha (Or.inl fun id r hr => ?_) hs, ?_⟩
  · obtain ⟨r₀, hadd, -, hev⟩ := hσ.stream.exists_added hr
    rw [hev]
    exact hplain r₀ hadd
  · cases e with
    | addRequest r =>
      cases hs
      intro r' hr'
      obtain hr' | hr' := List.mem_append.mp hr'
      · exact hplain r' hr'
      · obtain rfl := List.mem_singleton.mp hr'
        exact hp
    | advance polled outcome =>
      simp only [StreamRun.step, bind_eq_ok] at hs
      obtain ⟨⟨progress, exec, c⟩, -, hs⟩ := hs
      obtain rfl := Except.ok.inj hs
      exact hplain
    | abortRequests ids =>
      rw [(step_other hs (fun _ => by simp) fun _ _ => by simp).1]
      exact hplain
    | resetPrefixCache =>
      rw [(step_other hs (fun _ => by simp) fun _ _ => by simp).1]
      exact hplain
    | encoderResult res =>
      rw [(step_other hs (fun _ => by simp) fun _ _ => by simp).1]
      exact hplain

theorem SampledRun.inv (h : SampledRun M C σ) : DecodingInv M C.params σ ∧ SampledInv σ.core := by
  refine h.invariant (P := fun σ : StreamRun (PagedRunner ρ K) => DecodingInv M C.params σ ∧ SampledInv σ.core)
    ⟨DecodingInv.init C.kvCaches C.offsets, SampledInv.init C.kvCaches C.offsets⟩ ?_
  rintro σ e σ' ⟨hσ, hd⟩ ⟨ho, hu, ha, hlast⟩ hs
  refine ⟨hσ.step C.hash_injective C.hash_ne_zero C.useCascade_pos ho hu ha (Or.inr ⟨hd, hlast⟩) hs, ?_⟩
  obtain ⟨log, hpaged, -⟩ := hσ.paged
  obtain ⟨log', hstep, -⟩ := step_engine hs log
  exact hd.step hpaged C.hash_injective C.hash_ne_zero C.useCascade_pos hlast (step_stepped ho hstep)

theorem DecodingRun.inv (h : DecodingRun M C σ) : DecodingInv M C.params σ := by
  obtain h | h := h
  · exact h.inv.1
  · exact h.inv.1

/-- The outputs of a request are a stream of tokens that it can get. -/
theorem DecodingRun.received (h : DecodingRun M C σ) {r : Request} (hr : r ∈ σ.added)
    (hmax : 1 ≤ r.samplingParams.maxTokens) :
    OutputStream C.params σ r (outputsOf r.requestId σ.emitted) ∧
      (received σ r.requestId).length = (outputsOf r.requestId σ.emitted).length ∧
      ∀ (n : ℕ) token, (StreamRun.received σ r.requestId)[n]? = some token →
        M.Chosen r.samplingParams r.promptTokenIds ((StreamRun.received σ r.requestId).take n) token := by
  have hinv := h.inv
  have hunique : Reachable (fun σ e => StreamRun.step C.params (pagedExecutor M C.params C.useCascade) σ e)
      (fun σ e => UniqueIds σ.ids e) (init C.params (C.runner (ρ := ρ))) σ := by
    obtain h | h := h
    · exact h.mono fun _ _ he => he.2.1
    · exact h.mono fun _ _ he => he.2.1
  have hstream := output_stream hunique hr (hinv.text r hr).2.2 hmax
  obtain ⟨ts, hts, hst⟩ := hinv.stream.streams r hr
  have hreceived : StreamRun.received σ r.requestId = ts := by
    rw [hstream.tokens] at hts
    exact Option.some.inj hts
  rw [hreceived]
  exact ⟨hstream, hst.length.symm, hinv.chosen r hr ts hts⟩

/-- **Decoding is exact.** With any arrivals, chunks, preemptions, aborts and shared blocks, the outputs of a
greedy or seeded request are, one token each, what decoding the request on its own gives, up to the first
stop. -/
theorem decoding_exact (h : DecodingRun M C σ) {r : Request} (hr : r ∈ σ.added)
    (hmax : 1 ≤ r.samplingParams.maxTokens) (hrep : r.samplingParams.Reproducible) :
    OutputStream C.params σ r (outputsOf r.requestId σ.emitted) ∧
      received σ r.requestId = M.decode r.samplingParams r.promptTokenIds
        (outputsOf r.requestId σ.emitted).length := by
  obtain ⟨hstream, hlen, hchosen⟩ := h.received hr hmax
  refine ⟨hstream, ?_⟩
  rw [← hlen]
  exact CausalLM.eq_decode hrep hchosen

/-- Of two lists of tokens of which one is a prefix of the other, not both end with a first stop, unless
they are equal. -/
theorem FirstStop.eq_of_prefix {r : Request} {ts ts' : List TokenId} (h : FirstStop p r ts)
    (h' : FirstStop p r ts') (hpos : 0 < ts.length) (hbegin : ts <+: ts') : ts = ts' := by
  by_contra hne
  have hlt : ts.length < ts'.length :=
    Nat.lt_of_le_of_ne hbegin.length_le fun he => hne (hbegin.eq_of_length he)
  refine h'.2 ts.length hpos hlt ?_
  rw [← List.prefix_iff_eq_take.mp hbegin]
  exact h.1

/-- **A finished stream** ends with the first stop. -/
theorem OutputStream.firstStop {E : Type} {σ : StreamRun E} {r : Request} {outs : List EngineCoreOutput}
    (h : OutputStream p σ r outs) (hfin : ∃ o ∈ outs, o.finished = true) :
    0 < (outs.flatMap (·.newTokenIds)).length ∧ FirstStop p r (outs.flatMap (·.newTokenIds)) := by
  obtain ⟨o, ho, hfin⟩ := hfin
  obtain ⟨i, hi⟩ := List.mem_iff_getElem?.mp ho
  have hstop := (h.finished i o hi).mp hfin
  rw [List.take_of_length_le (Nat.le_of_eq (h.last i o hi hfin).symm)] at hstop
  refine ⟨List.length_pos_iff.mpr fun hnil => ?_, hstop⟩
  have hone := h.one o ho
  rw [List.flatMap_eq_nil_iff.mp hnil o ho] at hone
  cases hone

/-- **What a client receives does not depend on the engine**: of two greedy or seeded requests with the same
prompt and parameters, in any runs of any two engines with this model, whose blocks, budgets, other requests,
random numbers and cascade attention may differ, one receives a prefix of what the other does, and they
receive the same once they are finished. -/
theorem outputs_agree {σ' : StreamRun (PagedRunner ρ K)} (h : DecodingRun M C σ) (h' : DecodingRun M C' σ')
    {r r' : Request} (hr : r ∈ σ.added) (hr' : r' ∈ σ'.added) (hmax : 1 ≤ r.samplingParams.maxTokens)
    (hrep : r.samplingParams.Reproducible) (hprompt : r'.promptTokenIds = r.promptTokenIds)
    (hsp : r'.samplingParams = r.samplingParams) :
    (received σ r.requestId <+: received σ' r'.requestId ∨
      received σ' r'.requestId <+: received σ r.requestId) ∧
    (C'.params.kv.maxModelLen = C.params.kv.maxModelLen → r'.eosTokenId = r.eosTokenId →
      (∃ o ∈ outputsOf r.requestId σ.emitted, o.finished = true) →
      (∃ o ∈ outputsOf r'.requestId σ'.emitted, o.finished = true) →
        received σ r.requestId = received σ' r'.requestId) := by
  obtain ⟨hstream, hdecode⟩ := decoding_exact h hr hmax hrep
  obtain ⟨hstream', hdecode'⟩ := decoding_exact h' hr' (hsp ▸ hmax) (hsp ▸ hrep)
  have hbegin : received σ r.requestId <+: received σ' r'.requestId ∨
      received σ' r'.requestId <+: received σ r.requestId := by
    rw [hdecode, hdecode', hprompt, hsp]
    exact (Nat.le_total _ _).imp (CausalLM.decode_prefix _ _) (CausalLM.decode_prefix _ _)
  refine ⟨hbegin, fun hlen heos hfin hfin' => ?_⟩
  obtain ⟨hpos, hstop⟩ := hstream.firstStop hfin
  obtain ⟨hpos', hstop'⟩ := hstream'.firstStop hfin'
  -- the stop conditions are those of the first request
  have hsame : ∀ tokens, Scheduler.StopsAt C'.params r' tokens ↔ Scheduler.StopsAt C.params r tokens := by
    intro tokens
    unfold Scheduler.StopsAt
    rw [hlen, hprompt, hsp, heos]
  have hstop'' : FirstStop C.params r (received σ' r'.requestId) :=
    ⟨(hsame _).mp hstop'.1, fun n hn hlt hs => hstop'.2 n hn hlt ((hsame _).mpr hs)⟩
  obtain hbegin | hbegin := hbegin
  · exact hstop.eq_of_prefix hstop'' hpos hbegin
  · exact (hstop''.eq_of_prefix hstop hpos' hbegin).symm

/-- **Every token that a client receives is allowed** by its request: no stop token before there are enough
tokens, the largest logit if it is greedy, and one of the largest `top_k` logits and of the nucleus of
`top_p` if it is not. -/
theorem received_allowed (h : DecodingRun M C σ) {r : Request} (hr : r ∈ σ.added)
    (hmax : 1 ≤ r.samplingParams.maxTokens) {n : ℕ} {token : TokenId}
    (ht : (received σ r.requestId)[n]? = some token)
    (hleft : ∃ x ∈ M.samplingRow r.samplingParams r.promptTokenIds ((received σ r.requestId).take n), x ≠ ⊥) :
    M.Allows r.samplingParams r.promptTokenIds ((received σ r.requestId).take n) token := by
  obtain ⟨-, -, hchosen⟩ := h.received hr hmax
  obtain ⟨x, hx, hbot⟩ := hleft
  exact (hchosen n token ht).allows hx hbot

/-- **A batch in which only some requests have a `top_k` is not executed**, as soon as a request in it is
random: the sampler looks up the `-1` of the others in the sorted logits. -/
theorem mixed_topK_fails (h : SampledRun M C σ) {out : SchedulerOutput} {s : Scheduler}
    (hs : σ.core.scheduler.schedule C.params
      (σ.core.available (pagedExecutor M C.params C.useCascade)) = .ok (out, s))
    {polled : Option (EncoderResult (List ρ))} {w : PagedRunner ρ K}
    (hh : EngineCore.handle (pagedExecutor M C.params C.useCascade) σ.core.executor polled = .ok w)
    (hlast : GPUModelRunner.FinishedLast σ.core.executor.runner.inputBatch out) {a b d : ReqId}
    {ra rb rd : Request} (ha : a ∈ out.numScheduledTokens.keys) (hb : b ∈ out.numScheduledTokens.keys)
    (hd : d ∈ out.numScheduledTokens.keys) (hra : s.requests.get? a = some ra)
    (hrb : s.requests.get? b = some rb) (hrd : s.requests.get? d = some rd)
    (hrandom : ¬ ra.samplingParams.temperature < samplingEps) (htopK : 0 < rb.samplingParams.topK)
    (hnone : rd.samplingParams.topK ≤ 0) (noise : Noise F) :
    ∃ exn, w.executeModel M C.params C.useCascade noise out = .error exn := by
  cases he : w.executeModel M C.params C.useCascade noise out with
  | error exn => exact ⟨exn, rfl⟩
  | ok result =>
    exfalso
    obtain ⟨hinv, hdevice⟩ := h.inv
    obtain ⟨log, hpaged, -⟩ := hinv.paged
    have hw := hpaged.base.sound.wf
    have hz : out.totalNumScheduledTokens ≠ 0 := by
      intro hz
      rw [(schedule_sent hw (knownTo_sentIds hw) hs).nothing hz] at ha
      exact List.not_mem_nil ha
    obtain ⟨changed, w₁, rows, logits, metadata, w₂, offsets, hsamp, hforward, -⟩ :=
      hpaged.sampling C.hash_injective C.hash_ne_zero C.useCascade_pos hs hh hz he
    have hrow : ∀ {id r}, id ∈ out.numScheduledTokens.keys → s.requests.get? id = some r → ∃ i : ℕ,
        rows[i]? = some id ∧ Sampler.SamplerRow metadata i r.samplingParams r.promptTokenIds r.outputTokenIds := by
      intro id r hid hr
      obtain ⟨i, hi⟩ := hsamp.mem id hid
      exact ⟨i, hi, hpaged.samplerRow hs hh hdevice hlast hsamp hi hr⟩
    obtain ⟨_, _, ga⟩ := hrow ha hra
    obtain ⟨_, _, gb⟩ := hrow hb hrb
    obtain ⟨i, hi, gd⟩ := hrow hd hrd
    obtain ⟨row, hlogits⟩ := hsamp.all i d hi
    obtain ⟨logits', randomSampled, hok, hscaled⟩ := Sampler.forward_asks hforward (ga.random hrandom)
    simp only [RandomOps.forwardNative, bind_eq_ok] at hok
    obtain ⟨masked, hmasked, -⟩ := hok
    obtain hno | hall := RandomOps.applyTopKTopP_returns_iff.mp ⟨masked, hmasked⟩
    · exact absurd htopK (not_lt.mpr (gb.noTopK hno))
    · exact absurd (hall i _ _ gd.topK (hscaled gd hlogits)).1 (not_lt.mpr hnone)

end StreamRun

end

namespace StreamRun

open EngineRun (addingModel quiet positivePrefix positivePrefix_pos)
open SchedulerRun (smallParams)

/-- A request for four tokens. -/
def requestWith (requestId : ReqId) (promptTokenIds : List TokenId) (temperature : ℚ) (seed : Option ℤ) :
    Request :=
  { Request.ofPrompt requestId promptTokenIds [] with
    samplingParams := { maxTokens := 4, ignoreEos := true, stopTokenIds := [], temperature, seed } }

/-- Six blocks, three tokens in a step, and cascade attention over every common prefix. -/
def smallConfig : EngineConfig ℕ where
  params := smallParams
  useCascade := positivePrefix
  kvCaches _ _ := 77
  offsets _ := 5
  hash_injective := pairingHash_injective
  hash_ne_zero := pairingHash_ne_zero
  useCascade_pos := positivePrefix_pos

/-- The second request is preempted after its first token and computed again when the first one is gone;
it has a seed, and the first one has none. -/
def preemptedRun : List (EngineEvent (List ℕ) (Noise ℚ)) :=
  [.addRequest (requestWith "a" [1, 2, 3] 1 none), .advance none quiet,
    .addRequest (requestWith "b" [1, 4, 5, 2] 1 (some 3)), .advance none quiet, .advance none quiet,
    .advance none quiet, .advance none quiet, .advance none quiet, .advance none quiet]

/-- The run ends with both requests finished. -/
theorem exists_preemptedRun : ∃ σ : StreamRun (PagedRunner ℕ ℕ), SampledRun addingModel smallConfig σ ∧
    requestWith "b" [1, 4, 5, 2] 1 (some 3) ∈ σ.added ∧ received σ "a" = [3, 5, 5, 0] ∧
    received σ "b" = [6, 0, 6, 6] ∧ ∃ o ∈ outputsOf "b" σ.emitted, o.finished = true :=
  exists_reachable
    (fun σ e => step smallParams (pagedExecutor (ρ := ℕ) addingModel smallParams positivePrefix) σ e)
    (fun σ e => σ.core.Orderly e ∧ UniqueIds σ.ids e ∧ TextEvent smallParams e ∧
      EngineRun.LeavesLast smallParams σ.core.forget (e.sampling []))
    (init smallParams smallConfig.runner) preemptedRun
    (fun σ => requestWith "b" [1, 4, 5, 2] 1 (some 3) ∈ σ.added ∧ received σ "a" = [3, 5, 5, 0] ∧
      received σ "b" = [6, 0, 6, 6] ∧ ∃ o ∈ outputsOf "b" σ.emitted, o.finished = true) (by decide +kernel)

theorem decoding_exact_preempted : ∃ σ : StreamRun (PagedRunner ℕ ℕ),
    DecodingRun addingModel smallConfig σ ∧ received σ "b" = [6, 0, 6, 6] ∧
    OutputStream smallParams σ (requestWith "b" [1, 4, 5, 2] 1 (some 3)) (outputsOf "b" σ.emitted) ∧
    received σ "b" = addingModel.decode (requestWith "b" [1, 4, 5, 2] 1 (some 3)).samplingParams [1, 4, 5, 2]
      (outputsOf "b" σ.emitted).length := by
  obtain ⟨σ, hσ, hr, -, htokens, -⟩ := exists_preemptedRun
  obtain ⟨hstream, hdecode⟩ := decoding_exact (Or.inr hσ) hr (by decide) (Or.inr rfl)
  exact ⟨σ, Or.inr hσ, htokens, hstream, hdecode⟩

/-- Eight tokens in a step, and no cascade attention. -/
def roomyConfig : EngineConfig ℕ where
  params := { smallParams with maxNumScheduledTokens := 8 }
  useCascade _ _ := false
  kvCaches _ _ := 0
  offsets _ := 0
  hash_injective := pairingHash_injective
  hash_ne_zero := pairingHash_ne_zero
  useCascade_pos _ _ h := Bool.noConfusion h

/-- The request is alone. -/
def aloneRun : List (EngineEvent (List ℕ) (Noise ℚ)) :=
  [.addRequest (requestWith "x" [1, 4, 5, 2] 1 (some 3)), .advance none quiet, .advance none quiet,
    .advance none quiet, .advance none quiet]

theorem outputs_agree_alone : ∃ σ σ' : StreamRun (PagedRunner ℕ ℕ), DecodingRun addingModel smallConfig σ ∧
    DecodingRun addingModel roomyConfig σ' ∧ received σ "b" = [6, 0, 6, 6] ∧
    received σ "b" = received σ' "x" := by
  obtain ⟨σ, hσ, hr, -, htokens, hfin⟩ := exists_preemptedRun
  obtain ⟨σ', hσ', hr', hfin'⟩ := exists_reachable
    (fun σ e => step roomyConfig.params
      (pagedExecutor (ρ := ℕ) addingModel roomyConfig.params roomyConfig.useCascade) σ e)
    (fun σ e => σ.core.Orderly e ∧ UniqueIds σ.ids e ∧ TextEvent roomyConfig.params e ∧
      EngineRun.LeavesLast roomyConfig.params σ.core.forget (e.sampling []))
    (init roomyConfig.params roomyConfig.runner) aloneRun
    (fun σ => requestWith "x" [1, 4, 5, 2] 1 (some 3) ∈ σ.added ∧
      ∃ o ∈ outputsOf "x" σ.emitted, o.finished = true) (by decide +kernel)
  have hrun' : SampledRun addingModel roomyConfig σ' := hσ'
  exact ⟨σ, σ', Or.inr hσ, Or.inr hrun', htokens,
    (outputs_agree (Or.inr hσ) (Or.inr hrun') hr hr' (by decide) (Or.inr rfl) rfl rfl).2 rfl rfl hfin hfin'⟩

theorem received_allowed_preempted : ∃ σ : StreamRun (PagedRunner ℕ ℕ),
    DecodingRun addingModel smallConfig σ ∧ received σ "b" = [6, 0, 6, 6] ∧
    addingModel.Allows (requestWith "b" [1, 4, 5, 2] 1 (some 3)).samplingParams [1, 4, 5, 2] [6, 0] 6 := by
  obtain ⟨σ, hσ, hr, -, htokens, -⟩ := exists_preemptedRun
  have htake : (received σ (requestWith "b" [1, 4, 5, 2] 1 (some 3)).requestId).take 2 = [6, 0] :=
    congrArg (List.take 2) htokens
  have hget : (received σ (requestWith "b" [1, 4, 5, 2] 1 (some 3)).requestId)[2]? = some 6 :=
    congrArg (·[2]?) htokens
  have hallowed := received_allowed (Or.inr hσ) hr (by decide) hget (by rw [htake]; decide +kernel)
  rw [htake] at hallowed
  exact ⟨σ, Or.inr hσ, htokens, hallowed⟩

/-- A random request with a `top_k`. -/
def topKRequest : Request :=
  { Request.ofPrompt "b" [2] [] with
    samplingParams := { maxTokens := 4, ignoreEos := true, stopTokenIds := [], topK := 2 } }

theorem mixed_topK_fails_greedy : ∃ (σ : StreamRun (PagedRunner ℕ ℕ)) (out : SchedulerOutput) (exn : Exn),
    SampledRun addingModel smallConfig σ ∧ out.numScheduledTokens.keys = ["a", "b"] ∧
    σ.core.executor.executeModel addingModel smallParams positivePrefix quiet out = .error exn := by
  obtain ⟨σ, hσ, hP⟩ := exists_reachable
    (fun σ e => step smallParams (pagedExecutor (ρ := ℕ) addingModel smallParams positivePrefix) σ e)
    (fun σ e => σ.core.Orderly e ∧ UniqueIds σ.ids e ∧ TextEvent smallParams e ∧
      EngineRun.LeavesLast smallParams σ.core.forget (e.sampling []))
    (init smallParams smallConfig.runner)
    [.addRequest (requestWith "a" [1] 0 none), .addRequest topKRequest]
    (fun σ => ((σ.core.scheduler.schedule smallParams
        (σ.core.available (pagedExecutor addingModel smallParams positivePrefix))).toOption.any fun x =>
      decide (x.1.numScheduledTokens.keys = ["a", "b"] ∧
        GPUModelRunner.FinishedLast σ.core.executor.runner.inputBatch x.1 ∧
        (x.2.requests.get? "a").any (fun r => decide (r.samplingParams.topK ≤ 0)) = true ∧
        (x.2.requests.get? "b").any (fun r => decide (¬ r.samplingParams.temperature < samplingEps ∧
          0 < r.samplingParams.topK)) = true)) = true) (by decide +kernel)
  obtain ⟨⟨out, s⟩, hs, hx⟩ := exists_ok_of_any hP
  obtain ⟨hkeys, hlast, ha, hb⟩ := of_decide_eq_true hx
  obtain ⟨ra, hra, ha⟩ := (Option.any_eq_true _ _).mp ha
  obtain ⟨rb, hrb, hb⟩ := (Option.any_eq_true _ _).mp hb
  obtain ⟨hrandom, htopK⟩ := of_decide_eq_true hb
  have hrun : SampledRun addingModel smallConfig σ := hσ
  have hh : EngineCore.handle (pagedExecutor addingModel smallParams positivePrefix) σ.core.executor none =
    .ok σ.core.executor := rfl
  obtain ⟨exn, hexn⟩ := mixed_topK_fails hrun hs hh hlast
    (a := "b") (b := "b") (d := "a") (by rw [hkeys]; decide) (by rw [hkeys]; decide) (by rw [hkeys]; decide)
    hrb hrb hra hrandom htopK (of_decide_eq_true ha) quiet
  exact ⟨σ, out, exn, hrun, hkeys, hexn⟩

end StreamRun

end SpaceServe
