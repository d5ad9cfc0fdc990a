import SpaceServe.Engine.Runs
import SpaceServe.Scheduler.Emission
import SpaceServe.Scheduler.Safety

/-!
# The output stream of a request

What an engine emits for a request over a whole run, with any arrivals, chunks, preemptions and aborts
in between: one token at a time, the tokens it samples in their order, until it stops or is aborted.

* `Evolved`: what a run changes of a request;
* `Streamed`: the outputs of a request, its tokens and what is left of it in the scheduler;
* `StreamRun`, `step`: an engine with what it has emitted;
* `CallEffect`, `call_effect`: what a call of `schedule` means for one request; `call_keys`;
* `StreamInv`, **`StreamInv.step`**;
* `OutputStream`, **`output_stream`**.
-/

set_option autoImplicit false

namespace SpaceServe

open Py Scheduler

/-! ## The stream of one request -/

/-- A request later in a run. -/
def Evolved (r r' : Request) : Prop :=
  r' = { r with
    status := r'.status
    stopReason := r'.stopReason
    numComputedTokens := r'.numComputedTokens
    outputTokenIds := r'.outputTokenIds
    kvBlockHashes := r'.kvBlockHashes }

section Streamed

variable {p : SchedulerParams} {r r₀ r' : Request}

theorem Evolved.refl (r : Request) : Evolved r r := rfl

theorem Evolved.trans {r₁ r₂ r₃ : Request} (h : Evolved r₁ r₂) (h' : Evolved r₂ r₃) :
    Evolved r₁ r₃ := by
  unfold Evolved at h'
  rw [h] at h'
  exact h'

theorem Rescheduled.evolved (h : Rescheduled r r') : Evolved r r' := by
  have houtput : r'.outputTokenIds = r.outputTokenIds := by rw [h.eq]
  have hreason : r'.stopReason = r.stopReason := by rw [h.eq]
  unfold Evolved
  rw [houtput, hreason]
  exact h.eq

theorem Scheduler.Sampled.evolved (h : Sampled r r') : Evolved r r' := by
  have hhashes : r'.kvBlockHashes = r.kvBlockHashes := by rw [h]
  unfold Evolved
  rw [hhashes]
  exact h

theorem Evolved.stopsAt (h : Evolved r r') (tokens : List TokenId) :
    StopsAt p r' tokens ↔ StopsAt p r tokens := by
  rw [h]
  rfl

variable (p) in
/-- The outputs `outs` of a request that was added as `r₀`, with its tokens `ts` and what is left of it
in the scheduler. -/
structure Streamed (r₀ : Request) (outs : List EngineCoreOutput) (ts : List TokenId)
    (left : Option Request) : Prop where
  tokens : outs.map (·.newTokenIds) = ts.map fun t => [t]
  going : ∀ n, 0 < n → n < ts.length → ¬ StopsAt p r₀ (ts.take n)
  finished : ∀ i o, outs[i]? = some o → (o.finished = true ↔ StopsAt p r₀ (ts.take (i + 1)))
  live : ∀ r, left = some r → Evolved r₀ r ∧ r.outputTokenIds = ts ∧
    (0 < ts.length → ¬ StopsAt p r₀ ts)

variable {outs : List EngineCoreOutput} {ts : List TokenId} {left left' : Option Request}

theorem Streamed.length (h : Streamed p r₀ outs ts left) : outs.length = ts.length := by
  have := congrArg List.length h.tokens
  rwa [List.length_map, List.length_map] at this

theorem Streamed.flatMap_take (h : Streamed p r₀ outs ts left) (n : ℕ) :
    (outs.take n).flatMap (·.newTokenIds) = ts.take n := by
  rw [List.flatMap_def, List.map_take, h.tokens, ← List.map_take, ← List.flatMap_def,
    List.flatMap_singleton']

/-- Nothing is emitted. -/
theorem Streamed.silent (h : Streamed p r₀ outs ts left)
    (hleft : ∀ r', left' = some r' → ∃ r, left = some r ∧ Evolved r r' ∧
      r'.outputTokenIds = r.outputTokenIds) : Streamed p r₀ outs ts left' := by
  refine ⟨h.tokens, h.going, h.finished, fun r' hr' => ?_⟩
  obtain ⟨r, hr, hev, htok⟩ := hleft r' hr'
  obtain ⟨h1, h2, h3⟩ := h.live r hr
  exact ⟨h1.trans hev, htok.trans h2, h3⟩

/-- A token is emitted. -/
theorem Streamed.token (h : Streamed p r₀ outs ts (some r)) {o : EngineCoreOutput} {t : TokenId}
    (ho : o.newTokenIds = [t])
    (hfin : o.finished = true ↔ StopsAt p r (r.outputTokenIds ++ [t]))
    (hleft : ∀ r', left' = some r' → o.finished = false ∧ Evolved r r' ∧
      r'.outputTokenIds = r.outputTokenIds ++ [t]) :
    Streamed p r₀ (outs ++ [o]) (ts ++ [t]) left' := by
  obtain ⟨hev, htok, hgo⟩ := h.live r rfl
  have hlen := h.length
  rw [htok, hev.stopsAt] at hfin
  refine ⟨?_, fun n hn hlt => ?_, fun i o' ho' => ?_, fun r' hr' => ?_⟩
  · rw [List.map_append, List.map_append, h.tokens, List.map_singleton, List.map_singleton, ho]
  · rw [List.length_append, List.length_singleton] at hlt
    rw [List.take_append_of_le_length (by omega)]
    by_cases he : n = ts.length
    · rw [he, List.take_length]
      exact hgo (by omega)
    · exact h.going n hn (by omega)
  · by_cases hi : i < outs.length
    · rw [List.getElem?_append_left hi] at ho'
      rw [List.take_append_of_le_length (by omega)]
      exact h.finished i o' ho'
    · obtain ⟨hi', -⟩ := List.getElem?_eq_some_iff.mp ho'
      rw [List.length_append, List.length_singleton] at hi'
      obtain rfl : i = outs.length := by omega
      rw [List.getElem?_append_right (Nat.le_refl _), Nat.sub_self, List.getElem?_cons_zero] at ho'
      obtain rfl := Option.some.inj ho'
      rw [List.take_of_length_le (by simp [hlen])]
      exact hfin
  · obtain ⟨h1, h2, h3⟩ := hleft r' hr'
    refine ⟨hev.trans h2, h3.trans (by rw [htok]), fun _ hst => ?_⟩
    rw [hfin.mpr hst] at h1
    exact Bool.noConfusion h1

/-- The number of outputs is bounded by the limits. -/
theorem Streamed.length_le (h : Streamed p r₀ outs ts left)
    (hprompt : r₀.promptTokenIds.length < p.kv.maxModelLen)
    (hmax : 1 ≤ r₀.samplingParams.maxTokens) :
    outs.length ≤ min r₀.samplingParams.maxTokens
      (p.kv.maxModelLen - r₀.promptTokenIds.length) := by
  rw [h.length]
  by_cases hlen : ts.length ≤ 1
  · omega
  · have hgo := h.going (ts.length - 1) (by omega) (by omega)
    unfold StopsAt at hgo
    rw [not_or, not_or, List.length_take] at hgo
    omega

end Streamed

/-! ## Runs -/

/-- An engine with what it has emitted: the requests as they were added, the `output_token_ids` of all
request objects, also of those that have left, the outputs in their order, and the ids of the requests
that were aborted, each with the number of outputs there were by then. -/
structure StreamRun (E : Type) where
  core : EngineCore E
  added : List Request
  outputTokenIds : Dict ReqId (List TokenId)
  emitted : List EngineCoreOutput
  aborted : List (ReqId × ℕ)

/-- The `output_token_ids` of a request object after its round of an update. -/
def Execution.tokensOf (p : SchedulerParams) (ex : Execution) (id : ReqId) :
    Option (List TokenId) :=
  match ex.scheduled.requests.get? id with
  | none => none
  | some request =>
    match updatedRequest p ex.out ex.output id request with
    | .ok request => some request.outputTokenIds
    | .error _ => none

/-- The `output_token_ids` of all request objects after an update. -/
def Execution.outputTokenIds (p : SchedulerParams) (ex : Execution)
    (before : Dict ReqId (List TokenId)) : Dict ReqId (List TokenId) :=
  ex.scheduled.running.foldl (fun d id => (ex.tokensOf p id).elim d (d.set id)) before

/-- The outputs of an execution. -/
def executedOutputs (exec : Option Execution) : List EngineCoreOutput :=
  exec.elim [] fun ex => ex.outputs

/-- The tokens of all request objects after a call. -/
def executedTokens (p : SchedulerParams) (exec : Option Execution)
    (before : Dict ReqId (List TokenId)) : Dict ReqId (List TokenId) :=
  exec.elim before fun ex => ex.outputTokenIds p before

namespace StreamRun

variable {E V O : Type} (p : SchedulerParams) (x : Executor E V O)

/-- A new engine. -/
def init (executor : E) : StreamRun E := ⟨.init p executor, [], .empty, [], []⟩

/-- The ids of the requests that were added. -/
def ids (σ : StreamRun E) : List ReqId := σ.added.map (·.requestId)

/-- One event. -/
def step (σ : StreamRun E) : EngineEvent V O → Except Exn (StreamRun E)
  | .advance polled outcome => do
    let (_, exec, c) ← σ.core.call p x polled outcome
    .ok { σ with
      core := c
      outputTokenIds := executedTokens p exec σ.outputTokenIds
      emitted := σ.emitted ++ executedOutputs exec }
  | .addRequest request => do
    let (_, c) ← σ.core.next p x (.addRequest request)
    .ok { σ with
      core := c
      added := σ.added ++ [request]
      outputTokenIds := σ.outputTokenIds.set request.requestId request.outputTokenIds }
  | .abortRequests requestIds => do
    let (_, c) ← σ.core.next p x (.abortRequests requestIds)
    .ok { σ with
      core := c
      aborted := σ.aborted ++
        (requestIds.filter fun id => decide (id ∈ σ.ids)).map fun id => (id, σ.emitted.length) }
  | e => do
    let (_, c) ← σ.core.next p x e
    .ok { σ with core := c }

end StreamRun

/-! ## One call -/

section Call

variable {E V O : Type} {p : SchedulerParams} {x : Executor E V O}

/-- The last value that a loop over keys writes. -/
theorem get?_foldl_set {α : Type} (g : ReqId → Option α) (id : ReqId) : ∀ (l : List ReqId)
    (d : Dict ReqId α), (l.foldl (fun d k => (g k).elim d (d.set k)) d).get? id =
      if id ∈ l ∧ (g id).isSome = true then g id else d.get? id
  | [], d => by simp
  | k :: l, d => by
    rw [List.foldl_cons, get?_foldl_set g id l]
    by_cases hl : id ∈ l ∧ (g id).isSome = true
    · rw [if_pos hl, if_pos ⟨List.mem_cons_of_mem _ hl.1, hl.2⟩]
    · rw [if_neg hl]
      cases hk : g k with
      | none =>
        rw [Option.elim_none, if_neg]
        rintro ⟨hm, hsome⟩
        obtain rfl | hm := List.mem_cons.mp hm
        · rw [hk] at hsome
          cases hsome
        · exact hl ⟨hm, hsome⟩
      | some v =>
        rw [Option.elim_some, Dict.get?_set]
        split_ifs with h1 h2 h2
        · rw [h1, hk]
        · exact absurd ⟨by rw [h1]; exact List.mem_cons_self, by rw [h1, hk]; rfl⟩ h2
        · exact absurd ⟨(List.mem_cons.mp h2.1).resolve_left h1, h2.2⟩ hl
        · rfl

variable (p) in
/-- What a call of `schedule` and what follows it mean for one request: what was and is there of it in
the scheduler, the outputs, and the tokens of its object before and after. -/
inductive CallEffect (before after : Option Request) :
    List EngineCoreOutput → Option (List TokenId) → Option (List TokenId) → Prop
  | silent {ts ts' : Option (List TokenId)} :
      (ts' = ts ∨ ∃ r, before = some r ∧ ts' = some r.outputTokenIds) →
      (∀ r', after = some r' → ∃ r, before = some r ∧ Evolved r r' ∧
        r'.outputTokenIds = r.outputTokenIds) → CallEffect before after [] ts ts'
  | token {ts : Option (List TokenId)} {r : Request} {o : EngineCoreOutput} {t : TokenId} :
      before = some r → o.newTokenIds = [t] →
      (o.finished = true ↔ StopsAt p r (r.outputTokenIds ++ [t])) →
      (∀ r', after = some r' → o.finished = false ∧ Evolved r r' ∧
        r'.outputTokenIds = r.outputTokenIds ++ [t]) →
      CallEffect before after [o] ts (some (r.outputTokenIds ++ [t]))

theorem Streamed.call {r₀ : Request} {outs new : List EngineCoreOutput} {ts : List TokenId}
    {ts' : Option (List TokenId)} {before after : Option Request}
    (h : Streamed p r₀ outs ts before) (he : CallEffect p before after new (some ts) ts') :
    ∃ ts₁, ts' = some ts₁ ∧ Streamed p r₀ (outs ++ new) ts₁ after := by
  cases he with
  | silent hts hleft =>
    refine ⟨ts, ?_, by rw [List.append_nil]; exact h.silent hleft⟩
    obtain rfl | ⟨r, hr, rfl⟩ := hts
    · rfl
    · rw [(h.live r hr).2.1]
  | token hr ho hfin hleft =>
    subst hr
    refine ⟨_, rfl, ?_⟩
    rw [(h.live _ rfl).2.1]
    exact h.token ho hfin hleft

/-- **What a call means for each request.** -/
theorem call_effect {c c' : EngineCore E} (hs : Sound p c.scheduler)
    {polled : Option (EncoderResult V)} {outcome : O} {progress : Progress} {exec : Option Execution}
    (h : c.call p x polled outcome = .ok (progress, exec, c')) (tokens : Dict ReqId (List TokenId)) :
    Sound p c'.scheduler ∧ ∀ id, CallEffect p (c.scheduler.requests.get? id)
      (c'.scheduler.requests.get? id) (outputsOf id (executedOutputs exec)) (tokens.get? id)
      ((executedTokens p exec tokens).get? id) := by
  obtain ⟨-, rfl, rfl, -⟩ | ⟨out, s, executor, hsched, -, hcase⟩ := EngineCore.call_eq_ok h
  · exact ⟨hs, fun id => .silent (Or.inl rfl) fun r hr => ⟨r, hr, Evolved.refl r, rfl⟩⟩
  have hres : ∀ id r', s.requests.get? id = some r' → ∃ r, c.scheduler.requests.get? id = some r ∧
      Evolved r r' ∧ r'.outputTokenIds = r.outputTokenIds := by
    intro id r' hr'
    obtain ⟨r, hr, he⟩ := (hs.blocks.schedule hs.wf hsched).2 id r' hr'
    exact ⟨r, hr, he.evolved, by rw [he.eq]⟩
  obtain ⟨-, -, rfl, rfl⟩ | ⟨-, -, output, executor', outputs, s', -, hup, rfl, rfl⟩ := hcase
  · exact ⟨hs.schedule hsched, fun id => .silent (Or.inl rfl) (hres id)⟩
  refine ⟨hs.update hsched hup, fun id => ?_⟩
  have hw := schedule_wf hs.wf hsched
  have htok : (executedTokens p (some ⟨out, s, output, outputs⟩) tokens).get? id = _ :=
    get?_foldl_set (Execution.tokensOf p ⟨out, s, output, outputs⟩) id s.running tokens
  rw [htok]
  obtain ⟨hrun, hsame, hnone⟩ | ⟨hrun, r₁, r', hr₁, hupd, hsam, hem⟩ :=
    updateFromOutput_emits hw hup id
  · change CallEffect p _ (s'.requests.get? id) (outputsOf id outputs) _ _
    rw [hsame, hnone, if_neg (fun hc => hrun hc.1)]
    exact .silent (Or.inl rfl) (hres id)
  · obtain ⟨r, hr, hev, hsame⟩ := hres id r₁ hr₁
    have htokens : Execution.tokensOf p ⟨out, s, output, outputs⟩ id = some r'.outputTokenIds := by
      simp only [Execution.tokensOf, hr₁, hupd]
    rw [htokens, if_pos ⟨hrun, rfl⟩]
    change CallEffect p _ (s'.requests.get? id) (outputsOf id outputs) _ _
    generalize s'.requests.get? id = after, outputsOf id outputs = new at hem
    cases hem with
    | silent htok =>
      refine .silent (Or.inr ⟨r, hr, by rw [htok, hsame]⟩) fun r₂ hr₂ => ?_
      obtain rfl := Option.some.inj hr₂
      exact ⟨r, hr, hev.trans hsam.evolved, htok.trans hsame⟩
    | token t o stopped _ ho htok hstop hfin =>
      have hlive : r₁.status.isFinished = false := by
        rw [hw.running id r₁ hrun hr₁]
        rfl
      rw [hsame, hev.stopsAt, ← hfin hlive] at hstop
      rw [htok, hsame]
      refine .token hr ho hstop fun r₂ hr₂ => ?_
      rw [← hfin hlive] at hr₂
      split_ifs at hr₂ with hf
      obtain rfl := Option.some.inj hr₂
      exact ⟨Bool.eq_false_iff.mpr hf, hev.trans hsam.evolved, by rw [htok, hsame]⟩

theorem CallEffect.isSome {before after : Option Request} {new : List EngineCoreOutput}
    {ts ts' : Option (List TokenId)} (h : CallEffect p before after new ts ts')
    (hne : after.isSome = true ∨ new ≠ []) : before.isSome = true := by
  cases h with
  | silent _ hleft =>
    obtain ⟨r', hr'⟩ := Option.isSome_iff_exists.mp (hne.resolve_right fun hc => hc rfl)
    obtain ⟨r, hr, -⟩ := hleft r' hr'
    rw [hr]
    rfl
  | token hr =>
    rw [hr]
    rfl

/-- A call only drops requests, and emits outputs for requests that were there. -/
theorem call_keys {c c' : EngineCore E} (hs : Sound p c.scheduler)
    {polled : Option (EncoderResult V)} {outcome : O} {progress : Progress} {exec : Option Execution}
    (h : c.call p x polled outcome = .ok (progress, exec, c')) :
    (∀ id ∈ c'.scheduler.requests.keys, id ∈ c.scheduler.requests.keys) ∧
      ∀ o ∈ executedOutputs exec, o.requestId ∈ c.scheduler.requests.keys := by
  obtain ⟨-, heff⟩ := call_effect hs h .empty
  refine ⟨fun id hid => ?_, fun o ho => ?_⟩
  · rw [Dict.mem_keys] at hid ⊢
    exact (heff id).isSome (Or.inl hid)
  · rw [Dict.mem_keys]
    exact (heff o.requestId).isSome (Or.inr fun hc => outputsOf_eq_nil.mp hc o ho rfl)

end Call

namespace StreamRun

variable {E V O : Type} (p : SchedulerParams) {x : Executor E V O}

/-- The stream of every request that was added, in every state of a run. -/
structure StreamInv (σ : StreamRun E) : Prop where
  sound : Sound p σ.core.scheduler
  nodup : σ.ids.Nodup
  known : ∀ id ∈ σ.core.scheduler.requests.keys, id ∈ σ.ids
  emitted : ∀ o ∈ σ.emitted, o.requestId ∈ σ.ids
  streams : ∀ r ∈ σ.added, ∃ ts, σ.outputTokenIds.get? r.requestId = some ts ∧
    Streamed p r (outputsOf r.requestId σ.emitted) ts (σ.core.scheduler.requests.get? r.requestId)
  aborted : ∀ y ∈ σ.aborted, y.1 ∈ σ.ids ∧ y.1 ∉ σ.core.scheduler.requests.keys ∧
    y.2 ≤ σ.emitted.length ∧ outputsOf y.1 (σ.emitted.drop y.2) = []

variable {p} {σ σ' : StreamRun E}

theorem StreamInv.init (executor : E) : StreamInv p (init p executor) where
  sound := Sound.init p
  nodup := List.nodup_nil
  known id hid := by cases hid
  emitted o ho := by cases ho
  streams r hr := by cases hr
  aborted y hy := by cases hy

theorem StreamInv.addRequest (h : StreamInv p σ) {r : Request} (hnew : r.IsNew)
    (hid : r.requestId ∉ σ.ids) : StreamInv p { σ with
      core := { σ.core with scheduler := σ.core.scheduler.addRequest r }
      added := σ.added ++ [r]
      outputTokenIds := σ.outputTokenIds.set r.requestId r.outputTokenIds } := by
  have hkey : r.requestId ∉ σ.core.scheduler.requests.keys := fun hk => hid (h.known _ hk)
  have hids : ∀ id, id ∈ (σ.added ++ [r]).map (·.requestId) ↔ id ∈ σ.ids ∨ id = r.requestId := by
    intro id
    rw [List.map_append, List.mem_append, List.map_singleton, List.mem_singleton]
    rfl
  have hkeys : ∀ id, id ∈ (σ.core.scheduler.addRequest r).requests.keys ↔
      id = r.requestId ∨ id ∈ σ.core.scheduler.requests.keys := fun id => Dict.mem_keys_set _ _ _ _
  refine ⟨h.sound.addRequest hnew hkey, ?_, fun id hk => ?_, fun o ho => ?_, fun r' hr' => ?_,
    fun y hy => ?_⟩
  · change ((σ.added ++ [r]).map (·.requestId)).Nodup
    rw [List.map_append, List.map_singleton, ← List.concat_eq_append]
    exact h.nodup.concat hid
  · obtain rfl | hk := (hkeys id).mp hk
    · exact (hids _).mpr (Or.inr rfl)
    · exact (hids _).mpr (Or.inl (h.known id hk))
  · exact (hids _).mpr (Or.inl (h.emitted o ho))
  · obtain hr' | hr' := List.mem_append.mp hr'
    · have hne : r'.requestId ≠ r.requestId := fun he =>
        hid (he ▸ List.mem_map_of_mem hr')
      obtain ⟨ts, hts, hst⟩ := h.streams r' hr'
      refine ⟨ts, ?_, ?_⟩
      · rw [Dict.get?_set_ne _ hne]
        exact hts
      · change Streamed p r' _ ts ((σ.core.scheduler.requests.set r.requestId r).get? _)
        rw [Dict.get?_set_ne _ hne]
        exact hst
    · obtain rfl := List.mem_singleton.mp hr'
      have hnone : outputsOf r'.requestId σ.emitted = [] := by
        rw [outputsOf_eq_nil]
        exact fun o ho he => hid (he ▸ h.emitted o ho)
      refine ⟨r'.outputTokenIds, Dict.get?_set_self _ _ _, ?_⟩
      change Streamed p r' (outputsOf r'.requestId σ.emitted) _
        ((σ.core.scheduler.requests.set r'.requestId r').get? _)
      rw [hnone, Dict.get?_set_self, hnew.2.2.1]
      refine ⟨rfl, fun n hn hlt => absurd hlt (Nat.not_lt_zero _), fun i o ho => (by cases ho),
        fun r₁ hr₁ => ?_⟩
      obtain rfl := Option.some.inj hr₁
      exact ⟨Evolved.refl _, hnew.2.2.1, fun hc => absurd hc (Nat.lt_irrefl _)⟩
  · obtain ⟨h1, h2, h3⟩ := h.aborted y hy
    refine ⟨(hids _).mpr (Or.inl h1), fun hk => ?_, h3⟩
    obtain he | hk := (hkeys _).mp hk
    · exact hid (he ▸ h1)
    · exact h2 hk

/-- Requests only leave. -/
theorem StreamInv.leave (h : StreamInv p σ) {c : EngineCore E} {ids : List ReqId}
    (hs : Sound p c.scheduler) (hget : ∀ id, c.scheduler.requests.get? id =
      if id ∈ ids then none else σ.core.scheduler.requests.get? id) :
    StreamInv p { σ with
      core := c
      aborted := σ.aborted ++
        (ids.filter fun id => decide (id ∈ σ.ids)).map fun id => (id, σ.emitted.length) } := by
  have hkeys : ∀ id ∈ c.scheduler.requests.keys,
      id ∉ ids ∧ id ∈ σ.core.scheduler.requests.keys := by
    intro id hid
    rw [Dict.mem_keys, hget] at hid
    split_ifs at hid with hin
    · cases hid
    · exact ⟨hin, (Dict.mem_keys _ _).mpr hid⟩
  refine ⟨hs, h.nodup, fun id hid => h.known id (hkeys id hid).2, h.emitted, fun r hr => ?_,
    fun y hy => ?_⟩
  · obtain ⟨ts, hts, hst⟩ := h.streams r hr
    refine ⟨ts, hts, hst.silent fun r' hr' => ⟨r', ?_, Evolved.refl r', rfl⟩⟩
    rw [hget] at hr'
    split_ifs at hr'
    exact hr'
  · obtain hy | hy := List.mem_append.mp hy
    · obtain ⟨h1, h2, h3⟩ := h.aborted y hy
      exact ⟨h1, fun hk => h2 (hkeys _ hk).2, h3⟩
    · obtain ⟨id, hid, rfl⟩ := List.mem_map.mp hy
      obtain ⟨hin, hadd⟩ := List.mem_filter.mp hid
      refine ⟨of_decide_eq_true hadd, fun hk => (hkeys id hk).1 hin, Nat.le_refl _, ?_⟩
      rw [List.drop_length]
      rfl

/-- A call of `schedule` and what follows it. -/
theorem StreamInv.call (h : StreamInv p σ) {polled : Option (EncoderResult V)} {outcome : O}
    {progress : Progress} {exec : Option Execution} {c : EngineCore E}
    (hs : σ.core.call p x polled outcome = .ok (progress, exec, c)) :
    StreamInv p { σ with
      core := c
      outputTokenIds := executedTokens p exec σ.outputTokenIds
      emitted := σ.emitted ++ executedOutputs exec } := by
  obtain ⟨hsound, heff⟩ := call_effect h.sound hs σ.outputTokenIds
  obtain ⟨hkeys, houts⟩ := call_keys h.sound hs
  refine ⟨hsound, h.nodup, fun id hid => ?_, fun o ho => ?_, fun r hr => ?_, fun y hy => ?_⟩
  · exact h.known id (hkeys id hid)
  · obtain ho | ho := List.mem_append.mp ho
    · exact h.emitted o ho
    · exact h.known _ (houts o ho)
  · obtain ⟨ts, hts, hst⟩ := h.streams r hr
    have he := heff r.requestId
    rw [hts] at he
    obtain ⟨ts₁, hts₁, hst₁⟩ := hst.call he
    refine ⟨ts₁, hts₁, ?_⟩
    rw [outputsOf_append]
    exact hst₁
  · obtain ⟨h1, h2, h3, h4⟩ := h.aborted y hy
    have hnone : outputsOf y.1 (executedOutputs exec) = [] :=
      outputsOf_eq_nil.mpr fun o ho he => h2 (he ▸ houts o ho)
    refine ⟨h1, fun hk => h2 (hkeys _ hk), ?_, ?_⟩
    · rw [List.length_append]
      omega
    · rw [List.drop_append_of_le_length h3, outputsOf_append, h4, hnone]
      rfl

/-- **Every event keeps the streams.** -/
theorem StreamInv.step (h : StreamInv p σ) {e : EngineEvent V O} (hu : UniqueIds σ.ids e)
    (hs : step p x σ e = .ok σ') : StreamInv p σ' := by
  have hsame : ∀ c : EngineCore E, c.scheduler = σ.core.scheduler →
      StreamInv p { σ with core := c } := by
    intro c hc
    refine ⟨hc ▸ h.sound, h.nodup, fun id hid => h.known id (hc ▸ hid), h.emitted, fun r hr => ?_,
      fun y hy => ?_⟩
    · rw [hc]
      exact h.streams r hr
    · rw [hc]
      exact h.aborted y hy
  cases e with
  | addRequest r =>
    cases hs
    exact h.addRequest hu.1 hu.2
  | abortRequests ids =>
    simp only [StreamRun.step, EngineCore.next, bind_eq_ok] at hs
    obtain ⟨⟨progress, c⟩, ⟨s, hfin, hc⟩, hs⟩ := hs
    cases hc
    cases hs
    exact h.leave (h.sound.finishRequests hfin) (finishRequests_get? h.sound.wf hfin)
  | resetPrefixCache =>
    cases hs
    exact ⟨h.sound.resetPrefixCache, h.nodup, h.known, h.emitted, h.streams, h.aborted⟩
  | encoderResult res =>
    simp only [StreamRun.step, EngineCore.next, bind_eq_ok] at hs
    obtain ⟨⟨progress, c⟩, ⟨executor, -, hc⟩, hs⟩ := hs
    cases hc
    cases hs
    exact hsame _ rfl
  | advance polled outcome =>
    simp only [StreamRun.step, bind_eq_ok] at hs
    obtain ⟨⟨progress, exec, c⟩, hcall, hs⟩ := hs
    cases hs
    exact h.call hcall

/-! ## The contract -/

variable (p) in
/-- The tokens up to here are the first at which a stop condition holds. -/
def FirstStop (r : Request) (tokens : List TokenId) : Prop :=
  StopsAt p r tokens ∧ ∀ n, 0 < n → n < tokens.length → ¬ StopsAt p r (tokens.take n)

variable (p) in
/-- What an engine has emitted for a request that was added as `r`: one new token each, together the
tokens of the request; not more than the limits allow; a finished output exactly at the first token at
which the request stops, and nothing after it or after an abort. -/
structure OutputStream (σ : StreamRun E) (r : Request) (outs : List EngineCoreOutput) : Prop where
  one : ∀ o ∈ outs, o.newTokenIds.length = 1
  tokens : σ.outputTokenIds.get? r.requestId = some (outs.flatMap (·.newTokenIds))
  live : ∀ r', σ.core.scheduler.requests.get? r.requestId = some r' →
    r'.outputTokenIds = outs.flatMap (·.newTokenIds)
  count : outs.length ≤ min r.samplingParams.maxTokens
    (p.kv.maxModelLen - r.promptTokenIds.length)
  finished : ∀ i o, outs[i]? = some o →
    (o.finished = true ↔ FirstStop p r ((outs.take (i + 1)).flatMap (·.newTokenIds)))
  last : ∀ i o, outs[i]? = some o → o.finished = true → i + 1 = outs.length
  aborted : ∀ n, (r.requestId, n) ∈ σ.aborted → outputsOf r.requestId (σ.emitted.drop n) = []

variable (p x) in
/-- The runs of an engine with requests that have fresh ids. -/
def FreshStreamRun (executor : E) : StreamRun E → Prop :=
  Reachable (fun σ e => step p x σ e) (fun σ (e : EngineEvent V O) => UniqueIds σ.ids e)
    (init p executor)

/-- **The output stream of every request**, in every state of every run. -/
theorem output_stream {executor : E} (h : FreshStreamRun p x executor σ) {r : Request}
    (hr : r ∈ σ.added) (hprompt : r.promptTokenIds.length < p.kv.maxModelLen)
    (hmax : 1 ≤ r.samplingParams.maxTokens) :
    OutputStream p σ r (outputsOf r.requestId σ.emitted) := by
  have hinv : StreamInv p σ :=
    h.invariant (P := fun σ : StreamRun E => StreamInv p σ) (StreamInv.init executor)
      fun _ _ _ hσ hu hs => hσ.step hu hs
  obtain ⟨ts, hts, hst⟩ := hinv.streams r hr
  have hall : (outputsOf r.requestId σ.emitted).flatMap (·.newTokenIds) = ts := by
    have := hst.flatMap_take (outputsOf r.requestId σ.emitted).length
    rwa [List.take_length, hst.length, List.take_length] at this
  have hlt : ∀ i o, (outputsOf r.requestId σ.emitted)[i]? = some o → i < ts.length := by
    intro i o ho
    rw [← hst.length]
    exact (List.getElem?_eq_some_iff.mp ho).1
  refine ⟨fun o ho => ?_, ?_, fun r' hr' => ?_, hst.length_le hprompt hmax, fun i o ho => ?_,
    fun i o ho hfin => ?_, fun n hn => (hinv.aborted _ hn).2.2.2⟩
  · have hmem : o.newTokenIds ∈ ts.map fun t => [t] := hst.tokens ▸ List.mem_map_of_mem ho
    obtain ⟨t, -, ht⟩ := List.mem_map.mp hmem
    rw [← ht]
    rfl
  · rw [hall]
    exact hts
  · rw [hall]
    exact (hst.live r' hr').2.1
  · rw [hst.flatMap_take, hst.finished i o ho]
    refine ⟨fun hstop => ⟨hstop, fun n hn hlen => ?_⟩, fun hfirst => hfirst.1⟩
    rw [List.length_take] at hlen
    rw [List.take_take, Nat.min_eq_left (by omega)]
    exact hst.going n hn (by omega)
  · have hstop := (hst.finished i o ho).mp hfin
    have := hlt i o ho
    rw [hst.length]
    by_contra hne
    exact hst.going (i + 1) (Nat.succ_pos i) (by omega) hstop

open SchedulerRun (smallParams)

/-- There is no room for both requests: the second is preempted after its first token, and is computed
again when the first has finished. -/
def recomputedRun : List (EngineEvent (List ℕ) (List TokenId)) :=
  [.addRequest (.ofPrompt "a" [1, 2, 3] []), .advance none [7],
    .addRequest (.ofPrompt "b" [4, 5, 6, 8] []), .advance none [8, 9], .advance none [10, 11],
    .advance none [12], .advance none [14]]

theorem output_stream_recomputed : ∃ σ : StreamRun (GPUModelRunner (List ℕ)),
    FreshStreamRun smallParams (uniProcExecutor ℕ smallParams.maxNumRunningReqs)
      (.init smallParams.maxNumRunningReqs) σ ∧
    (outputsOf "a" σ.emitted).flatMap (·.newTokenIds) = [7, 8, 10, 12] ∧
    (outputsOf "b" σ.emitted).flatMap (·.newTokenIds) = [11, 14] ∧
    OutputStream smallParams σ (.ofPrompt "b" [4, 5, 6, 8] []) (outputsOf "b" σ.emitted) := by
  obtain ⟨σ, hσ, ha, hb, hr⟩ := exists_reachable
    (fun σ e => step smallParams (uniProcExecutor ℕ smallParams.maxNumRunningReqs) σ e)
    (fun σ e => UniqueIds σ.ids e) (init smallParams (.init smallParams.maxNumRunningReqs))
    recomputedRun (fun σ => (outputsOf "a" σ.emitted).flatMap (·.newTokenIds) = [7, 8, 10, 12] ∧
      (outputsOf "b" σ.emitted).flatMap (·.newTokenIds) = [11, 14] ∧
      Request.ofPrompt "b" [4, 5, 6, 8] [] ∈ σ.added) (by decide +kernel)
  exact ⟨σ, hσ, ha, hb, output_stream hσ hr (by decide) (by decide)⟩

end StreamRun

end SpaceServe
