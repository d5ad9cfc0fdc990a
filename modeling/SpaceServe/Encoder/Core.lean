import SpaceServe.Encoder.Scheduler
import SpaceServe.Worker.ExecuteEncoder

/-!
# The encoder process

`EncoderCore` of `vllm/v1/engine/core.py`: the encoder scheduler, one worker, and the queue of
results that the engine reads. The input mapper, which only completes the requests' inputs, is left
out, and so are the statistics.

A step takes the first waiting request or leaves the scheduler as it is, so a request at the head
that cannot be taken stops all those behind it for good: `running` never shrinks, and the head stays.

* `EncoderCore.step`, `executeVisionEncoder`;
* `EncoderCore.Inv`, **`step_cases`**: what a step does, in every state of a run;
* `SchedulesFirst`, `Unblocked`;
* **`schedules_first_iff`**: when a waiting request gets its turn.
-/

set_option autoImplicit false

namespace SpaceServe

open Py

namespace GPUModelRunner

variable {V : Type} (w : GPUModelRunner V)

/-- `execute_vision_encoder` of the worker. -/
def executeVisionEncoder (embed : List MultiModalKwargs → List V) (out : EncoderSchedulerOutput) :
    Except Exn (Option (Dict ReqId (Dict ℕ V)) × GPUModelRunner V) := do
  let w := w.updateForEncoder out.scheduledNewReqs
  let encoderCache ← w.executeEncoder embed out.scheduledEncoderInputs
  .ok (if out.scheduledNewReqs = [] then none else encoderCache, w)

variable {w}

/-- Known inputs are encoded if `self.encoder_cache` is empty, whatever the encoder returns. -/
theorem executeEncoder_total (embed : List MultiModalKwargs → List V)
    {scheduled : Dict ReqId (List ℕ)} (hknown : w.Known scheduled)
    (hempty : w.encoderCache.keys = []) : ∃ res, w.executeEncoder embed scheduled = .ok res := by
  unfold executeEncoder
  split_ifs with hne
  · exact ⟨none, rfl⟩
  obtain ⟨batched, hb⟩ := mapM_total (f := w.batchRequest) (l := scheduled.entries) (by
    rintro ⟨id, ids⟩ hx
    obtain ⟨h1, h2⟩ := hknown id ids ((scheduled.mem_entries id ids).mp hx)
    exact ⟨_, batchRequest_eq h1 h2⟩)
  rw [hb, ok_bind]
  simp only
  rw [foldlM_cacheOutput (fun x _ => by rw [hempty]; exact List.not_mem_nil), ok_bind]
  exact ⟨_, rfl⟩

end GPUModelRunner

/-- `EncoderCore`. -/
structure EncoderCore (V : Type) where
  scheduler : EncoderScheduler
  runner : GPUModelRunner V
  encoderResultQueue : List (List (Option (Dict ReqId (Dict ℕ V))))

namespace EncoderCore

open EncoderScheduler

section

variable {V : Type} (p : EncoderSchedulerParams) (embed : List MultiModalKwargs → List V)
  (c : EncoderCore V)

/-- `EncoderCore.__init__`. -/
def init : EncoderCore V where
  scheduler := .init p
  runner := .init p.maxNumRunningReqs
  encoderResultQueue := []

/-- `EncoderCore.add_request`. -/
def addRequest (request : Request) : EncoderCore V :=
  { c with scheduler := c.scheduler.addRequest request }

/-- `EncoderCore.step`, with the output of its call of `schedule`. -/
def step : Except Exn (EncoderSchedulerOutput × EncoderCore V) :=
  if c.scheduler.hasUnfinishedRequests = false then .ok (⟨[], .empty⟩, c)
  else do
    let (out, s) ← c.scheduler.schedule p
    if out.scheduledNewReqs = [] then .ok (out, { c with scheduler := s })
    else do
      let (output, runner) ← c.runner.executeVisionEncoder embed out
      .ok (out, { scheduler := s
                  runner := runner
                  encoderResultQueue := c.encoderResultQueue ++ [[output]] })

/-- `n` steps. -/
def steps : ℕ → EncoderCore V → Except Exn (EncoderCore V)
  | 0, c => .ok c
  | n + 1, c => do
    let (_, c) ← c.step p embed
    steps n c

/-- What can happen to the encoder process. -/
inductive Event
  | addRequest (request : Request)
  | step

/-- One event. -/
def next : Event → Except Exn (EncoderCore V)
  | .addRequest request => .ok (c.addRequest request)
  | .step => do
    let (_, c) ← c.step p embed
    .ok c

/-- The states of the encoder process. -/
def CoreReachable : EncoderCore V → Prop :=
  Reachable (fun c e => c.next p embed e) (fun _ _ => True) (init p)

/-- One of the next `len(waiting)` steps takes the request and schedules its first input. -/
def SchedulesFirst (r : Request) : Prop :=
  ∃ n < c.scheduler.waiting.length, ∃ c₁ out c₂, steps p embed n c = .ok c₁ ∧
    c₁.step p embed = .ok (out, c₂) ∧ c₁.scheduler.waiting = r :: c₂.scheduler.waiting ∧
    0 ∈ (out.scheduledEncoderInputs.get? r.requestId).getD []

/-- Nothing stands in the way of a waiting request: there is a budget, the first input of every
request before it fits, and `running` has room for all of them. -/
def Unblocked (r : Request) : Prop :=
  0 < p.maxNumEncoderInputTokens ∧ ∃ before after, c.scheduler.waiting = before ++ r :: after ∧
    (∀ q ∈ before, FirstFits p q) ∧
    c.scheduler.running.length + before.length < p.maxNumRunningReqs

/-- What holds in every state: `running` is within its limit, and the worker keeps no outputs. -/
structure Inv : Prop where
  running_le : c.scheduler.running.length ≤ p.maxNumRunningReqs
  empty : c.runner.encoderCache.keys = []

end

section

variable {V : Type} {p : EncoderSchedulerParams} {embed : List MultiModalKwargs → List V}
  {c : EncoderCore V}

/-- The worker knows the request that was just scheduled. -/
theorem known_fromRequest (w : GPUModelRunner V) {r : Request} {inputs : List ℕ}
    (h : ∀ i ∈ inputs, i < r.mmPositions.length) :
    (w.updateForEncoder [.fromRequest r]).Known (Dict.empty.set r.requestId inputs) := by
  intro id ids hs
  rw [Dict.get?_set] at hs
  split_ifs at hs with he
  · cases hs
    subst he
    have hget : ∃ state, (w.updateForEncoder [.fromRequest r]).requests.get? r.requestId =
        some state ∧ state.mmInputs = r.mmInputs :=
      ⟨_, Dict.get?_set_self _ _ _, rfl⟩
    obtain ⟨state, hstate, hmm⟩ := hget
    refine ⟨Dict.mem_keys_of_get? hstate, fun i hi => ?_⟩
    rw [GPUModelRunner.inputOf, hstate, Option.bind_some, hmm]
    have hlt := h i hi
    rw [← r.mmInputs_length] at hlt
    rw [List.getElem?_eq_getElem hlt]
    rfl
  · cases hs

variable (embed) in
/-- **What a step does**: it takes the first waiting request if it can, else it leaves the
scheduler as it is. -/
theorem step_cases (h : c.Inv p) : ∃ out c', c.step p embed = .ok (out, c') ∧ c'.Inv p ∧
    ((∃ r, c.scheduler.waiting = r :: c'.scheduler.waiting ∧ CanTake p c.scheduler r ∧
        c'.scheduler.running.length = c.scheduler.running.length + 1 ∧
        0 ∈ (out.scheduledEncoderInputs.get? r.requestId).getD []) ∨
      ((∀ r ∈ c.scheduler.waiting.head?, ¬ CanTake p c.scheduler r) ∧
        c'.scheduler = c.scheduler)) := by
  unfold step
  by_cases hun : c.scheduler.hasUnfinishedRequests = false
  · rw [if_pos hun]
    refine ⟨_, c, rfl, h, Or.inr ⟨fun r hr => ?_, rfl⟩⟩
    have hpos := List.length_pos_of_mem (List.mem_of_mem_head? hr)
    rw [hasUnfinishedRequests, decide_eq_false_iff_not] at hun
    omega
  rw [if_neg hun]
  obtain ⟨r, rest, ecm, hw, htake, -, hs⟩ | ⟨hno, hs⟩ := schedule_cases p c.scheduler
  · have hmem := mem_tryScheduleEncoderInputs r.mmPositions 0 p.maxNumEncoderInputTokens
    have hknown := known_fromRequest c.runner (r := r) (fun i hi => by
      obtain ⟨k, hk, rfl, -⟩ := (hmem i).mp hi
      omega)
    obtain ⟨res, hres⟩ := GPUModelRunner.executeEncoder_total embed hknown h.empty
    rw [hs, ok_bind]
    simp only [GPUModelRunner.executeVisionEncoder, hres, ok_bind, reduceCtorEq, if_false]
    refine ⟨_, _, rfl, ⟨?_, h.empty⟩, Or.inl ⟨r, hw, htake, by simp, ?_⟩⟩
    · have hne := htake.2.1
      have hle := h.running_le
      simp only [List.length_append, List.length_singleton]
      omega
    · obtain ⟨pos, hpos, hfit⟩ := htake.2.2
      rw [Dict.get?_set_self, Option.getD_some, hmem]
      cases hp : r.mmPositions with
      | nil => rw [hp] at hpos; cases hpos
      | cons pos' rest' =>
        rw [hp] at hpos
        cases hpos
        exact ⟨0, by simp, rfl, by simpa using hfit⟩
  · rw [hs, ok_bind]
    exact ⟨_, _, rfl, ⟨h.running_le, h.empty⟩, Or.inr ⟨hno, rfl⟩⟩

theorem CoreReachable.inv (h : CoreReachable p embed c) : c.Inv p := by
  refine Reachable.invariant (P := fun c => c.Inv p) ⟨Nat.zero_le _, rfl⟩ ?_ h
  intro c e c' hc _ hs
  cases e with
  | addRequest r =>
    cases hs
    exact ⟨hc.running_le, hc.empty⟩
  | step =>
    obtain ⟨out, c₁, h₁, hinv, -⟩ := step_cases embed hc
    rw [next, h₁, ok_bind] at hs
    cases hs
    exact hinv

variable (embed) in
/-- The requests before an unblocked one are taken one after the other. -/
theorem steps_before {after : List Request} (hb : 0 < p.maxNumEncoderInputTokens) :
    ∀ {before : List Request} {c : EncoderCore V}, c.Inv p →
      c.scheduler.waiting = before ++ after → (∀ q ∈ before, FirstFits p q) →
      c.scheduler.running.length + before.length ≤ p.maxNumRunningReqs →
      ∃ c₁, steps p embed before.length c = .ok c₁ ∧ c₁.Inv p ∧ c₁.scheduler.waiting = after ∧
        c₁.scheduler.running.length = c.scheduler.running.length + before.length
  | [], c, hc, hw, _, _ => ⟨c, rfl, hc, hw, rfl⟩
  | q :: before, c, hc, hw, hfit, hroom => by
    rw [List.length_cons] at hroom
    obtain ⟨out, c', hs, hc', ⟨r, hr, -, hrun, -⟩ | ⟨hno, -⟩⟩ := step_cases embed hc
    · rw [hw, List.cons_append, List.cons.injEq] at hr
      obtain ⟨c₁, h₁, hinv, hw₁, hrun₁⟩ := steps_before hb hc' hr.2.symm
        (fun x hx => hfit x (List.mem_cons_of_mem _ hx)) (by omega)
      refine ⟨c₁, ?_, hinv, hw₁, by rw [List.length_cons]; omega⟩
      rw [List.length_cons, steps, hs, ok_bind]
      exact h₁
    · refine absurd ?_ (hno q (by rw [hw]; rfl))
      exact ⟨hb, by omega, hfit q List.mem_cons_self⟩

/-- If after some steps a request can be taken, all those before it had been taken. -/
theorem before_of_steps : ∀ {n : ℕ} {c c₁ : EncoderCore V}, c.Inv p →
    steps p embed n c = .ok c₁ → c₁.Inv p ∧ ∃ before,
      c.scheduler.waiting = before ++ c₁.scheduler.waiting ∧ (∀ q ∈ before, FirstFits p q) ∧
      c₁.scheduler.running.length = c.scheduler.running.length + before.length
  | 0, c, c₁, hc, h => by
    cases h
    exact ⟨hc, [], rfl, fun q hq => (List.not_mem_nil hq).elim, rfl⟩
  | n + 1, c, c₁, hc, h => by
    obtain ⟨out, c', hs, hc', hcase⟩ := step_cases embed hc
    rw [steps, hs, ok_bind] at h
    obtain ⟨hinv, before, hw, hfit, hrun⟩ := before_of_steps hc' h
    obtain ⟨r, hr, htake, hlen, -⟩ | ⟨-, hsame⟩ := hcase
    · refine ⟨hinv, r :: before, by rw [hr, hw]; rfl, ?_, by rw [List.length_cons]; omega⟩
      intro q hq
      obtain rfl | hq := List.mem_cons.mp hq
      · exact htake.2.2
      · exact hfit q hq
    · rw [hsame] at hw hrun
      exact ⟨hinv, before, hw, hfit, hrun⟩

/-- **When a waiting request gets its turn**: exactly if nothing stands in its way. -/
theorem schedules_first_iff (h : CoreReachable p embed c) {r : Request} (hmm : r.mmPositions ≠ [])
    (hfit : ∀ pos ∈ r.mmPositions, pos.length ≤ p.maxNumEncoderInputTokens) :
    c.SchedulesFirst p embed r ↔ c.Unblocked p r := by
  have hinv := h.inv
  constructor
  · rintro ⟨n, -, c₁, out, c₂, hn, hs, hw, -⟩
    obtain ⟨hinv₁, before, hb, hfits, hrun⟩ := before_of_steps hinv hn
    obtain ⟨out', c', hs', -, hcase⟩ := step_cases embed hinv₁
    rw [hs] at hs'
    cases hs'
    obtain ⟨r', hr', htake, -⟩ | ⟨-, hsame⟩ := hcase
    · refine ⟨htake.1, before, c₂.scheduler.waiting, by rw [hb, hw], hfits, ?_⟩
      have h1 := htake.2.1
      have h2 := hinv₁.running_le
      omega
    · rw [hsame] at hw
      exact absurd hw.symm (List.cons_ne_self r _)
  · rintro ⟨hb, before, after, hw, hfits, hroom⟩
    obtain ⟨c₁, hn, hinv₁, hw₁, hrun₁⟩ := steps_before embed hb hinv hw hfits (by omega)
    have hfirst : FirstFits p r := by
      obtain ⟨pos, rest, hp⟩ := List.exists_cons_of_ne_nil hmm
      exact ⟨pos, by rw [hp]; rfl, hfit pos (by rw [hp]; exact List.mem_cons_self)⟩
    obtain ⟨out, c₂, hs, -, ⟨r', hr', -, -, hzero⟩ | ⟨hno, -⟩⟩ := step_cases embed hinv₁
    · rw [hw₁, List.cons.injEq] at hr'
      obtain ⟨rfl, hafter⟩ := hr'
      refine ⟨before.length, by rw [hw]; simp, c₁, out, c₂, hn, hs, by rw [hw₁, ← hafter], hzero⟩
    · refine absurd ?_ (hno r (by rw [hw₁]; rfl))
      exact ⟨hb, by omega, hfirst⟩

end

/-! ## A text-only request at the head -/

/-- A request with one image. -/
def oneImage : Request := .ofPrompt "b" [5, 5] [⟨0, 2⟩]

theorem schedules_first_alone :
    (addRequest (init fourTokens) oneImage : EncoderCore ℕ).SchedulesFirst fourTokens
      (List.map (·.ident)) oneImage := by
  have hreach : CoreReachable fourTokens (List.map (·.ident))
      (addRequest (init fourTokens) oneImage : EncoderCore ℕ) :=
    Reachable.start.next (e := .addRequest oneImage) trivial rfl
  exact (schedules_first_iff hreach (by decide) (by decide)).mpr
    ⟨by decide, [], [], rfl, fun q hq => (List.not_mem_nil hq).elim, by decide⟩

theorem text_only_head_wedges : ∃ c : EncoderCore ℕ,
    CoreReachable fourTokens (List.map (·.ident)) c ∧ oneImage ∈ c.scheduler.waiting ∧
      oneImage.mmPositions ≠ [] ∧
      (∀ pos ∈ oneImage.mmPositions, pos.length ≤ fourTokens.maxNumEncoderInputTokens) ∧
      ¬ c.SchedulesFirst fourTokens (List.map (·.ident)) oneImage := by
  have hreach : CoreReachable fourTokens (List.map (·.ident))
      (addRequest (addRequest (init fourTokens) (.ofPrompt "a" [1, 2] [])) oneImage :
        EncoderCore ℕ) :=
    (Reachable.start.next (e := .addRequest (.ofPrompt "a" [1, 2] [])) trivial rfl).next
      (e := .addRequest oneImage) trivial rfl
  refine ⟨_, hreach, by decide, by decide, by decide, ?_⟩
  rintro ⟨n, -, c₁, out, c₂, hn, hs, hw, -⟩
  -- nothing is ever taken from behind the text-only request
  obtain ⟨-, before, hb, hfits, -⟩ := before_of_steps hreach.inv hn
  rw [hw] at hb
  cases before with
  | nil => exact absurd (List.cons.inj hb).1 (by decide)
  | cons q before =>
    obtain ⟨pos, hpos, -⟩ := hfits q List.mem_cons_self
    rw [← (List.cons.inj hb).1] at hpos
    cases hpos

end EncoderCore

end SpaceServe
