import SpaceServe.Worker.Model

/-!
# The encoder scheduler

`EncoderScheduler` of `vllm/v1/core/encoder_scheduler.py`. A call of `schedule` looks at the first
waiting request only: it selects the inputs of the request that fit the whole budget, up to the
first that does not, and takes the request from `waiting` if there are any. The inputs it left out
are then out of reach.

`requests`, which only aborts read, is left out: aborts are not sent to the encoder process.

* `tryScheduleEncoderInputs`, `schedule`, `mem_tryScheduleEncoderInputs`: what is selected;
* `CanTake`, **`schedule_cases`**: what a call does;
* `calls`: the calls of a run; `Moves`, `Selects`: what they do to a request;
* **`drops_no_input_iff`**: when a run drops no input.
-/

set_option autoImplicit false

namespace SpaceServe

open Py

/-- The constants of an `EncoderScheduler`. -/
structure EncoderSchedulerParams where
  maxNumRunningReqs : ℕ
  maxNumEncoderInputTokens : ℕ
  encoderCacheSize : ℕ

/-- The state of an `EncoderScheduler`. -/
structure EncoderScheduler where
  waiting : List Request
  running : List Request
  encoderCacheManager : EncoderCacheManager

/-- The fields of the `SchedulerOutput` that the encoder scheduler fills in. -/
structure EncoderSchedulerOutput where
  scheduledNewReqs : List EncoderRequestData
  scheduledEncoderInputs : Dict ReqId (List ℕ)

namespace EncoderScheduler

variable (p : EncoderSchedulerParams) (s : EncoderScheduler)

/-- `EncoderScheduler.__init__`. -/
def init : EncoderScheduler where
  waiting := []
  running := []
  encoderCacheManager := .init p.encoderCacheSize

/-- The loop of `_try_schedule_encoder_inputs`, over the inputs from index `i` on. -/
def tryScheduleEncoderInputs : List PlaceholderRange → ℕ → ℕ → List ℕ
  | [], _, _ => []
  | pos :: rest, i, remainingBudget =>
    if pos.length ≤ remainingBudget then
      i :: tryScheduleEncoderInputs rest (i + 1) (remainingBudget - pos.length)
    else []

/-- `schedule`. The loop over `waiting` ends after its first round. -/
def schedule : Except Exn (EncoderSchedulerOutput × EncoderScheduler) :=
  match s.waiting with
  | [] => .ok (⟨[], .empty⟩, s)
  | request :: rest =>
    if p.maxNumEncoderInputTokens = 0 ∨ s.running.length = p.maxNumRunningReqs then
      .ok (⟨[], .empty⟩, s)
    else
      let inputs := tryScheduleEncoderInputs request.mmPositions 0 p.maxNumEncoderInputTokens
      if inputs = [] then .ok (⟨[], .empty⟩, s)
      else do
        let ecm ← inputs.foldlM (fun m i => m.allocate request i) s.encoderCacheManager
        .ok (⟨[.fromRequest request], Dict.empty.set request.requestId inputs⟩,
          { waiting := rest
            running := s.running ++ [{ request with status := .running }]
            encoderCacheManager := ecm })

/-- `add_request`. -/
def addRequest (request : Request) : EncoderScheduler :=
  { s with waiting := s.waiting ++ [request] }

/-- `has_unfinished_requests`. -/
def hasUnfinishedRequests : Bool := decide (0 < s.waiting.length + s.running.length)

/-! ## What a call selects -/

/-- The selected inputs are those that fit together with all inputs before them. -/
theorem mem_tryScheduleEncoderInputs : ∀ (poss : List PlaceholderRange) (i budget j : ℕ),
    j ∈ tryScheduleEncoderInputs poss i budget ↔ ∃ k < poss.length, j = i + k ∧
      ((poss.take (k + 1)).map fun pos => pos.length).sum ≤ budget
  | [], i, budget, j => by simp [tryScheduleEncoderInputs]
  | pos :: rest, i, budget, j => by
    rw [tryScheduleEncoderInputs]
    by_cases hfit : pos.length ≤ budget
    · rw [if_pos hfit, List.mem_cons, mem_tryScheduleEncoderInputs rest]
      constructor
      · rintro (rfl | ⟨k, hk, rfl, hsum⟩)
        · exact ⟨0, by simp, rfl, by simpa using hfit⟩
        · refine ⟨k + 1, by simpa using hk, by omega, ?_⟩
          rw [List.take_succ_cons, List.map_cons, List.sum_cons]
          omega
      · rintro ⟨k, hk, rfl, hsum⟩
        cases k with
        | zero => exact Or.inl rfl
        | succ k =>
          rw [List.take_succ_cons, List.map_cons, List.sum_cons] at hsum
          exact Or.inr ⟨k, by simpa using hk, by omega, by omega⟩
    · rw [if_neg hfit]
      constructor
      · intro h; cases h
      · rintro ⟨k, -, -, hsum⟩
        rw [List.take_succ_cons, List.map_cons, List.sum_cons] at hsum
        omega

/-- The first input of a request fits the budget. -/
def FirstFits (r : Request) : Prop :=
  ∃ pos ∈ r.mmPositions.head?, pos.length ≤ p.maxNumEncoderInputTokens

/-- `schedule` can take the request from the head of `waiting`. -/
def CanTake (r : Request) : Prop :=
  0 < p.maxNumEncoderInputTokens ∧ s.running.length ≠ p.maxNumRunningReqs ∧ FirstFits p r

variable {p s}

theorem tryScheduleEncoderInputs_ne_nil {r : Request} :
    tryScheduleEncoderInputs r.mmPositions 0 p.maxNumEncoderInputTokens ≠ [] ↔ FirstFits p r := by
  unfold FirstFits
  cases h : r.mmPositions with
  | nil => simp [tryScheduleEncoderInputs]
  | cons pos rest =>
    rw [tryScheduleEncoderInputs]
    split_ifs with hfit <;> simp [hfit]

/-- **What a call does**: it takes the first waiting request if it can, else nothing. -/
theorem schedule_cases (p : EncoderSchedulerParams) (s : EncoderScheduler) :
    (∃ r rest ecm, s.waiting = r :: rest ∧ CanTake p s r ∧
      (tryScheduleEncoderInputs r.mmPositions 0 p.maxNumEncoderInputTokens).foldlM
        (fun m i => m.allocate r i) s.encoderCacheManager = .ok ecm ∧ s.schedule p =
      .ok (⟨[.fromRequest r], Dict.empty.set r.requestId
          (tryScheduleEncoderInputs r.mmPositions 0 p.maxNumEncoderInputTokens)⟩,
        { waiting := rest
          running := s.running ++ [{ r with status := .running }]
          encoderCacheManager := ecm })) ∨
    ((∀ r ∈ s.waiting.head?, ¬ CanTake p s r) ∧ s.schedule p = .ok (⟨[], .empty⟩, s)) := by
  unfold schedule
  cases hw : s.waiting with
  | nil => exact Or.inr ⟨fun r hr => (Option.some_ne_none r hr.symm).elim, rfl⟩
  | cons r rest =>
    simp only
    by_cases hroom : p.maxNumEncoderInputTokens = 0 ∨ s.running.length = p.maxNumRunningReqs
    · rw [if_pos hroom]
      refine Or.inr ⟨?_, rfl⟩
      rintro r' hr' ⟨h1, h2, -⟩
      obtain h | h := hroom
      · omega
      · exact h2 h
    rw [if_neg hroom]
    by_cases hfit : FirstFits p r
    · have hne := tryScheduleEncoderInputs_ne_nil.mpr hfit
      have hlt : ∀ i ∈ tryScheduleEncoderInputs r.mmPositions 0 p.maxNumEncoderInputTokens,
          ∃ pos, r.mmPositions[i]? = some pos := by
        intro i hi
        obtain ⟨k, hk, rfl, -⟩ := (mem_tryScheduleEncoderInputs _ _ _ _).mp hi
        exact ⟨_, List.getElem?_eq_getElem (by omega)⟩
      obtain ⟨ecm, hecm⟩ := EncoderCacheManager.foldlM_allocate_returns hlt s.encoderCacheManager
      rw [if_neg hne, hecm, ok_bind]
      exact Or.inl ⟨r, rest, ecm, rfl, ⟨by omega, fun e => hroom (Or.inr e), hfit⟩, hecm, rfl⟩
    · rw [if_pos (not_not.mp (mt tryScheduleEncoderInputs_ne_nil.mp hfit))]
      refine Or.inr ⟨?_, rfl⟩
      rintro r' hr' ⟨-, -, h⟩
      cases hr'
      exact hfit h

end EncoderScheduler

/-! ## Runs -/

/-- What can be called. -/
inductive EncoderEvent
  | addRequest (request : Request)
  | schedule

/-- One call of `schedule`: the states around it and its output. -/
structure EncoderCall where
  before : EncoderScheduler
  out : EncoderSchedulerOutput
  after : EncoderScheduler

namespace EncoderCall

/-- The call moves a request from `waiting` to `running`. -/
def Moves (c : EncoderCall) (r : Request) : Prop := c.before.waiting = r :: c.after.waiting

/-- The call moves a request and puts one of its inputs in `scheduled_encoder_inputs`. -/
def Selects (c : EncoderCall) (r : Request) (i : ℕ) : Prop :=
  c.Moves r ∧ i ∈ (c.out.scheduledEncoderInputs.get? r.requestId).getD []

end EncoderCall

namespace EncoderScheduler

variable (p : EncoderSchedulerParams)

/-- The calls of `schedule` in a run. -/
def calls : EncoderScheduler → List EncoderEvent → List EncoderCall
  | _, [] => []
  | s, .addRequest r :: es => calls (s.addRequest r) es
  | s, .schedule :: es =>
    match s.schedule p with
    | .ok (out, s') => ⟨s, out, s'⟩ :: calls s' es
    | .error _ => []

/-- Every input of a request that a call of the run moves is selected by that call or a later one. -/
def DropsNoInput (es : List EncoderEvent) : Prop :=
  ∀ pre c post, calls p (init p) es = pre ++ c :: post → ∀ r, c.Moves r →
    ∀ i < r.mmPositions.length, ∃ c' ∈ c :: post, c'.Selects r i

variable {p}

theorem schedule_of_mem_calls (es : List EncoderEvent) : ∀ {s : EncoderScheduler}
    {c : EncoderCall}, c ∈ calls p s es → c.before.schedule p = .ok (c.out, c.after) := by
  induction es with
  | nil => intro s c h; cases h
  | cons e es ih =>
    intro s c h
    cases e with
    | addRequest r => exact ih h
    | schedule =>
      rw [calls] at h
      cases hs : s.schedule p with
      | error e => rw [hs] at h; cases h
      | ok x =>
        rw [hs] at h
        obtain rfl | h := List.mem_cons.mp h
        · exact hs
        · exact ih h

/-- A call moves exactly the requests it can take, and selects the inputs that fit together. -/
theorem call_spec {c : EncoderCall} (hc : c.before.schedule p = .ok (c.out, c.after)) (r : Request) :
    (c.Moves r ↔ c.before.waiting.head? = some r ∧ CanTake p c.before r) ∧
      ∀ i, c.Selects r i ↔ c.Moves r ∧ i < r.mmPositions.length ∧
        ((r.mmPositions.take (i + 1)).map fun pos => pos.length).sum ≤
          p.maxNumEncoderInputTokens := by
  obtain ⟨r', rest, ecm, hw, htake, -, hs⟩ | ⟨hno, hs⟩ := schedule_cases p c.before
  · rw [hc, Except.ok.injEq, Prod.mk.injEq] at hs
    have hmoves : c.Moves r ↔ r' = r := by
      rw [EncoderCall.Moves, hw, hs.2, List.cons.injEq]
      exact ⟨fun h => h.1, fun h => ⟨h, rfl⟩⟩
    refine ⟨?_, fun i => ?_⟩
    · rw [hmoves, hw, List.head?_cons, Option.some.injEq]
      exact ⟨fun h => ⟨h, h ▸ htake⟩, fun h => h.1⟩
    · rw [EncoderCall.Selects]
      refine and_congr_right fun hm => ?_
      obtain rfl := hmoves.mp hm
      rw [hs.1, Dict.get?_set_self, Option.getD_some, mem_tryScheduleEncoderInputs]
      constructor
      · rintro ⟨k, hk, rfl, hsum⟩
        rw [Nat.zero_add]
        exact ⟨hk, hsum⟩
      · rintro ⟨hi, hsum⟩
        exact ⟨i, hi, by omega, hsum⟩
  · rw [hc, Except.ok.injEq, Prod.mk.injEq] at hs
    have hmoves : ¬ c.Moves r := by
      intro h
      rw [EncoderCall.Moves, hs.2] at h
      exact List.cons_ne_self r _ h.symm
    refine ⟨⟨fun h => absurd h hmoves, fun h => absurd h.2 (hno r h.1)⟩, fun i => ?_⟩
    exact ⟨fun h => absurd h.1 hmoves, fun h => absurd h.1 hmoves⟩

/-- **When a run drops no input**: exactly if every request it takes fits the budget as a whole. -/
theorem drops_no_input_iff (es : List EncoderEvent) :
    DropsNoInput p es ↔ ∀ c ∈ calls p (init p) es, ∀ r, c.before.waiting.head? = some r →
      CanTake p c.before r →
      (r.mmPositions.map fun pos => pos.length).sum ≤ p.maxNumEncoderInputTokens := by
  constructor
  · intro h c hc r hr htake
    obtain ⟨pre, post, hsplit⟩ := List.append_of_mem hc
    obtain ⟨pos, hpos, -⟩ := htake.2.2
    have hlen : 0 < r.mmPositions.length :=
      List.length_pos_iff.mpr fun e => by rw [e] at hpos; cases hpos
    have hmoves := ((call_spec (schedule_of_mem_calls es hc) r).1).mpr ⟨hr, htake⟩
    -- whichever call selects the last input, it fits together with all the others
    obtain ⟨c', hc', hsel⟩ := h pre c post hsplit r hmoves (r.mmPositions.length - 1) (by omega)
    have hmem : c' ∈ calls p (init p) es := by
      rw [hsplit]
      exact List.mem_append_right _ hc'
    obtain ⟨-, -, hsum⟩ := ((call_spec (schedule_of_mem_calls es hmem) r).2 _).mp hsel
    rw [Nat.sub_add_cancel hlen, List.take_length] at hsum
    exact hsum
  · intro h pre c post hsplit r hmoves i hi
    have hc : c ∈ calls p (init p) es := by rw [hsplit]; simp
    obtain ⟨hhead, htake⟩ := ((call_spec (schedule_of_mem_calls es hc) r).1).mp hmoves
    refine ⟨c, List.mem_cons_self, ((call_spec (schedule_of_mem_calls es hc) r).2 i).mpr
      ⟨hmoves, hi, ?_⟩⟩
    have htotal := h c hc r hhead htake
    rw [← List.take_append_drop (i + 1) r.mmPositions, List.map_append, List.sum_append] at htotal
    omega

/-- A budget of four tokens. -/
def fourTokens : EncoderSchedulerParams := ⟨2, 4, 8⟩

/-- The run goes on as it likes: the second image of the first request is never selected. -/
theorem two_large_images_dropped : ¬ ∃ es, DropsNoInput fourTokens
    (.addRequest (.ofPrompt "a" [5, 5, 5, 5, 5, 5] [⟨0, 3⟩, ⟨3, 3⟩]) :: .schedule :: es) := by
  rintro ⟨es, h⟩
  obtain ⟨c', hc', hsel⟩ := h [] _ _ rfl (.ofPrompt "a" [5, 5, 5, 5, 5, 5] [⟨0, 3⟩, ⟨3, 3⟩]) rfl 1
    (by decide)
  have hcall : c'.before.schedule fourTokens = .ok (c'.out, c'.after) :=
    schedule_of_mem_calls (.addRequest (.ofPrompt "a" [5, 5, 5, 5, 5, 5] [⟨0, 3⟩, ⟨3, 3⟩]) ::
      .schedule :: es) (s := init fourTokens) hc'
  obtain ⟨-, -, hsum⟩ := ((call_spec hcall _).2 1).mp hsel
  exact absurd hsum (by decide)

end EncoderScheduler

end SpaceServe
