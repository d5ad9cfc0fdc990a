import SpaceServe.Encoder.Core
import SpaceServe.Engine.Model

/-!
# What the encoder process sends

A step that takes a request puts one result on the queue. It holds a single output: of the inputs that
were selected, the last one.

* `lastInput`, `lastInput_eq_some_iff`: the last of the inputs that fit the budget together;
* `sentResult`, `sentPair`, `pairs_sentResult`, `outputs_sentResult`;
* `foldl_cacheOutput_single`: what the loop of `_execute_encoder` leaves of one request;
* **`EncoderCore.step_sends`**: what a step takes and what it sends.
-/

set_option autoImplicit false

namespace SpaceServe

open Py

namespace EncoderScheduler

variable (p : EncoderSchedulerParams)

/-- The last of the inputs of a request that are selected. -/
def lastInput (r : Request) : Option ℕ :=
  (tryScheduleEncoderInputs r.mmPositions 0 p.maxNumEncoderInputTokens).getLast?

variable {p}

theorem tryScheduleEncoderInputs_eq_range' : ∀ (poss : List PlaceholderRange) (i budget : ℕ),
    tryScheduleEncoderInputs poss i budget =
      List.range' i (tryScheduleEncoderInputs poss i budget).length
  | [], _, _ => rfl
  | pos :: rest, i, budget => by
    rw [tryScheduleEncoderInputs]
    split_ifs
    · rw [List.length_cons, List.range'_succ, ← tryScheduleEncoderInputs_eq_range' rest]
    · rfl

/-- **The last input that is selected** is the last one up to which all inputs fit together. -/
theorem lastInput_eq_some_iff {r : Request} {i : ℕ} :
    lastInput p r = some i ↔ i < r.mmPositions.length ∧ ∀ j < r.mmPositions.length,
      ((r.mmPositions.take (j + 1)).map fun pos => pos.length).sum ≤ p.maxNumEncoderInputTokens ↔
        j ≤ i := by
  have hmem := mem_tryScheduleEncoderInputs r.mmPositions 0 p.maxNumEncoderInputTokens
  have hrange := tryScheduleEncoderInputs_eq_range' r.mmPositions 0 p.maxNumEncoderInputTokens
  unfold lastInput
  generalize tryScheduleEncoderInputs r.mmPositions 0 p.maxNumEncoderInputTokens = l at hmem hrange
  have hiff : ∀ j < r.mmPositions.length,
      ((r.mmPositions.take (j + 1)).map fun pos => pos.length).sum ≤ p.maxNumEncoderInputTokens ↔
        j < l.length := by
    intro j hj
    have hj' : j ∈ l ↔ j < l.length := by
      rw [hrange, List.mem_range'_1, List.length_range']
      omega
    rw [← hj', hmem]
    constructor
    · exact fun h => ⟨j, hj, by omega, h⟩
    · rintro ⟨k, -, rfl, h⟩
      rwa [Nat.zero_add]
  have hlen : l.length ≤ r.mmPositions.length := by
    by_contra hlt
    have hin : r.mmPositions.length ∈ l := by
      rw [hrange, List.mem_range'_1]
      omega
    obtain ⟨k, hk, he, -⟩ := (hmem _).mp hin
    omega
  have hlast : l.getLast? = some i ↔ l.length = i + 1 := by
    rw [hrange, List.getLast?_range', List.length_range']
    split_ifs with h0
    · simp [h0]
    · rw [Option.some.injEq]
      omega
  rw [hlast]
  constructor
  · intro h
    refine ⟨by omega, fun j hj => ?_⟩
    rw [hiff j hj]
    omega
  · rintro ⟨hi, h⟩
    have h1 := (hiff i hi).mp ((h i hi).mpr (Nat.le_refl i))
    by_contra hne
    have h2 : i + 1 < l.length := by omega
    have h3 := (h (i + 1) (by omega)).mp ((hiff (i + 1) (by omega)).mpr h2)
    omega

theorem lastInput_isSome_iff {r : Request} : (lastInput p r).isSome = true ↔ FirstFits p r := by
  rw [← tryScheduleEncoderInputs_ne_nil, lastInput, Option.isSome_iff_ne_none, ne_eq, ne_eq,
    List.getLast?_eq_none_iff]

end EncoderScheduler

namespace EncoderCore

open EncoderScheduler

variable {V : Type} (p : EncoderSchedulerParams) (enc : MultiModalKwargs → V)

/-- What is sent for a request: the output of its last input that was selected. -/
def sentItem (r : Request) : Option (Dict ReqId (Dict ℕ V)) :=
  (lastInput p r).bind fun i => (r.mmInputs[i]?).map fun x =>
    Dict.empty.set r.requestId (Dict.empty.set i (enc x))

/-- The result that is put on the queue for a request. -/
def sentResult (r : Request) : EncoderResult V := [sentItem p enc r]

/-- The pair of request and input that it holds. -/
def sentPair (r : Request) : Option (ReqId × ℕ) := (lastInput p r).map fun i => (r.requestId, i)

variable {p enc}

theorem outputs_sentResult {r : Request} {y : (ReqId × ℕ) × V} :
    y ∈ (sentResult p enc r).outputs ↔ y.1.1 = r.requestId ∧ lastInput p r = some y.1.2 ∧
      ∃ x, r.mmInputs[y.1.2]? = some x ∧ y.2 = enc x := by
  obtain ⟨⟨id, j⟩, v⟩ := y
  unfold EncoderResult.outputs sentResult sentItem
  rw [List.flatMap_singleton]
  cases hi : lastInput p r with
  | none => simp
  | some i =>
    rw [Option.bind_some]
    cases hx : r.mmInputs[i]? with
    | none =>
      simp only [Option.map_none, List.not_mem_nil, Option.some.injEq, false_iff]
      rintro ⟨-, rfl, x, hx', -⟩
      rw [hx] at hx'
      cases hx'
    | some x =>
      simp only [Option.map_some, Dict.set, Dict.empty, setL, List.flatMap_singleton,
        List.map_singleton, List.mem_singleton, Prod.mk.injEq, Option.some.injEq]
      constructor
      · rintro ⟨⟨rfl, rfl⟩, rfl⟩
        exact ⟨rfl, rfl, x, hx, rfl⟩
      · rintro ⟨rfl, rfl, x', hx', rfl⟩
        rw [hx, Option.some.injEq] at hx'
        rw [hx']
        exact ⟨⟨rfl, rfl⟩, rfl⟩

theorem pairs_sentResult (r : Request) :
    (sentResult p enc r).pairs = (sentPair p r).toList := by
  unfold EncoderResult.pairs EncoderResult.outputs sentResult sentItem sentPair
  rw [List.flatMap_singleton]
  cases hi : lastInput p r with
  | none => rfl
  | some i =>
    obtain ⟨hlt, -⟩ := lastInput_eq_some_iff.mp hi
    rw [← r.mmInputs_length] at hlt
    rw [Option.bind_some, List.getElem?_eq_getElem hlt]
    rfl

/-! ## One step -/

/-- Of the outputs of one request the loop leaves the last one. -/
theorem foldl_cacheOutput_single {id : ReqId} : ∀ {l : List ((ReqId × ℕ) × V)},
    (∀ x ∈ l, x.1.1 = id) → ∀ {x : (ReqId × ℕ) × V}, l.getLast? = some x →
      l.foldl (fun m x => m.set x.1.1 (Dict.empty.set x.1.2 x.2)) Dict.empty =
        (Dict.empty : Dict ReqId (Dict ℕ V)).set id (Dict.empty.set x.1.2 x.2) := by
  intro l hl
  induction l using List.reverseRecOn with
  | nil => intro x h; cases h
  | append_singleton l y ih =>
    intro x hx
    rw [List.getLast?_concat, Option.some.injEq] at hx
    subst hx
    rw [List.foldl_append, List.foldl_cons, List.foldl_nil, hl y (by simp)]
    cases hlast : l.getLast? with
    | none =>
      rw [List.getLast?_eq_none_iff.mp hlast]
      rfl
    | some z => rw [ih (fun w hw => hl w (List.mem_append_left _ hw)) hlast, Dict.set_set]

variable {embed : List MultiModalKwargs → List V} {c : EncoderCore V}

/-- What the worker returns for the request that was just scheduled. -/
theorem executeVisionEncoder_single (hembed : ∀ g, embed g = g.map enc) {w : GPUModelRunner V}
    (hempty : w.encoderCache.keys = []) {r : Request} (hfit : FirstFits p r) :
    w.executeVisionEncoder embed ⟨[.fromRequest r], Dict.empty.set r.requestId
        (tryScheduleEncoderInputs r.mmPositions 0 p.maxNumEncoderInputTokens)⟩ =
      .ok (sentItem p enc r, w.updateForEncoder [.fromRequest r]) := by
  have hlt : ∀ i ∈ tryScheduleEncoderInputs r.mmPositions 0 p.maxNumEncoderInputTokens,
      i < r.mmPositions.length := by
    intro i hi
    obtain ⟨k, hk, rfl, -⟩ := (mem_tryScheduleEncoderInputs _ _ _ _).mp hi
    omega
  have hknown := known_fromRequest w hlt
  have hids := (hknown _ _ (Dict.get?_set_self _ _ _)).2
  obtain ⟨i, hi⟩ := Option.isSome_iff_exists.mp (lastInput_isSome_iff.mpr hfit)
  have hlt := (lastInput_eq_some_iff.mp hi).1
  rw [← r.mmInputs_length] at hlt
  have hinput : (w.updateForEncoder [.fromRequest r]).inputOf r.requestId i =
      some r.mmInputs[i] := by
    simp [GPUModelRunner.inputOf, GPUModelRunner.updateForEncoder, EncoderRequestData.fromRequest]
  -- the loop over the pairs of the only request
  have hpairs : ((w.updateForEncoder [.fromRequest r]).pairsOf enc (r.requestId,
      tryScheduleEncoderInputs r.mmPositions 0 p.maxNumEncoderInputTokens)).getLast? =
        some ((r.requestId, i), enc r.mmInputs[i]) := by
    rw [GPUModelRunner.getLast?_pairsOf hids]
    change (lastInput p r).bind _ = _
    rw [hi, Option.bind_some, hinput]
    rfl
  have hsame : ∀ x ∈ (w.updateForEncoder [.fromRequest r]).pairsOf enc (r.requestId,
      tryScheduleEncoderInputs r.mmPositions 0 p.maxNumEncoderInputTokens),
        x.1.1 = r.requestId := by
    intro x hx
    obtain ⟨j, -, hj⟩ := List.mem_filterMap.mp hx
    obtain ⟨y, -, rfl⟩ := Option.map_eq_some_iff.mp hj
    rfl
  have hcache : (w.updateForEncoder [.fromRequest r]).encoderCache.keys = [] := hempty
  have hitem : sentItem p enc r =
      some (Dict.empty.set r.requestId (Dict.empty.set i (enc r.mmInputs[i]))) := by
    rw [sentItem, hi, Option.bind_some, List.getElem?_eq_getElem hlt]
    rfl
  have hentries : (Dict.empty.set r.requestId (tryScheduleEncoderInputs r.mmPositions 0
      p.maxNumEncoderInputTokens)).entries = [(r.requestId, tryScheduleEncoderInputs r.mmPositions 0
        p.maxNumEncoderInputTokens)] := rfl
  simp only [GPUModelRunner.executeVisionEncoder]
  rw [GPUModelRunner.executeEncoder_eq hembed hknown (by rw [Dict.keys, hentries]; simp),
    hentries, List.flatMap_singleton,
    GPUModelRunner.foldlM_cacheOutput (fun x _ => by rw [hcache]; exact List.not_mem_nil),
    foldl_cacheOutput_single hsame hpairs, hitem]
  rfl

/-- **What a step does**: it takes the first waiting request, if it can, and sends the output of its
last input that was selected; else it changes nothing. -/
theorem step_sends (hembed : ∀ g, embed g = g.map enc) (h : c.Inv p) :
    ∃ out c', c.step p embed = .ok (out, c') ∧ c'.Inv p ∧
      ((∃ r, c.scheduler.waiting = r :: c'.scheduler.waiting ∧ CanTake p c.scheduler r ∧
          c'.scheduler.running = c.scheduler.running ++ [{ r with status := .running }] ∧
          out.scheduledNewReqs ≠ [] ∧
          c'.encoderResultQueue = c.encoderResultQueue ++ [sentResult p enc r]) ∨
        ((∀ r ∈ c.scheduler.waiting.head?, ¬ CanTake p c.scheduler r) ∧
          out.scheduledNewReqs = [] ∧ c' = c)) := by
  unfold step
  by_cases hun : c.scheduler.hasUnfinishedRequests = false
  · rw [if_pos hun]
    refine ⟨_, c, rfl, h, Or.inr ⟨fun r hr => ?_, rfl, rfl⟩⟩
    have hpos := List.length_pos_of_mem (List.mem_of_mem_head? hr)
    rw [hasUnfinishedRequests, decide_eq_false_iff_not] at hun
    omega
  rw [if_neg hun]
  obtain ⟨r, rest, ecm, hw, htake, -, hs⟩ | ⟨hno, hs⟩ := schedule_cases p c.scheduler
  · rw [hs, ok_bind]
    simp only [reduceCtorEq, if_false]
    rw [executeVisionEncoder_single hembed h.empty htake.2.2, ok_bind]
    refine ⟨_, _, rfl, ⟨?_, h.empty⟩, Or.inl ⟨r, hw, htake, rfl, List.cons_ne_nil _ _, rfl⟩⟩
    have hne := htake.2.1
    have hle := h.running_le
    simp only [List.length_append, List.length_singleton]
    omega
  · rw [hs, ok_bind]
    exact ⟨_, _, rfl, ⟨h.running_le, h.empty⟩, Or.inr ⟨hno, rfl, rfl⟩⟩

end EncoderCore

end SpaceServe
