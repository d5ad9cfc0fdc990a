import SpaceServe.Worker.Model

/-!
# Gathering encoder outputs

The rows that `_gather_encoder_outputs` collects for a request: one for each placeholder position of
the scheduled window, in order. The outputs of the inputs that overlap the window have to be in the
cache, and to have as many rows as their inputs have placeholders.

* `IsPlaceholder`, `rowAt`: the placeholder positions and their rows;
* `gatherInputs_flatten`, **`gatherInputs_spec`**: the slices of one request;
* **`gatherEncoderOutputs_spec`**: the slices of all rows.
-/

set_option autoImplicit false

namespace SpaceServe

open Py

section

variable {ρ : Type}

/-- Position `q` is covered by a placeholder range. -/
def IsPlaceholder (poss : List PlaceholderRange) (q : ℕ) : Prop :=
  ∃ pos ∈ poss, pos.offset ≤ q ∧ q < pos.offset + pos.length

instance (poss : List PlaceholderRange) (q : ℕ) : Decidable (IsPlaceholder poss q) := by
  unfold IsPlaceholder; infer_instance

/-- The row of position `q` in the output of the input that covers it; inputs count from `i`. -/
def rowAt (outputs : ℕ → Option (List ρ)) : List PlaceholderRange → ℕ → ℕ → Option ρ
  | [], _, _ => none
  | pos :: rest, i, q =>
    if pos.offset ≤ q ∧ q < pos.offset + pos.length then
      (outputs i).bind fun output => output[q - pos.offset]?
    else rowAt outputs rest (i + 1) q

/-- The outputs that the window `nc .. nc + n - 1` needs are there. -/
def HasOutputs (outputs : ℕ → Option (List ρ)) (nc n : ℕ) (poss : List PlaceholderRange) (i : ℕ) :
    Prop :=
  ∀ k pos, poss[k]? = some pos → pos.offset < nc + n → nc < pos.offset + pos.length →
    ∃ output, outputs (i + k) = some output

/-- An output has one row for each placeholder of its input. -/
def FitsRanges (outputs : ℕ → Option (List ρ)) (poss : List PlaceholderRange) (i : ℕ) : Prop :=
  ∀ k pos output, poss[k]? = some pos → outputs (i + k) = some output → output.length = pos.length

variable {outputs : ℕ → Option (List ρ)}

theorem HasOutputs.tail {nc n i : ℕ} {pos : PlaceholderRange} {rest : List PlaceholderRange}
    (h : HasOutputs outputs nc n (pos :: rest) i) : HasOutputs outputs nc n rest (i + 1) := by
  intro k pos' hk h1 h2
  obtain ⟨output, ho⟩ := h (k + 1) pos' hk h1 h2
  exact ⟨output, by rw [Nat.add_assoc, Nat.add_comm 1 k]; exact ho⟩

theorem FitsRanges.tail {i : ℕ} {pos : PlaceholderRange} {rest : List PlaceholderRange}
    (h : FitsRanges outputs (pos :: rest) i) : FitsRanges outputs rest (i + 1) := by
  intro k pos' output hk ho
  refine h (k + 1) pos' output hk ?_
  rw [Nat.add_comm k 1, ← Nat.add_assoc]
  exact ho

/-- There is no row before the ranges. -/
theorem rowAt_of_lt {q : ℕ} : ∀ {poss : List PlaceholderRange} (i : ℕ),
    (∀ pos ∈ poss, q < pos.offset) → rowAt outputs poss i q = none
  | [], _, _ => rfl
  | pos :: rest, i, h => by
    have hq := h pos List.mem_cons_self
    rw [rowAt, if_neg (by omega)]
    exact rowAt_of_lt (i + 1) fun pos' hp => h pos' (List.mem_cons_of_mem _ hp)

/-- The rows of a window inside one output are a slice of it. -/
theorem filterMap_range' (l : List ρ) (off : ℕ) : ∀ (k a : ℕ), off ≤ a → a - off + k ≤ l.length →
    (List.range' a k).filterMap (fun q => l[q - off]?) = (l.drop (a - off)).take k
  | 0, a, _, _ => rfl
  | k + 1, a, ha, hk => by
    have hlt : a - off < l.length := by omega
    rw [List.range'_succ, List.filterMap_cons, List.getElem?_eq_getElem hlt]
    simp only
    rw [filterMap_range' l off k (a + 1) (by omega) (by omega), List.drop_eq_getElem_cons hlt,
      List.take_succ_cons, show a + 1 - off = a - off + 1 by omega]

/-- The window in three parts: before, inside and after a range that overlaps it. -/
theorem window_split {nc n a b : ℕ} (h1 : nc ≤ a) (h2 : a ≤ b) (h3 : b ≤ nc + n) :
    List.range' nc n = List.range' nc (a - nc) ++ (List.range' a (b - a) ++
      List.range' b (nc + n - b)) := by
  have e1 : List.range' a (b - a) ++ List.range' b (nc + n - b) = List.range' a (nc + n - a) := by
    have := List.range'_append_1 (s := a) (m := b - a) (n := nc + n - b)
    rw [show a + (b - a) = b by omega, show b - a + (nc + n - b) = nc + n - a by omega] at this
    exact this
  have e2 := List.range'_append_1 (s := nc) (m := a - nc) (n := nc + n - a)
  rw [show nc + (a - nc) = a by omega, show a - nc + (nc + n - a) = n by omega] at e2
  rw [e1, e2]

/-- The rows of a window that overlaps the first range: a slice of its output, then the rest. -/
theorem filterMap_rowAt_cons {nc n i : ℕ} {pos : PlaceholderRange} {rest : List PlaceholderRange}
    (hrest : ∀ pos' ∈ rest, pos.offset + pos.length ≤ pos'.offset) {output : List ρ}
    (ho : outputs i = some output) (hlen : output.length = pos.length)
    (h1 : pos.offset < nc + n) (h2 : nc < pos.offset + pos.length) :
    (List.range' nc n).filterMap (rowAt outputs (pos :: rest) i) =
      slice output (nc - pos.offset) (min (nc + n) (pos.offset + pos.length) - pos.offset) ++
        (List.range' nc n).filterMap (rowAt outputs rest (i + 1)) := by
  have hbefore : ∀ q, q < pos.offset + pos.length → rowAt outputs rest (i + 1) q = none :=
    fun q hq => rowAt_of_lt _ fun pos' hp => Nat.lt_of_lt_of_le hq (hrest pos' hp)
  have hnil : ∀ {f : ℕ → Option ρ} {a k : ℕ}, (∀ q, a ≤ q → q < a + k → f q = none) →
      (List.range' a k).filterMap f = [] := by
    intro f a k hf
    refine List.filterMap_eq_nil_iff.mpr fun q hq => ?_
    rw [List.mem_range'_1] at hq
    exact hf q hq.1 hq.2
  rw [window_split (a := max nc pos.offset) (b := min (nc + n) (pos.offset + pos.length))
    (by omega) (by omega) (by omega)]
  simp only [List.filterMap_append]
  have e1 : (List.range' nc (max nc pos.offset - nc)).filterMap (rowAt outputs (pos :: rest) i) =
      [] := by
    refine hnil fun q hq1 hq2 => ?_
    rw [rowAt, if_neg (by omega)]
    exact hbefore q (by omega)
  have e2 : (List.range' nc (max nc pos.offset - nc)).filterMap (rowAt outputs rest (i + 1)) = [] :=
    hnil fun q hq1 hq2 => hbefore q (by omega)
  have e3 : (List.range' (max nc pos.offset) (min (nc + n) (pos.offset + pos.length) -
      max nc pos.offset)).filterMap (rowAt outputs rest (i + 1)) = [] :=
    hnil fun q hq1 hq2 => hbefore q (by omega)
  have e4 : (List.range' (min (nc + n) (pos.offset + pos.length)) (nc + n -
      min (nc + n) (pos.offset + pos.length))).filterMap (rowAt outputs (pos :: rest) i) =
      (List.range' (min (nc + n) (pos.offset + pos.length)) (nc + n -
        min (nc + n) (pos.offset + pos.length))).filterMap (rowAt outputs rest (i + 1)) := by
    refine List.filterMap_congr fun q hq => ?_
    rw [List.mem_range'_1] at hq
    rw [rowAt, if_neg (by omega)]
  have e5 : (List.range' (max nc pos.offset) (min (nc + n) (pos.offset + pos.length) -
      max nc pos.offset)).filterMap (rowAt outputs (pos :: rest) i) =
      slice output (nc - pos.offset)
        (min (nc + n) (pos.offset + pos.length) - pos.offset) := by
    have hfun : (List.range' (max nc pos.offset) (min (nc + n) (pos.offset + pos.length) -
        max nc pos.offset)).filterMap (rowAt outputs (pos :: rest) i) =
        (List.range' (max nc pos.offset) (min (nc + n) (pos.offset + pos.length) -
          max nc pos.offset)).filterMap fun q => output[q - pos.offset]? := by
      refine List.filterMap_congr fun q hq => ?_
      rw [List.mem_range'_1] at hq
      rw [rowAt, if_pos (by omega), ho, Option.bind_some]
    rw [hfun, filterMap_range' output pos.offset _ _ (by omega) (by omega), slice]
    congr 1
    · omega
    · congr 1
      omega
  rw [e1, e2, e3, e4, e5]
  simp

/-- **The slices of one request**: no assertion fails, and they are the rows of its placeholders in
the window. -/
theorem gatherInputs_flatten {cache : Dict ReqId (Dict ℕ (List ρ))} {id : ReqId} {nc n : ℕ}
    (hn : 0 < n) : ∀ {poss : List PlaceholderRange} {i : ℕ} (acc : List (List ρ)), WellPlaced poss →
      HasOutputs (fun i => (cache.get? id).bind fun d => d.get? i) nc n poss i →
      ∃ slices, GPUModelRunner.gatherInputs cache id nc n poss i acc = .ok (acc ++ slices) ∧
        (FitsRanges (fun i => (cache.get? id).bind fun d => d.get? i) poss i →
          slices.flatten = (List.range' nc n).filterMap
            (rowAt (fun i => (cache.get? id).bind fun d => d.get? i) poss i))
  | [], i, acc, _, _ => by
    refine ⟨[], by rw [List.append_nil]; rfl, fun _ => ?_⟩
    symm
    exact List.filterMap_eq_nil_iff.mpr fun _ _ => rfl
  | pos :: rest, i, acc, hwell, hhas => by
    obtain ⟨hwell', hrest⟩ := hwell.tail
    have hpos := hwell.2 pos List.mem_cons_self
    rw [GPUModelRunner.gatherInputs]
    by_cases h1 : (nc : ℤ) + (n : ℕ) ≤ pos.offset
    · -- this range and all later ones are behind the window
      rw [if_pos h1]
      refine ⟨[], by rw [List.append_nil], fun _ => ?_⟩
      symm
      refine List.filterMap_eq_nil_iff.mpr fun q hq => ?_
      rw [List.mem_range'_1] at hq
      refine rowAt_of_lt i fun pos' hp => ?_
      obtain rfl | hp := List.mem_cons.mp hp
      · omega
      · have := hrest pos' hp
        omega
    rw [if_neg h1]
    by_cases h2 : (pos.offset : ℤ) + pos.length ≤ nc
    · rw [if_pos h2]
      obtain ⟨slices, hs, hf⟩ := gatherInputs_flatten hn acc hwell' hhas.tail
      refine ⟨slices, hs, fun hfits => (hf hfits.tail).trans (List.filterMap_congr fun q hq => ?_)⟩
      rw [List.mem_range'_1] at hq
      symm
      rw [rowAt, if_neg (by omega)]
    · rw [if_neg h2]
      obtain ⟨output, ho⟩ := hhas 0 pos rfl (by omega) (by omega)
      rw [Nat.add_zero] at ho
      obtain ⟨d, hd, hi⟩ := Option.bind_eq_some_iff.mp ho
      obtain ⟨slices, hs, hf⟩ := gatherInputs_flatten hn (acc ++ [slice output
        (max ((nc : ℤ) - pos.offset) 0).toNat (min ((nc : ℤ) - pos.offset + n) pos.length).toNat])
        hwell' hhas.tail
      refine ⟨slice output (max ((nc : ℤ) - pos.offset) 0).toNat
        (min ((nc : ℤ) - pos.offset + n) pos.length).toNat :: slices, ?_, fun hfits => ?_⟩
      · simp only
        rw [assert_of (by omega), ok_bind, hd, ofOption_some, ok_bind, hi, ofOption_some, ok_bind,
          hs]
        simp
      rw [List.flatten_cons, hf hfits.tail, filterMap_rowAt_cons hrest ho (hfits 0 pos output rfl ho)
        (by omega) (by omega)]
      congr 2
      · omega
      · omega

/-- In the window exactly the placeholder positions have a row. -/
theorem rowAt_isSome {nc n q : ℕ} (hq : nc ≤ q ∧ q < nc + n) :
    ∀ {poss : List PlaceholderRange} {i : ℕ}, HasOutputs outputs nc n poss i →
      FitsRanges outputs poss i → ((rowAt outputs poss i q).isSome = true ↔ IsPlaceholder poss q)
  | [], i, _, _ => by simp [rowAt, IsPlaceholder]
  | pos :: rest, i, h, hfits => by
    have ih := rowAt_isSome hq h.tail hfits.tail
    rw [rowAt]
    by_cases hin : pos.offset ≤ q ∧ q < pos.offset + pos.length
    · obtain ⟨output, ho⟩ := h 0 pos rfl (by omega) (by omega)
      rw [Nat.add_zero] at ho
      have hlen := hfits 0 pos output rfl ho
      rw [if_pos hin, ho, Option.bind_some, List.getElem?_eq_getElem (by omega)]
      exact ⟨fun _ => ⟨pos, List.mem_cons_self, hin⟩, fun _ => rfl⟩
    · rw [if_neg hin, ih]
      constructor
      · rintro ⟨pos', hp, h'⟩
        exact ⟨pos', List.mem_cons_of_mem _ hp, h'⟩
      · rintro ⟨pos', hp, h'⟩
        obtain rfl | hp := List.mem_cons.mp hp
        · exact absurd h' hin
        · exact ⟨pos', hp, h'⟩

theorem map_some_filterMap {α β : Type} {f : α → Option β} {p : α → Prop} [DecidablePred p] :
    ∀ {l : List α}, (∀ a ∈ l, (f a).isSome = true ↔ p a) →
      (l.filterMap f).map some = (l.filter fun a => decide (p a)).map f
  | [], _ => rfl
  | a :: l, h => by
    have ih := map_some_filterMap fun b hb => h b (List.mem_cons_of_mem _ hb)
    have ha := h a List.mem_cons_self
    cases hf : f a with
    | none =>
      rw [hf] at ha
      rw [List.filterMap_cons_none hf, ih,
        List.filter_cons_of_neg (by rw [decide_eq_true_eq, ← ha]; exact Bool.noConfusion)]
    | some b =>
      rw [hf] at ha
      rw [List.filterMap_cons_some hf, List.map_cons, ih,
        List.filter_cons_of_pos (by rw [decide_eq_true_eq, ← ha]; rfl), List.map_cons, hf]

/-- The slices hold, in order, one row for each placeholder position of the window. -/
def OneRowEach (cache : Dict ReqId (Dict ℕ (List ρ))) (id : ReqId) (poss : List PlaceholderRange)
    (nc n : ℕ) (slices : List (List ρ)) : Prop :=
  slices.flatten.map some = ((List.range' nc n).filter fun q => decide (IsPlaceholder poss q)).map
    (rowAt (cachedOutput cache id) poss 0)

theorem gatherInputs_spec {cache : Dict ReqId (Dict ℕ (List ρ))} {id : ReqId} {nc n : ℕ}
    (hn : 0 < n) {poss : List PlaceholderRange} (acc : List (List ρ)) (hwell : WellPlaced poss)
    (hhas : HasOutputs (cachedOutput cache id) nc n poss 0) :
    ∃ slices, GPUModelRunner.gatherInputs cache id nc n poss 0 acc = .ok (acc ++ slices) ∧
      (FitsRanges (cachedOutput cache id) poss 0 → OneRowEach cache id poss nc n slices) := by
  obtain ⟨slices, hs, hf⟩ := gatherInputs_flatten hn acc hwell hhas
  refine ⟨slices, hs, fun hfits => ?_⟩
  rw [OneRowEach, hf hfits]
  refine map_some_filterMap fun q hq => ?_
  rw [List.mem_range'_1] at hq
  exact rowAt_isSome hq hhas hfits

/-- A scheduled request whose window has all the outputs it needs. -/
structure ReadyRow (w : GPUModelRunner (List ρ)) (out : SchedulerOutput) (id : ReqId)
    (st : CachedRequestState) (nc n : ℕ) : Prop where
  scheduled : out.numScheduledTokens.get? id = some n
  state : w.requests.get? id = some st
  computed : st.numComputedTokens = nc
  pos : 0 < n
  placed : WellPlaced st.mmPositions
  outputs : HasOutputs (cachedOutput w.encoderCache id) nc n st.mmPositions 0

/-- **The slices of all requests**: no assertion fails, and each request has its rows. -/
theorem gatherEncoderOutputs_spec {w : GPUModelRunner (List ρ)} {out : SchedulerOutput}
    {rows : List ReqId} (hrows : w.inputBatch.reqIds.take w.inputBatch.numReqs = rows.map some)
    (h : ∀ id ∈ rows, ∃ st nc n, ReadyRow w out id st nc n) :
    ∃ slices : List (List (List ρ)), w.gatherEncoderOutputs out = .ok slices.flatten ∧
      List.Forall₂ (fun id s => ∃ st nc n, ReadyRow w out id st nc n ∧
        (FitsRanges (cachedOutput w.encoderCache id) st.mmPositions 0 →
          OneRowEach w.encoderCache id st.mmPositions nc n s)) rows slices := by
  have hloop : ∀ (rows : List ReqId) (acc : List (List ρ)),
      (∀ id ∈ rows, ∃ st nc n, ReadyRow w out id st nc n) →
      ∃ slices : List (List (List ρ)),
        (rows.map some).foldlM (w.gatherRow out) acc = .ok (acc ++ slices.flatten) ∧
        List.Forall₂ (fun id s => ∃ st nc n, ReadyRow w out id st nc n ∧
          (FitsRanges (cachedOutput w.encoderCache id) st.mmPositions 0 →
            OneRowEach w.encoderCache id st.mmPositions nc n s)) rows slices := by
    intro rows
    induction rows with
    | nil => intro acc _; exact ⟨[], by rw [List.flatten_nil, List.append_nil]; rfl, .nil⟩
    | cons id rows ih =>
      intro acc h
      obtain ⟨st, nc, n, hr⟩ := h id List.mem_cons_self
      obtain ⟨s, hs, hone⟩ := gatherInputs_spec hr.pos acc hr.placed hr.outputs
      obtain ⟨slices, hrun, hall⟩ := ih (acc ++ s) fun x hx => h x (List.mem_cons_of_mem _ hx)
      refine ⟨s :: slices, ?_, .cons ⟨st, nc, n, hr, hone⟩ hall⟩
      have hone : w.gatherRow out acc (some id) = .ok (acc ++ s) := by
        rw [GPUModelRunner.gatherRow, hr.scheduled, ofOption_some, ok_bind, hr.state, ofOption_some,
          ok_bind, hr.computed]
        exact hs
      rw [List.map_cons, List.foldlM_cons, hone, ok_bind, hrun, List.flatten_cons,
        List.append_assoc]
  obtain ⟨slices, hrun, hall⟩ := hloop rows [] h
  refine ⟨slices, ?_, hall⟩
  rw [GPUModelRunner.gatherEncoderOutputs, hrows, hrun, List.nil_append]

end

end SpaceServe
