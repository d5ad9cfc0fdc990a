import SpaceServe.Encoder.Scheduler

/-!
# The slots of the encoder scheduler

The encoder scheduler allocates the inputs of a request without asking whether they fit, and never
frees them. Its slots stay balanced and suffice as long as every request it takes brings a new id and
inputs that fit.

* `tryScheduleEncoderInputs_eq`: the inputs of a request that are taken;
* `TakesFitting`, `FittingRun`: runs that take no request that does not fit;
* **`FittingRun.slots`**: the slots in these runs.
-/

set_option autoImplicit false

namespace SpaceServe

open Py

namespace EncoderScheduler

/-- The first inputs of a request are taken, within the budget. -/
theorem tryScheduleEncoderInputs_eq : ∀ (poss : List PlaceholderRange) (i budget : ℕ),
    ∃ k ≤ poss.length, tryScheduleEncoderInputs poss i budget = List.range' i k ∧
      ((poss.take k).map fun pos => pos.length).sum ≤ budget
  | [], i, budget => ⟨0, Nat.le_refl _, rfl, Nat.zero_le _⟩
  | pos :: rest, i, budget => by
    rw [tryScheduleEncoderInputs]
    by_cases hfit : pos.length ≤ budget
    · obtain ⟨k, hk, heq, hsum⟩ := tryScheduleEncoderInputs_eq rest (i + 1) (budget - pos.length)
      refine ⟨k + 1, Nat.succ_le_succ hk, ?_, ?_⟩
      · rw [if_pos hfit, heq, List.range'_succ]
      · rw [List.take_succ_cons, List.map_cons, List.sum_cons]
        omega
    · exact ⟨0, Nat.zero_le _, if_neg hfit, Nat.zero_le _⟩

/-- The lengths of the first inputs. -/
theorem map_inputLength_range' (r : Request) {k : ℕ} (hk : k ≤ r.mmPositions.length) :
    (List.range' 0 k).map r.inputLength = (r.mmPositions.take k).map fun pos => pos.length := by
  refine List.ext_getElem (by simp [hk]) fun j h1 h2 => ?_
  have hj : j < r.mmPositions.length := by
    rw [List.length_map, List.length_range'] at h1
    omega
  have hpos := List.getElem?_eq_getElem hj
  simp only [List.getElem_map, List.getElem_range', List.getElem_take, Nat.zero_add, Nat.one_mul]
  exact r.inputLength_eq hpos

variable (p : EncoderSchedulerParams) (s : EncoderScheduler)

/-- The length of an input of the request with an id. -/
def inputLength (id : ReqId) (i : ℕ) : ℕ :=
  (s.running.find? fun r => decide (r.requestId = id)).elim 0 fun r => r.inputLength i

/-- One call. -/
def next : EncoderEvent → Except Exn EncoderScheduler
  | .addRequest request => .ok (s.addRequest request)
  | .schedule => do
    let (_, s) ← s.schedule p
    .ok s

/-- If a call of `schedule` takes a request, nothing is recorded under its id, and its first inputs,
as many as are within the budget, fit. -/
def TakesFitting : Prop :=
  ∀ r ∈ s.waiting.head?, CanTake p s r →
    s.encoderCacheManager.cached.get? r.requestId = none ∧
    ∀ k ≤ r.mmPositions.length,
      ((r.mmPositions.take k).map fun pos => pos.length).sum ≤ p.maxNumEncoderInputTokens →
      ((((r.mmPositions.take k).map fun pos => pos.length).sum : ℕ) : ℤ) ≤
        s.encoderCacheManager.numFreeSlots

instance (r : Request) : Decidable (CanTake p s r) :=
  inferInstanceAs (Decidable (0 < p.maxNumEncoderInputTokens ∧
    s.running.length ≠ p.maxNumRunningReqs ∧
    ∃ pos ∈ r.mmPositions.head?, pos.length ≤ p.maxNumEncoderInputTokens))

instance : Decidable (TakesFitting p s) :=
  inferInstanceAs (Decidable (∀ r ∈ s.waiting.head?, CanTake p s r →
    s.encoderCacheManager.cached.get? r.requestId = none ∧
    ∀ k ≤ r.mmPositions.length,
      ((r.mmPositions.take k).map fun pos => pos.length).sum ≤ p.maxNumEncoderInputTokens →
      ((((r.mmPositions.take k).map fun pos => pos.length).sum : ℕ) : ℤ) ≤
        s.encoderCacheManager.numFreeSlots))

/-- What a call takes fits. -/
def Fits : EncoderEvent → Prop
  | .addRequest _ => True
  | .schedule => TakesFitting p s

instance : (e : EncoderEvent) → Decidable (Fits p s e)
  | .addRequest _ => inferInstanceAs (Decidable True)
  | .schedule => inferInstanceAs (Decidable (TakesFitting p s))

/-- The runs in which every request that is taken fits. -/
def FittingRun : EncoderScheduler → Prop :=
  Reachable (fun s e => s.next p e) (Fits p) (init p)

variable {p s}

/-- The slots are balanced and suffice, and inputs are recorded for exactly the running requests. -/
structure SlotsInv (p : EncoderSchedulerParams) (s : EncoderScheduler) : Prop where
  balanced : s.encoderCacheManager.Balanced s.inputLength p.encoderCacheSize
  nonneg : 0 ≤ s.encoderCacheManager.numFreeSlots
  running : ∀ r ∈ s.running, s.encoderCacheManager.getCachedInputIds r.requestId ≠ []
  known : ∀ id, ∀ i ∈ s.encoderCacheManager.getCachedInputIds id, ∃ r ∈ s.running, r.requestId = id

/-- The inputs of the running requests keep their lengths when another request joins them. -/
theorem inputLength_append {r : Request} {s' : EncoderScheduler} (hs : s'.running = s.running ++ [r])
    (i : ℕ) :
    (∀ id, (∃ r' ∈ s.running, r'.requestId = id) → s'.inputLength id i = s.inputLength id i) ∧
    ((∀ r' ∈ s.running, r'.requestId ≠ r.requestId) →
      s'.inputLength r.requestId i = r.inputLength i) := by
  constructor
  · rintro _ ⟨r', hr', rfl⟩
    have hsome : (s.running.find? fun x => decide (x.requestId = r'.requestId)).isSome = true := by
      rw [List.find?_isSome]
      exact ⟨r', hr', by simp⟩
    obtain ⟨x, hx⟩ := Option.isSome_iff_exists.mp hsome
    rw [inputLength, inputLength, hs, List.find?_append, hx]
    rfl
  · intro hne
    have hnone : (s.running.find? fun x => decide (x.requestId = r.requestId)) = none := by
      rw [List.find?_eq_none]
      intro x hx
      simpa using hne x hx
    rw [inputLength, hs, List.find?_append, hnone]
    simp

/-- **A call keeps the slots balanced and sufficient.** -/
theorem SlotsInv.next {s' : EncoderScheduler} {e : EncoderEvent} (h : SlotsInv p s)
    (hfit : Fits p s e) (hs : s.next p e = .ok s') : SlotsInv p s' := by
  cases e with
  | addRequest r =>
    cases hs
    exact ⟨h.balanced, h.nonneg, h.running, h.known⟩
  | schedule =>
    simp only [EncoderScheduler.next, bind_eq_ok] at hs
    obtain ⟨⟨out, s₁⟩, hs, he⟩ := hs
    cases he
    obtain ⟨r, rest, ecm, hw, htake, hf, hs'⟩ | ⟨-, hs'⟩ := schedule_cases p s
    · rw [hs'] at hs
      cases hs
      obtain ⟨hnone, hfits⟩ := hfit r (by rw [hw]; rfl) htake
      have hnil : s.encoderCacheManager.getCachedInputIds r.requestId = [] := by
        rw [EncoderCacheManager.getCachedInputIds, hnone]
        rfl
      have hne : ∀ r' ∈ s.running, r'.requestId ≠ r.requestId := by
        intro r' hr' he
        exact h.running r' hr' (he ▸ hnil)
      -- the lengths of the inputs that are recorded, after the request has joined
      have hlen := inputLength_append (s := s) (r := { r with status := .running })
        (show (EncoderScheduler.mk rest (s.running ++ [{ r with status := .running }])
          ecm).running = _ from rfl)
      have hlen' : ∀ i, inputLength ⟨rest, s.running ++ [{ r with status := .running }], ecm⟩
          r.requestId i = r.inputLength i := fun i => (hlen i).2 hne
      obtain ⟨k, hk, heq, hsum⟩ := tryScheduleEncoderInputs_eq r.mmPositions 0
        p.maxNumEncoderInputTokens
      have hcached := (EncoderCacheManager.foldlM_allocate_freed hf).2
      have hb := (h.balanced.congr fun id i hi => (hlen i).1 id (h.known id i hi)).foldlM_allocate
        (by rw [heq]; exact List.nodup_range') (fun i _ => ⟨by rw [hnil]; exact List.not_mem_nil,
          fun pos hpos => by rw [hlen']; exact r.inputLength_eq hpos⟩) hf
      refine ⟨hb.1, ?_, fun r' hr' => ?_, fun id i hi => ?_⟩
      · have hle := hfits k hk hsum
        change 0 ≤ ecm.numFreeSlots
        have hsum' : ((tryScheduleEncoderInputs r.mmPositions 0 p.maxNumEncoderInputTokens).map
            (inputLength ⟨rest, s.running ++ [{ r with status := .running }], ecm⟩
              r.requestId)).sum = ((r.mmPositions.take k).map fun pos => pos.length).sum := by
          rw [List.map_congr_left fun i _ => hlen' i, heq, map_inputLength_range' r hk]
        rw [hb.2]
        omega
      · obtain hr' | hr' := List.mem_append.mp hr'
        · obtain ⟨i, hi⟩ := List.exists_mem_of_ne_nil _ (h.running r' hr')
          exact List.ne_nil_of_mem ((hcached _ i).mpr (Or.inr hi))
        · rw [List.mem_singleton.mp hr']
          obtain ⟨i, hi⟩ := List.exists_mem_of_ne_nil _
            (tryScheduleEncoderInputs_ne_nil.mpr htake.2.2)
          exact List.ne_nil_of_mem ((hcached _ i).mpr (Or.inl ⟨rfl, hi⟩))
      · obtain ⟨rfl, -⟩ | hi := (hcached id i).mp hi
        · exact ⟨{ r with status := .running }, List.mem_append_right _ List.mem_cons_self, rfl⟩
        · obtain ⟨r', hr', he⟩ := h.known id i hi
          exact ⟨r', List.mem_append_left _ hr', he⟩
    · rw [hs'] at hs
      cases hs
      exact h

/-- **The slots in every state of these runs.** -/
theorem FittingRun.slots (h : FittingRun p s) : SlotsInv p s := by
  refine h.invariant (P := SlotsInv p) ?_ fun _ _ _ hs hfit hn => hs.next hfit hn
  exact ⟨EncoderCacheManager.balanced_init _ _, Int.natCast_nonneg _,
    fun _ hr => (List.not_mem_nil hr).elim, fun _ _ hi => (List.not_mem_nil hi).elim⟩

end EncoderScheduler

end SpaceServe
