import SpaceServe.Encoder.Slots
import SpaceServe.Scheduler.Rounds
import SpaceServe.Scheduler.Runs

/-!
# The slots of the encoder cache

`num_free_slots` is what the recorded inputs leave of the cache, in every state of every run. It can
fall below zero: whether an input fits is asked before any input of the same call is allocated, so that
several inputs of one request may be scheduled that do not fit together; and the encoder scheduler does
not ask at all.

* `needed`, `tryScheduleEncoderInputs_needed`: which inputs are scheduled for a request;
* `SlotsInv`, `Move.slotsInv`, `SlotsInv.advance`, **`FreshRun.slotsInv`**: the balance;
* `FitTogether`, `InputsFit`, `FittingRun`: runs that schedule no inputs that do not fit together;
* **`FittingRun.slots_nonneg`**: in these runs the slots suffice;
* **`encoder_slots`**: both schedulers.
-/

set_option autoImplicit false

namespace SpaceServe

open Py

/-- The length of an input of the request with an id. -/
def Scheduler.inputLength (s : Scheduler) (id : ReqId) (i : ℕ) : ℕ :=
  (s.requests.get? id).elim 0 fun r => r.inputLength i

/-! ## Which inputs are scheduled -/

section Needed

/-- The inputs, numbered from `i` on, that the window `nc .. nc + n - 1` meets and that are not
cached. -/
def EncoderCacheManager.neededFrom (m : EncoderCacheManager) (id : ReqId) (nc : ℕ) (n : ℤ)
    (poss : List PlaceholderRange) (i : ℕ) : List ℕ :=
  ((poss.zipIdx i).filter fun x => decide ((x.1.offset : ℤ) < nc + n ∧
    nc < x.1.offset + x.1.length ∧ x.2 ∉ m.getCachedInputIds id)).map Prod.snd

/-- The inputs of a request that the window `nc .. nc + n - 1` meets and that are not cached. -/
def EncoderCacheManager.needed (m : EncoderCacheManager) (r : Request) (nc : ℕ) (n : ℤ) : List ℕ :=
  m.neededFrom r.requestId nc n r.mmPositions 0

variable {available : ReqId → ℕ → Bool} {s : Scheduler} {r : Request} {nc : ℕ}

theorem EncoderCacheManager.neededFrom_cons (m : EncoderCacheManager) (id : ReqId) (n : ℤ)
    (pos : PlaceholderRange) (rest : List PlaceholderRange) (i : ℕ) :
    m.neededFrom id nc n (pos :: rest) i =
      if (pos.offset : ℤ) < nc + n ∧ nc < pos.offset + pos.length ∧ i ∉ m.getCachedInputIds id then
        i :: m.neededFrom id nc n rest (i + 1)
      else m.neededFrom id nc n rest (i + 1) := by
  rw [neededFrom, List.zipIdx_cons]
  split_ifs with h
  · rw [List.filter_cons_of_pos (by simpa using h)]
    rfl
  · rw [List.filter_cons_of_neg (by simpa using h)]
    rfl

/-- The scheduled inputs are the first of the needed ones; each of them fits and has a result, and
together they are within the budget. -/
theorem encoderLoop_needed : ∀ {poss : List PlaceholderRange} {i : ℕ} {inputs inputs' : List ℕ}
    {n eb n' eb' : ℤ}, (∀ k pos, poss[k]? = some pos → r.mmPositions[i + k]? = some pos) →
    s.encoderLoop available r nc poss i inputs n eb = .ok (inputs', n', eb') →
    ∃ l, inputs' = inputs ++ l ∧ l <+: s.encoderCacheManager.neededFrom r.requestId nc n poss i ∧
      (∀ j ∈ l, (r.inputLength j : ℤ) ≤ s.encoderCacheManager.numFreeSlots ∧
        available r.requestId j = true) ∧
      (l ≠ [] → ((l.map r.inputLength).sum : ℤ) ≤ eb)
  | [], i, inputs, inputs', n, eb, n', eb', _, h => by
    cases h
    exact ⟨[], (List.append_nil _).symm, List.nil_prefix, fun _ hj => (List.not_mem_nil hj).elim,
      fun hc => absurd rfl hc⟩
  | pos :: rest, i, inputs, inputs', n, eb, n', eb', hpos, h => by
    have hi : r.mmPositions[i]? = some pos := hpos 0 pos rfl
    have hrest : ∀ k pos', rest[k]? = some pos' → r.mmPositions[i + 1 + k]? = some pos' := by
      intro k pos' hk
      have := hpos (k + 1) pos' hk
      rwa [Nat.add_right_comm, Nat.add_assoc]
    have hnil : ∃ l, inputs = inputs ++ l ∧
        l <+: s.encoderCacheManager.neededFrom r.requestId nc n (pos :: rest) i ∧
        (∀ j ∈ l, (r.inputLength j : ℤ) ≤ s.encoderCacheManager.numFreeSlots ∧
          available r.requestId j = true) ∧ (l ≠ [] → ((l.map r.inputLength).sum : ℤ) ≤ eb) :=
      ⟨[], (List.append_nil _).symm, List.nil_prefix, fun _ hj => (List.not_mem_nil hj).elim,
        fun hc => absurd rfl hc⟩
    obtain ⟨-, -, rfl⟩ | ⟨hskip, h⟩ | ⟨-, rfl, -⟩ | ⟨h1, h2, h3, hcan, hle, hav, h⟩ :=
      encoderLoop_cons h
    · exact hnil
    · obtain ⟨l, hl, hpre, hall, hsum⟩ := encoderLoop_needed hrest h
      refine ⟨l, hl, ?_, hall, hsum⟩
      rw [EncoderCacheManager.neededFrom_cons, if_neg ?_]
      · exact hpre
      · rw [EncoderCacheManager.hasCache_iff] at hskip
        rintro ⟨-, hlt, hnot⟩
        obtain hskip | hskip := hskip
        · omega
        · exact hnot hskip
    · exact hnil
    · obtain ⟨l, hl, hpre, hall, hsum⟩ := encoderLoop_needed hrest h
      have hnot : i ∉ s.encoderCacheManager.getCachedInputIds r.requestId := by
        rw [← EncoderCacheManager.hasCache_iff, h3]
        exact Bool.noConfusion
      have hfree : (r.inputLength i : ℤ) ≤ s.encoderCacheManager.numFreeSlots := by
        rw [EncoderCacheManager.canAllocate_eq _ hi, Except.ok.injEq, decide_eq_true_eq] at hcan
        rw [r.inputLength_eq hi]
        exact hcan
      refine ⟨i :: l, by rw [hl, List.append_assoc]; rfl, ?_, fun j hj => ?_, fun _ => ?_⟩
      · rw [EncoderCacheManager.neededFrom_cons, if_pos ⟨by omega, by omega, hnot⟩]
        exact List.cons_prefix_cons.mpr ⟨rfl, hpre⟩
      · obtain rfl | hj := List.mem_cons.mp hj
        · exact ⟨hfree, hav⟩
        · exact hall j hj
      · rw [List.map_cons, List.sum_cons, r.inputLength_eq hi]
        by_cases hemp : l = []
        · rw [hemp, List.map_nil, List.sum_nil]
          push_cast
          omega
        · have := hsum hemp
          push_cast at this ⊢
          omega

/-- **The inputs that are scheduled for a request.** -/
theorem tryScheduleEncoderInputs_needed {inputs : List ℕ} {n eb n' eb' : ℤ}
    (h : s.tryScheduleEncoderInputs available r nc n eb = .ok (inputs, n', eb')) :
    inputs <+: s.encoderCacheManager.needed r nc n ∧
      (∀ j ∈ inputs, (r.inputLength j : ℤ) ≤ s.encoderCacheManager.numFreeSlots ∧
        available r.requestId j = true) ∧
      (inputs ≠ [] → ((inputs.map r.inputLength).sum : ℤ) ≤ eb) := by
  unfold Scheduler.tryScheduleEncoderInputs at h
  split_ifs at h
  · cases h
    exact ⟨List.nil_prefix, fun _ hj => (List.not_mem_nil hj).elim, fun hc => absurd rfl hc⟩
  · rw [bind_eq_ok] at h
    obtain ⟨_, -, h⟩ := h
    obtain ⟨l, rfl, hl⟩ := encoderLoop_needed (fun k pos hk => by rw [Nat.zero_add]; exact hk) h
    exact hl

/-- Needed inputs are different, and not cached. -/
theorem EncoderCacheManager.needed_spec (m : EncoderCacheManager) (r : Request) (nc : ℕ) (n : ℤ) :
    (m.needed r nc n).Nodup ∧ ∀ i ∈ m.needed r nc n, i ∉ m.getCachedInputIds r.requestId := by
  constructor
  · have hsub : (m.needed r nc n).Sublist ((r.mmPositions.zipIdx 0).map Prod.snd) :=
      (List.filter_sublist).map Prod.snd
    refine hsub.nodup ?_
    rw [List.zipIdx_map_snd]
    exact List.nodup_range'
  · intro i hi
    obtain ⟨x, hx, rfl⟩ := List.mem_map.mp hi
    obtain ⟨-, hx⟩ := List.mem_filter.mp hx
    exact (of_decide_eq_true hx).2.2

end Needed

/-! ## The balance -/

/-- The slots are balanced, and inputs are only recorded for requests that are there. -/
structure SlotsInv (p : SchedulerParams) (s : Scheduler) : Prop where
  balanced : s.encoderCacheManager.Balanced s.inputLength p.encoderCacheSize
  known : ∀ id, ∀ i ∈ s.encoderCacheManager.getCachedInputIds id, id ∈ s.requests.keys

section Moves

variable {p : SchedulerParams} {available : ReqId → ℕ → Bool} {s s' : Scheduler}
  {st st' : Scheduling} {id : ReqId} {r : Request}

theorem Scheduler.inputLength_congr
    (h : (s'.requests.get? id).map (·.mmPositions) = (s.requests.get? id).map (·.mmPositions)) :
    s'.inputLength id = s.inputLength id := by
  funext i
  have hmap : ∀ s : Scheduler, s.inputLength id i =
      ((s.requests.get? id).map (·.mmPositions)).elim 0 fun poss =>
        (poss[i]?).elim 0 fun pos => pos.length := by
    intro s
    rw [Scheduler.inputLength]
    cases s.requests.get? id <;> rfl
  rw [hmap, hmap, h]

theorem Scheduler.inputLength_eq {i : ℕ} (h : s.requests.get? id = some r) :
    s.inputLength id i = r.inputLength i := by
  rw [Scheduler.inputLength, h]
  rfl

/-- The same requests with the same ranges, and a balanced encoder cache. -/
theorem SlotsInv.of_balanced
    (hreq : ∀ id, (s'.requests.get? id).map (·.mmPositions) =
      (s.requests.get? id).map (·.mmPositions)) {m : EncoderCacheManager}
    (hm : m.Balanced s.inputLength p.encoderCacheSize)
    (hknown : ∀ id, ∀ i ∈ m.getCachedInputIds id, id ∈ s.requests.keys)
    (hecm : s'.encoderCacheManager.numFreeSlots = m.numFreeSlots ∧
      s'.encoderCacheManager.cached = m.cached) : SlotsInv p s' := by
  have hcached : ∀ id, s'.encoderCacheManager.getCachedInputIds id = m.getCachedInputIds id := by
    intro id
    rw [EncoderCacheManager.getCachedInputIds, hecm.2]
    rfl
  refine ⟨⟨?_, ?_, ?_⟩, fun id i hi => ?_⟩
  · rw [hecm.2]
    exact hm.ne_nil
  · intro id
    rw [hcached]
    exact hm.nodup id
  · have hlen : s'.inputLength = s.inputLength := funext fun id => Scheduler.inputLength_congr (hreq id)
    rw [hlen, EncoderCacheManager.slotsHeld, hecm.1, hecm.2]
    exact hm.slots
  · rw [hcached] at hi
    have hk := hknown id i hi
    have := congrArg Option.isSome (hreq id)
    rw [Option.isSome_map, Option.isSome_map] at this
    rw [Dict.mem_keys] at hk ⊢
    rw [this]
    exact hk

/-- **The inputs scheduled for a request are allocated**: the slots they take. -/
theorem SlotsInv.allocate (h : SlotsInv p s) (hr : s.requests.get? id = some r) (hid : r.requestId = id)
    {r' : Request} (hr' : r'.requestId = r.requestId ∧ r'.mmPositions = r.mmPositions) {nc : ℕ}
    {n : ℤ} {inputs : List ℕ} (hpre : inputs <+: s.encoderCacheManager.needed r nc n)
    {m : EncoderCacheManager}
    (hf : inputs.foldlM (fun m i => m.allocate r' i) s.encoderCacheManager = .ok m) :
    m.Balanced s.inputLength p.encoderCacheSize ∧
      (∀ id, ∀ i ∈ m.getCachedInputIds id, id ∈ s.requests.keys) ∧
      m.numFreeSlots = s.encoderCacheManager.numFreeSlots - (inputs.map r.inputLength).sum := by
  obtain ⟨hnd, hnot⟩ := s.encoderCacheManager.needed_spec r nc n
  have hlen : ∀ i, s.inputLength r'.requestId i = r.inputLength i := by
    intro i
    rw [hr'.1, hid]
    exact Scheduler.inputLength_eq hr
  have hin : ∀ i ∈ inputs, i ∉ s.encoderCacheManager.getCachedInputIds r'.requestId ∧
      ∀ pos, r'.mmPositions[i]? = some pos → s.inputLength r'.requestId i = pos.length := by
    intro i hi
    refine ⟨by rw [hr'.1]; exact hnot i (hpre.subset hi), fun pos hpos => ?_⟩
    rw [hlen]
    exact r.inputLength_eq (hr'.2 ▸ hpos)
  obtain ⟨hb, hnum⟩ := h.balanced.foldlM_allocate (hpre.sublist.nodup hnd) hin hf
  refine ⟨hb, fun id' i hi => ?_, ?_⟩
  · rw [(EncoderCacheManager.foldlM_allocate_freed hf).2] at hi
    obtain ⟨rfl, -⟩ | hi := hi
    · rw [hr'.1, hid]
      exact Dict.mem_keys_of_get? hr
    · exact h.known id' i hi
  · rw [hnum, List.map_congr_left fun i _ => hlen i]

/-- **Moves keep the balance.** -/
theorem Move.slotsInv (hw : st.WF p) (h : SlotsInv p st.sched) (hm : Move p available st st') :
    SlotsInv p st'.sched := by
  have hreq := hm.mmPositions
  cases hm with
  | reserve => exact SlotsInv.of_balanced hreq h.balanced h.known ⟨rfl, rfl⟩
  | preempt => exact SlotsInv.of_balanced hreq h.balanced h.known ⟨rfl, rfl⟩
  | grant hid hns hr hpos htry hn halloc hst =>
    obtain ⟨ecm, hf, rfl⟩ := scheduleRunning_eq_ok hst
    obtain ⟨hs, rfl⟩ := KVCacheManager.allocateSlots_request halloc
    obtain ⟨hb, hk, -⟩ := h.allocate hr (hw.sched.requestId _ _ hr) ⟨rfl, rfl⟩
      (tryScheduleEncoderInputs_needed htry).1 hf
    exact SlotsInv.of_balanced hreq hb hk ⟨rfl, rfl⟩
  | lookup hwait hc =>
    obtain ⟨_, _, -, -, rfl, -⟩ := cachedPrefix_eq_ok hc
    exact SlotsInv.of_balanced hreq h.balanced h.known ⟨rfl, rfl⟩
  | enter hwait hpre hroom hc hpos htry hn halloc hst =>
    obtain ⟨r₀, _, hr₀, -, rfl, -, -, hs₀, rfl⟩ := cachedPrefix_eq_ok hc
    obtain ⟨-, ecm, hf, rfl⟩ := scheduleWaiting_eq_ok hst
    obtain ⟨hs, rfl⟩ := KVCacheManager.allocateSlots_request halloc
    have hpre' : _ <+: st.sched.encoderCacheManager.needed r₀ _ _ :=
      (tryScheduleEncoderInputs_needed htry).1
    obtain ⟨hb, hk, -⟩ := h.allocate hr₀ (hw.sched.requestId _ _ hr₀) ⟨rfl, rfl⟩ hpre' hf
    exact SlotsInv.of_balanced hreq hb hk ⟨rfl, rfl⟩

theorem Moves.slotsInv (hm : Moves p available st st') (hw : st.WF p) (h : SlotsInv p st.sched) :
    SlotsInv p st'.sched :=
  (hm.invariant (P := fun st => st.WF p ∧ SlotsInv p st.sched)
    (fun _ _ h hm => ⟨hm.wf h.1, hm.slotsInv h.1 h.2⟩) ⟨hw, h⟩).2

theorem SlotsInv.schedule {out : SchedulerOutput} (hw : s.WF p) (h : SlotsInv p s)
    (hs : s.schedule p available = .ok (out, s')) : SlotsInv p s' := by
  obtain ⟨_, st, _, _, _, -, -, hm, -, rfl, -⟩ := schedule_eq_ok hw hs
  have hst := hm.slotsInv (Scheduling.WF.start hw) h
  exact SlotsInv.of_balanced (fun _ => rfl) hst.balanced hst.known ⟨rfl, rfl⟩

end Moves

/-! ## Updates keep the balance -/

section Updates

variable {p : SchedulerParams} {s s' : Scheduler} {id : ReqId} {r r' : Request}

/-- Inputs that are behind are released one after the other. -/
theorem releaseLoop_balanced {len : ReqId → ℕ → ℕ} {size : ℕ}
    (hlen : ∀ i pos, r.mmPositions[i]? = some pos → len r.requestId i = pos.length) :
    ∀ {l : List ℕ} {m m' : EncoderCacheManager}, m.Balanced len size → l.Nodup →
      (∀ i ∈ l, i ∈ m.getCachedInputIds r.requestId) →
      l.foldlM (fun m i => do
        let pos ← ofOption (.indexError "list index out of range") r.mmPositions[i]?
        if pos.offset + pos.length ≤ r.numComputedTokens then m.freeEncoderInput r i
        else .ok m) m = .ok m' →
      m'.Balanced len size ∧ m.numFreeSlots ≤ m'.numFreeSlots
  | [], m, m', h, _, _, hf => by
    cases hf
    exact ⟨h, Int.le_refl _⟩
  | i :: l, m, m', h, hnd, hin, hf => by
    rw [List.foldlM_cons, bind_eq_ok] at hf
    obtain ⟨m₁, h₁, hf⟩ := hf
    rw [bind_eq_ok] at h₁
    obtain ⟨pos, hpos, h₁⟩ := h₁
    obtain ⟨hi, hnd⟩ := List.nodup_cons.mp hnd
    have hstep : m₁.Balanced len size ∧ m.numFreeSlots ≤ m₁.numFreeSlots ∧
        ∀ j ∈ l, j ∈ m₁.getCachedInputIds r.requestId := by
      split_ifs at h₁
      · obtain ⟨hb, hle⟩ := h.freeEncoderInput (hin i List.mem_cons_self)
          (fun pos hpos => hlen i pos hpos) h₁
        refine ⟨hb, hle, fun j hj => ?_⟩
        rw [(EncoderCacheManager.freeEncoderInput_eq_ok m h₁).2]
        refine ⟨?_, hin j (List.mem_cons_of_mem _ hj)⟩
        rintro ⟨-, rfl⟩
        exact hi hj
      · cases h₁
        exact ⟨h, Int.le_refl _, fun j hj => hin j (List.mem_cons_of_mem _ hj)⟩
    obtain ⟨hb, hle⟩ := releaseLoop_balanced hlen hstep.1 hnd hstep.2.2 hf
    exact ⟨hb, Int.le_trans hstep.2.1 hle⟩

/-- Releasing inputs keeps the balance. -/
theorem SlotsInv.release (h : SlotsInv p s) (hr : s.requests.get? id = some r) (hid : r.requestId = id)
    {m : EncoderCacheManager} {nc : ℕ}
    (hrel : Scheduler.releaseInputs { r with numComputedTokens := nc } s.encoderCacheManager = .ok m) :
    m.Balanced s.inputLength p.encoderCacheSize ∧
      (∀ id, ∀ i ∈ m.getCachedInputIds id, id ∈ s.requests.keys) ∧
      s.encoderCacheManager.numFreeSlots ≤ m.numFreeSlots := by
  obtain ⟨l, hl, -⟩ := releaseInputs_eq_ok hrel
  have hlen : ∀ i pos, r.mmPositions[i]? = some pos → s.inputLength r.requestId i = pos.length := by
    intro i pos hpos
    rw [hid, Scheduler.inputLength_eq hr]
    exact r.inputLength_eq hpos
  obtain ⟨hb, hle⟩ := releaseLoop_balanced (r := { r with numComputedTokens := nc }) hlen h.balanced
    (h.balanced.nodup r.requestId) (fun _ hi => hi) hrel
  exact ⟨hb, fun id' i hi => h.known id' i (hl.cached id' i hi).1, hle⟩

theorem SlotsInv.drop (h : SlotsInv p s) (hd : Scheduler.Drop p s s' id r) : SlotsInv p s' := by
  have hne : ∀ id', ∀ i ∈ s.encoderCacheManager.getCachedInputIds id', id' ≠ id := by
    rintro id' i hi rfl
    rw [hd.cached] at hi
    cases hi
  rw [hd.sched]
  refine ⟨h.balanced.congr fun id' i hi => ?_, fun id' i hi => ?_⟩
  · rw [Scheduler.inputLength, Dict.get?_pop_ne _ (hne id' i hi)]
    rfl
  · exact (Dict.mem_keys_pop _ _ _).mpr ⟨hne id' i hi, h.known id' i hi⟩

/-- One round of the loop of `update_from_output`; no slots are taken in it. -/
theorem SlotsInv.updateOne {out : SchedulerOutput} {mo : ModelRunnerOutput}
    {u u' : Scheduler.Updating} {rest : List ReqId} (hw : (u.view (id :: rest)).WF p)
    (h : SlotsInv p (u.view (id :: rest))) (hu : Scheduler.updateOne p out mo u id = .ok u') :
    SlotsInv p (u'.view rest) ∧ (u.view (id :: rest)).encoderCacheManager.numFreeSlots ≤
      (u'.view rest).encoderCacheManager.numFreeSlots := by
  obtain ⟨-, hview⟩ | ⟨-, r, r₁, s₁, ts, hr, hrel, hadv, hcase⟩ := Scheduler.updateOne_view hw hu
  · rw [hview]
    exact ⟨h, Int.le_refl _⟩
  · obtain ⟨hb, hk, hle⟩ := h.release hr (hw.requestId id r hr) hrel
    obtain ⟨hs, -⟩ | hdrop := hcase
    · rw [hs]
      refine ⟨SlotsInv.of_balanced (fun id' => ?_) hb hk ⟨rfl, rfl⟩, hle⟩
      rw [hadv.sched, Dict.get?_set]
      split_ifs with he
      · have hr' : (u.view (id :: rest)).requests.get? id' = some r := he ▸ hr
        rw [hr', Option.map_some, Option.map_some, hadv.request]
      · rfl
    · have hd := Scheduler.Drop.of_advance (s := u.view (id :: rest)) hr hadv hdrop
      have h₁ : SlotsInv p { u.view (id :: rest) with
          encoderCacheManager := s₁.encoderCacheManager } :=
        SlotsInv.of_balanced (fun _ => rfl) hb hk ⟨rfl, rfl⟩
      refine ⟨h₁.drop hd, ?_⟩
      rw [hd.sched]
      exact hle

theorem SlotsInv.updateFromOutput {out : SchedulerOutput} {mo : ModelRunnerOutput}
    {outputs : List EngineCoreOutput} (hw : s.WF p) (h : SlotsInv p s)
    (hs : s.updateFromOutput p out mo = .ok (outputs, s')) :
    SlotsInv p s' ∧ s.encoderCacheManager.numFreeSlots ≤ s'.encoderCacheManager.numFreeSlots := by
  obtain ⟨u, hu, rfl⟩ := Scheduler.updateFromOutput_eq_ok hs
  have hstart : Scheduler.WF p (Scheduler.Updating.view ⟨s, [], []⟩ s.running) ∧
      SlotsInv p (Scheduler.Updating.view ⟨s, [], []⟩ s.running) ∧
      s.encoderCacheManager.numFreeSlots ≤
        (Scheduler.Updating.view ⟨s, [], []⟩ s.running).encoderCacheManager.numFreeSlots :=
    ⟨hw, h, Int.le_refl _⟩
  refine (Scheduler.update_invariant (P := fun v _ => v.WF p ∧ SlotsInv p v ∧
    s.encoderCacheManager.numFreeSlots ≤ v.encoderCacheManager.numFreeSlots) ?_ hstart hu).2
  rintro u₁ u₂ id rest ⟨hw₁, h₁, hle₁⟩ h₂
  obtain ⟨h₂', hle₂⟩ := h₁.updateOne hw₁ h₂
  exact ⟨(Scheduler.updateOne_onward hw₁ h₂).1, h₂', Int.le_trans hle₁ hle₂⟩

theorem SlotsInv.finishRequests {ids : List ReqId} {status : RequestStatus} (hw : s.WF p)
    (h : SlotsInv p s) (hs : s.finishRequests p ids status = .ok s') :
    SlotsInv p s' ∧ s'.encoderCacheManager = s.encoderCacheManager := by
  unfold Scheduler.finishRequests at hs
  rw [bind_eq_ok] at hs
  obtain ⟨_, -, hs⟩ := hs
  refine (foldlM_invariant (P := fun v : Scheduler => v.WF p ∧ SlotsInv p v ∧
    v.encoderCacheManager = s.encoderCacheManager) ?_ ⟨hw, h, rfl⟩ hs).2
  rintro s₁ id s₂ - ⟨hw₁, h₁, he₁⟩ h₂
  obtain ⟨-, rfl⟩ | ⟨r, hd⟩ := Scheduler.finishOne_eq_ok hw₁ h₂
  · exact ⟨hw₁, h₁, he₁⟩
  · refine ⟨hw₁.drop hd, h₁.drop hd, ?_⟩
    rw [hd.sched]
    exact he₁

theorem SlotsInv.addRequest (h : SlotsInv p s) (hid : r.requestId ∉ s.requests.keys) :
    SlotsInv p (s.addRequest r) := by
  refine ⟨h.balanced.congr fun id' i hi => ?_, fun id' i hi => ?_⟩
  · have hne : id' ≠ r.requestId := by
      rintro rfl
      exact hid (h.known _ i hi)
    have hget : (s.addRequest r).requests.get? id' = s.requests.get? id' := Dict.get?_set_ne _ hne _
    rw [Scheduler.inputLength, hget]
    rfl
  · exact (Dict.mem_keys_set _ _ _ _).mpr (Or.inr (h.known id' i hi))

end Updates

namespace SchedulerRun

variable {p : SchedulerParams}

/-- **Every call keeps the balance.** -/
theorem slotsInv_step {σ σ' : SchedulerRun} {e : SchedulerEvent} (hw : σ.sched.WF p)
    (h : SlotsInv p σ.sched) (hf : σ.Fresh e) (hstep : step p σ e = .ok σ') :
    SlotsInv p σ'.sched := by
  obtain ⟨r, rfl, -, hs⟩ | ⟨ids, status, rfl, -, hs⟩ | ⟨available, out, rfl, -, hs⟩ |
    ⟨mo, rfl, hs⟩ | ⟨rfl, -, hs⟩ := step_cases hstep
  · rw [hs]
    exact h.addRequest hf.2
  · exact (h.finishRequests hw hs).1
  · exact h.schedule hw hs
  · obtain rfl | ⟨out, outputs, -, -, hs⟩ := hs
    · exact h
    · exact (h.updateFromOutput hw hs).1
  · rw [hs]
    exact ⟨h.balanced, h.known⟩

/-- **The slots are balanced in every state of a run.** -/
theorem FreshRun.slotsInv {σ : SchedulerRun} (h : FreshRun p σ) : SlotsInv p σ.sched := by
  refine (h.invariant (P := fun σ => σ.sched.WF p ∧ SlotsInv p σ.sched) ?_ ?_).2
  · refine ⟨wf_init p, EncoderCacheManager.balanced_init _ _, fun id i hi => ?_⟩
    cases hi
  · rintro σ e σ' ⟨hw, hb⟩ hf hs
    exact ⟨wf_step hw hf hs, slotsInv_step hw hb hf hs⟩

end SchedulerRun

/-! ## Inputs that fit together -/

section Fit

variable {p : SchedulerParams} {available : ReqId → ℕ → Bool} {s s' : Scheduler}
  {st st' : Scheduling}

/-- Two or more needed inputs of a request that have results, that fit one by one and that are within
the budget together fit together. -/
def FitTogether (available : ReqId → ℕ → Bool) (m : EncoderCacheManager) (r : Request) (nc : ℕ)
    (n budget : ℤ) : Prop :=
  ∀ l, l <+: m.needed r nc n → 2 ≤ l.length →
    (∀ i ∈ l, (r.inputLength i : ℤ) ≤ m.numFreeSlots ∧ available r.requestId i = true) →
    ((l.map r.inputLength).sum : ℤ) ≤ budget → ((l.map r.inputLength).sum : ℤ) ≤ m.numFreeSlots

/-- The inputs of every request that a call of `schedule` looks at fit together, at the time it looks
at them. -/
structure InputsFit (p : SchedulerParams) (available : ReqId → ℕ → Bool) (s : Scheduler) : Prop where
  running : ∀ i st id r, AtRunning p available s i st → st.sched.running[i]? = some id →
    0 < st.tokenBudget → st.sched.requests.get? id = some r →
    FitTogether available st.sched.encoderCacheManager r r.numComputedTokens
      (min ((r.numTokens : ℤ) - r.numComputedTokens) st.tokenBudget) st.encoderBudget
  waiting : ∀ st id rest computed nc r st₁, AtWaiting p available s st →
    st.sched.waiting = id :: rest → 0 < st.tokenBudget →
    st.sched.running.length ≠ p.maxNumRunningReqs →
    st.cachedPrefix p id = .ok (computed, nc, r, st₁) →
    FitTogether available st.sched.encoderCacheManager r nc
      (min ((r.numTokens : ℤ) - nc) st.tokenBudget) st.encoderBudget

/-- What is scheduled for a request fits. -/
theorem FitTogether.sum_le {r : Request} {nc : ℕ} {n eb n' eb' : ℤ} {inputs : List ℕ}
    (h : FitTogether available s.encoderCacheManager r nc n eb)
    (hfree : 0 ≤ s.encoderCacheManager.numFreeSlots)
    (htry : s.tryScheduleEncoderInputs available r nc n eb = .ok (inputs, n', eb')) :
    ((inputs.map r.inputLength).sum : ℤ) ≤ s.encoderCacheManager.numFreeSlots := by
  obtain ⟨hpre, hall, hsum⟩ := tryScheduleEncoderInputs_needed htry
  match inputs with
  | [] => simpa using hfree
  | [i] => simpa using (hall i List.mem_cons_self).1
  | i :: j :: l => exact h _ hpre (by simp) hall (hsum (List.cons_ne_nil _ _))

/-- A round over `running` leaves no slots overcommitted. -/
theorem RunningRound.slots_nonneg {x y : ℕ × Scheduling} (hr : RunningRound p available x y)
    (hw : x.2.WF p) (h : SlotsInv p x.2.sched) {before after : List ReqId}
    (hp : Passed x.1 x.2 before after)
    (hfit : ∀ id r, x.2.sched.running[x.1]? = some id → 0 < x.2.tokenBudget →
      x.2.sched.requests.get? id = some r →
      FitTogether available x.2.sched.encoderCacheManager r r.numComputedTokens
        (min ((r.numTokens : ℤ) - r.numComputedTokens) x.2.tokenBudget) x.2.encoderBudget)
    (hfree : 0 ≤ x.2.sched.encoderCacheManager.numFreeSlots) :
    0 ≤ y.2.sched.encoderCacheManager.numFreeSlots := by
  cases hr with
  | pass hlook => exact hfree
  | take hlook hn htry =>
    obtain ⟨rest, hrest⟩ := hp.look hlook.here
    obtain ⟨hc, -⟩ | ⟨-, hs, hf⟩ := tryRunning_inputs hw hrest hp.scheduled hlook.known htry
    · cases hc
    · obtain ⟨-, -, hnum⟩ := h.allocate hlook.known (hw.sched.requestId _ _ hlook.known) ⟨rfl, rfl⟩
        (tryScheduleEncoderInputs_needed hlook.tries).1 hf
      rw [hnum]
      exact Int.sub_nonneg_of_le ((hfit _ _ hlook.here hlook.budget hlook.known).sum_le hfree hlook.tries)

theorem RunningEnd.slots {i : ℕ} (hr : RunningEnd p available (i, st) st') (hw : st.WF p)
    {before after : List ReqId} (hp : Passed i st before after) :
    st'.sched.encoderCacheManager = st.sched.encoderCacheManager := by
  cases hr with
  | ended => rfl
  | preempted hlook hn htry =>
    obtain ⟨rest, hrest⟩ := hp.look hlook.here
    obtain ⟨-, hc⟩ | ⟨hc, -⟩ := tryRunning_inputs hw hrest hp.scheduled hlook.known htry
    · exact hc
    · cases hc

/-- A round over `waiting` leaves no slots overcommitted. -/
theorem WaitingRound.slots_nonneg (hr : WaitingRound p available st st') (hw : st.WF p)
    (h : SlotsInv p st.sched)
    (hfit : ∀ id rest computed nc r st₁, st.sched.waiting = id :: rest → 0 < st.tokenBudget →
      st.sched.running.length ≠ p.maxNumRunningReqs →
      st.cachedPrefix p id = .ok (computed, nc, r, st₁) →
      FitTogether available st.sched.encoderCacheManager r nc
        (min ((r.numTokens : ℤ) - nc) st.tokenBudget) st.encoderBudget)
    (hfree : 0 ≤ st.sched.encoderCacheManager.numFreeSlots) :
    0 ≤ st'.sched.encoderCacheManager.numFreeSlots := by
  cases hr with
  | take hlook hn halloc hst =>
    have hfit' := hfit _ _ _ _ _ _ hlook.here hlook.budget hlook.room hlook.lookup
    have htry := hlook.tries_before
    obtain ⟨r₀, _, hr₀, -, rfl, -, -, hs₀, rfl⟩ := cachedPrefix_eq_ok hlook.lookup
    obtain ⟨-, ecm, hf, rfl⟩ := scheduleWaiting_eq_ok hst
    obtain ⟨hs, rfl⟩ := KVCacheManager.allocateSlots_request halloc
    have hpre : _ <+: st.sched.encoderCacheManager.needed r₀ _ _ :=
      (tryScheduleEncoderInputs_needed htry).1
    obtain ⟨-, -, hnum⟩ := h.allocate hr₀ (hw.sched.requestId _ _ hr₀) ⟨rfl, rfl⟩ hpre hf
    have hle := hfit'.sum_le hfree htry
    change 0 ≤ ecm.numFreeSlots
    rw [hnum]
    exact Int.sub_nonneg_of_le hle

theorem WaitingEnd.slots (hr : WaitingEnd p available st st') :
    st'.sched.encoderCacheManager = st.sched.encoderCacheManager := by
  cases hr with
  | ended => rfl
  | pass hlook =>
    obtain ⟨_, _, -, -, rfl, -⟩ := cachedPrefix_eq_ok hlook.lookup
    rfl
  | refused hlook =>
    obtain ⟨_, _, -, -, rfl, -⟩ := cachedPrefix_eq_ok hlook.lookup
    rfl

/-- The slots where a round over `running` begins. -/
theorem AtRunning.slots_nonneg (hw : s.WF p) (h : SlotsInv p s) (hfit : InputsFit p available s)
    (hfree : 0 ≤ s.encoderCacheManager.numFreeSlots) {i : ℕ} (hat : AtRunning p available s i st) :
    0 ≤ st.sched.encoderCacheManager.numFreeSlots := by
  have hind : ∀ x : ℕ × Scheduling,
      Relation.ReflTransGen (RunningRound p available) (0, Scheduling.start p s) x →
      0 ≤ x.2.sched.encoderCacheManager.numFreeSlots := by
    intro x hx
    induction hx with
    | refl => exact hfree
    | @tail x y hx hr ih =>
      obtain ⟨hm, hw₁, before, after, hp⟩ := AtRunning.moves hw (show AtRunning p available s x.1 x.2
        from hx)
      exact hr.slots_nonneg hw₁ (hm.slotsInv (Scheduling.WF.start hw) h) hp
        (fun id r hid hb hr => hfit.running x.1 x.2 id r hx hid hb hr) ih
  exact hind (i, st) hat

/-- The slots where a round over `waiting` begins. -/
theorem AtWaiting.slots_nonneg (hw : s.WF p) (h : SlotsInv p s) (hfit : InputsFit p available s)
    (hfree : 0 ≤ s.encoderCacheManager.numFreeSlots) (hat : AtWaiting p available s st) :
    0 ≤ st.sched.encoderCacheManager.numFreeSlots := by
  obtain ⟨i, st₀, st₁, h₀, hend, hpre, hrounds⟩ := hat
  obtain ⟨-, hw₀, before, after, hp⟩ := h₀.moves hw
  induction hrounds with
  | refl =>
    rw [hend.slots hw₀ hp]
    exact h₀.slots_nonneg hw h hfit hfree
  | @tail st₂ st₃ hrounds hr ih =>
    have hat : AtWaiting p available s st₂ := ⟨i, st₀, st₁, h₀, hend, hpre, hrounds⟩
    obtain ⟨hm, hw₂, -⟩ := hat.moves hw
    refine hr.slots_nonneg hw₂ (hm.slotsInv (Scheduling.WF.start hw) h) ?_ ih
    exact fun id rest computed nc r st₁ => hfit.waiting st₂ id rest computed nc r st₁ hat

/-- **A call of `schedule` overcommits no slots** if the inputs it schedules for each request fit
together. -/
theorem schedule_slots_nonneg (hw : s.WF p) (h : SlotsInv p s) (hfit : InputsFit p available s)
    (hfree : 0 ≤ s.encoderCacheManager.numFreeSlots) {out : SchedulerOutput}
    (hs : s.schedule p available = .ok (out, s')) : 0 ≤ s'.encoderCacheManager.numFreeSlots := by
  obtain ⟨st₀, st, _, _, _, hl, heq, -, -, rfl, -⟩ := schedule_eq_ok hw hs
  have hecm : st.sched.encoderCacheManager = st₀.sched.encoderCacheManager := by rw [heq]
  change 0 ≤ st.sched.encoderCacheManager.numFreeSlots
  rw [hecm]
  obtain ⟨i, st₁, st₂, hat, hend, hcase⟩ := loops_rounds hl
  obtain ⟨-, hw₁, before, after, hp⟩ := hat.moves hw
  obtain ⟨-, rfl⟩ | ⟨hpre, st₃, hrounds, hend'⟩ := hcase
  · rw [hend.slots hw₁ hp]
    exact hat.slots_nonneg hw h hfit hfree
  · rw [hend'.slots]
    exact AtWaiting.slots_nonneg hw h hfit hfree ⟨i, st₁, st₂, hat, hend, hpre, hrounds⟩

/-- Requests with one input at most: their inputs fit together. -/
theorem InputsFit.of_single (hw : s.WF p)
    (hone : ∀ id r, s.requests.get? id = some r → r.mmPositions.length ≤ 1) :
    InputsFit p available s := by
  have hfit : ∀ (m : EncoderCacheManager) (r : Request) (nc : ℕ) (n budget : ℤ),
      r.mmPositions.length ≤ 1 → FitTogether available m r nc n budget := by
    intro m r nc n budget hr l hl hlen
    have h1 := hl.length_le
    have h2 : (m.needed r nc n).length ≤ (r.mmPositions.zipIdx 0).length := by
      rw [EncoderCacheManager.needed, EncoderCacheManager.neededFrom, List.length_map]
      exact List.length_filter_le _ _
    rw [List.length_zipIdx] at h2
    omega
  have hreq : ∀ {st : Scheduling}, Moves p available (Scheduling.start p s) st → ∀ id r,
      st.sched.requests.get? id = some r → r.mmPositions.length ≤ 1 := by
    intro st hm
    refine hm.invariant (P := fun st => ∀ id r, st.sched.requests.get? id = some r →
      r.mmPositions.length ≤ 1) (fun st₁ st₂ h₁ hm₁ id r hr => ?_) hone
    have hmm := hm₁.mmPositions id
    rw [hr, Option.map_some] at hmm
    obtain ⟨r₁, hr₁, he⟩ := Option.map_eq_some_iff.mp hmm.symm
    rw [← he]
    exact h₁ id r₁ hr₁
  refine ⟨fun i st id r hat _ _ hr => hfit _ _ _ _ _ (hreq (hat.moves hw).1 id r hr), ?_⟩
  intro st id rest computed nc r st₁ hat _ _ _ hc
  obtain ⟨r₀, _, hr₀, -, -, -, -, hs, rfl⟩ := cachedPrefix_eq_ok hc
  exact hfit _ _ _ _ _ (hreq (hat.moves hw).1 id r₀ hr₀)

end Fit

namespace SchedulerRun

variable (p : SchedulerParams)

/-- The runs in which the inputs scheduled for each request fit together. -/
def FittingRun : SchedulerRun → Prop :=
  Reachable (fun σ e => step p σ e) (fun σ e => σ.Fresh e ∧
    ∀ available, e = .schedule available → InputsFit p available σ.sched) (init p)

variable {p}

/-- Runs on requests with one input at most. -/
theorem FittingRun.of_single {σ : SchedulerRun}
    (h : Reachable (fun σ e => step p σ e) (fun σ e => σ.Fresh e ∧ ∀ id ∈ σ.sched.requests.keys,
      ∀ r ∈ σ.sched.requests.get? id, r.mmPositions.length ≤ 1) (init p) σ) : FittingRun p σ := by
  refine h.strengthen (P := fun σ => σ.sched.WF p) (wf_init p) ?_ ?_
  · exact fun σ e σ' hw ha hs => wf_step hw ha.1 hs
  · rintro σ e hw ⟨hf, hone⟩
    refine ⟨hf, fun available _ => InputsFit.of_single hw fun id r hr => ?_⟩
    exact hone id (Dict.mem_keys_of_get? hr) r hr

/-- **In these runs the slots suffice.** -/
theorem FittingRun.slots_nonneg {σ : SchedulerRun} (h : FittingRun p σ) :
    0 ≤ σ.sched.encoderCacheManager.numFreeSlots := by
  refine (h.invariant (P := fun σ => σ.sched.WF p ∧ SlotsInv p σ.sched ∧
    0 ≤ σ.sched.encoderCacheManager.numFreeSlots) ?_ ?_).2.2
  · refine ⟨wf_init p, ⟨EncoderCacheManager.balanced_init _ _, fun id i hi => ?_⟩,
      Int.natCast_nonneg _⟩
    cases hi
  · rintro σ e σ' ⟨hw, hb, hfree⟩ ⟨hf, hfit⟩ hstep
    refine ⟨wf_step hw hf hstep, slotsInv_step hw hb hf hstep, ?_⟩
    obtain ⟨r, rfl, -, hs⟩ | ⟨ids, status, rfl, -, hs⟩ | ⟨available, out, rfl, -, hs⟩ |
      ⟨mo, rfl, hs⟩ | ⟨rfl, -, hs⟩ := step_cases hstep
    · rw [hs]
      exact hfree
    · rw [(hb.finishRequests hw hs).2]
      exact hfree
    · exact schedule_slots_nonneg hw hb (hfit available rfl) hfree hs
    · obtain rfl | ⟨out, outputs, -, -, hs⟩ := hs
      · exact hfree
      · exact Int.le_trans hfree (hb.updateFromOutput hw hs).2
    · rw [hs]
      exact hfree

end SchedulerRun

/-! ## Both schedulers -/

/-- **The slots of the encoder cache.** `num_free_slots` is what the recorded inputs leave of the
cache; it is not negative in the runs that allocate no inputs that do not fit together. -/
theorem encoder_slots (p : SchedulerParams) (q : EncoderSchedulerParams) :
    (∀ σ, SchedulerRun.FreshRun p σ → σ.sched.encoderCacheManager.numFreeSlots =
      p.encoderCacheSize - σ.sched.encoderCacheManager.slotsHeld σ.sched.inputLength) ∧
    (∀ σ, SchedulerRun.FittingRun p σ → 0 ≤ σ.sched.encoderCacheManager.numFreeSlots) ∧
    ∀ s, EncoderScheduler.FittingRun q s →
      s.encoderCacheManager.numFreeSlots =
        q.encoderCacheSize - s.encoderCacheManager.slotsHeld s.inputLength ∧
      0 ≤ s.encoderCacheManager.numFreeSlots := by
  refine ⟨fun σ hσ => ?_, fun σ hσ => hσ.slots_nonneg, fun s hs => ⟨?_, hs.slots.nonneg⟩⟩
  · have := hσ.slotsInv.balanced.slots
    omega
  · have := hs.slots.balanced.slots
    omega

section Examples

/-- Both budgets are of eight slots, and at most seven tokens are scheduled at once. -/
def eightSlots : SchedulerParams where
  kv := { KVCacheManager.sixBlocks with
    numGpuBlocks := 16
    maxModelLen := 16
    enableCaching := false
    numGpuBlocks_pos := by decide }
  maxNumRunningReqs := 2
  maxNumScheduledTokens := 7
  maxNumEncoderInputTokens := 8
  encoderCacheSize := 8

/-- The encoder scheduler with the same budgets. -/
def eightEncoderSlots : EncoderSchedulerParams := ⟨2, 8, 8⟩

/-- An image of six tokens is half computed when two images of two tokens are looked at: each of them
fits. -/
def overcommittedRun : List SchedulerEvent :=
  [.addRequest (.ofPrompt "a" [1, 2, 3, 4, 5, 6, 7, 8] [⟨2, 6⟩]),
    .schedule fun _ _ => true,
    .updateFromOutput ⟨Dict.empty.set "a" 0, [9]⟩,
    .addRequest (.ofPrompt "b" [1, 2, 3, 4, 5] [⟨0, 2⟩, ⟨2, 2⟩]),
    .schedule fun _ _ => true]

/-- **The slots of both schedulers can be overcommitted.** -/
theorem encoder_slots_overcommitted :
    (∃ σ, SchedulerRun.FreshRun eightSlots σ ∧ σ.sched.encoderCacheManager.numFreeSlots = -2) ∧
    ∃ s, Reachable (fun s e => EncoderScheduler.next eightEncoderSlots s e) (fun _ _ => True)
        (EncoderScheduler.init eightEncoderSlots) s ∧
      s.encoderCacheManager.numFreeSlots = -4 := by
  constructor
  · exact exists_reachable _ _ _ overcommittedRun _ (by decide +kernel)
  · exact exists_reachable _ _ _
      [.addRequest (.ofPrompt "a" [1, 2, 3, 4, 5, 6] [⟨0, 6⟩]),
        .addRequest (.ofPrompt "b" [1, 2, 3, 4, 5, 6] [⟨0, 6⟩]), .schedule, .schedule]
      _ (by decide +kernel)

theorem encoder_slots_one_image :
    (∃ σ, SchedulerRun.FittingRun eightSlots σ ∧
      σ.sched.encoderCacheManager.cached.entries = [("a", [0])] ∧
      σ.sched.encoderCacheManager.numFreeSlots =
        8 - σ.sched.encoderCacheManager.slotsHeld σ.sched.inputLength ∧
      0 ≤ σ.sched.encoderCacheManager.numFreeSlots) ∧
    ∃ s, EncoderScheduler.FittingRun eightEncoderSlots s ∧
      s.encoderCacheManager.cached.entries = [("a", [0])] ∧
      s.encoderCacheManager.numFreeSlots =
        8 - s.encoderCacheManager.slotsHeld s.inputLength ∧
      0 ≤ s.encoderCacheManager.numFreeSlots := by
  obtain ⟨heq, hle, henc⟩ := encoder_slots eightSlots eightEncoderSlots
  constructor
  · obtain ⟨σ, hσ, hcached⟩ := exists_reachable (fun σ e => SchedulerRun.step eightSlots σ e)
      (fun σ e => σ.Fresh e ∧ ∀ id ∈ σ.sched.requests.keys, ∀ r ∈ σ.sched.requests.get? id,
        r.mmPositions.length ≤ 1) (SchedulerRun.init eightSlots)
      [.addRequest (.ofPrompt "a" [1, 2, 3, 4, 5, 6, 7, 8] [⟨2, 6⟩]), .schedule fun _ _ => true]
      (fun σ => σ.sched.encoderCacheManager.cached.entries = [("a", [0])]) (by decide +kernel)
    have hfit := SchedulerRun.FittingRun.of_single hσ
    exact ⟨σ, hfit, hcached, heq σ (hσ.mono fun _ _ h => h.1), hle σ hfit⟩
  · obtain ⟨s, hs, hcached⟩ := exists_reachable
      (fun s e => EncoderScheduler.next eightEncoderSlots s e)
      (EncoderScheduler.Fits eightEncoderSlots) (EncoderScheduler.init eightEncoderSlots)
      [.addRequest (.ofPrompt "a" [1, 2, 3, 4, 5, 6] [⟨0, 6⟩]), .schedule]
      (fun s => s.encoderCacheManager.cached.entries = [("a", [0])]) (by decide +kernel)
    exact ⟨s, hs, hcached, henc s hs⟩

end Examples

end SpaceServe
