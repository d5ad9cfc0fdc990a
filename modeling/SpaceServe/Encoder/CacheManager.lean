import SpaceServe.Lib.Dict
import SpaceServe.Request

/-!
# The encoder cache manager

`EncoderCacheManager` of `vllm/v1/core/encoder_cache_manager.py`: which encoder outputs the decoder
still needs, and which it has released since the last scheduling step.

Sets of input ids are lists without repetitions, in the order of insertion.

* `hasCache`, `canAllocate`, `allocate`, `getCachedInputIds`, `freeEncoderInput`, `free`,
  `getFreedIds`;
* `slotsHeld`, `Balanced`: the slots of the recorded inputs and `num_free_slots`;
* `Balanced.foldlM_allocate`, `Balanced.freeEncoderInput`;
* `free_eq_ok`: `free` only returns when there is nothing to free, since it changes the set it
  iterates over.
-/

set_option autoImplicit false

namespace SpaceServe

open Py

/-- `EncoderCacheManager`. -/
structure EncoderCacheManager where
  numFreeSlots : ℤ
  cached : Dict ReqId (List ℕ)
  freed : List (ReqId × ℕ)
deriving DecidableEq

namespace EncoderCacheManager

/-- `EncoderCacheManager.__init__`. -/
def init (cacheSize : ℕ) : EncoderCacheManager :=
  { numFreeSlots := cacheSize, cached := .empty, freed := [] }

variable (m : EncoderCacheManager)

/-- `get_cached_input_ids`. -/
def getCachedInputIds (id : ReqId) : List ℕ := (m.cached.get? id).getD []

/-- `has_cache`. -/
def hasCache (id : ReqId) (inputId : ℕ) : Bool := decide (inputId ∈ m.getCachedInputIds id)

/-- `can_allocate`. -/
def canAllocate (request : Request) (inputId : ℕ) : Except Exn Bool := do
  let numTokens ← request.getNumEncoderTokens inputId
  .ok (decide (numTokens ≤ m.numFreeSlots))

/-- `set.add`. -/
def addId (l : List ℕ) (i : ℕ) : List ℕ := if i ∈ l then l else l ++ [i]

/-- `allocate`. -/
def allocate (request : Request) (inputId : ℕ) : Except Exn EncoderCacheManager := do
  let numTokens ← request.getNumEncoderTokens inputId
  .ok { m with
    cached := m.cached.set request.requestId
      (addId (m.getCachedInputIds request.requestId) inputId)
    numFreeSlots := m.numFreeSlots - numTokens }

/-- `free_encoder_input`. -/
def freeEncoderInput (request : Request) (inputId : ℕ) : Except Exn EncoderCacheManager :=
  match m.cached.get? request.requestId with
  | none => .ok m
  | some ids => do
    let ids := ids.filter (· ≠ inputId)
    let cached := if ids = [] then m.cached.pop request.requestId
      else m.cached.set request.requestId ids
    let numTokens ← request.getNumEncoderTokens inputId
    .ok { cached := cached, numFreeSlots := m.numFreeSlots + numTokens,
          freed := m.freed ++ [(request.requestId, inputId)] }

/-- `free`. It iterates over the set that `free_encoder_input` shrinks, so that the iterator raises
after the first element. -/
def free (request : Request) : Except Exn EncoderCacheManager :=
  match m.getCachedInputIds request.requestId with
  | [] => .ok m
  | inputId :: _ => do
    let _ ← m.freeEncoderInput request inputId
    .error (.runtimeError "Set changed size during iteration")

/-- `get_freed_ids`. -/
def getFreedIds : List (ReqId × ℕ) × EncoderCacheManager := (m.freed, { m with freed := [] })

theorem free_eq_ok {request : Request} {m' : EncoderCacheManager}
    (h : m.free request = .ok m') : m' = m ∧ m.getCachedInputIds request.requestId = [] := by
  unfold free at h
  split at h
  · cases h
    exact ⟨rfl, by assumption⟩
  · rw [bind_eq_ok] at h
    obtain ⟨_, _, h⟩ := h
    cases h

theorem canAllocate_eq {request : Request} {i : ℕ} {pos : PlaceholderRange}
    (h : request.mmPositions[i]? = some pos) :
    m.canAllocate request i = .ok (decide ((pos.length : ℤ) ≤ m.numFreeSlots)) := by
  unfold canAllocate Request.getNumEncoderTokens
  rw [h]
  rfl

/-- Inputs of a request can be allocated. -/
theorem foldlM_allocate_returns {r : Request} {inputs : List ℕ}
    (h : ∀ i ∈ inputs, ∃ pos, r.mmPositions[i]? = some pos) (m : EncoderCacheManager) :
    ∃ m', inputs.foldlM (fun m i => m.allocate r i) m = .ok m' := by
  have hstep : ∀ (m : EncoderCacheManager) (i : ℕ), i ∈ inputs → True →
      ∃ m', m.allocate r i = .ok m' ∧ True := by
    intro m i hi _
    obtain ⟨pos, hpos⟩ := h i hi
    unfold EncoderCacheManager.allocate Request.getNumEncoderTokens
    rw [hpos]
    exact ⟨_, rfl, trivial⟩
  obtain ⟨m', hm', -⟩ := foldlM_total (P := fun _ => True) hstep (s := m) trivial
  exact ⟨m', hm'⟩

theorem mem_addId (l : List ℕ) (i j : ℕ) : j ∈ addId l i ↔ j = i ∨ j ∈ l := by
  unfold addId
  split_ifs with h
  · constructor
    · exact Or.inr
    · rintro (rfl | hj)
      · exact h
      · exact hj
  · rw [List.mem_append, List.mem_singleton, or_comm]

theorem hasCache_iff (id : ReqId) (i : ℕ) : m.hasCache id i = true ↔ i ∈ m.getCachedInputIds id := by
  rw [hasCache, decide_eq_true_eq]

/-- What `allocate` has done. -/
theorem allocate_eq_ok {request : Request} {i : ℕ} {m' : EncoderCacheManager}
    (h : m.allocate request i = .ok m') :
    m'.freed = m.freed ∧ ∀ id j, j ∈ m'.getCachedInputIds id ↔
      (id = request.requestId ∧ j = i) ∨ j ∈ m.getCachedInputIds id := by
  unfold allocate at h
  rw [bind_eq_ok] at h
  obtain ⟨_, _, h⟩ := h
  cases h
  refine ⟨rfl, fun id j => ?_⟩
  simp only [getCachedInputIds]
  rw [Dict.get?_set]
  split_ifs with he
  · subst he
    rw [Option.getD_some, mem_addId]
    simp
  · simp [he]

/-- Allocating encoder inputs frees none. -/
theorem foldlM_allocate_freed {request : Request} : ∀ {inputs : List ℕ}
    {m m' : EncoderCacheManager}, inputs.foldlM (fun m i => m.allocate request i) m = .ok m' →
    m'.freed = m.freed ∧ ∀ id j, j ∈ m'.getCachedInputIds id ↔
      (id = request.requestId ∧ j ∈ inputs) ∨ j ∈ m.getCachedInputIds id
  | [], m, m', h => by cases h; simp
  | i :: inputs, m, m', h => by
    rw [List.foldlM_cons, bind_eq_ok] at h
    obtain ⟨m₁, h1, h⟩ := h
    obtain ⟨hf₁, hm₁⟩ := allocate_eq_ok m h1
    obtain ⟨hf, hm⟩ := foldlM_allocate_freed h
    refine ⟨hf.trans hf₁, fun id j => ?_⟩
    rw [hm, hm₁, List.mem_cons]
    tauto

/-- What `free_encoder_input` has done: the input is no longer cached, and the pair was added to
`freed` if the request had cached inputs. -/
theorem freeEncoderInput_eq_ok {request : Request} {i : ℕ} {m' : EncoderCacheManager}
    (h : m.freeEncoderInput request i = .ok m') :
    (m'.freed = m.freed ∨ m'.freed = m.freed ++ [(request.requestId, i)]) ∧
      ∀ id j, j ∈ m'.getCachedInputIds id ↔
        ¬ (id = request.requestId ∧ j = i) ∧ j ∈ m.getCachedInputIds id := by
  unfold freeEncoderInput at h
  cases hg : m.cached.get? request.requestId with
  | none =>
    rw [hg] at h
    cases h
    refine ⟨Or.inl rfl, fun id j => ⟨fun hj => ⟨?_, hj⟩, fun hj => hj.2⟩⟩
    rintro ⟨rfl, -⟩
    rw [getCachedInputIds, hg] at hj
    exact List.not_mem_nil hj
  | some ids =>
    simp only [hg, bind_eq_ok] at h
    obtain ⟨_, _, h⟩ := h
    cases h
    refine ⟨Or.inr rfl, fun id j => ?_⟩
    simp only [getCachedInputIds]
    by_cases he : id = request.requestId
    · subst he
      split_ifs with hemp
      · rw [Dict.get?_pop_self, hg]
        have : j ∈ ids → j = i := fun hj => by
          by_contra hne
          have hm : j ∈ ids.filter (· ≠ i) := List.mem_filter.mpr ⟨hj, by simpa using hne⟩
          rw [hemp] at hm
          cases hm
        simpa using fun hne hj => hne (this hj)
      · rw [Dict.get?_set_self, hg]
        simp [and_comm]
    · split_ifs with hemp
      · rw [Dict.get?_pop_ne _ he]; simp [he]
      · rw [Dict.get?_set_ne _ he]; simp [he]

/-! ## The balance of the slots -/

section Slots

variable {m : EncoderCacheManager} {len : ReqId → ℕ → ℕ} {size : ℕ}

/-- The slots of the inputs recorded in `cached`, when the input `i` of `id` has length `len id i`. -/
def slotsHeld (m : EncoderCacheManager) (len : ReqId → ℕ → ℕ) : ℕ :=
  m.cached.totalOf fun id ids => (ids.map (len id)).sum

/-- No slots are held if no inputs are recorded. -/
theorem slotsHeld_eq_zero {m : EncoderCacheManager} {len : ReqId → ℕ → ℕ}
    (h : ∀ id, m.getCachedInputIds id = []) : m.slotsHeld len = 0 := by
  have hzero : m.slotsHeld len = m.cached.totalOf fun _ _ => 0 := by
    refine Dict.totalOf_congr fun id ids hg => ?_
    have hnil := h id
    rw [getCachedInputIds, hg, Option.getD_some] at hnil
    rw [hnil]
    rfl
  rw [hzero, Dict.totalOf]
  simp

/-- Recorded inputs are recorded once, and `num_free_slots` is what they leave of the cache. -/
structure Balanced (m : EncoderCacheManager) (len : ReqId → ℕ → ℕ) (size : ℕ) : Prop where
  ne_nil : ∀ id ids, m.cached.get? id = some ids → ids ≠ []
  nodup : ∀ id, (m.getCachedInputIds id).Nodup
  slots : m.numFreeSlots + m.slotsHeld len = size

theorem balanced_init (len : ReqId → ℕ → ℕ) (size : ℕ) : (init size).Balanced len size where
  ne_nil _ _ h := by cases h
  nodup _ := List.nodup_nil
  slots := Int.add_zero _

theorem Balanced.congr {len' : ReqId → ℕ → ℕ} (h : m.Balanced len size)
    (hlen : ∀ id, ∀ i ∈ m.getCachedInputIds id, len' id i = len id i) : m.Balanced len' size := by
  refine ⟨h.ne_nil, h.nodup, ?_⟩
  have hheld : m.slotsHeld len' = m.slotsHeld len := by
    refine Dict.totalOf_congr fun id ids hg => ?_
    refine congrArg List.sum (List.map_congr_left fun i hi => hlen id i ?_)
    rw [getCachedInputIds, hg]
    exact hi
  rw [hheld]
  exact h.slots

/-- What the recorded inputs of one request take. -/
theorem slotsHeld_set (len : ReqId → ℕ → ℕ) (id : ReqId) (ids : List ℕ) :
    (m.cached.set id ids).totalOf (fun id ids => (ids.map (len id)).sum) +
        ((m.getCachedInputIds id).map (len id)).sum =
      m.slotsHeld len + (ids.map (len id)).sum := by
  have h := Dict.totalOf_set (fun id ids => (ids.map (len id)).sum) m.cached id ids
  have hget : (m.cached.get? id).elim 0 (fun ids => (ids.map (len id)).sum) =
      ((m.getCachedInputIds id).map (len id)).sum := by
    rw [getCachedInputIds]
    cases m.cached.get? id <;> rfl
  rw [← hget]
  exact h

theorem getNumEncoderTokens_eq_ok {request : Request} {i n : ℕ}
    (h : request.getNumEncoderTokens i = .ok n) :
    ∃ pos, request.mmPositions[i]? = some pos ∧ n = pos.length := by
  unfold Request.getNumEncoderTokens at h
  split at h
  · rename_i pos hpos
    cases h
    exact ⟨pos, hpos, rfl⟩
  · cases h

/-- A new input is allocated. -/
theorem Balanced.allocate (h : m.Balanced len size) {request : Request} {i : ℕ}
    {m' : EncoderCacheManager} (hi : i ∉ m.getCachedInputIds request.requestId)
    (hlen : ∀ pos, request.mmPositions[i]? = some pos → len request.requestId i = pos.length)
    (ha : m.allocate request i = .ok m') :
    m'.Balanced len size ∧ m'.numFreeSlots = m.numFreeSlots - len request.requestId i := by
  unfold EncoderCacheManager.allocate at ha
  rw [bind_eq_ok] at ha
  obtain ⟨n, hn, ha⟩ := ha
  obtain ⟨pos, hpos, rfl⟩ := getNumEncoderTokens_eq_ok hn
  cases ha
  rw [hlen pos hpos]
  have hadd : addId (m.getCachedInputIds request.requestId) i =
      m.getCachedInputIds request.requestId ++ [i] := if_neg hi
  refine ⟨⟨fun id ids hg => ?_, fun id => ?_, ?_⟩, rfl⟩
  · rw [Dict.get?_set] at hg
    split_ifs at hg
    · cases hg
      rw [hadd]
      exact List.concat_ne_nil i _
    · exact h.ne_nil id ids hg
  · simp only [getCachedInputIds]
    rw [Dict.get?_set]
    split_ifs with he
    · subst he
      rw [Option.getD_some, ← getCachedInputIds, hadd, ← List.concat_eq_append]
      exact (h.nodup _).concat hi
    · exact h.nodup id
  · have h1 := slotsHeld_set (m := m) len request.requestId
      (addId (m.getCachedInputIds request.requestId) i)
    have h2 := h.slots
    rw [hadd, List.map_append, List.sum_append, List.map_singleton, List.sum_singleton,
      hlen pos hpos, ← hadd] at h1
    simp only [slotsHeld] at h1 h2 ⊢
    omega

/-- A recorded input is freed. -/
theorem Balanced.freeEncoderInput (h : m.Balanced len size) {request : Request} {i : ℕ}
    {m' : EncoderCacheManager} (hi : i ∈ m.getCachedInputIds request.requestId)
    (hlen : ∀ pos, request.mmPositions[i]? = some pos → len request.requestId i = pos.length)
    (hf : m.freeEncoderInput request i = .ok m') :
    m'.Balanced len size ∧ m.numFreeSlots ≤ m'.numFreeSlots := by
  unfold EncoderCacheManager.freeEncoderInput at hf
  cases hg : m.cached.get? request.requestId with
  | none =>
    rw [getCachedInputIds, hg] at hi
    cases hi
  | some ids =>
    have hids : m.getCachedInputIds request.requestId = ids := by rw [getCachedInputIds, hg]; rfl
    have hnd := h.nodup request.requestId
    rw [hids] at hi hnd
    simp only [hg, bind_eq_ok] at hf
    obtain ⟨n, hn, hf⟩ := hf
    obtain ⟨pos, hpos, rfl⟩ := getNumEncoderTokens_eq_ok hn
    have herase : ids.filter (· ≠ i) = ids.erase i := by
      rw [hnd.erase_eq_filter]
      refine List.filter_congr fun j _ => ?_
      simp [bne, BEq.beq]
    have hsum : ((ids.erase i).map (len request.requestId)).sum + pos.length =
        (ids.map (len request.requestId)).sum := by
      have h1 := (List.perm_cons_erase hi).map (len request.requestId)
      rw [h1.sum_eq, List.map_cons, List.sum_cons, hlen pos hpos, Nat.add_comm]
    have h2 := h.slots
    rw [herase] at hf
    by_cases hemp : ids.erase i = []
    · simp only [if_pos hemp] at hf
      cases hf
      have h1 := Dict.totalOf_pop (fun id ids => (ids.map (len id)).sum) m.cached request.requestId
      rw [hg, Option.elim_some, ← hsum, hemp, List.map_nil, List.sum_nil] at h1
      refine ⟨⟨fun id ids' hg' => ?_, fun id => ?_, ?_⟩, by dsimp only; omega⟩
      · rw [Dict.get?_pop] at hg'
        split_ifs at hg'
        exact h.ne_nil id ids' hg'
      · simp only [getCachedInputIds]
        rw [Dict.get?_pop]
        split_ifs
        · exact List.nodup_nil
        · exact h.nodup id
      · simp only [slotsHeld] at h1 h2 ⊢
        omega
    · simp only [if_neg hemp] at hf
      cases hf
      have h1 := slotsHeld_set (m := m) len request.requestId (ids.erase i)
      rw [hids, ← hsum] at h1
      refine ⟨⟨fun id ids' hg' => ?_, fun id => ?_, ?_⟩, by dsimp only; omega⟩
      · rw [Dict.get?_set] at hg'
        split_ifs at hg'
        · cases hg'
          exact hemp
        · exact h.ne_nil id ids' hg'
      · simp only [getCachedInputIds]
        rw [Dict.get?_set]
        split_ifs
        · exact hnd.erase i
        · exact h.nodup id
      · simp only [slotsHeld] at h1 h2 ⊢
        omega

/-- **New inputs of one request are allocated**: the slots they take. -/
theorem Balanced.foldlM_allocate {request : Request} : ∀ {inputs : List ℕ}
    {m m' : EncoderCacheManager}, m.Balanced len size → inputs.Nodup →
    (∀ i ∈ inputs, i ∉ m.getCachedInputIds request.requestId ∧
      ∀ pos, request.mmPositions[i]? = some pos → len request.requestId i = pos.length) →
    inputs.foldlM (fun m i => m.allocate request i) m = .ok m' →
    m'.Balanced len size ∧
      m'.numFreeSlots = m.numFreeSlots - (inputs.map (len request.requestId)).sum
  | [], m, m', h, _, _, ha => by
    cases ha
    exact ⟨h, by simp⟩
  | i :: inputs, m, m', h, hnd, hin, ha => by
    rw [List.foldlM_cons, bind_eq_ok] at ha
    obtain ⟨m₁, h1, ha⟩ := ha
    obtain ⟨hi, hnd⟩ := List.nodup_cons.mp hnd
    obtain ⟨hb₁, hn₁⟩ := h.allocate (hin i List.mem_cons_self).1 (hin i List.mem_cons_self).2 h1
    have hcached := (EncoderCacheManager.allocate_eq_ok m h1).2
    have hnot : ∀ j ∈ inputs, j ∉ m₁.getCachedInputIds request.requestId := by
      intro j hj hm
      obtain ⟨-, rfl⟩ | hm := (hcached _ _).mp hm
      · exact hi hj
      · exact (hin j (List.mem_cons_of_mem _ hj)).1 hm
    obtain ⟨hb, hn⟩ := Balanced.foldlM_allocate hb₁ hnd
      (fun j hj => ⟨hnot j hj, (hin j (List.mem_cons_of_mem _ hj)).2⟩) ha
    refine ⟨hb, ?_⟩
    rw [hn, hn₁, List.map_cons, List.sum_cons]
    push_cast
    omega

end Slots

end EncoderCacheManager

end SpaceServe
