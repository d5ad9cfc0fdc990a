import Mathlib.Data.List.MinMax
import Mathlib.Tactic.Common
import SpaceServe.Lib.Exec

/-!
# Priority queues with outdated entries

A heap is the list of its items; popping takes a smallest one. Where items become outdated while they
are in the heap, they are popped and dropped until one comes that is still live.

* `heappush`, `heappop`, `heappopLive`;
* `heappop_cases`: popping takes a least item;
* **`heappopLive_spec`**: what comes is a least live item, and no other live item is lost;
* `heappopLive_dead`: with no live item the heap runs empty.
-/

set_option autoImplicit false

namespace Py

variable {α : Type} [LinearOrder α]

/-- `heapq.heappush`. -/
def heappush (heap : List α) (item : α) : List α := item :: heap

/-- `heapq.heappop`. -/
def heappop (heap : List α) : Except Exn (α × List α) :=
  match heap.argmin id with
  | some item => .ok (item, heap.erase item)
  | none => .error (.indexError "index out of range")

/-- Pop until an item is live, for at most `fuel` items. `none` when the heap runs empty. -/
def heappopLive (live : α → Bool) : ℕ → List α → Except Exn (Option (α × List α))
  | 0, heap => if heap = [] then .ok none else .error .diverges
  | fuel + 1, heap =>
    if heap = [] then .ok none
    else do
      let (item, heap) ← heappop heap
      if live item then .ok (some (item, heap)) else heappopLive live fuel heap

variable {heap rest : List α} {item : α} {live : α → Bool}

omit [LinearOrder α] in
theorem mem_heappush {item' : α} : item' ∈ heappush heap item ↔ item' = item ∨ item' ∈ heap :=
  List.mem_cons

/-- The next item of a heap that is not empty: a least one. -/
theorem heappop_cases (hne : heap ≠ []) : ∃ item, heappop heap = .ok (item, heap.erase item) ∧
    item ∈ heap ∧ ∀ b ∈ heap, item ≤ b := by
  cases h : heap.argmin id with
  | none => exact absurd (List.argmin_eq_none.mp h) hne
  | some item =>
    exact ⟨item, by rw [heappop, h], List.argmin_mem h, fun b hb => List.le_of_mem_argmin hb h⟩

/-- With enough fuel, popping comes to an end. -/
theorem heappopLive_total : ∀ {fuel : ℕ} {heap : List α}, heap.length ≤ fuel →
    ∃ r, heappopLive live fuel heap = .ok r
  | 0, heap, hlen => ⟨none, by
      rw [heappopLive, if_pos (List.eq_nil_of_length_eq_zero (Nat.le_zero.mp hlen))]⟩
  | fuel + 1, heap, hlen => by
    rw [heappopLive]
    split_ifs with hnil
    · exact ⟨none, rfl⟩
    · obtain ⟨item, hpop, hmem, -⟩ := heappop_cases hnil
      simp only [hpop, ok_bind]
      split_ifs
      · exact ⟨_, rfl⟩
      · have := List.length_pos_of_mem hmem
        exact heappopLive_total (by rw [List.length_erase_of_mem hmem]; omega)

/-- **The item that comes** is a least live one; live items stay, unless they are the one that came. -/
theorem heappopLive_spec : ∀ {fuel : ℕ} {heap : List α},
    heappopLive live fuel heap = .ok (some (item, rest)) →
      item ∈ heap ∧ live item = true ∧ (∀ b ∈ heap, live b = true → item ≤ b) ∧
        (∀ b ∈ rest, b ∈ heap) ∧ ∀ b ∈ heap, live b = true → b ≠ item → b ∈ rest
  | 0, heap, h => by
    rw [heappopLive] at h
    split_ifs at h
    cases h
  | fuel + 1, heap, h => by
    rw [heappopLive] at h
    split_ifs at h with hnil
    · cases h
    · obtain ⟨first, hpop, hmem, hleast⟩ := heappop_cases hnil
      rw [hpop, ok_bind] at h
      cases hl : live first with
      | true =>
        simp only [hl, if_true] at h
        cases h
        refine ⟨hmem, hl, fun b hb _ => hleast b hb, fun b => List.mem_of_mem_erase, fun b hb _ hne => ?_⟩
        exact (List.mem_erase_of_ne hne).mpr hb
      | false =>
        simp only [hl, Bool.false_eq_true, if_false] at h
        obtain ⟨hitem, hlive, hle, hback, hkept⟩ := heappopLive_spec h
        -- a live item is not the one that was dropped
        have hstay : ∀ b ∈ heap, live b = true → b ∈ heap.erase first := fun b hb hlb =>
          (List.mem_erase_of_ne fun e => by rw [e, hl] at hlb; cases hlb).mpr hb
        exact ⟨List.mem_of_mem_erase hitem, hlive, fun b hb hlb => hle b (hstay b hb hlb) hlb,
          fun b hb => List.mem_of_mem_erase (hback b hb),
          fun b hb hlb hne => hkept b (hstay b hb hlb) hlb hne⟩

/-- A heap that runs empty held no live item. -/
theorem heappopLive_dead : ∀ {fuel : ℕ} {heap : List α}, heappopLive live fuel heap = .ok none →
    ∀ b ∈ heap, live b = false
  | 0, heap, h, b, hb => by
    rw [heappopLive] at h
    split_ifs at h with hnil
    · rw [hnil] at hb
      cases hb
  | fuel + 1, heap, h, b, hb => by
    rw [heappopLive] at h
    split_ifs at h with hnil
    · rw [hnil] at hb
      cases hb
    · obtain ⟨first, hpop, hmem, -⟩ := heappop_cases hnil
      rw [hpop, ok_bind] at h
      cases hl : live first with
      | true =>
        simp only [hl, if_true] at h
        cases h
      | false =>
        simp only [hl, Bool.false_eq_true, if_false] at h
        by_cases hbf : b = first
        · rw [hbf, hl]
        · exact heappopLive_dead h b ((List.mem_erase_of_ne hbf).mpr hb)

end Py
