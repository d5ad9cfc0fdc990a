import Mathlib.Data.List.Sort
import SpaceServe.Lib.Exec

/-!
# Sorting by a key

`sorted` with a key is stable: elements with the same key keep their order. With keys below a bound, the
result goes through the keys one after the other.

* `sortedBy`, `sortedWith`: **`sortedBy_eq_flatMap`**, `sortedWith_eq_ok`.
-/

set_option autoImplicit false

namespace Py

variable {α β : Type}

/-- `sorted(l, key=key)`. -/
def sortedBy (key : α → ℕ) (l : List α) : List α := l.insertionSort fun a b => key a ≤ key b

/-- `sorted(l, key=key)`, where computing a key may raise. -/
def sortedWith (key : α → Except Exn ℕ) (l : List α) : Except Exn (List α) := do
  let keyed ← l.mapM fun a => do
    let k ← key a
    .ok (k, a)
  .ok ((sortedBy Prod.fst keyed).map Prod.snd)

theorem perm_sortedBy (key : α → ℕ) (l : List α) : (sortedBy key l).Perm l := List.perm_insertionSort _ l

theorem mem_sortedBy {key : α → ℕ} {l : List α} {a : α} : a ∈ sortedBy key l ↔ a ∈ l :=
  (perm_sortedBy key l).mem_iff

theorem pairwise_sortedBy (key : α → ℕ) (l : List α) :
    (sortedBy key l).Pairwise fun a b => key a ≤ key b := by
  have : Std.Total fun a b : α => key a ≤ key b := ⟨fun a b => Nat.le_total (key a) (key b)⟩
  have : IsTrans α fun a b => key a ≤ key b := ⟨fun _ _ _ => Nat.le_trans⟩
  exact List.pairwise_insertionSort _ l

/-- Sorting images is sorting by the key of the image. -/
theorem sortedBy_map (key : β → ℕ) (f : α → β) (l : List α) :
    sortedBy key (l.map f) = (sortedBy (key ∘ f) l).map f :=
  (List.map_insertionSort _ _ f l fun _ _ _ _ => Iff.rfl).symm

theorem sortedWith_eq_ok {key : α → Except Exn ℕ} {f : α → ℕ} {l : List α}
    (h : ∀ a ∈ l, key a = .ok (f a)) : sortedWith key l = .ok (sortedBy f l) := by
  have hkeyed : (l.mapM fun a => do
      let k ← key a
      Except.ok (k, a)) = Except.ok (l.map fun a => (f a, a)) := by
    apply mapM_eq_ok_map
    intro a ha
    rw [h a ha]
    rfl
  rw [sortedWith, hkeyed, ok_bind, sortedBy_map, List.map_map]
  exact congrArg Except.ok (List.map_id _)

/-- An element goes behind those that must stand before it. -/
theorem orderedInsert_append {r : α → α → Prop} [DecidableRel r] {a : α} {l₁ l₂ : List α}
    (h₁ : ∀ b ∈ l₁, ¬ r a b) (h₂ : ∀ b ∈ l₂, r a b) :
    (l₁ ++ l₂).orderedInsert r a = l₁ ++ a :: l₂ := by
  induction l₁ with
  | nil =>
    cases l₂ with
    | nil => rfl
    | cons b l₂ => exact List.orderedInsert_cons_of_le r l₂ (h₂ b List.mem_cons_self)
  | cons b l₁ ih =>
    rw [List.cons_append, List.orderedInsert_of_not_le r _ (h₁ b List.mem_cons_self),
      ih fun c hc => h₁ c (List.mem_cons_of_mem b hc)]
    rfl

/-- **Stability.** The sorted list goes through the keys, and through the elements of each key as they
stood. -/
theorem sortedBy_eq_flatMap {key : α → ℕ} {n : ℕ} {l : List α} (h : ∀ a ∈ l, key a < n) :
    sortedBy key l = (List.range n).flatMap fun k => l.filter fun a => key a = k := by
  induction l with
  | nil =>
    symm
    exact List.flatMap_eq_nil_iff.mpr fun k _ => rfl
  | cons a l ih =>
    have hn := h a List.mem_cons_self
    have hsplit : List.range n = List.range (key a) ++
        key a :: (List.range' (key a + 1) (n - key a - 1)) := by
      have happend := List.range'_append_1 (s := 0) (m := key a) (n := n - key a - 1 + 1)
      rw [Nat.zero_add, List.range'_succ, show key a + (n - key a - 1 + 1) = n by omega] at happend
      rw [List.range_eq_range', List.range_eq_range', happend]
    have hother : ∀ k, k ≠ key a → (a :: l).filter (fun b => key b = k) = l.filter fun b => key b = k := by
      intro k hk
      rw [List.filter_cons, if_neg]
      simpa using Ne.symm hk
    have hbefore : ((List.range (key a)).flatMap fun k => (a :: l).filter fun b => key b = k) =
        (List.range (key a)).flatMap fun k => l.filter fun b => key b = k :=
      List.flatMap_congr fun k hk => hother k (Nat.ne_of_lt (List.mem_range.mp hk))
    have hafter : ((List.range' (key a + 1) (n - key a - 1)).flatMap fun k =>
          (a :: l).filter fun b => key b = k) =
        (List.range' (key a + 1) (n - key a - 1)).flatMap fun k => l.filter fun b => key b = k :=
      List.flatMap_congr fun k hk => hother k (by have := (List.mem_range'_1.mp hk).1; omega)
    have hself : (a :: l).filter (fun b => key b = key a) = a :: l.filter fun b => key b = key a := by
      rw [List.filter_cons, if_pos (by simp)]
    rw [sortedBy, List.insertionSort_cons, ← sortedBy, ih fun b hb => h b (List.mem_cons_of_mem a hb),
      hsplit, List.flatMap_append, List.flatMap_append, List.flatMap_cons, List.flatMap_cons, hbefore,
      hafter, hself, List.cons_append]
    apply orderedInsert_append
    · intro b hb
      obtain ⟨k, hk, hb⟩ := List.mem_flatMap.mp hb
      have hkey : key b = k := by simpa using (List.mem_filter.mp hb).2
      have := List.mem_range.mp hk
      omega
    · intro b hb
      obtain hb | hb := List.mem_append.mp hb
      · have hkey : key b = key a := by simpa using (List.mem_filter.mp hb).2
        omega
      · obtain ⟨k, hk, hb⟩ := List.mem_flatMap.mp hb
        have hkey : key b = k := by simpa using (List.mem_filter.mp hb).2
        have := (List.mem_range'_1.mp hk).1
        omega

end Py
