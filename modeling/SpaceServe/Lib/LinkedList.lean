import Mathlib.Data.List.Nodup
import Mathlib.Data.List.Basic
import Mathlib.Logic.Function.Basic
import Mathlib.Tactic.Common

/-!
# Intrusive doubly linked lists

The links of a doubly linked list are two attributes `prev` and `next` of its nodes, with a head
and a tail. `Links.Rep q l` says that `q` links up exactly the list `l`: `head` and `tail` are its
ends, following `next` (`prev`) from a node of `l` gives its successor (predecessor), and nodes
outside `l` are unlinked.

* `unlink`, `linkLast`: take a node out, put a node at the end;
* **`Rep.unlink`**, **`Rep.linkLast`**: on a represented list these are `List.erase` and `++ [a]`;
* `walk`, **`Rep.walk_head`**: following `next` from the head lists the list;
* `reversed`, **`Rep.reversed`**: with the links exchanged, the list backwards; `Rep.unique`;
* `Rep.head_eq_none_iff`, `Rep.tail_eq_none_iff`: the empty list.
-/

set_option autoImplicit false

namespace LinkedList

variable {α : Type} [DecidableEq α]

/-- The two link attributes of every node, with the ends of the list. -/
structure Links (α : Type) where
  head : Option α
  tail : Option α
  prev : α → Option α
  next : α → Option α

namespace Links

/-- Set one attribute of a node, if there is one. -/
def setAt (f : α → Option α) (o : Option α) (v : Option α) : α → Option α :=
  match o with
  | some a => Function.update f a v
  | none => f

/-- Take `a` out: its neighbours are linked to each other, the ends move, its links are cut. -/
def unlink (q : Links α) (a : α) : Links α where
  head := if q.head = some a then q.next a else q.head
  tail := if q.tail = some a then q.prev a else q.tail
  prev := Function.update (setAt q.prev (q.next a) (q.prev a)) a none
  next := Function.update (setAt q.next (q.prev a) (q.next a)) a none

/-- Put `a` at the end. -/
def linkLast (q : Links α) (a : α) : Links α where
  head := if q.tail = none then some a else q.head
  tail := some a
  prev := if q.tail = none then q.prev else Function.update q.prev a q.tail
  next := Function.update (setAt q.next q.tail (some a)) a none

/-- Follow `next` from `o`, for at most `fuel` nodes. -/
def walk (q : Links α) : ℕ → Option α → Option (List α)
  | _, none => some []
  | 0, some _ => none
  | fuel + 1, some a => (q.walk fuel (q.next a)).map (a :: ·)

/-- The links read backwards. -/
def reversed (q : Links α) : Links α := ⟨q.tail, q.head, q.next, q.prev⟩

/-- `q` links up exactly the list `l`. -/
structure Rep (q : Links α) (l : List α) : Prop where
  nodup : l.Nodup
  head_eq : q.head = l[0]?
  tail_eq : q.tail = if l = [] then none else l[l.length - 1]?
  prev_eq : ∀ i a, l[i]? = some a → q.prev a = if i = 0 then none else l[i - 1]?
  next_eq : ∀ i a, l[i]? = some a → q.next a = l[i + 1]?
  prev_out : ∀ a, a ∉ l → q.prev a = none
  next_out : ∀ a, a ∉ l → q.next a = none

end Links

/-! ## Positions in a list without repetitions -/

omit [DecidableEq α] in
theorem index_unique {l : List α} (hl : l.Nodup) {i j : ℕ} {a : α} (hi : l[i]? = some a)
    (hj : l[j]? = some a) : i = j :=
  (List.getElem?_inj (List.getElem?_eq_some_iff.mp hi).1 hl).mp (hi.trans hj.symm)

theorem erase_eq_eraseIdx {l : List α} (hl : l.Nodup) {k : ℕ} {a : α} (hk : l[k]? = some a) :
    l.erase a = l.eraseIdx k := by
  obtain ⟨hlt, rfl⟩ := List.getElem?_eq_some_iff.mp hk
  exact hl.erase_getElem k hlt

/-! ## Taking a node out and putting one at the end -/

namespace Links

variable {q : Links α} {l : List α}

omit [DecidableEq α] in
theorem Rep.head_eq_none_iff (h : q.Rep l) : q.head = none ↔ l = [] := by
  rw [h.head_eq]
  cases l <;> simp

omit [DecidableEq α] in
theorem Rep.tail_eq_none_iff (h : q.Rep l) : q.tail = none ↔ l = [] := by
  rw [h.tail_eq]
  cases l <;> simp

omit [DecidableEq α] in
/-- Walking from position `i` lists the rest. -/
theorem Rep.walk_drop (h : q.Rep l) : ∀ (fuel i : ℕ), l.length - i ≤ fuel →
    q.walk fuel l[i]? = some (l.drop i)
  | 0, i, hf => by
    have hi : l.length ≤ i := by omega
    rw [List.getElem?_eq_none hi, walk, List.drop_eq_nil_of_le hi]
  | fuel + 1, i, hf => by
    cases hi : l[i]? with
    | none => rw [walk, List.drop_eq_nil_of_le (List.getElem?_eq_none_iff.mp hi)]
    | some a =>
      obtain ⟨hlt, rfl⟩ := List.getElem?_eq_some_iff.mp hi
      rw [walk, h.next_eq i _ hi, h.walk_drop fuel (i + 1) (by omega), Option.map_some,
        List.drop_eq_getElem_cons hlt]

omit [DecidableEq α] in
/-- **Walking from the head lists the list.** -/
theorem Rep.walk_head (h : q.Rep l) {fuel : ℕ} (hf : l.length ≤ fuel) :
    q.walk fuel q.head = some l := by
  rw [h.head_eq, h.walk_drop fuel 0 (by omega), List.drop_zero]

omit [DecidableEq α] in
/-- **Read backwards, the links are those of the reversed list.** -/
theorem Rep.reversed (h : q.Rep l) : q.reversed.Rep l.reverse where
  nodup := List.nodup_reverse.mpr h.nodup
  head_eq := by
    show q.tail = _
    rw [h.tail_eq]
    split_ifs with hl
    · rw [hl]
      rfl
    · rw [List.getElem?_reverse (List.length_pos_iff.mpr hl)]
      rfl
  tail_eq := by
    show q.head = _
    rw [h.head_eq, List.length_reverse]
    split_ifs with hl
    · rw [List.reverse_eq_nil_iff.mp hl]
      rfl
    · have hpos : 0 < l.length := List.length_pos_iff.mpr fun e => hl (by rw [e]; rfl)
      rw [List.getElem?_reverse (by omega)]
      congr 1
      omega
  prev_eq i a hi := by
    have hlt := (List.getElem?_eq_some_iff.mp hi).1
    rw [List.length_reverse] at hlt
    rw [List.getElem?_reverse hlt] at hi
    show q.next a = _
    rw [h.next_eq _ a hi]
    split_ifs with h0
    · exact List.getElem?_eq_none (by omega)
    · rw [List.getElem?_reverse (by omega)]
      congr 1
      omega
  next_eq i a hi := by
    have hlt := (List.getElem?_eq_some_iff.mp hi).1
    rw [List.length_reverse] at hlt
    rw [List.getElem?_reverse hlt] at hi
    show q.prev a = _
    rw [h.prev_eq _ a hi]
    split_ifs with h0
    · exact (List.getElem?_eq_none (by rw [List.length_reverse]; omega)).symm
    · rw [List.getElem?_reverse (by omega)]
      congr 1
  prev_out a ha := h.next_out a fun hm => ha (List.mem_reverse.mpr hm)
  next_out a ha := h.prev_out a fun hm => ha (List.mem_reverse.mpr hm)

omit [DecidableEq α] in
/-- A list has one way to be linked up. -/
theorem Rep.unique {q' : Links α} (h : q.Rep l) (h' : q'.Rep l) : q = q' := by
  have hprev : q.prev = q'.prev := by
    funext a
    by_cases ha : a ∈ l
    · obtain ⟨i, hi⟩ := List.mem_iff_getElem?.mp ha
      rw [h.prev_eq i a hi, h'.prev_eq i a hi]
    · rw [h.prev_out a ha, h'.prev_out a ha]
  have hnext : q.next = q'.next := by
    funext a
    by_cases ha : a ∈ l
    · obtain ⟨i, hi⟩ := List.mem_iff_getElem?.mp ha
      rw [h.next_eq i a hi, h'.next_eq i a hi]
    · rw [h.next_out a ha, h'.next_out a ha]
  have hhead := h.head_eq.trans h'.head_eq.symm
  have htail := h.tail_eq.trans h'.tail_eq.symm
  cases q
  cases q'
  congr

theorem setAt_apply (f : α → Option α) (o v : Option α) (b : α) :
    setAt f o v b = if o = some b then v else f b := by
  cases o with
  | none => simp [setAt]
  | some a => simp [setAt, Function.update_apply, eq_comm]

/-- **Unlinking a node of the list erases it.** -/
theorem Rep.unlink (h : q.Rep l) {a : α} (ha : a ∈ l) : (q.unlink a).Rep (l.erase a) := by
  obtain ⟨k, hk⟩ := List.mem_iff_getElem?.mp ha
  have hpa := h.prev_eq k a hk
  have hna := h.next_eq k a hk
  have hklt : k < l.length := (List.getElem?_eq_some_iff.mp hk).1
  have he : ∀ j, (l.erase a)[j]? = if j < k then l[j]? else l[j + 1]? := by
    intro j; rw [erase_eq_eraseIdx h.nodup hk, List.getElem?_eraseIdx]
  have hlen : (l.erase a).length = l.length - 1 := List.length_erase_of_mem ha
  refine ⟨h.nodup.erase a, ?_, ?_, ?_, ?_, ?_, ?_⟩
  · -- the head moves exactly when `a` was the head
    rw [he]
    simp only [Links.unlink, h.head_eq]
    by_cases hk0 : k = 0
    · subst hk0; rw [if_pos hk, hna]; simp
    · rw [if_neg (fun e => hk0 (index_unique h.nodup hk e)), if_pos (by omega)]
  · simp only [Links.unlink, h.tail_eq, he, hlen]
    have hne : l ≠ [] := List.ne_nil_of_mem ha
    rw [if_neg hne]
    by_cases hkl : k = l.length - 1
    · rw [if_pos (by rw [← hkl]; exact hk), hpa]
      by_cases h1 : l.erase a = []
      · rw [if_pos h1, if_pos (by have := List.length_eq_zero_iff.mpr h1; omega)]
      · have : (l.erase a).length ≠ 0 := fun e => h1 (List.length_eq_zero_iff.mp e)
        rw [if_neg h1, if_neg (by omega), if_pos (by omega), hkl]
    · rw [if_neg (fun e => hkl (index_unique h.nodup hk e)),
        if_neg (fun e => by have := List.length_eq_zero_iff.mpr e; omega), if_neg (by omega)]
      congr 1
      omega
  · intro j b hb
    rw [he] at hb
    have hba : b ≠ a := by
      rintro rfl
      split_ifs at hb with hj
      · exact absurd (index_unique h.nodup hk hb) (by omega)
      · exact absurd (index_unique h.nodup hk hb) (by omega)
    simp only [Links.unlink, Function.update_of_ne hba, setAt_apply, hna, hpa, he]
    by_cases hj : j < k
    · rw [if_pos hj] at hb
      rw [if_neg (fun e => absurd (index_unique h.nodup e hb) (by omega)), h.prev_eq j b hb]
      split_ifs <;> first | rfl | omega
    · rw [if_neg hj] at hb
      by_cases hjk : j = k
      · subst hjk
        rw [if_pos hb]
        split_ifs <;> first | rfl | omega
      · rw [if_neg (fun e => absurd (index_unique h.nodup e hb) (by omega)),
          h.prev_eq (j + 1) b hb]
        rw [if_neg (by omega), if_neg (by omega), if_neg (by omega), Nat.add_sub_cancel,
          show j - 1 + 1 = j by omega]
  · intro j b hb
    rw [he] at hb
    have hba : b ≠ a := by
      rintro rfl
      split_ifs at hb with hj
      · exact absurd (index_unique h.nodup hk hb) (by omega)
      · exact absurd (index_unique h.nodup hk hb) (by omega)
    simp only [Links.unlink, Function.update_of_ne hba, setAt_apply, hna, hpa, he]
    by_cases hj : j < k
    · rw [if_pos hj] at hb
      rw [h.next_eq j b hb]
      by_cases hjk : j + 1 = k
      · rw [if_pos (by rw [if_neg (by omega), show k - 1 = j by omega]; exact hb),
          if_neg (by omega), hjk]
      · rw [if_neg (fun e => ?_), if_pos (by omega)]
        split_ifs at e
        exact absurd (index_unique h.nodup e hb) (by omega)
    · rw [if_neg hj] at hb
      rw [if_neg (fun e => ?_), if_neg (by omega), h.next_eq (j + 1) b hb]
      split_ifs at e
      exact absurd (index_unique h.nodup e hb) (by omega)
  · intro b hb
    by_cases hba : b = a
    · subst hba; simp [Links.unlink]
    · have hbl : b ∉ l := fun hm => hb ((h.nodup.mem_erase_iff).mpr ⟨hba, hm⟩)
      simp only [Links.unlink, Function.update_of_ne hba, setAt_apply, hna]
      rw [if_neg (fun e => hbl (List.mem_of_getElem? e)), h.prev_out b hbl]
  · intro b hb
    by_cases hba : b = a
    · subst hba; simp [Links.unlink]
    · have hbl : b ∉ l := fun hm => hb ((h.nodup.mem_erase_iff).mpr ⟨hba, hm⟩)
      simp only [Links.unlink, Function.update_of_ne hba, setAt_apply, hpa]
      rw [if_neg (fun e => ?_), h.next_out b hbl]
      split_ifs at e
      exact hbl (List.mem_of_getElem? e)

/-- **Linking a node outside the list at the end appends it.** -/
theorem Rep.linkLast (h : q.Rep l) {a : α} (ha : a ∉ l) : (q.linkLast a).Rep (l ++ [a]) := by
  have htail := h.tail_eq_none_iff
  have hlast : ∀ b, q.tail = some b → l[l.length - 1]? = some b := by
    intro b hb
    rw [h.tail_eq] at hb
    split_ifs at hb
    exact hb
  refine ⟨by rw [← List.concat_eq_append]; exact h.nodup.concat ha, ?_, ?_, ?_, ?_, ?_, ?_⟩
  · simp only [Links.linkLast, htail, h.head_eq]
    cases l with
    | nil => rfl
    | cons b l => rfl
  · simp [Links.linkLast]
  · intro i b hb
    simp only [Links.linkLast, htail]
    by_cases hi : i < l.length
    · rw [List.getElem?_append_left hi] at hb
      have hba : b ≠ a := fun e => ha (e ▸ List.mem_of_getElem? hb)
      have hl : l ≠ [] := List.ne_nil_of_mem (List.mem_of_getElem? hb)
      rw [if_neg hl, Function.update_of_ne hba, h.prev_eq i b hb,
        List.getElem?_append_left (by omega)]
    · have hil : i = l.length := by
        have := (List.getElem?_eq_some_iff.mp hb).1
        rw [List.length_append, List.length_singleton] at this
        omega
      subst hil
      rw [List.getElem?_concat_length] at hb
      obtain rfl := Option.some.inj hb
      by_cases hl : l = []
      · subst hl; simpa using h.prev_out a ha
      · have : l.length ≠ 0 := fun e => hl (List.length_eq_zero_iff.mp e)
        rw [if_neg hl, Function.update_self, h.tail_eq, if_neg hl, if_neg this,
          List.getElem?_append_left (by omega)]
  · intro i b hb
    simp only [Links.linkLast]
    by_cases hi : i < l.length
    · rw [List.getElem?_append_left hi] at hb
      have hba : b ≠ a := fun e => ha (e ▸ List.mem_of_getElem? hb)
      rw [Function.update_of_ne hba, setAt_apply]
      by_cases hil : i + 1 = l.length
      · rw [if_pos (by
          rw [h.tail_eq, if_neg (List.ne_nil_of_mem (List.mem_of_getElem? hb)),
            show l.length - 1 = i by omega]
          exact hb), hil, List.getElem?_concat_length]
      · rw [if_neg (fun e => hil (by have := index_unique h.nodup hb (hlast b e); omega)),
          h.next_eq i b hb, List.getElem?_append_left (by omega)]
    · have hil : i = l.length := by
        have := (List.getElem?_eq_some_iff.mp hb).1
        rw [List.length_append, List.length_singleton] at this
        omega
      subst hil
      rw [List.getElem?_concat_length] at hb
      obtain rfl := Option.some.inj hb
      simp
  · intro b hb
    rw [List.mem_append, List.mem_singleton, not_or] at hb
    simp only [Links.linkLast]
    split_ifs
    · exact h.prev_out b hb.1
    · rw [Function.update_of_ne hb.2, h.prev_out b hb.1]
  · intro b hb
    rw [List.mem_append, List.mem_singleton, not_or] at hb
    simp only [Links.linkLast, Function.update_of_ne hb.2, setAt_apply]
    rw [if_neg (fun e => hb.1 (List.mem_of_getElem? (hlast b e))), h.next_out b hb.1]

end Links

end LinkedList
