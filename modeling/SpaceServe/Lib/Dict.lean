import Mathlib.Data.List.Nodup
import Mathlib.Algebra.BigOperators.Group.List.Basic
import Mathlib.Algebra.GroupWithZero.Nat
import Mathlib.Tactic.Common

/-!
# Insertion-ordered dictionaries

`Dict K V` is a finite map that remembers the order in which its keys were first set: setting a
key that is present replaces the value in place, setting a new key appends it. No key occurs
twice; the structure carries the proof.

* `get?`, `set`, `pop`, `keys` and their read-over-write laws (`get?_set`, `get?_pop`);
* `mem_keys`, `keys_set`, `keys_pop`: the key list after an update;
* `mem_entries`: membership of an entry is a successful lookup;
* `update`, `ofPairs`, `mapValuesM`: merging dictionaries; a loop that computes a value for every key;
* `total f`: the sum of `f` over the values, with `total_set` and `total_pop`.
-/

set_option autoImplicit false

namespace Py

variable {K V : Type} [DecidableEq K]

/-! ## Association lists -/

/-- The first value under `k`. -/
def lookupL (k : K) : List (K × V) → Option V
  | [] => none
  | p :: l => if p.1 = k then some p.2 else lookupL k l

/-- Replace the first value under `k`, or append a new pair. -/
def setL (k : K) (v : V) : List (K × V) → List (K × V)
  | [] => [(k, v)]
  | p :: l => if p.1 = k then (k, v) :: l else p :: setL k v l

/-- Remove the first pair under `k`. -/
def eraseL (k : K) : List (K × V) → List (K × V)
  | [] => []
  | p :: l => if p.1 = k then l else p :: eraseL k l

theorem lookupL_isSome (k : K) (l : List (K × V)) :
    (lookupL k l).isSome = true ↔ k ∈ l.map Prod.fst := by
  induction l with
  | nil => simp [lookupL]
  | cons p l ih =>
    simp only [lookupL, List.map_cons, List.mem_cons]
    split_ifs with h
    · simp [h]
    · rw [ih]
      exact ⟨Or.inr, fun h' => h'.resolve_left (Ne.symm h)⟩

theorem lookupL_eq_none (k : K) (l : List (K × V)) :
    lookupL k l = none ↔ k ∉ l.map Prod.fst := by
  rw [← lookupL_isSome, ← Option.not_isSome_iff_eq_none]

theorem map_fst_setL (k : K) (v : V) (l : List (K × V)) :
    (setL k v l).map Prod.fst = if k ∈ l.map Prod.fst then l.map Prod.fst
      else l.map Prod.fst ++ [k] := by
  induction l with
  | nil => simp [setL]
  | cons p l ih =>
    simp only [setL]
    by_cases h : p.1 = k
    · simp [h]
    · rw [if_neg h, List.map_cons, ih]
      by_cases hm : k ∈ l.map Prod.fst
      · rw [if_pos hm, if_pos (by rw [List.map_cons]; exact List.mem_cons_of_mem _ hm),
          List.map_cons]
      · rw [if_neg hm, if_neg (by
          rw [List.map_cons, List.mem_cons]
          exact fun h' => h'.elim (fun e => h e.symm) hm)]
        rfl

theorem map_fst_eraseL (k : K) (l : List (K × V)) :
    (eraseL k l).map Prod.fst = (l.map Prod.fst).erase k := by
  induction l with
  | nil => rfl
  | cons p l ih =>
    simp only [eraseL, List.map_cons]
    by_cases h : p.1 = k
    · simp [h]
    · rw [if_neg h, List.map_cons, ih, List.erase_cons_tail (by simpa using h)]

theorem lookupL_setL (k k' : K) (v : V) (l : List (K × V)) :
    lookupL k' (setL k v l) = if k' = k then some v else lookupL k' l := by
  induction l with
  | nil =>
    simp only [setL, lookupL, eq_comm]
  | cons p l ih =>
    simp only [setL]
    split_ifs with h1 h2 h2
    · subst h2; simp [lookupL]
    · simp [lookupL, h1, Ne.symm h2]
    · subst h2; simpa [lookupL, h1] using ih
    · simp [lookupL, ih, h2]

theorem lookupL_eraseL (k k' : K) {l : List (K × V)} (hl : (l.map Prod.fst).Nodup) :
    lookupL k' (eraseL k l) = if k' = k then none else lookupL k' l := by
  induction l with
  | nil => simp [eraseL, lookupL]
  | cons p l ih =>
    rw [List.map_cons, List.nodup_cons] at hl
    simp only [eraseL]
    split_ifs with h1 h2 h2
    · subst h2; subst h1; exact (lookupL_eq_none _ _).mpr hl.1
    · simp [lookupL, h1, Ne.symm h2]
    · subst h2; simpa [lookupL, h1] using ih hl.2
    · simp [lookupL, ih hl.2, h2]

theorem setL_eq_self {k : K} {v : V} : ∀ {l : List (K × V)}, lookupL k l = some v → setL k v l = l
  | [], h => by cases h
  | q :: l, h => by
    simp only [lookupL] at h
    simp only [setL]
    split_ifs at h ⊢ with hq
    · rw [← hq, ← Option.some.inj h]
    · rw [setL_eq_self h]

theorem setL_setL (k : K) (v w : V) (l : List (K × V)) : setL k w (setL k v l) = setL k w l := by
  induction l with
  | nil => simp [setL]
  | cons q l ih =>
    simp only [setL]
    split_ifs with h
    · simp [setL]
    · simp [setL, h, ih]

theorem eraseL_setL (k : K) (v : V) (l : List (K × V)) : eraseL k (setL k v l) = eraseL k l := by
  induction l with
  | nil => simp [setL, eraseL]
  | cons q l ih =>
    simp only [setL]
    split_ifs with h
    · simp [eraseL, h]
    · simp [eraseL, h, ih]

theorem mem_iff_lookupL {l : List (K × V)} (hl : (l.map Prod.fst).Nodup) (k : K) (v : V) :
    (k, v) ∈ l ↔ lookupL k l = some v := by
  induction l with
  | nil => simp [lookupL]
  | cons p l ih =>
    rw [List.map_cons, List.nodup_cons] at hl
    simp only [lookupL, List.mem_cons]
    split_ifs with h
    · subst h
      constructor
      · rintro (e | hm)
        · rw [← e]
        · exact absurd (List.mem_map_of_mem hm) hl.1
      · intro e
        left
        rw [← Option.some.inj e]
    · rw [ih hl.2]
      exact ⟨fun h' => h'.resolve_left fun e => h (by rw [← e]), Or.inr⟩

/-! ## Dictionaries -/

/-- An insertion-ordered map. -/
structure Dict (K V : Type) where
  /-- The entries, oldest key first. -/
  entries : List (K × V)
  /-- No key occurs twice. -/
  nodup : (entries.map Prod.fst).Nodup
deriving DecidableEq

namespace Dict

/-- The dictionary with no keys. -/
def empty : Dict K V := ⟨[], List.nodup_nil⟩

/-- The value under `k`, if any. -/
def get? (d : Dict K V) (k : K) : Option V := lookupL k d.entries

/-- Set `k` to `v`. -/
def set (d : Dict K V) (k : K) (v : V) : Dict K V where
  entries := setL k v d.entries
  nodup := by
    rw [map_fst_setL]
    split_ifs with h
    · exact d.nodup
    · rw [← List.concat_eq_append]; exact d.nodup.concat h

/-- Remove `k`. -/
def pop (d : Dict K V) (k : K) : Dict K V where
  entries := eraseL k d.entries
  nodup := by rw [map_fst_eraseL]; exact d.nodup.erase k

/-- The keys, oldest first. -/
def keys (d : Dict K V) : List K := d.entries.map Prod.fst

/-- The values, oldest key first. -/
def values (d : Dict K V) : List V := d.entries.map Prod.snd

/-- Whether `k` is a key. -/
def contains (d : Dict K V) (k : K) : Bool := (d.get? k).isSome

/-- A dictionary comprehension over the keys: the same keys with new values. -/
def mapValues {W : Type} (d : Dict K V) (f : K → V → W) : Dict K W where
  entries := d.entries.map fun e => (e.1, f e.1 e.2)
  nodup := by
    rw [List.map_map]
    exact d.nodup

@[simp] theorem get?_empty (k : K) : (empty : Dict K V).get? k = none := rfl

omit [DecidableEq K] in
@[simp] theorem keys_empty : (empty : Dict K V).keys = [] := rfl

theorem get?_set (d : Dict K V) (k k' : K) (v : V) :
    (d.set k v).get? k' = if k' = k then some v else d.get? k' :=
  lookupL_setL k k' v d.entries

@[simp] theorem get?_set_self (d : Dict K V) (k : K) (v : V) : (d.set k v).get? k = some v := by
  rw [get?_set, if_pos rfl]

theorem get?_set_ne (d : Dict K V) {k k' : K} (h : k' ≠ k) (v : V) :
    (d.set k v).get? k' = d.get? k' := by
  rw [get?_set, if_neg h]

theorem get?_pop (d : Dict K V) (k k' : K) :
    (d.pop k).get? k' = if k' = k then none else d.get? k' :=
  lookupL_eraseL k k' d.nodup

@[simp] theorem get?_pop_self (d : Dict K V) (k : K) : (d.pop k).get? k = none := by
  rw [get?_pop, if_pos rfl]

theorem get?_pop_ne (d : Dict K V) {k k' : K} (h : k' ≠ k) : (d.pop k).get? k' = d.get? k' := by
  rw [get?_pop, if_neg h]

/-- Writing the value that is there changes nothing. -/
theorem set_eq_self {d : Dict K V} {k : K} {v : V} (h : d.get? k = some v) : d.set k v = d := by
  cases d
  simp only [set, mk.injEq]
  exact setL_eq_self h

/-- The last write to a key counts. -/
@[simp] theorem set_set (d : Dict K V) (k : K) (v w : V) : (d.set k v).set k w = d.set k w := by
  simp only [set, mk.injEq]
  exact setL_setL k v w d.entries

@[simp] theorem pop_set_self (d : Dict K V) (k : K) (v : V) : (d.set k v).pop k = d.pop k := by
  simp only [set, pop, mk.injEq]
  exact eraseL_setL k v d.entries

theorem mem_keys (d : Dict K V) (k : K) : k ∈ d.keys ↔ (d.get? k).isSome = true :=
  (lookupL_isSome k d.entries).symm

theorem contains_iff (d : Dict K V) (k : K) : d.contains k = true ↔ k ∈ d.keys :=
  (d.mem_keys k).symm

theorem get?_eq_none (d : Dict K V) (k : K) : d.get? k = none ↔ k ∉ d.keys :=
  lookupL_eq_none k d.entries

theorem mem_keys_of_get? {d : Dict K V} {k : K} {v : V} (h : d.get? k = some v) : k ∈ d.keys := by
  rw [mem_keys, h]; rfl

theorem exists_get?_of_mem {d : Dict K V} {k : K} (h : k ∈ d.keys) : ∃ v, d.get? k = some v :=
  Option.isSome_iff_exists.mp ((d.mem_keys k).mp h)

omit [DecidableEq K] in
theorem keys_nodup (d : Dict K V) : d.keys.Nodup := d.nodup

theorem keys_set (d : Dict K V) (k : K) (v : V) :
    (d.set k v).keys = if k ∈ d.keys then d.keys else d.keys ++ [k] :=
  map_fst_setL k v d.entries

theorem mem_keys_set (d : Dict K V) (k k' : K) (v : V) :
    k' ∈ (d.set k v).keys ↔ k' = k ∨ k' ∈ d.keys := by
  rw [mem_keys, get?_set, mem_keys]
  by_cases h : k' = k <;> simp [h]

theorem keys_pop (d : Dict K V) (k : K) : (d.pop k).keys = d.keys.erase k :=
  map_fst_eraseL k d.entries

theorem mem_keys_pop (d : Dict K V) (k k' : K) : k' ∈ (d.pop k).keys ↔ k' ≠ k ∧ k' ∈ d.keys := by
  rw [mem_keys, get?_pop, mem_keys]
  by_cases h : k' = k <;> simp [h]

theorem mem_entries (d : Dict K V) (k : K) (v : V) : (k, v) ∈ d.entries ↔ d.get? k = some v :=
  mem_iff_lookupL d.nodup k v

/-- After a loop that sets keys, a key has what it was last set to. -/
theorem get?_foldl_set {α : Type} (key : α → K) (val : α → V) (k : K) : ∀ (l : List α)
    (d : Dict K V), (l.foldl (fun d x => d.set (key x) (val x)) d).get? k =
      match (l.filter fun x => decide (key x = k)).getLast? with
      | some x => some (val x)
      | none => d.get? k
  | [], d => rfl
  | x :: l, d => by
    rw [List.foldl_cons, get?_foldl_set key val k l]
    by_cases hx : key x = k
    · rw [List.filter_cons_of_pos (by simpa using hx), List.getLast?_cons]
      cases (l.filter fun x => decide (key x = k)).getLast? with
      | none => simp [hx]
      | some y => rfl
    · rw [List.filter_cons_of_neg (by simpa using hx), get?_set_ne _ (fun e => hx e.symm)]

theorem get?_foldl_set_of_not_mem {α : Type} {key : α → K} {val : α → V} {k : K} {l : List α}
    (h : ∀ x ∈ l, key x ≠ k) (d : Dict K V) :
    (l.foldl (fun d x => d.set (key x) (val x)) d).get? k = d.get? k := by
  rw [get?_foldl_set, List.filter_eq_nil_iff.mpr fun x hx => by simpa using h x hx]
  rfl

theorem get?_foldl_set_of_mem {α : Type} {key : α → K} {val : α → V} {l : List α}
    (hnd : (l.map key).Nodup) {x : α} (hx : x ∈ l) (d : Dict K V) :
    (l.foldl (fun d x => d.set (key x) (val x)) d).get? (key x) = some (val x) := by
  have hlast : (l.filter fun y => decide (key y = key x)).getLast? = some x := by
    cases hl : (l.filter fun y => decide (key y = key x)).getLast? with
    | none =>
      have hmem : x ∈ l.filter fun y => decide (key y = key x) :=
        List.mem_filter.mpr ⟨hx, by simp⟩
      rw [List.getLast?_eq_none_iff.mp hl] at hmem
      cases hmem
    | some y =>
      obtain ⟨hy, hk⟩ := List.mem_filter.mp (List.mem_of_getLast? hl)
      rw [decide_eq_true_eq] at hk
      rw [List.inj_on_of_nodup_map hnd hy hx hk]
  rw [get?_foldl_set, hlast]

/-- After a loop that removes keys, these are gone. -/
theorem get?_foldl_pop (k : K) : ∀ (l : List K) (d : Dict K V),
    (l.foldl (fun d x => d.pop x) d).get? k = if k ∈ l then none else d.get? k
  | [], d => rfl
  | x :: l, d => by
    rw [List.foldl_cons, get?_foldl_pop k l, get?_pop]
    simp only [List.mem_cons]
    by_cases h1 : k ∈ l
    · simp [h1]
    · by_cases h2 : k = x <;> simp [h1, h2]

/-- The entries with a given key. -/
theorem filter_entries (d : Dict K V) (k : K) :
    d.entries.filter (fun x => decide (x.1 = k)) = ((d.get? k).map fun v => (k, v)).toList := by
  have aux : ∀ l : List (K × V), (l.map Prod.fst).Nodup →
      l.filter (fun x => decide (x.1 = k)) = ((lookupL k l).map fun v => (k, v)).toList := by
    intro l
    induction l with
    | nil => intro _; rfl
    | cons x l ih =>
      intro hnd
      rw [List.map_cons, List.nodup_cons] at hnd
      simp only [lookupL]
      by_cases hx : x.1 = k
      · have hnone : lookupL k l = none := (lookupL_eq_none k l).mpr (by rw [← hx]; exact hnd.1)
        rw [List.filter_cons_of_pos (by simpa using hx), ih hnd.2, hnone, if_pos hx, ← hx]
        rfl
      · rw [List.filter_cons_of_neg (by simpa using hx), ih hnd.2, if_neg hx]
  exact aux d.entries d.nodup

/-! ## Merging, and values that are computed in a loop -/

/-- `{**d, **e}`. -/
def update (d e : Dict K V) : Dict K V := e.entries.foldl (fun d p => d.set p.1 p.2) d

theorem get?_update (d e : Dict K V) (k : K) : (d.update e).get? k = (e.get? k).or (d.get? k) := by
  rw [update, get?_foldl_set, filter_entries]
  cases e.get? k with
  | none => rfl
  | some v => rfl

/-- `dict(l)`. -/
def ofPairs (l : List (K × V)) : Dict K V := l.foldl (fun d p => d.set p.1 p.2) empty

section Loop

variable {ε W : Type}

/-- A loop over the entries that sets every key to what `f` returns for its entry. -/
def mapValuesM (d : Dict K V) (f : K → V → Except ε W) : Except ε (Dict K W) :=
  d.entries.foldlM (fun e p => do .ok (e.set p.1 (← f p.1 p.2))) empty

theorem setL_of_not_mem {k : K} {v : V} {l : List (K × V)} (h : k ∉ l.map Prod.fst) :
    setL k v l = l ++ [(k, v)] := by
  induction l with
  | nil => rfl
  | cons p l ih =>
    rw [List.map_cons, List.mem_cons, not_or] at h
    rw [setL, if_neg (Ne.symm h.1), ih h.2, List.cons_append]

/-- Pairs with different keys are the entries. -/
theorem entries_ofPairs {l : List (K × V)} (hnd : (l.map Prod.fst).Nodup) : (ofPairs l).entries = l := by
  have hloop : ∀ (l : List (K × V)) (d : Dict K V), (d.entries.map Prod.fst ++ l.map Prod.fst).Nodup →
      (l.foldl (fun d p => d.set p.1 p.2) d).entries = d.entries ++ l := by
    intro l
    induction l with
    | nil => exact fun d _ => (List.append_nil _).symm
    | cons p l ih =>
      intro d hd
      have hnew : p.1 ∉ d.entries.map Prod.fst := fun hmem =>
        List.disjoint_of_nodup_append hd hmem List.mem_cons_self
      have hset : (d.set p.1 p.2).entries = d.entries ++ [p] := setL_of_not_mem hnew
      rw [List.foldl_cons, ih (d.set p.1 p.2) (by simpa [hset] using hd), hset, List.append_assoc]
      rfl
  exact hloop l empty (by simpa [empty] using hnd)

theorem mapValuesM_eq_ok {d : Dict K V} {f : K → V → Except ε W} {g : K → V → W}
    (h : ∀ p ∈ d.entries, f p.1 p.2 = .ok (g p.1 p.2)) : d.mapValuesM f = .ok (d.mapValues g) := by
  have hloop : ∀ (l : List (K × V)) (e : Dict K W), (∀ p ∈ l, f p.1 p.2 = .ok (g p.1 p.2)) →
      (e.entries.map Prod.fst ++ l.map Prod.fst).Nodup →
      ∃ e', l.foldlM (fun e p => do .ok (e.set p.1 (← f p.1 p.2))) e = Except.ok e' ∧
        e'.entries = e.entries ++ l.map fun p => (p.1, g p.1 p.2) := by
    intro l
    induction l with
    | nil => exact fun e _ _ => ⟨e, rfl, (List.append_nil _).symm⟩
    | cons p l ih =>
      intro e hf hnd
      have hnew : p.1 ∉ e.entries.map Prod.fst := fun hmem =>
        List.disjoint_of_nodup_append hnd hmem List.mem_cons_self
      have hset : (e.set p.1 (g p.1 p.2)).entries = e.entries ++ [(p.1, g p.1 p.2)] :=
        setL_of_not_mem hnew
      obtain ⟨e', he', hentries⟩ := ih (e.set p.1 (g p.1 p.2))
        (fun q hq => hf q (List.mem_cons_of_mem _ hq)) (by simpa [hset] using hnd)
      refine ⟨e', ?_, ?_⟩
      · rw [List.foldlM_cons, hf p List.mem_cons_self]
        exact he'
      · rw [hentries, hset]
        simp
  obtain ⟨e', he', hentries⟩ := hloop d.entries empty h (by simpa [empty] using d.nodup)
  rw [mapValuesM, he']
  congr 1
  cases e'
  simp only [empty, List.nil_append] at hentries
  subst hentries
  rfl

/-- Every value of such a loop was computed. -/
theorem exists_of_mapValuesM {d : Dict K V} {f : K → V → Except ε W} {e : Dict K W}
    (h : d.mapValuesM f = .ok e) : ∀ p ∈ d.entries, ∃ w, f p.1 p.2 = .ok w := by
  have hloop : ∀ (l : List (K × V)) (e e' : Dict K W),
      l.foldlM (fun e p => do .ok (e.set p.1 (← f p.1 p.2))) e = Except.ok e' →
      ∀ p ∈ l, ∃ w, f p.1 p.2 = .ok w := by
    intro l
    induction l with
    | nil => exact fun _ _ _ p hp => by cases hp
    | cons q l ih =>
      intro e e' hl p hp
      rw [List.foldlM_cons] at hl
      cases hq : f q.1 q.2 with
      | error err =>
        rw [hq] at hl
        cases hl
      | ok w =>
        rw [hq] at hl
        obtain rfl | hp := List.mem_cons.mp hp
        · exact ⟨w, hq⟩
        · exact ih _ _ hl p hp
  exact hloop d.entries empty e h

end Loop

theorem get?_mapValues {W : Type} (d : Dict K V) (f : K → V → W) (k : K) :
    (d.mapValues f).get? k = (d.get? k).map (f k) := by
  cases hk : d.get? k with
  | none =>
    rw [Option.map_none, get?_eq_none]
    rw [get?_eq_none] at hk
    simpa [keys, mapValues, Function.comp_def] using hk
  | some v =>
    rw [Option.map_some, ← mem_entries]
    exact List.mem_map_of_mem (f := fun e : K × V => (e.1, f e.1 e.2)) ((mem_entries d k v).mpr hk)

/-! ## Sums over the entries -/

/-- The sum of `f` over the entries. -/
def totalOf (f : K → V → ℕ) (d : Dict K V) : ℕ := (d.entries.map fun p => f p.1 p.2).sum

/-- The sum of `f` over the values. -/
def total (f : V → ℕ) (d : Dict K V) : ℕ := (d.entries.map fun p => f p.2).sum

omit [DecidableEq K] in
@[simp] theorem total_empty (f : V → ℕ) : total f (empty : Dict K V) = 0 := rfl

theorem sum_setL (f : K → V → ℕ) (k : K) (v : V) (l : List (K × V)) :
    ((setL k v l).map fun p => f p.1 p.2).sum + (lookupL k l).elim 0 (f k) =
      (l.map fun p => f p.1 p.2).sum + f k v := by
  induction l with
  | nil => simp [setL, lookupL]
  | cons p l ih =>
    simp only [setL, lookupL]
    split_ifs with h
    · subst h
      simp only [List.map_cons, List.sum_cons, Option.elim_some]
      omega
    · simp only [List.map_cons, List.sum_cons] at ih ⊢
      omega

theorem sum_eraseL (f : K → V → ℕ) (k : K) (l : List (K × V)) :
    ((eraseL k l).map fun p => f p.1 p.2).sum + (lookupL k l).elim 0 (f k) =
      (l.map fun p => f p.1 p.2).sum := by
  induction l with
  | nil => simp [eraseL, lookupL]
  | cons p l ih =>
    simp only [eraseL, lookupL]
    split_ifs with h
    · subst h
      simp only [List.map_cons, List.sum_cons, Option.elim_some]
      omega
    · simp only [List.map_cons, List.sum_cons] at ih ⊢
      omega

theorem totalOf_set (f : K → V → ℕ) (d : Dict K V) (k : K) (v : V) :
    totalOf f (d.set k v) + (d.get? k).elim 0 (f k) = totalOf f d + f k v :=
  sum_setL f k v d.entries

theorem totalOf_pop (f : K → V → ℕ) (d : Dict K V) (k : K) :
    totalOf f (d.pop k) + (d.get? k).elim 0 (f k) = totalOf f d :=
  sum_eraseL f k d.entries

theorem totalOf_congr {f g : K → V → ℕ} {d : Dict K V}
    (h : ∀ k v, d.get? k = some v → f k v = g k v) : totalOf f d = totalOf g d := by
  rw [totalOf, totalOf]
  refine congrArg List.sum (List.map_congr_left ?_)
  rintro ⟨k, v⟩ hp
  exact h k v ((d.mem_entries k v).mp hp)

theorem le_totalOf (f : K → V → ℕ) {d : Dict K V} {k : K} {v : V} (h : d.get? k = some v) :
    f k v ≤ totalOf f d := by
  have := totalOf_pop f d k
  rw [h, Option.elim_some] at this
  omega

theorem total_set (f : V → ℕ) (d : Dict K V) (k : K) (v : V) :
    total f (d.set k v) + (d.get? k).elim 0 f = total f d + f v :=
  sum_setL (fun _ => f) k v d.entries

theorem total_pop (f : V → ℕ) (d : Dict K V) (k : K) :
    total f (d.pop k) + (d.get? k).elim 0 f = total f d :=
  sum_eraseL (fun _ => f) k d.entries

omit [DecidableEq K] in
theorem total_eq_zero (f : V → ℕ) (d : Dict K V) :
    total f d = 0 ↔ ∀ p ∈ d.entries, f p.2 = 0 := by
  rw [total, List.sum_eq_zero_iff_forall_eq_nat, List.forall_mem_map]

/-- The keys in another order. -/
theorem sum_of_perm_keys (f : V → ℕ) {d : Dict K V} {ks : List K} (h : ks.Perm d.keys) :
    (ks.map fun k => (d.get? k).elim 0 f).sum = total f d := by
  rw [(h.map _).sum_eq, keys, List.map_map, total]
  refine congrArg List.sum (List.map_congr_left ?_)
  rintro ⟨k, v⟩ hp
  rw [Function.comp_apply, (d.mem_entries k v).mp hp]
  rfl

/-- A total of values that count at most one, each under a key of `l`. -/
theorem total_le_length (f : V → ℕ) {d : Dict K V} {l : List K} (hone : ∀ k v, d.get? k = some v → f v ≤ 1)
    (hmem : ∀ k v, d.get? k = some v → f v ≠ 0 → k ∈ l) : total f d ≤ l.length := by
  have hsum : ∀ entries : List (K × V), (∀ p ∈ entries, f p.2 ≤ 1) →
      (entries.map fun p => f p.2).sum = (entries.filter fun p => decide (f p.2 ≠ 0)).length := by
    intro entries
    induction entries with
    | nil => exact fun _ => rfl
    | cons p entries ih =>
      intro h
      have hp := h p List.mem_cons_self
      rw [List.map_cons, List.sum_cons, ih fun q hq => h q (List.mem_cons_of_mem _ hq)]
      by_cases h0 : f p.2 = 0
      · rw [List.filter_cons_of_neg (by simpa using h0), h0, Nat.zero_add]
      · rw [List.filter_cons_of_pos (by simpa using h0), List.length_cons]
        omega
  rw [total, hsum d.entries fun p hp => hone p.1 p.2 ((d.mem_entries p.1 p.2).mp hp),
    ← List.length_map Prod.fst]
  have hnd : ((d.entries.filter fun p => decide (f p.2 ≠ 0)).map Prod.fst).Nodup :=
    d.nodup.sublist (List.filter_sublist.map _)
  refine (List.subperm_of_subset hnd fun k hk => ?_).length_le
  obtain ⟨⟨k, v⟩, hp, rfl⟩ := List.mem_map.mp hk
  obtain ⟨hp, hf⟩ := List.mem_filter.mp hp
  exact hmem k v ((d.mem_entries k v).mp hp) (of_decide_eq_true hf)

theorem le_total (f : V → ℕ) {d : Dict K V} {k : K} {v : V} (h : d.get? k = some v) :
    f v ≤ total f d :=
  le_totalOf (fun _ => f) h

end Dict

end Py
