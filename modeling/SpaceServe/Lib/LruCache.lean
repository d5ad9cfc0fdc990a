import Mathlib.Data.List.Dedup
import Mathlib.Data.List.DropRight
import SpaceServe.Lib.Dict
import SpaceServe.Lib.Exec

/-!
# Least recently used caches

A cache of bounded size over an insertion-ordered dictionary, oldest use first: a hit moves its key
to the end, a new key is put at the end and the oldest keys that are not pinned go.

* `LRUCache`, `get`, `put`, `removeOldest`, `pop`;
* `get_of_none`, `get?_get`: looking a key up changes the order only;
* **`put_spec`**: putting a key keeps of the other entries at most what was there, and where nothing
  is pinned and there is room for one entry, the key is in the cache afterwards;
* `lastUsed`, `lastUsed_append`, **`lastUsed_eq_iff`**: the keys in order of use; `Ordinary.put`,
  `Ordinary.get_hit`: a cache without pins holds the last used ones.
-/

set_option autoImplicit false

namespace Py

variable {K V : Type} [DecidableEq K]

/-- `OrderedDict.move_to_end`. -/
def Dict.moveToEnd (d : Dict K V) (k : K) : Except Exn (Dict K V) :=
  match d.get? k with
  | some v => .ok ((d.pop k).set k v)
  | none => .error .keyError

/-- `LRUCache`. Its hit counters are left out. -/
structure LRUCache (K V : Type) where
  cache : Dict K V
  pinnedItems : List K
  capacity : ℕ
deriving DecidableEq

namespace LRUCache

/-- `LRUCache.__init__`. -/
def init (capacity : ℕ) : LRUCache K V := ⟨.empty, [], capacity⟩

variable (c : LRUCache K V)

/-- `get`, with the default `None`. -/
def get (key : K) : Except Exn (Option V × LRUCache K V) :=
  match c.cache.get? key with
  | some value => do
    let cache ← c.cache.moveToEnd key
    .ok (some value, { c with cache })
  | none => .ok (none, c)

/-- `pop`. -/
def pop (key : K) : LRUCache K V :=
  { c with cache := c.cache.pop key, pinnedItems := c.pinnedItems.filter (· ≠ key) }

/-- `remove_oldest`, which spares the pinned keys. -/
def removeOldest : Except Exn (LRUCache K V) :=
  if c.cache.entries = [] then .ok c
  else
    match c.cache.keys.find? fun key => decide (key ∉ c.pinnedItems) with
    | some lruKey => .ok (c.pop lruKey)
    | none => .error (.runtimeError
        "All items are pinned, cannot remove oldest from the cache.")

/-- `_remove_old_if_needed`, for at most `fuel` removals. -/
def removeOldIfNeeded : ℕ → LRUCache K V → Except Exn (LRUCache K V)
  | 0, c => if c.capacity < c.cache.entries.length then .error .diverges else .ok c
  | fuel + 1, c =>
    if c.capacity < c.cache.entries.length then do
      let c ← c.removeOldest
      removeOldIfNeeded fuel c
    else .ok c

/-- `put`. Every removal takes an entry, so there are no more of them than entries. -/
def put (key : K) (value : V) : Except Exn (LRUCache K V) := do
  let cache ← (c.cache.set key value).moveToEnd key
  removeOldIfNeeded cache.entries.length { c with cache }

/-! ## Lookups -/

section Lookup

variable {c} {k : K} {v : V}

theorem get_of_none (h : c.cache.get? k = none) : c.get k = .ok (none, c) := by
  rw [get, h]

theorem get_of_some (h : c.cache.get? k = some v) :
    c.get k = .ok (some v, { c with cache := (c.cache.pop k).set k v }) := by
  simp [get, h, Dict.moveToEnd]

/-- Looking a key up changes the order only. -/
theorem get?_get (h : c.cache.get? k = some v) (k' : K) :
    ((c.cache.pop k).set k v).get? k' = c.cache.get? k' := by
  rw [Dict.get?_set, Dict.get?_pop]
  split_ifs with hk
  · rw [hk, h]
  · rfl

theorem put_eq : c.put k v = removeOldIfNeeded ((c.cache.pop k).set k v).entries.length
    { c with cache := (c.cache.pop k).set k v } := by
  simp [put, Dict.moveToEnd]

end Lookup

/-! ## Removals -/

/-- One removal takes the oldest key, if nothing is pinned. -/
theorem removeOldest_of_unpinned {c c' : LRUCache K V} {k : K} {rest : List K}
    (hpin : c.pinnedItems = []) (hkeys : c.cache.keys = k :: rest) (h : c.removeOldest = .ok c') :
    c' = c.pop k := by
  have hne : c.cache.entries ≠ [] := by
    intro he
    rw [Dict.keys, he] at hkeys
    cases hkeys
  simp only [removeOldest, if_neg hne, hkeys, hpin, List.find?_cons, List.not_mem_nil,
    not_false_eq_true, decide_true] at h
  exact (Except.ok.inj h).symm

theorem removeOldest_frame {c c' : LRUCache K V} (h : c.removeOldest = .ok c') :
    c'.capacity = c.capacity ∧ (c.pinnedItems = [] → c'.pinnedItems = []) ∧
      ∀ k v, c'.cache.get? k = some v → c.cache.get? k = some v := by
  unfold removeOldest at h
  split_ifs at h
  · cases h
    exact ⟨rfl, id, fun _ _ => id⟩
  · split at h
    · cases h
      refine ⟨rfl, fun hpin => by simp [pop, hpin], fun k v hk => ?_⟩
      simp only [pop, Dict.get?_pop] at hk
      split_ifs at hk
      exact hk
    · cases h

/-- **Removing the oldest entries** keeps a part of the cache, and its last key. -/
theorem removeOldIfNeeded_spec : ∀ {fuel : ℕ} {c c' : LRUCache K V},
    removeOldIfNeeded fuel c = .ok c' → c'.capacity = c.capacity ∧
      (c.pinnedItems = [] → c'.pinnedItems = []) ∧
      (∀ k v, c'.cache.get? k = some v → c.cache.get? k = some v) ∧
      (0 < c.capacity → c.pinnedItems = [] → ∀ xs k, c.cache.keys = xs ++ [k] →
        ∃ ys, c'.cache.keys = ys ++ [k])
  | 0, c, c', h => by
    unfold removeOldIfNeeded at h
    split_ifs at h
    cases h
    exact ⟨rfl, id, fun _ _ => id, fun _ _ xs _ hk => ⟨xs, hk⟩⟩
  | fuel + 1, c, c', h => by
    unfold removeOldIfNeeded at h
    split_ifs at h with hlen
    · obtain ⟨c₁, h₁, h₂⟩ := bind_eq_ok.mp h
      obtain ⟨hcap, hpin, hget⟩ := removeOldest_frame h₁
      obtain ⟨hcap', hpin', hget', hlast⟩ := removeOldIfNeeded_spec h₂
      refine ⟨hcap'.trans hcap, fun hp => hpin' (hpin hp), fun k v hk => hget k v (hget' k v hk),
        fun hpos hp xs k hkeys => ?_⟩
      cases xs with
      | nil =>
        -- one entry is not too many
        have : c.cache.keys.length = 1 := by rw [hkeys]; rfl
        rw [Dict.keys, List.length_map] at this
        omega
      | cons x xs =>
        have hc₁ := removeOldest_of_unpinned hp hkeys h₁
        refine hlast (by rw [hcap]; exact hpos) (hpin hp) xs k ?_
        rw [hc₁, pop, Dict.keys_pop, hkeys, List.cons_append, List.erase_cons_head]
    · cases h
      exact ⟨rfl, id, fun _ _ => id, fun _ _ xs _ hk => ⟨xs, hk⟩⟩

/-- **Putting a key** keeps a part of the other entries; without pins the key stays. -/
theorem put_spec {c c' : LRUCache K V} {k : K} {v : V} (h : c.put k v = .ok c') :
    c'.capacity = c.capacity ∧ (c.pinnedItems = [] → c'.pinnedItems = []) ∧
      (∀ k' w, c'.cache.get? k' = some w → (k' = k ∧ w = v) ∨ c.cache.get? k' = some w ∧ k' ≠ k) ∧
      (0 < c.capacity → c.pinnedItems = [] → c'.cache.get? k = some v) := by
  rw [put_eq] at h
  obtain ⟨hcap, hpin, hget, hlast⟩ := removeOldIfNeeded_spec h
  have hback : ∀ k' w, c'.cache.get? k' = some w →
      (k' = k ∧ w = v) ∨ c.cache.get? k' = some w ∧ k' ≠ k := by
    intro k' w hw
    have := hget k' w hw
    simp only [Dict.get?_set, Dict.get?_pop] at this
    split_ifs at this with hk
    · exact Or.inl ⟨hk, (Option.some.inj this).symm⟩
    · exact Or.inr ⟨this, hk⟩
  refine ⟨hcap, hpin, hback, fun hpos hp => ?_⟩
  have hkeys : ((c.cache.pop k).set k v).keys = (c.cache.pop k).keys ++ [k] := by
    rw [Dict.keys_set, if_neg]
    rw [Dict.mem_keys_pop]
    exact fun hk => hk.1 rfl
  obtain ⟨ys, hys⟩ := hlast hpos hp _ k hkeys
  obtain ⟨w, hw⟩ := Dict.exists_get?_of_mem (show k ∈ c'.cache.keys by rw [hys]; simp)
  obtain ⟨-, rfl⟩ | ⟨-, hne⟩ := hback k w hw
  · exact hw
  · exact absurd rfl hne

end LRUCache

/-! ## The order of use -/

/-- What keys used in this order leave in a cache of size `n`: the last `n` distinct ones. -/
def lastUsed (n : ℕ) (l : List K) : List K := l.dedup.rtake n

section LastUsed

variable {n : ℕ} {l l' : List K}

theorem rtake_of_length_le {α : Type} {l : List α} {n : ℕ} (h : l.length ≤ n) : l.rtake n = l := by
  rw [List.rtake, Nat.sub_eq_zero_of_le h, List.drop_zero]

theorem rtake_append_of_le {α : Type} {l l' : List α} {n : ℕ} (h : n ≤ l'.length) :
    (l ++ l').rtake n = l'.rtake n := by
  rw [List.rtake, List.rtake, List.length_append, Nat.add_sub_assoc h, List.drop_append,
    List.drop_eq_nil_of_le (Nat.le_add_right _ _), Nat.add_sub_cancel_left, List.nil_append]

theorem dedup_append_eq (l l' : List K) :
    (l ++ l').dedup = (l.dedup.filter fun k => decide (k ∉ l')) ++ l'.dedup := by
  induction l with
  | nil => rfl
  | cons k l ih =>
    rw [List.cons_append]
    by_cases hl : k ∈ l
    · rw [List.dedup_cons_of_mem (List.mem_append_left _ hl), List.dedup_cons_of_mem hl, ih]
    · rw [List.dedup_cons_of_notMem hl]
      by_cases hl' : k ∈ l'
      · rw [List.dedup_cons_of_mem (List.mem_append_right _ hl'), ih,
          List.filter_cons_of_neg (by simpa using hl')]
      · rw [List.dedup_cons_of_notMem (by simp [hl, hl']), ih,
          List.filter_cons_of_pos (by simpa using hl'), List.cons_append]

/-- Keys that are used again make room for as many others. -/
theorem length_le_filter_add {r : List K} (hr : r.Nodup) (l' : List K) :
    r.length ≤ (r.filter fun k => decide (k ∉ l')).length + l'.dedup.length := by
  have hsplit := List.length_eq_length_filter_add (l := r) fun k => decide (k ∈ l')
  have hle : (r.filter fun k => decide (k ∈ l')).length ≤ l'.dedup.length := by
    have hnd : (r.filter fun k => decide (k ∈ l')).Nodup := hr.filter _
    refine (List.subperm_of_subset hnd fun k hk => ?_).length_le
    exact List.mem_dedup.mpr (of_decide_eq_true (List.mem_filter.mp hk).2)
  have hnot : (r.filter fun k => !decide (k ∈ l')) = r.filter fun k => decide (k ∉ l') :=
    List.filter_congr fun k _ => by simp
  rw [hnot] at hsplit
  omega

/-- **What was forgotten before does not matter later.** -/
theorem lastUsed_append (n : ℕ) (l l' : List K) :
    lastUsed n (lastUsed n l ++ l') = lastUsed n (l ++ l') := by
  have hnd : (lastUsed n l).Nodup := (List.nodup_dedup l).sublist (List.drop_sublist _ _)
  rw [lastUsed, lastUsed.eq_1 n (l ++ l'), dedup_append_eq, dedup_append_eq, hnd.dedup]
  generalize hr : lastUsed n l = r at hnd
  have hd : l.dedup = l.dedup.take (l.dedup.length - n) ++ r := by
    rw [← hr, lastUsed, List.rtake, List.take_append_drop]
  rw [hd, List.filter_append, List.append_assoc]
  by_cases hn : l.dedup.length ≤ n
  · rw [Nat.sub_eq_zero_of_le hn]
    rfl
  · have hlen : r.length = n := by
      rw [← hr, lastUsed, List.rtake, List.length_drop]
      omega
    refine (rtake_append_of_le ?_).symm
    rw [List.length_append, ← hlen]
    exact length_le_filter_add hnd l'

/-- **When using more keys changes nothing**: they are, in order, the last used ones already, or they
fill the cache again with what it held. -/
theorem lastUsed_eq_iff {keys : List K} (hnd : keys.Nodup) (hle : keys.length ≤ n) (l : List K) :
    lastUsed n (keys ++ l) = keys ↔ l.dedup <:+ keys ∨ (keys.length = n ∧ keys <:+ l.dedup) := by
  rw [lastUsed, dedup_append_eq, hnd.dedup]
  constructor
  · intro h
    have h1 : keys <:+ (keys.filter fun k => decide (k ∉ l)) ++ l.dedup := by
      have hsuffix : ((keys.filter fun k => decide (k ∉ l)) ++ l.dedup).rtake n <:+
          (keys.filter fun k => decide (k ∉ l)) ++ l.dedup := List.drop_suffix _ _
      rwa [h] at hsuffix
    obtain hs | hs := List.suffix_or_suffix_of_suffix h1 (List.suffix_append _ l.dedup)
    · by_cases hn : keys.length = n
      · exact Or.inr ⟨hn, hs⟩
      · left
        have hlen := congrArg List.length h
        rw [List.rtake, List.length_drop, List.length_append] at hlen
        have heq : keys = l.dedup := hs.eq_of_length_le (by omega)
        exact ⟨[], heq.symm⟩
    · exact Or.inl hs
  · rintro (hs | ⟨hn, hs⟩)
    · obtain ⟨a, ha⟩ := hs
      have hfilter : (keys.filter fun k => decide (k ∉ l)) = a := by
        rw [← ha, List.filter_append]
        rw [← ha] at hnd
        have h1 : (a.filter fun k => decide (k ∉ l)) = a := by
          refine List.filter_eq_self.mpr fun k hk => ?_
          have hdis := List.disjoint_of_nodup_append hnd hk
          simpa using fun hl => hdis (List.mem_dedup.mpr hl)
        have h2 : (l.dedup.filter fun k => decide (k ∉ l)) = [] := by
          refine List.filter_eq_nil_iff.mpr fun k hk => ?_
          simpa using List.mem_dedup.mp hk
        rw [h1, h2, List.append_nil]
      rw [hfilter, ha, rtake_of_length_le hle]
    · rw [rtake_append_of_le (hn ▸ hs.length_le)]
      obtain ⟨a, ha⟩ := hs
      rw [← ha, rtake_append_of_le (Nat.le_of_eq hn.symm), rtake_of_length_le hle]

theorem lastUsed_self {keys : List K} (hnd : keys.Nodup) (hle : keys.length ≤ n) :
    lastUsed n keys = keys := by
  rw [lastUsed, hnd.dedup, rtake_of_length_le hle]

theorem lastUsed_concat {keys : List K} (hnd : keys.Nodup) (k : K) :
    lastUsed n (keys ++ [k]) = (keys.erase k ++ [k]).rtake n := by
  rw [lastUsed, dedup_append_eq, hnd.dedup, hnd.erase_eq_filter]
  congr 2
  refine List.filter_congr fun k' _ => ?_
  rw [Bool.eq_iff_iff]
  simp

end LastUsed

namespace LRUCache

variable {c : LRUCache K V} {k : K} {v : V}

theorem keys_moved (d : Dict K V) (k : K) (v : V) : ((d.pop k).set k v).keys = d.keys.erase k ++ [k] := by
  rw [Dict.keys_set, if_neg, Dict.keys_pop]
  rw [Dict.mem_keys_pop]
  exact fun hk => hk.1 rfl

/-- A cache that holds no more than it may and has nothing pinned. -/
structure Ordinary (c : LRUCache K V) : Prop where
  unpinned : c.pinnedItems = []
  le : c.cache.keys.length ≤ c.capacity

omit [DecidableEq K] in
theorem ordinary_init (n : ℕ) : (init n : LRUCache K V).Ordinary := ⟨rfl, Nat.zero_le n⟩

/-- Removals leave the last used keys. -/
theorem removeOldIfNeeded_keys : ∀ (fuel : ℕ) {c : LRUCache K V}, c.pinnedItems = [] →
    c.cache.keys.length ≤ fuel + c.capacity → ∃ c', removeOldIfNeeded fuel c = .ok c' ∧
      c'.cache.keys = c.cache.keys.rtake c.capacity ∧ c'.capacity = c.capacity ∧ c'.pinnedItems = []
  | fuel, c, hpin, hlen => by
    have hentries : c.cache.entries.length = c.cache.keys.length := by rw [Dict.keys, List.length_map]
    by_cases hle : c.cache.keys.length ≤ c.capacity
    · refine ⟨c, ?_, (rtake_of_length_le hle).symm, rfl, hpin⟩
      cases fuel <;> rw [removeOldIfNeeded, if_neg (by omega)]
    · cases fuel with
      | zero => omega
      | succ fuel =>
        cases hkeys : c.cache.keys with
        | nil =>
          rw [hkeys] at hle
          exact absurd (Nat.zero_le _) hle
        | cons key rest =>
          rw [hkeys, List.length_cons] at hle hlen
          have hne : c.cache.entries ≠ [] := by
            intro he
            rw [Dict.keys, he] at hkeys
            cases hkeys
          have hone : c.removeOldest = .ok (c.pop key) := by
            simp [removeOldest, if_neg hne, hkeys, hpin]
          have hpop : (c.pop key).cache.keys = rest := by
            rw [pop, Dict.keys_pop, hkeys, List.erase_cons_head]
          obtain ⟨c', h', hkeys', hcap', hpin'⟩ := removeOldIfNeeded_keys fuel (c := c.pop key)
            (by simp [pop, hpin]) (by rw [hpop]; exact Nat.le_of_succ_le_succ (by
              change rest.length + 1 ≤ fuel + c.capacity + 1
              omega))
          refine ⟨c', ?_, ?_, hcap', hpin'⟩
          · rw [removeOldIfNeeded, if_pos (by rw [hentries, hkeys, List.length_cons]; omega), hone, ok_bind]
            exact h'
          · rw [hkeys', hpop, ← List.singleton_append]
            exact (rtake_append_of_le (show c.capacity ≤ rest.length by omega)).symm

/-- **Putting a key** uses it. -/
theorem Ordinary.put (h : c.Ordinary) (k : K) (v : V) : ∃ c', c.put k v = .ok c' ∧
    c'.cache.keys = lastUsed c.capacity (c.cache.keys ++ [k]) ∧ c'.capacity = c.capacity ∧
      c'.Ordinary := by
  obtain ⟨c', h', hkeys, hcap, hpin⟩ := removeOldIfNeeded_keys
    ((c.cache.pop k).set k v).entries.length
    (c := { c with cache := (c.cache.pop k).set k v }) h.unpinned (by
      change ((c.cache.pop k).set k v).keys.length ≤ _
      rw [Dict.keys, List.length_map]
      exact Nat.le_add_right _ _)
  change c'.cache.keys = ((c.cache.pop k).set k v).keys.rtake c.capacity at hkeys
  rw [keys_moved, ← lastUsed_concat c.cache.keys_nodup] at hkeys
  change c'.capacity = c.capacity at hcap
  refine ⟨c', by rw [put_eq, h'], hkeys, hcap, hpin, ?_⟩
  rw [hkeys, hcap, lastUsed, List.rtake, List.length_drop]
  omega

/-- **A hit** uses its key. -/
theorem Ordinary.get_hit (h : c.Ordinary) (hv : c.cache.get? k = some v) :
    ((c.cache.pop k).set k v).keys = lastUsed c.capacity (c.cache.keys ++ [k]) ∧
      Ordinary { c with cache := (c.cache.pop k).set k v } := by
  have hlen : (c.cache.keys.erase k ++ [k]).length = c.cache.keys.length := by
    have hmem := Dict.mem_keys_of_get? hv
    have hpos := List.length_pos_of_mem hmem
    rw [List.length_append, List.length_erase_of_mem hmem, List.length_singleton]
    omega
  refine ⟨?_, h.unpinned, ?_⟩
  · rw [lastUsed_concat c.cache.keys_nodup, keys_moved, rtake_of_length_le (by rw [hlen]; exact h.le)]
  · change ((c.cache.pop k).set k v).keys.length ≤ c.capacity
    rw [keys_moved, hlen]
    exact h.le

end LRUCache

end Py
