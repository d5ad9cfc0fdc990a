import SpaceServe.Lib.LruCache

/-!
# Caches with pinned keys

`LRUCache` of `vllm/utils.py` with all of its calls. A key that is pinned is not removed to make room for another
one; `put` inserts first and removes after that.

* `touch`, `pin`, `clear`, `LruCall`, `runCalls`: the calls;
* `UsedBefore`, `LruKept`: the keys stand in the order in which they were used last; `LruKept.after`;
* `PutOk`, `LruKept.put`; **`lru_cache_keeps_capacity`**.
-/

set_option autoImplicit false

namespace SpaceServe

open Py

variable {K V : Type} [DecidableEq K]

/-! ## The calls -/

namespace PinnedCache

/-- `touch`. -/
def touch (c : LRUCache K V) (key : K) : Except Exn (LRUCache K V) := do
  let cache ← c.cache.moveToEnd key
  .ok { c with cache }

/-- `pin`. -/
def pin [ToString K] (c : LRUCache K V) (key : K) : Except Exn (LRUCache K V) :=
  if c.cache.contains key then
    .ok { c with pinnedItems := if key ∈ c.pinnedItems then c.pinnedItems else c.pinnedItems ++ [key] }
  else .error (.valueError s!"Cannot pin key: {key} not in cache.")

/-- `remove_oldest(remove_pinned=True)`. -/
def removeOldestPinned (c : LRUCache K V) : LRUCache K V :=
  match c.cache.keys with
  | [] => c
  | lruKey :: _ => c.pop lruKey

/-- The loop of `clear`, for at most `fuel` removals. -/
def removeAll : ℕ → LRUCache K V → Except Exn (LRUCache K V)
  | 0, c => if 0 < c.cache.entries.length then .error .diverges else .ok c
  | fuel + 1, c => if 0 < c.cache.entries.length then removeAll fuel (removeOldestPinned c) else .ok c

/-- `clear`. -/
def clear (c : LRUCache K V) : Except Exn (LRUCache K V) := do
  let c ← removeAll c.cache.entries.length c
  .ok { c with cache := .empty }

end PinnedCache

/-- The calls on a cache. -/
inductive LruCall (K V : Type)
  | get (key : K)
  | put (key : K) (value : V)
  | pin (key : K)
  | pop (key : K)
  | touch (key : K)
  | clear

namespace LruCall

/-- A call. -/
def run [ToString K] (c : LRUCache K V) : LruCall K V → Except Exn (LRUCache K V)
  | get key => do
    let (_, c) ← c.get key
    .ok c
  | put key value => c.put key value
  | pin key => PinnedCache.pin c key
  | pop key => .ok (c.pop key)
  | touch key => PinnedCache.touch c key
  | clear => PinnedCache.clear c

/-- The cache after a call. What raises has left it as it was. -/
def after [ToString K] (c : LRUCache K V) (call : LruCall K V) : LRUCache K V :=
  match call.run c with
  | .ok c' => c'
  | .error _ => c

/-- The key that a call uses. -/
def used (c : LRUCache K V) : LruCall K V → List K
  | get key | touch key => if c.cache.contains key then [key] else []
  | put key _ => [key]
  | pin _ | pop _ | clear => []

end LruCall

/-- The cache after some calls, with the keys in the order of their uses. -/
def runCalls [ToString K] (capacity : ℕ) (calls : List (LruCall K V)) : LRUCache K V × List K :=
  calls.foldl (fun (c, uses) call => (call.after c, uses ++ call.used c)) (.init capacity, [])

/-! ## The order of use -/

/-- `b` was used after `a` was used last. -/
def UsedBefore (uses : List K) (a b : K) : Prop := ∃ l₁ l₂, uses = l₁ ++ l₂ ∧ a ∉ l₂ ∧ b ∈ l₂

section Order

variable {uses keys : List K} {a b k : K}

omit [DecidableEq K] in
theorem UsedBefore.append (h : UsedBefore uses a b) (hne : a ≠ k) : UsedBefore (uses ++ [k]) a b := by
  obtain ⟨l₁, l₂, rfl, ha, hb⟩ := h
  refine ⟨l₁, l₂ ++ [k], List.append_assoc _ _ _, ?_, List.mem_append_left _ hb⟩
  rw [List.mem_append, List.mem_singleton, not_or]
  exact ⟨ha, hne⟩

omit [DecidableEq K] in
theorem usedBefore_last (hne : a ≠ k) : UsedBefore (uses ++ [k]) a k :=
  ⟨uses, [k], rfl, fun h => hne (List.mem_singleton.mp h), List.mem_singleton_self k⟩

/-- A key that is used goes to the end. -/
theorem pairwise_use (h : keys.Pairwise (UsedBefore uses)) (hnd : keys.Nodup) (k : K) :
    (keys.erase k ++ [k]).Pairwise (UsedBefore (uses ++ [k])) := by
  have hne : ∀ a ∈ keys.erase k, a ≠ k := fun a ha => (hnd.mem_erase_iff.mp ha).1
  refine List.pairwise_append.mpr ⟨?_, List.pairwise_singleton _ _, fun a ha b hb => ?_⟩
  · refine (h.sublist List.erase_sublist).imp_of_mem fun ha _ hab => hab.append (hne _ ha)
  · rw [List.mem_singleton.mp hb]
    exact usedBefore_last (hne a ha)

end Order

/-! ## What is kept -/

/-- The cache holds no more than it may, what is pinned is in it, and its keys stand in the order in which they
were used last. -/
structure LruKept (capacity : ℕ) (c : LRUCache K V) (uses : List K) : Prop where
  capacity_eq : c.capacity = capacity
  le : c.cache.keys.length ≤ capacity
  pinned : ∀ k ∈ c.pinnedItems, k ∈ c.cache.keys
  order : c.cache.keys.Pairwise (UsedBefore uses)

/-- What `put` does: the key goes to the end, and at most one key is removed after that. It is not pinned, and of
the keys that are not it is the one used least recently. -/
def PutOk (c : LRUCache K V) (uses : List K) (k : K) (v : V) : Prop :=
  ∃ c', c.put k v = .ok c' ∧ c'.pinnedItems = c.pinnedItems ∧
    (c'.cache.keys = c.cache.keys.erase k ++ [k] ∨
      ∃ x ∈ c.cache.keys.erase k ++ [k], x ∉ c.pinnedItems ∧
        c'.cache.keys = (c.cache.keys.erase k ++ [k]).erase x ∧
        (∀ y ∈ c.cache.keys.erase k ++ [k], y ∉ c.pinnedItems → y ≠ x → UsedBefore (uses ++ [k]) x y) ∧
        (x = k ↔ ∀ y ∈ c.cache.keys, y ∈ c.pinnedItems))

namespace LruKept

variable {capacity : ℕ} {c : LRUCache K V} {uses : List K} {k : K} {v : V}

omit [DecidableEq K] in
theorem length_entries (d : Dict K V) : d.entries.length = d.keys.length := by rw [Dict.keys, List.length_map]

/-- The keys after a key was used. -/
theorem order_use (h : LruKept capacity c uses) (k : K) :
    (c.cache.keys.erase k ++ [k]).Pairwise (UsedBefore (uses ++ [k])) := pairwise_use h.order c.cache.keys_nodup k

/-- A removal, if not all keys are pinned: the first of those that are not. -/
theorem removeOldest_spec {c : LRUCache K V} (hk : k ∈ c.cache.keys) (hnot : k ∉ c.pinnedItems) :
    ∃ x as bs, c.removeOldest = .ok (c.pop x) ∧ c.cache.keys = as ++ x :: bs ∧ x ∉ c.pinnedItems ∧
      ∀ y ∈ as, y ∈ c.pinnedItems := by
  have hne : c.cache.entries ≠ [] := by
    intro he
    rw [Dict.keys, he] at hk
    cases hk
  cases hfind : c.cache.keys.find? fun key => decide (key ∉ c.pinnedItems) with
  | none =>
    have hall := List.find?_eq_none.mp hfind k hk
    simp [hnot] at hall
  | some x =>
    obtain ⟨hx, as, bs, heq, has⟩ := List.find?_eq_some_iff_append.mp hfind
    refine ⟨x, as, bs, ?_, heq, of_decide_eq_true hx, fun y hy => ?_⟩
    · rw [LRUCache.removeOldest, if_neg hne, hfind]
    · simpa using has y hy

/-- **`put`**, with room for the key. -/
theorem put_of_fits (h : LruKept capacity c uses) (k : K) (v : V)
    (hfits : (c.cache.keys.erase k).length + 1 ≤ capacity) : PutOk c uses k v ∧
      ∀ c', c.put k v = .ok c' → LruKept capacity c' (uses ++ [k]) := by
  have hmoved := LRUCache.keys_moved c.cache k v
  have hlen : ((c.cache.pop k).set k v).entries.length = (c.cache.keys.erase k).length + 1 := by
    rw [length_entries, hmoved, List.length_append, List.length_singleton]
  have hok : c.put k v = .ok { c with cache := (c.cache.pop k).set k v } := by
    rw [LRUCache.put_eq, hlen, LRUCache.removeOldIfNeeded, if_neg]
    rw [hlen, h.capacity_eq]
    omega
  refine ⟨⟨_, hok, rfl, Or.inl hmoved⟩, fun c' hc' => ?_⟩
  rw [hok] at hc'
  cases hc'
  refine ⟨h.capacity_eq, ?_, fun y hy => ?_, ?_⟩
  · rw [hmoved, List.length_append, List.length_singleton]
    exact hfits
  · rw [hmoved]
    rcases eq_or_ne y k with rfl | hne
    · exact List.mem_append_right _ (List.mem_singleton_self y)
    · exact List.mem_append_left _ ((List.mem_erase_of_ne hne).mpr (h.pinned y hy))
  · rw [hmoved]
    exact h.order_use k

/-- **`put`** of a new key, without room for it. -/
theorem put_of_full (h : LruKept capacity c uses) (v : V) (hnew : k ∉ c.cache.keys)
    (hfull : ¬ c.cache.keys.length + 1 ≤ capacity) : PutOk c uses k v ∧
      ∀ c', c.put k v = .ok c' → LruKept capacity c' (uses ++ [k]) := by
  have hle := h.le
  have hmoved := LRUCache.keys_moved c.cache k v
  have horder := h.order_use k
  rw [List.erase_of_not_mem hnew] at hmoved horder
  have hlen : ((c.cache.pop k).set k v).entries.length = c.cache.keys.length + 1 := by
    rw [length_entries, hmoved, List.length_append, List.length_singleton]
  -- the key is not pinned, so a removal finds one
  obtain ⟨x, as, bs, hremove, heq, hx, has⟩ :=
    removeOldest_spec (c := { c with cache := (c.cache.pop k).set k v }) (k := k)
      (by rw [hmoved]; exact List.mem_append_right _ (List.mem_singleton_self k)) fun hk => hnew (h.pinned k hk)
  change x ∉ c.pinnedItems at hx
  change ((c.cache.pop k).set k v).keys = _ at heq
  rw [hmoved] at heq
  have hxmem : x ∈ c.cache.keys ++ [k] := by
    rw [heq]
    exact List.mem_append_right _ List.mem_cons_self
  have hkeys : (((c.cache.pop k).set k v).pop x).keys = (c.cache.keys ++ [k]).erase x := by
    rw [Dict.keys_pop, hmoved]
  have hlen' : ((c.cache.keys ++ [k]).erase x).length = c.cache.keys.length := by
    rw [List.length_erase_of_mem hxmem, List.length_append, List.length_singleton]
    rfl
  have hpins : (c.pinnedItems.filter fun y => decide (y ≠ x)) = c.pinnedItems :=
    List.filter_eq_self.mpr fun y hy => decide_eq_true fun hyx => hx (hyx ▸ hy)
  have hok : c.put k v = .ok ⟨((c.cache.pop k).set k v).pop x, c.pinnedItems, c.capacity⟩ := by
    rw [LRUCache.put_eq, hlen, LRUCache.removeOldIfNeeded, if_pos (by rw [hlen, h.capacity_eq]; omega), hremove,
      ok_bind, LRUCache.pop, hpins]
    have hstop : ¬ c.capacity < (((c.cache.pop k).set k v).pop x).entries.length := by
      rw [length_entries, hkeys, hlen', h.capacity_eq]
      omega
    cases c.cache.keys.length <;> exact if_neg hstop
  have hk := List.erase_of_not_mem hnew
  refine ⟨⟨_, hok, rfl, Or.inr ⟨x, by rw [hk]; exact hxmem, hx, by rw [hk]; exact hkeys, ?_, ?_⟩⟩, fun c' hc' => ?_⟩
  · -- the keys before it are pinned, and those after it were used later
    intro y hy hny hne
    rw [hk, heq] at hy
    rw [heq] at horder
    rcases List.mem_append.mp hy with hy | hy
    · exact absurd (has y hy) hny
    · have hbs := (List.mem_cons.mp hy).resolve_left hne
      exact (List.pairwise_cons.mp (List.pairwise_append.mp horder).2.1).1 y hbs
  · constructor
    · rintro rfl y hy
      obtain ⟨hlast, -, -⟩ := (List.append_cons_inj_of_notMem hnew List.not_mem_nil).mp heq
      exact has y (hlast ▸ hy)
    · intro hall
      rcases List.mem_append.mp hxmem with hxk | hxk
      · exact absurd (hall x hxk) hx
      · exact List.mem_singleton.mp hxk
  · rw [hok] at hc'
    cases hc'
    refine ⟨h.capacity_eq, ?_, fun y hy => ?_, ?_⟩
    · rw [hkeys, hlen']
      exact hle
    · rw [hkeys]
      refine (List.mem_erase_of_ne fun hyx => hx ?_).mpr (List.mem_append_left _ (h.pinned y hy))
      exact hyx ▸ hy
    · rw [hkeys]
      exact horder.sublist List.erase_sublist

/-- **`put`**. -/
theorem put (h : LruKept capacity c uses) (k : K) (v : V) : PutOk c uses k v ∧
    ∀ c', c.put k v = .ok c' → LruKept capacity c' (uses ++ [k]) := by
  by_cases hfits : (c.cache.keys.erase k).length + 1 ≤ capacity
  · exact h.put_of_fits k v hfits
  · have hle := h.le
    have hnew : k ∉ c.cache.keys := by
      intro hk
      have hpos := List.length_pos_of_mem hk
      rw [List.length_erase_of_mem hk] at hfits
      omega
    rw [List.erase_of_not_mem hnew] at hfits
    exact h.put_of_full v hnew hfits

/-! ## The other calls -/

/-- A key that is in the cache is used, by `get` or `touch`. -/
theorem use (h : LruKept capacity c uses) (hv : c.cache.get? k = some v) :
    LruKept capacity { c with cache := (c.cache.pop k).set k v } (uses ++ [k]) := by
  have hmem := Dict.mem_keys_of_get? hv
  have hmoved := LRUCache.keys_moved c.cache k v
  have hpos := List.length_pos_of_mem hmem
  have hle := h.le
  refine ⟨h.capacity_eq, ?_, fun y hy => ?_, ?_⟩
  · rw [hmoved, List.length_append, List.length_erase_of_mem hmem, List.length_singleton]
    omega
  · rw [hmoved]
    rcases eq_or_ne y k with rfl | hne
    · exact List.mem_append_right _ (List.mem_singleton_self y)
    · exact List.mem_append_left _ ((List.mem_erase_of_ne hne).mpr (h.pinned y hy))
  · rw [hmoved]
    exact h.order_use k

theorem pop (h : LruKept capacity c uses) (k : K) : LruKept capacity (c.pop k) uses := by
  have hkeys : (c.pop k).cache.keys = c.cache.keys.erase k := Dict.keys_pop _ _
  refine ⟨h.capacity_eq, ?_, fun y hy => ?_, ?_⟩
  · rw [hkeys]
    exact (List.length_erase_le).trans h.le
  · obtain ⟨hy, hne⟩ := List.mem_filter.mp hy
    rw [hkeys]
    exact (List.mem_erase_of_ne (of_decide_eq_true hne)).mpr (h.pinned y hy)
  · rw [hkeys]
    exact h.order.sublist List.erase_sublist

/-- The removals of `clear`. -/
theorem removeAll_spec : ∀ (fuel : ℕ) {c : LRUCache K V}, LruKept capacity c uses →
    c.cache.keys.length ≤ fuel → ∃ c', PinnedCache.removeAll fuel c = .ok c' ∧ c'.cache.keys = [] ∧
      LruKept capacity c' uses
  | 0, c, h, hle => by
    have hnil := List.eq_nil_of_length_eq_zero (Nat.le_zero.mp hle)
    refine ⟨c, ?_, hnil, h⟩
    rw [PinnedCache.removeAll, if_neg]
    rw [length_entries, hnil]
    exact Nat.lt_irrefl 0
  | fuel + 1, c, h, hle => by
    rw [PinnedCache.removeAll, length_entries]
    cases hkeys : c.cache.keys with
    | nil => exact ⟨c, rfl, hkeys, h⟩
    | cons x rest =>
      have hremove : PinnedCache.removeOldestPinned c = c.pop x := by
        rw [PinnedCache.removeOldestPinned, hkeys]
      have hrest : (c.pop x).cache.keys = rest := by
        rw [LRUCache.pop, Dict.keys_pop, hkeys, List.erase_cons_head]
      rw [if_pos (by rw [List.length_cons]; exact Nat.succ_pos _), hremove]
      rw [hkeys, List.length_cons] at hle
      exact removeAll_spec fuel (h.pop x) (by rw [hrest]; omega)

/-- **A call** keeps the cache in order. -/
theorem after [ToString K] (h : LruKept capacity c uses) (call : LruCall K V) :
    LruKept capacity (call.after c) (uses ++ call.used c) := by
  cases call with
  | get k =>
    cases hget : c.cache.get? k with
    | none => simpa [LruCall.after, LruCall.run, LruCall.used, LRUCache.get_of_none hget, Dict.contains, hget] using h
    | some v =>
      simpa [LruCall.after, LruCall.run, LruCall.used, LRUCache.get_of_some hget, Dict.contains, hget] using h.use hget
  | put k v =>
    obtain ⟨⟨c', hok, -⟩, hkept⟩ := h.put k v
    simpa [LruCall.after, LruCall.run, LruCall.used, hok] using hkept c' hok
  | pin k =>
    rw [LruCall.used, List.append_nil, LruCall.after, LruCall.run, PinnedCache.pin]
    cases hc : c.cache.contains k with
    | false => exact h
    | true =>
      refine ⟨h.capacity_eq, h.le, fun y hy => ?_, h.order⟩
      simp only [if_true] at hy
      split_ifs at hy
      · exact h.pinned y hy
      · rcases List.mem_append.mp hy with hy | hy
        · exact h.pinned y hy
        · rw [List.mem_singleton.mp hy]
          exact (Dict.contains_iff _ _).mp hc
  | pop k =>
    rw [LruCall.used, List.append_nil]
    exact h.pop k
  | touch k =>
    cases hget : c.cache.get? k with
    | none =>
      simpa [LruCall.after, LruCall.run, LruCall.used, PinnedCache.touch, Dict.moveToEnd, Dict.contains, hget] using h
    | some v =>
      simpa [LruCall.after, LruCall.run, LruCall.used, PinnedCache.touch, Dict.moveToEnd, Dict.contains, hget]
        using h.use hget
  | clear =>
    obtain ⟨c', hok, hkeys, hkept⟩ := h.removeAll_spec c.cache.entries.length (length_entries _).ge
    have hpins : ∀ k, k ∉ c'.pinnedItems := fun k hk => by
      have hmem := hkept.pinned k hk
      rw [hkeys] at hmem
      cases hmem
    rw [LruCall.used, List.append_nil, LruCall.after, LruCall.run, PinnedCache.clear, hok, ok_bind]
    exact ⟨hkept.capacity_eq, Nat.zero_le _, fun k hk => absurd hk (hpins k), List.Pairwise.nil⟩

end LruKept

/-- **A cache with pinned keys keeps its capacity.** -/
theorem lru_cache_keeps_capacity [ToString K] (capacity : ℕ) (calls : List (LruCall K V)) :
    let (c, uses) := runCalls capacity calls
    c.cache.keys.length ≤ capacity ∧ (∀ k ∈ c.pinnedItems, k ∈ c.cache.keys) ∧ ∀ k v, PutOk c uses k v := by
  have hrun : ∀ (calls : List (LruCall K V)) (c : LRUCache K V) (uses : List K), LruKept capacity c uses →
      let r := calls.foldl (fun (c, uses) call => (call.after c, uses ++ call.used c)) (c, uses)
      LruKept capacity r.1 r.2 := by
    intro calls
    induction calls with
    | nil => exact fun _ _ h => h
    | cons call calls ih => exact fun c uses h => ih _ _ (h.after call)
  have h := hrun calls (.init capacity) [] ⟨rfl, Nat.zero_le _, fun _ hk => absurd hk List.not_mem_nil, List.Pairwise.nil⟩
  exact ⟨h.le, h.pinned, fun k v => (h.put k v).1⟩

end SpaceServe
