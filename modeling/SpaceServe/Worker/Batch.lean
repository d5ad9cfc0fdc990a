import SpaceServe.Worker.Model

/-!
# The persistent batch

`req_ids` and `req_id_to_index` say the same; the rows below `n` are filled except for the holes
that removals left, until these are filled again or `condense` closes them.

* `InputBatch.Inv`, `length_add_holes`: with `n` rows and the given holes;
* `Inv.removeRequest`, `Inv.addRequest`, `Inv.moveRow`: what the operations do to it;
* **`condense_dense`**: condensing leaves no holes;
* `Inv.rows`: the rows of a dense batch.
-/

set_option autoImplicit false

namespace SpaceServe

open Py

namespace InputBatch

/-- The rows from `n` on are empty, those below `n` are filled except for the holes. -/
structure Inv (maxNumReqs : ℕ) (b : InputBatch) (n : ℕ) (holes : List ℕ) : Prop where
  length : b.reqIds.length = maxNumReqs
  le : n ≤ maxNumReqs
  index : ∀ i id, b.reqIds[i]? = some (some id) ↔ b.reqIdToIndex.get? id = some i
  lt : ∀ id i, b.reqIdToIndex.get? id = some i → i < n
  filled : ∀ i < n, i ∉ holes → ∃ id, b.reqIds[i]? = some (some id)
  empty : ∀ i ∈ holes, b.reqIds[i]? = some none

variable {m : ℕ} {b : InputBatch} {n : ℕ} {holes : List ℕ}

theorem Inv.init (m : ℕ) : (init m).Inv m 0 [] where
  length := List.length_replicate
  le := Nat.zero_le m
  index i id := by
    simp only [InputBatch.init, Dict.get?_empty, reduceCtorEq, iff_false]
    intro h
    have := List.eq_of_mem_replicate (List.mem_of_getElem? h)
    cases this
  lt id i h := by cases h
  filled i hi := absurd hi (Nat.not_lt_zero i)
  empty i hi := by cases hi

/-- Only `req_ids` and `req_id_to_index` matter. -/
theorem Inv.congr (h : b.Inv m n holes) {b' : InputBatch} (h1 : b'.reqIds = b.reqIds)
    (h2 : b'.reqIdToIndex = b.reqIdToIndex) : b'.Inv m n holes where
  length := by rw [h1]; exact h.length
  le := h.le
  index := by rw [h1, h2]; exact h.index
  lt := by rw [h2]; exact h.lt
  filled := by rw [h1]; exact h.filled
  empty := by rw [h1]; exact h.empty

theorem Inv.perm (h : b.Inv m n holes) {holes' : List ℕ} (hp : holes'.Perm holes) :
    b.Inv m n holes' where
  length := h.length
  le := h.le
  index := h.index
  lt := h.lt
  filled i hi hh := h.filled i hi fun hm => hh (hp.mem_iff.mpr hm)
  empty i hi := h.empty i (hp.mem_iff.mp hi)

theorem Inv.not_mem_holes (h : b.Inv m n holes) {id : ReqId} {i : ℕ}
    (hi : b.reqIdToIndex.get? id = some i) : i ∉ holes := by
  intro hm
  have h1 := (h.index i id).mpr hi
  rw [h.empty i hm] at h1
  cases h1

/-- **The requests and the holes make up the `n` rows.** -/
theorem Inv.length_add_holes (h : b.Inv m n holes) (hnd : holes.Nodup) (hlt : ∀ i ∈ holes, i < n) :
    b.numReqs + holes.length = n := by
  have hval : ∀ x ∈ b.reqIdToIndex.entries, b.reqIdToIndex.get? x.1 = some x.2 :=
    fun x hx => (b.reqIdToIndex.mem_entries x.1 x.2).mp hx
  have hinj : ∀ x ∈ b.reqIdToIndex.entries, ∀ y ∈ b.reqIdToIndex.entries, x.2 = y.2 → x = y := by
    intro x hx y hy he
    have h1 := (h.index x.2 x.1).mpr (hval x hx)
    have h2 := (h.index y.2 y.1).mpr (hval y hy)
    rw [he, h2] at h1
    exact Prod.ext (Option.some.inj (Option.some.inj h1)).symm he
  have hvnd : (b.reqIdToIndex.entries.map Prod.snd).Nodup :=
    (List.Nodup.of_map _ b.reqIdToIndex.nodup).map_on fun x hx y hy => hinj x hx y hy
  have hperm : (b.reqIdToIndex.entries.map Prod.snd ++ holes).Perm (List.range n) := by
    refine (List.perm_ext_iff_of_nodup (List.nodup_append.mpr ⟨hvnd, hnd, ?_⟩) List.nodup_range).mpr
      fun i => ?_
    · rintro i hi j hj rfl
      obtain ⟨x, hx, rfl⟩ := List.mem_map.mp hi
      exact h.not_mem_holes (hval x hx) hj
    · rw [List.mem_append, List.mem_range]
      constructor
      · rintro (hi | hi)
        · obtain ⟨x, hx, rfl⟩ := List.mem_map.mp hi
          exact h.lt _ _ (hval x hx)
        · exact hlt i hi
      · intro hi
        by_cases hh : i ∈ holes
        · exact Or.inr hh
        · obtain ⟨id, hid⟩ := h.filled i hi hh
          exact Or.inl (List.mem_map.mpr
            ⟨(id, i), (b.reqIdToIndex.mem_entries id i).mpr ((h.index i id).mp hid), rfl⟩)
  have hlen := hperm.length_eq
  rw [List.length_append, List.length_map, List.length_range] at hlen
  rw [numReqs, Dict.keys, List.length_map]
  exact hlen

/-! ## Removing and adding -/

/-- Removing a request leaves a hole. -/
theorem Inv.removeRequest (h : b.Inv m n holes) (id : ReqId) :
    (b.reqIdToIndex.get? id = none ∧ b.removeRequest id = (none, b)) ∨
    ∃ i b', b.reqIdToIndex.get? id = some i ∧ b.removeRequest id = (some i, b') ∧
      b'.Inv m n (holes ++ [i]) ∧ b'.reqIdToIndex = b.reqIdToIndex.pop id := by
  unfold InputBatch.removeRequest
  cases hi : b.reqIdToIndex.get? id with
  | none => exact Or.inl ⟨rfl, rfl⟩
  | some i =>
    have hrow := (h.index i id).mpr hi
    have hlt := (List.getElem?_eq_some_iff.mp hrow).1
    refine Or.inr ⟨i, _, rfl, rfl, ⟨?_, h.le, ?_, ?_, ?_, ?_⟩, rfl⟩
    · simpa using h.length
    · intro j id'
      rw [List.getElem?_set, Dict.get?_pop]
      by_cases hj : i = j
      · subst hj
        rw [if_pos rfl, if_pos hlt]
        simp only [Option.some.injEq, reduceCtorEq, false_iff]
        split_ifs with he
        · simp
        · intro hc
          have := (h.index i id').mpr hc
          rw [hrow] at this
          exact he (Option.some.inj (Option.some.inj this)).symm
      · rw [if_neg hj, h.index j id']
        split_ifs with he
        · subst he
          rw [hi]
          simp [hj]
        · rfl
    · intro id' j hg
      rw [Dict.get?_pop] at hg
      split_ifs at hg
      exact h.lt id' j hg
    · intro j hj hh
      rw [List.mem_append, List.mem_singleton, not_or] at hh
      rw [List.getElem?_set_ne (fun e => hh.2 e.symm)]
      exact h.filled j hj hh.1
    · intro j hj
      rw [List.getElem?_set]
      by_cases he : i = j
      · rw [if_pos he, if_pos hlt]
      · rw [if_neg he]
        rw [List.mem_append, List.mem_singleton] at hj
        exact h.empty j (hj.resolve_right fun e => he e.symm)

/-- A request put in an empty row `i`. -/
theorem Inv.put (h : b.Inv m n holes) {id : ReqId} {i n' : ℕ} {holes' : List ℕ}
    (hid : b.reqIdToIndex.get? id = none) (hi : b.reqIds[i]? = some none) (hn : n ≤ n')
    (hin : i < n') (hle : n' ≤ m) (hnew : ∀ j < n', j ≠ i → j ∉ holes' → j < n ∧ j ∉ holes)
    (hold : ∀ j ∈ holes', j ≠ i ∧ j ∈ holes) {b' : InputBatch}
    (h1 : b'.reqIds = b.reqIds.set i (some id))
    (h2 : b'.reqIdToIndex = b.reqIdToIndex.set id i) : b'.Inv m n' holes' := by
  have hlt := (List.getElem?_eq_some_iff.mp hi).1
  refine ⟨?_, hle, ?_, ?_, ?_, ?_⟩
  · rw [h1, List.length_set]
    exact h.length
  · intro j id'
    rw [h1, h2, List.getElem?_set, Dict.get?_set]
    by_cases hj : i = j
    · subst hj
      rw [if_pos rfl, if_pos hlt]
      split_ifs with he
      · simp [he]
      · constructor
        · intro hc
          exact absurd (Option.some.inj (Option.some.inj hc)).symm he
        · intro hc
          have := (h.index i id').mpr hc
          rw [hi] at this
          cases this
    · rw [if_neg hj, h.index j id']
      split_ifs with he
      · subst he
        rw [hid]
        simp [hj]
      · rfl
  · intro id' j hg
    rw [h2, Dict.get?_set] at hg
    split_ifs at hg
    · cases hg; exact hin
    · exact Nat.lt_of_lt_of_le (h.lt id' j hg) hn
  · intro j hj hh
    rw [h1]
    by_cases he : j = i
    · subst he
      exact ⟨id, by rw [List.getElem?_set_self hlt]⟩
    · rw [List.getElem?_set_ne (fun e => he e.symm)]
      obtain ⟨h3, h4⟩ := hnew j hj he hh
      exact h.filled j h3 h4
  · intro j hj
    obtain ⟨h3, h4⟩ := hold j hj
    rw [h1, List.getElem?_set_ne (fun e => h3 e.symm)]
    exact h.empty j h4

theorem appendRow_reqIds (b : InputBatch) (i start : ℕ) (ids : List ℕ) :
    (b.appendRow i start ids).reqIds = b.reqIds ∧
      (b.appendRow i start ids).reqIdToIndex = b.reqIdToIndex := by
  unfold appendRow
  split_ifs <;> exact ⟨rfl, rfl⟩

theorem addRequest_eq_ok (state : CachedRequestState) {reqIndex : Option ℕ} {i : ℕ}
    (hi : reqIndex.getD b.numReqs = i) (hlt : i < m) :
    ∃ b', b.addRequest m state reqIndex = .ok b' ∧
      b'.reqIds = b.reqIds.set i (some state.reqId) ∧
      b'.reqIdToIndex = b.reqIdToIndex.set state.reqId i := by
  subst hi
  unfold InputBatch.addRequest
  simp only
  rw [assert_of hlt, ok_bind]
  exact ⟨_, rfl, appendRow_reqIds _ _ _ _⟩

/-- The row that a request is put in is free. -/
theorem Inv.free_row (h : b.Inv m n holes) (hnd : holes.Nodup) (hlt : ∀ i ∈ holes, i < n)
    (id : ReqId) : b.reqIdToIndex.get? id ≠ some (holes.head?.getD b.numReqs) := by
  intro hi
  have hcount := h.length_add_holes hnd hlt
  cases holes with
  | nil =>
    have hin := h.lt id _ hi
    rw [List.length_nil, Nat.add_zero] at hcount
    simp only [List.head?_nil, Option.getD_none] at hin
    omega
  | cons i rest => exact h.not_mem_holes hi List.mem_cons_self

/-- **Adding a request** fills the first hole, or the next row. -/
theorem Inv.addRequest (h : b.Inv m n holes) (hnd : holes.Nodup) (hlt : ∀ i ∈ holes, i < n)
    {state : CachedRequestState} (hid : b.reqIdToIndex.get? state.reqId = none)
    (hroom : holes = [] → n < m) :
    ∃ b' n', b.addRequest m state holes.head? = .ok b' ∧ b'.Inv m n' holes.tail ∧ n ≤ n' ∧
      b'.reqIdToIndex = b.reqIdToIndex.set state.reqId (holes.head?.getD n) := by
  have hcount := h.length_add_holes hnd hlt
  cases holes with
  | nil =>
    rw [List.length_nil, Nat.add_zero] at hcount
    have hn := hroom rfl
    have hrow : b.reqIds[n]? = some none := by
      cases hr : b.reqIds[n]? with
      | none =>
        rw [List.getElem?_eq_none_iff, h.length] at hr
        omega
      | some o =>
        cases o with
        | none => rfl
        | some id' => exact absurd (h.lt id' n ((h.index n id').mp hr)) (Nat.lt_irrefl n)
    obtain ⟨b', hb', h1, h2⟩ := addRequest_eq_ok state
      (show Option.getD none b.numReqs = n from hcount) hn
    refine ⟨b', n + 1, hb', ?_, Nat.le_succ n, h2⟩
    refine h.put hid hrow (Nat.le_succ n) (Nat.lt_succ_self n) hn (fun j hj hne hh => ?_)
      (fun j hj => (List.not_mem_nil hj).elim) h1 h2
    exact ⟨by omega, hh⟩
  | cons i rest =>
    have hi := hlt i List.mem_cons_self
    obtain ⟨b', hb', h1, h2⟩ := addRequest_eq_ok state
      (show Option.getD (some i) b.numReqs = i from rfl) (Nat.lt_of_lt_of_le hi h.le)
    refine ⟨b', n, hb', ?_, Nat.le_refl n, h2⟩
    refine h.put hid (h.empty i List.mem_cons_self) (Nat.le_refl n) hi h.le (fun j hj hne hh => ?_)
      (fun j hj => ⟨?_, List.mem_cons_of_mem _ hj⟩) h1 h2
    · exact ⟨hj, fun hm => (List.mem_cons.mp hm).elim hne hh⟩
    · rintro rfl
      exact (List.nodup_cons.mp hnd).1 hj

/-! ## Condensing -/

theorem lastNonEmpty_spec (holes : List ℕ) : ∀ n, lastNonEmpty holes n < n ∧
    -1 ≤ lastNonEmpty holes n ∧
    (∀ i < n, lastNonEmpty holes n < i → i ∈ holes) ∧
    (0 ≤ lastNonEmpty holes n → (lastNonEmpty holes n).toNat ∉ holes)
  | 0 => by
    refine ⟨by simp [lastNonEmpty], by simp [lastNonEmpty], fun i hi => absurd hi (Nat.not_lt_zero i),
      fun h => ?_⟩
    simp [lastNonEmpty] at h
  | n + 1 => by
    obtain ⟨h1, h2, h3, h4⟩ := lastNonEmpty_spec holes n
    rw [lastNonEmpty]
    split_ifs with hn
    · refine ⟨by omega, h2, fun i hi hlt => ?_, h4⟩
      by_cases he : i = n
      · rw [he]; exact hn
      · exact h3 i (by omega) hlt
    · refine ⟨by omega, by omega, fun i hi hlt => by omega, fun _ => by simpa using hn⟩

/-- Moving the last row into a hole. -/
theorem Inv.moveRow (h : b.Inv m n holes) {rest : List ℕ} {id : ReqId} {last e : ℕ}
    (hholes : holes = e :: rest) (hnd : holes.Nodup) (hlast : b.reqIds[last]? = some (some id))
    (hlt : e < last) (hgap : ∀ i < n, last < i → i ∈ holes) :
    (b.moveRow id last e).Inv m last rest := by
  subst hholes
  have hidx := (h.index last id).mp hlast
  have hle := h.le
  have hln := h.lt id last hidx
  have hlen := h.length
  have he := h.empty e List.mem_cons_self
  refine ⟨?_, by omega, ?_, ?_, ?_, ?_⟩
  · simp only [InputBatch.moveRow, List.length_set]
    exact hlen
  · intro i id'
    simp only [InputBatch.moveRow]
    rw [List.getElem?_set, List.getElem?_set, Dict.get?_set, List.length_set]
    by_cases hi : last = i
    · subst hi
      rw [if_pos rfl, if_pos (by omega)]
      simp only [Option.some.injEq, reduceCtorEq, false_iff]
      split_ifs with hid
      · simp only [Option.some.injEq]
        omega
      · intro hc
        have := (h.index last id').mpr hc
        rw [hlast] at this
        exact hid (Option.some.inj (Option.some.inj this)).symm
    · rw [if_neg hi]
      by_cases hei : e = i
      · subst hei
        rw [if_pos rfl, if_pos (by omega)]
        split_ifs with hid
        · simp [hid]
        · constructor
          · intro hc
            exact absurd (Option.some.inj (Option.some.inj hc)).symm hid
          · intro hc
            have := (h.index e id').mpr hc
            rw [he] at this
            cases this
      · rw [if_neg hei, h.index i id']
        split_ifs with hid
        · subst hid
          rw [hidx]
          simp [hi, hei]
        · rfl
  · intro id' i hg
    simp only [InputBatch.moveRow] at hg
    rw [Dict.get?_set] at hg
    split_ifs at hg with hid
    · cases hg; exact hlt
    · have h1 := h.lt id' i hg
      by_contra hge
      obtain heq | hgt := Nat.eq_or_lt_of_le (Nat.le_of_not_lt hge)
      · subst heq
        have := (h.index last id').mpr hg
        rw [hlast] at this
        exact hid (Option.some.inj (Option.some.inj this)).symm
      · exact h.not_mem_holes hg (hgap i h1 hgt)
  · intro i hi hh
    simp only [InputBatch.moveRow]
    rw [List.getElem?_set_ne (by omega)]
    by_cases hei : e = i
    · subst hei
      exact ⟨id, by rw [List.getElem?_set_self (by omega)]⟩
    · rw [List.getElem?_set_ne hei]
      exact h.filled i (by omega) fun hm => (List.mem_cons.mp hm).elim (fun e' => hei e'.symm) hh
  · intro i hi
    have hei : e ≠ i := by
      rintro rfl
      exact (List.nodup_cons.mp hnd).1 hi
    simp only [InputBatch.moveRow]
    rw [List.getElem?_set]
    split_ifs with h1 h2
    · rfl
    · rw [List.length_set] at h2
      omega
    · rw [List.getElem?_set_ne hei]
      exact h.empty i (List.mem_cons_of_mem _ hi)

/-- The loop of `condense` closes all holes. -/
theorem condenseLoop_dense : ∀ {holes : List ℕ} {n : ℕ} {b : InputBatch}, b.Inv m n holes →
    holes.Pairwise (· < ·) → ∃ b' n', condenseLoop holes n b = .ok b' ∧ b'.Inv m n' [] ∧
      ∀ id, id ∈ b'.reqIdToIndex.keys ↔ id ∈ b.reqIdToIndex.keys
  | [], n, b, h, _ => ⟨b, n, rfl, h, fun _ => Iff.rfl⟩
  | e :: rest, n, b, h, hs => by
    have hsorted := List.pairwise_cons.mp hs
    obtain ⟨h1, h2, h3, h4⟩ := lastNonEmpty_spec (e :: rest) n
    rw [condenseLoop]
    by_cases hle : lastNonEmpty (e :: rest) n ≤ e
    · -- all holes are behind the last row that is filled
      rw [if_pos hle]
      have hbehind : ∀ i ∈ e :: rest, lastNonEmpty (e :: rest) n < i := by
        have hlt : lastNonEmpty (e :: rest) n < e := by
          refine lt_of_le_of_ne hle fun heq => ?_
          rw [heq] at h4
          exact h4 (by omega) (by simp)
        intro i hi
        obtain rfl | hi := List.mem_cons.mp hi
        · exact hlt
        · have := hsorted.1 i hi
          omega
      have hle' := h.le
      refine ⟨b, (lastNonEmpty (e :: rest) n + 1).toNat, rfl,
        ⟨h.length, by omega, h.index, ?_, ?_, ?_⟩, fun _ => Iff.rfl⟩
      · intro id i hi
        have hin := h.lt id i hi
        by_contra hge
        exact h.not_mem_holes hi (h3 i hin (by omega))
      · intro i hi _
        refine h.filled i (by omega) fun hm => ?_
        have := hbehind i hm
        omega
      · intro i hi
        cases hi
    · rw [if_neg hle]
      have hpos : 0 ≤ lastNonEmpty (e :: rest) n := by omega
      obtain ⟨last, hlast⟩ := Int.eq_ofNat_of_zero_le hpos
      rw [hlast] at h1 h3 h4 hle ⊢
      rw [Int.toNat_natCast] at h4 ⊢
      obtain ⟨id, hid⟩ := h.filled last (by omega) (h4 (by omega))
      rw [hid]
      simp only
      have hmove := h.moveRow rfl (hs.imp fun hab => Nat.ne_of_lt hab) hid (by omega)
        (fun i hi hlt => h3 i hi (by omega))
      obtain ⟨b', n', hb', hinv, hkeys⟩ := condenseLoop_dense hmove hsorted.2
      refine ⟨b', n', hb', hinv, fun id' => ?_⟩
      rw [hkeys]
      simp only [InputBatch.moveRow]
      rw [Dict.mem_keys_set]
      refine ⟨fun hk => hk.elim (fun he => ?_) fun h' => h', Or.inr⟩
      rw [he]
      exact Dict.mem_keys_of_get? ((h.index last id).mp hid)

/-- **Condensing leaves no holes.** -/
theorem condense_dense (h : b.Inv m n holes) (hs : holes.Pairwise (· < ·))
    (hlt : ∀ i ∈ holes, i < n) : ∃ b' n', b.condense holes = .ok b' ∧ b'.Inv m n' [] ∧
      ∀ id, id ∈ b'.reqIdToIndex.keys ↔ id ∈ b.reqIdToIndex.keys := by
  have hcount := h.length_add_holes (hs.imp fun hab => Nat.ne_of_lt hab) hlt
  unfold condense
  by_cases hz : b.numReqs = 0
  · rw [if_pos hz]
    have hnil : b.reqIdToIndex.keys = [] := List.eq_nil_of_length_eq_zero hz
    refine ⟨b, 0, rfl, ⟨h.length, Nat.zero_le m, h.index, fun id i hi => ?_,
      fun i hi => absurd hi (Nat.not_lt_zero i), fun i hi => by cases hi⟩, fun _ => Iff.rfl⟩
    have := Dict.mem_keys_of_get? hi
    rw [hnil] at this
    cases this
  · rw [if_neg hz, hcount]
    exact condenseLoop_dense h hs

theorem exists_map_some {α : Type} : ∀ {l : List (Option α)}, (∀ x ∈ l, x ≠ none) →
    ∃ xs : List α, l = xs.map some
  | [], _ => ⟨[], rfl⟩
  | none :: _, h => absurd rfl (h none List.mem_cons_self)
  | some a :: l, h => by
    obtain ⟨xs, hxs⟩ := exists_map_some fun x hx => h x (List.mem_cons_of_mem _ hx)
    exact ⟨a :: xs, by rw [hxs]; rfl⟩

/-- The row of a request is where the index says. -/
theorem Inv.getElem?_rows (h : b.Inv m n []) {rows : List ReqId}
    (hrows : b.reqIds.take b.numReqs = rows.map some) (i : ℕ) (id : ReqId) :
    rows[i]? = some id ↔ b.reqIdToIndex.get? id = some i := by
  have hcount : b.numReqs = n := h.length_add_holes List.nodup_nil (fun i hi => by cases hi)
  rw [hcount] at hrows
  rw [← h.index i id]
  have hi := congrArg (fun l => l[i]?) hrows
  simp only [List.getElem?_take, List.getElem?_map] at hi
  by_cases hin : i < n
  · rw [if_pos hin] at hi
    rw [hi]
    cases rows[i]? <;> simp
  · rw [if_neg hin] at hi
    have hnone : rows[i]? = none := by
      cases hr : rows[i]? with
      | none => rfl
      | some _ => rw [hr] at hi; cases hi
    rw [hnone, h.index i id]
    constructor
    · intro hc; cases hc
    · intro hc; exact absurd (h.lt id i hc) hin

/-- **The rows of a dense batch** are its requests, each once. -/
theorem Inv.rows (h : b.Inv m n []) : ∃ rows : List ReqId,
    b.reqIds.take b.numReqs = rows.map some ∧ rows.Nodup ∧
      ∀ id, id ∈ rows ↔ id ∈ b.reqIdToIndex.keys := by
  have hcount : b.numReqs = n := h.length_add_holes List.nodup_nil (fun i hi => by cases hi)
  have hsome : ∀ x ∈ b.reqIds.take b.numReqs, x ≠ none := by
    intro x hx
    obtain ⟨i, hi⟩ := List.mem_iff_getElem?.mp hx
    rw [hcount, List.getElem?_take] at hi
    split_ifs at hi with hin
    obtain ⟨id, hid⟩ := h.filled i hin List.not_mem_nil
    rw [hid] at hi
    cases hi
    exact Option.some_ne_none id
  obtain ⟨rows, hrows⟩ := exists_map_some hsome
  have hget := h.getElem?_rows hrows
  refine ⟨rows, hrows, ?_, fun id => ?_⟩
  · refine List.nodup_iff_getElem?_ne_getElem?.mpr fun i j hij hj heq => ?_
    have h1 := (hget j rows[j]).mp (List.getElem?_eq_getElem hj)
    have h2 := (hget i rows[j]).mp (heq.trans (List.getElem?_eq_getElem hj))
    rw [h1] at h2
    have := Option.some.inj h2
    omega
  · rw [List.mem_iff_getElem?]
    constructor
    · rintro ⟨i, hi⟩
      exact Dict.mem_keys_of_get? ((hget i id).mp hi)
    · intro hk
      obtain ⟨i, hi⟩ := Dict.exists_get?_of_mem hk
      exact ⟨i, (hget i id).mpr hi⟩

/-- The rows that `execute_model` goes through. -/
theorem Inv.get?_of_mem_zipIdx (h : b.Inv m n holes) {reqId : ReqId} {i : ℕ}
    (hrow : (some reqId, i) ∈ (b.reqIds.take b.numReqs).zipIdx) :
    b.reqIdToIndex.get? reqId = some i := by
  have hget := (List.mem_zipIdx' hrow).2
  rw [← h.index i reqId, hget, List.getElem_take]
  exact List.getElem?_eq_getElem _

/-! ## Copying to the device -/

/-- The copy leaves the rows as they are. -/
theorem copyToDevice_reqIds (b : InputBatch) : b.copyToDevice.reqIds = b.reqIds ∧
    b.copyToDevice.reqIdToIndex = b.reqIdToIndex := by
  unfold copyToDevice
  simp only
  split <;> exact ⟨rfl, rfl⟩

end InputBatch

/-- How `_prepare_sampling` has run. -/
theorem GPUModelRunner.prepareSampling_eq_ok {V : Type} {w w' : GPUModelRunner V} {changed : Bool}
    {metadata : SamplingMetadata} (h : w.prepareSampling changed = .ok (metadata, w')) :
    w' = { w with inputBatch := if changed = true then w.inputBatch.copyToDevice
      else w.inputBatch } := by
  unfold prepareSampling InputBatch.makeSamplingMetadata at h
  simp only [bind_eq_ok] at h
  obtain ⟨⟨metadata', b⟩, ⟨_, -, hb⟩, h⟩ := h
  cases hb
  cases h
  cases changed <;> rfl

end SpaceServe
