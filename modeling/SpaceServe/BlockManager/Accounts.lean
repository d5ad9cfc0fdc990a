import SpaceServe.BlockManager.PrefixCaching

/-!
# Where the ids of a prefix cache are

The tables of a `PrefixCachingBlockAllocator` that say where an id is: the counts, the free ids, the tracker, the
evictor and the cached blocks; beside the ids that the blocks in use hold.

* `Accounts`: every id is free, or with the evictor, or in use; cached ids are not free;
* **`Accounts.takeFree`**, **`Accounts.takeEvicted`**: an id is allocated; **`Accounts.giveHashless`**,
  **`Accounts.giveCached`**: an id is given back; **`Accounts.attach`**, `Accounts.incr`: an id is shared;
  **`Accounts.register`**: an id is cached;
* **`Accounts.place`**: an id is in one place; `Accounts.perm_free`: which ids have count zero.
-/

set_option autoImplicit false

namespace SpaceServe

open Py

/-- Where the ids are. `held` are those in hand, beside the ones of the blocks `D`. -/
structure Accounts (all held : List BlockId) (refcounter : RefCounter) (free : List BlockId)
    (tracker : Dict BlockId BlockTracker) (evictor : Dict BlockId BlockMetaData) (cached : Dict ℤ BlockId)
    (ids : PoolId → Option BlockId) (D : Finset PoolId) : Prop where
  counted : Counted refcounter all ids D held
  free_nodup : free.Nodup
  free_iff : ∀ b, b ∈ free ↔ refcounter.get? b = some 0 ∧ evictor.get? b = none
  tracked : ∀ b m, refcounter.get? b = some m → ∃ t, tracker.get? b = some t ∧ (t.active = true ↔ 0 < m)
  evicted : ∀ b x, evictor.get? b = some x → refcounter.get? b = some 0 ∧ cached.get? x.contentHash = some b
  inj : ∀ h h' b, cached.get? h = some b → cached.get? h' = some b → h = h'
  kept : ∀ h b, cached.get? h = some b → b ∈ all ∧ b ∉ free

namespace Accounts

variable {all held free rest : List BlockId} {refcounter : RefCounter} {tracker : Dict BlockId BlockTracker}
  {evictor : Dict BlockId BlockMetaData} {cached : Dict ℤ BlockId} {ids ids' : PoolId → Option BlockId}
  {D D' : Finset PoolId} {b : BlockId} {m : ℕ} {h : ℤ} {o : PoolId} {t : BlockTracker} {x : BlockMetaData}

/-- The tracker of an id, after its count was changed. -/
theorem tracked_set (ha : Accounts all held refcounter free tracker evictor cached ids D) {k : ℕ}
    {tracker' : Dict BlockId BlockTracker} (hb : ∃ t, tracker'.get? b = some t ∧ (t.active = true ↔ 0 < k))
    (hother : ∀ b' ≠ b, tracker'.get? b' = tracker.get? b') {b' : BlockId} {m : ℕ}
    (hm : (refcounter.set b k).get? b' = some m) : ∃ t, tracker'.get? b' = some t ∧ (t.active = true ↔ 0 < m) := by
  rw [Dict.get?_set] at hm
  split_ifs at hm with heq
  · cases hm
    rw [heq]
    exact hb
  · rw [hother b' heq]
    exact ha.tracked b' m hm

/-- No block holds an id with count zero. -/
theorem not_held (ha : Accounts all held refcounter free tracker evictor cached ids D)
    (hb : refcounter.get? b = some 0) (ho : o ∈ D) : ids o ≠ some b := by
  intro heq
  have hpos := holders_pos.mpr ⟨o, ho, heq⟩
  have hzero := (ha.counted.mem_of_get? hb).2
  omega

theorem congr (ha : Accounts all held refcounter free tracker evictor cached ids D) (hids : ∀ o ∈ D, ids o = ids' o) :
    Accounts all held refcounter free tracker evictor cached ids' D :=
  ⟨ha.counted.congr hids, ha.free_nodup, ha.free_iff, ha.tracked, ha.evicted, ha.inj, ha.kept⟩

/-- **A free id is allocated**. -/
theorem takeFree (ha : Accounts all held refcounter (b :: rest) tracker evictor cached ids D)
    (hm : refcounter.get? b = some m) (ht : t.active = true) :
    Accounts all (b :: held) (refcounter.set b (m + 1)) rest (tracker.set b t) evictor cached ids D where
  counted := ha.counted.incr hm
  free_nodup := ha.free_nodup.of_cons
  free_iff b' := by
    have hiff := ha.free_iff b'
    have hnot := (List.nodup_cons.mp ha.free_nodup).1
    rw [List.mem_cons] at hiff
    rw [Dict.get?_set]
    split_ifs with heq
    · rw [heq]
      exact iff_of_false hnot fun hand => Nat.succ_ne_zero _ (Option.some.inj hand.1)
    · rw [← hiff, or_iff_right heq]
  tracked b' k hk := ha.tracked_set 
    ⟨t, Dict.get?_set_self _ _ _, iff_of_true ht (Nat.succ_pos m)⟩
    (fun b' hne => Dict.get?_set_ne _ hne _) hk
  evicted b' y hy := by
    obtain ⟨hzero, hcached⟩ := ha.evicted b' y hy
    have hne : b' ≠ b := by
      rintro rfl
      rw [((ha.free_iff b').mp List.mem_cons_self).2] at hy
      cases hy
    rw [Dict.get?_set_ne _ hne]
    exact ⟨hzero, hcached⟩
  inj := ha.inj
  kept h b' hb' := ⟨(ha.kept h b' hb').1, fun hmem => (ha.kept h b' hb').2 (List.mem_cons_of_mem _ hmem)⟩

/-- A free id is not cached. -/
theorem uncached_of_free (ha : Accounts all held refcounter free tracker evictor cached ids D) (hb : b ∈ free) :
    cached.get? h ≠ some b := fun hcached => (ha.kept h b hcached).2 hb

/-- **An id of the evictor is allocated**, and is not cached any more. -/
theorem takeEvicted (ha : Accounts all held refcounter free tracker evictor cached ids D)
    (hx : evictor.get? b = some x) (hh : cached.get? h = some b) (ht : t.active = true) :
    Accounts all (b :: held) (refcounter.set b 1) free (tracker.set b t) (evictor.pop b) (cached.pop h) ids D ∧
      ∀ h', (cached.pop h).get? h' ≠ some b := by
  have hzero := (ha.evicted b x hx).1
  have hnot : b ∉ free := (ha.kept h b hh).2
  have hpop : ∀ h' b', (cached.pop h).get? h' = some b' → h' ≠ h ∧ cached.get? h' = some b' := by
    intro h' b' hb'
    rw [Dict.get?_pop] at hb'
    split_ifs at hb' with hne
    exact ⟨hne, hb'⟩
  refine ⟨⟨ha.counted.incr hzero, ha.free_nodup, fun b' => ?_, fun b' k hk => ?_, fun b' y hy => ?_,
    fun h₁ h₂ b' h₁' h₂' => ha.inj h₁ h₂ b' (hpop _ _ h₁').2 (hpop _ _ h₂').2,
    fun h' b' hb' => ha.kept h' b' (hpop _ _ hb').2⟩, fun h' hh' => ?_⟩
  · rcases eq_or_ne b' b with rfl | hne
    · rw [Dict.get?_set_self]
      exact iff_of_false hnot fun hand => Nat.succ_ne_zero _ (Option.some.inj hand.1)
    · rw [Dict.get?_set_ne _ hne, Dict.get?_pop_ne _ hne]
      exact ha.free_iff b'
  · exact ha.tracked_set ⟨t, Dict.get?_set_self _ _ _, iff_of_true ht Nat.one_pos⟩
      (fun b' hne => Dict.get?_set_ne _ hne _) hk
  · rw [Dict.get?_pop] at hy
    split_ifs at hy with hne
    obtain ⟨hzero', hcached⟩ := ha.evicted b' y hy
    have hhash : y.contentHash ≠ h := by
      intro heq
      rw [heq, hh] at hcached
      exact hne (Option.some.inj hcached).symm
    rw [Dict.get?_set_ne _ hne, Dict.get?_pop_ne _ hhash]
    exact ⟨hzero', hcached⟩
  · obtain ⟨hne, hb'⟩ := hpop h' b hh'
    exact hne (ha.inj h' h b hb' hh)

/-- **An id that is not cached is given back** by a block: with the last one it is free. -/
theorem giveHashless (ha : Accounts all held refcounter free tracker evictor cached ids D) (ho : o ∈ D)
    (hb : ids o = some b) (hm : refcounter.get? b = some (m + 1)) (huncached : ∀ h, cached.get? h ≠ some b)
    (ht : t.active = false) :
    Accounts all held (refcounter.set b m) (if m = 0 then b :: free else free)
      (if m = 0 then tracker.set b t else tracker) evictor cached (Function.update ids o none) D where
  counted := (ha.counted.release ho hb).decr hm
  free_nodup := by
    split_ifs
    · refine List.nodup_cons.mpr ⟨fun hmem => ?_, ha.free_nodup⟩
      rw [ha.free_iff, hm] at hmem
      cases hmem.1
    · exact ha.free_nodup
  free_iff b' := by
    have hiff := ha.free_iff b'
    rcases eq_or_ne b' b with rfl | hne
    · rw [hm] at hiff
      rw [Dict.get?_set_self]
      split_ifs with hz
      · refine iff_of_true List.mem_cons_self ⟨by rw [hz], ?_⟩
        cases hev : evictor.get? b' with
        | none => rfl
        | some y =>
          rw [(ha.evicted b' y hev).1] at hm
          cases hm
      · rw [hiff]
        exact iff_of_false (fun hand => Nat.succ_ne_zero m (Option.some.inj hand.1)) fun hand => hz (Option.some.inj hand.1)
    · rw [Dict.get?_set_ne _ hne, ← hiff]
      split_ifs
      · rw [List.mem_cons, or_iff_right hne]
      · exact Iff.rfl
  tracked b' k hk := by
    refine ha.tracked_set ?_ (fun b' hne => ?_) hk
    · split_ifs with hz
      · exact ⟨t, Dict.get?_set_self _ _ _, iff_of_false (by rw [ht]; exact Bool.false_ne_true) (by omega)⟩
      · obtain ⟨t', ht', hiff⟩ := ha.tracked b _ hm
        exact ⟨t', ht', hiff.trans (iff_of_true (Nat.succ_pos m) (Nat.pos_of_ne_zero hz))⟩
    · split_ifs
      · exact Dict.get?_set_ne _ hne _
      · rfl
  evicted b' y hy := by
    obtain ⟨hzero, hcached⟩ := ha.evicted b' y hy
    have hne : b' ≠ b := by
      rintro rfl
      rw [hm] at hzero
      cases hzero
    rw [Dict.get?_set_ne _ hne]
    exact ⟨hzero, hcached⟩
  inj := ha.inj
  kept h b' hb' := by
    obtain ⟨hall, hnot⟩ := ha.kept h b' hb'
    refine ⟨hall, ?_⟩
    split_ifs
    · rw [List.mem_cons, not_or]
      refine ⟨?_, hnot⟩
      rintro rfl
      exact huncached h hb'
    · exact hnot

/-- **A cached id is given back** by a block: with the last one the evictor has it. -/
theorem giveCached (ha : Accounts all held refcounter free tracker evictor cached ids D) (ho : o ∈ D)
    (hb : ids o = some b) (hm : refcounter.get? b = some (m + 1)) (hh : cached.get? x.contentHash = some b)
    (ht : t.active = false) :
    Accounts all held (refcounter.set b m) free (if m = 0 then tracker.set b t else tracker)
      (if m = 0 then evictor.set b x else evictor) cached (Function.update ids o none) D where
  counted := (ha.counted.release ho hb).decr hm
  free_nodup := ha.free_nodup
  free_iff b' := by
    have hnot := (ha.kept _ b hh).2
    rcases eq_or_ne b' b with rfl | hne
    · rw [Dict.get?_set_self]
      refine iff_of_false hnot fun hand => ?_
      have hz : m = 0 := Option.some.inj hand.1
      rw [if_pos hz, Dict.get?_set_self] at hand
      cases hand.2
    · rw [Dict.get?_set_ne _ hne, ha.free_iff b']
      split_ifs
      · rw [Dict.get?_set_ne _ hne]
      · exact Iff.rfl
  tracked b' k hk := by
    refine ha.tracked_set ?_ (fun b' hne => ?_) hk
    · split_ifs with hz
      · exact ⟨t, Dict.get?_set_self _ _ _, iff_of_false (by rw [ht]; exact Bool.false_ne_true) (by omega)⟩
      · obtain ⟨t', ht', hiff⟩ := ha.tracked b _ hm
        exact ⟨t', ht', hiff.trans (iff_of_true (Nat.succ_pos m) (Nat.pos_of_ne_zero hz))⟩
    · split_ifs
      · exact Dict.get?_set_ne _ hne _
      · rfl
  evicted b' y hy := by
    rcases eq_or_ne b' b with rfl | hne
    · rw [Dict.get?_set_self]
      split_ifs at hy with hz
      · rw [Dict.get?_set_self] at hy
        cases hy
        exact ⟨by rw [hz], hh⟩
      · rw [(ha.evicted b' y hy).1] at hm
        cases hm
    · rw [Dict.get?_set_ne _ hne]
      split_ifs at hy
      · rw [Dict.get?_set_ne _ hne] at hy
        exact ha.evicted b' y hy
      · exact ha.evicted b' y hy
  inj := ha.inj
  kept := ha.kept

/-- **A cached id is given to a block**. The evictor does not have it any more. -/
theorem attach {evictor' : Dict BlockId BlockMetaData} {tracker' : Dict BlockId BlockTracker}
    (ha : Accounts all held refcounter free tracker evictor cached ids D) (ho : o ∈ D) (hnone : ids o = none)
    (hh : cached.get? h = some b) (hm : refcounter.get? b = some m)
    (hev : evictor'.get? b = none ∧ ∀ b' ≠ b, evictor'.get? b' = evictor.get? b')
    (htr : (∃ t, tracker'.get? b = some t ∧ t.active = true) ∧ ∀ b' ≠ b, tracker'.get? b' = tracker.get? b') :
    Accounts all held (refcounter.set b (m + 1)) free tracker' evictor' cached (Function.update ids o (some b)) D where
  counted := (ha.counted.incr hm).acquire ho hnone
  free_nodup := ha.free_nodup
  free_iff b' := by
    rcases eq_or_ne b' b with rfl | hne
    · rw [Dict.get?_set_self]
      exact iff_of_false (ha.kept h b' hh).2 nofun
    · rw [Dict.get?_set_ne _ hne, hev.2 b' hne]
      exact ha.free_iff b'
  tracked b' k hk := by
    obtain ⟨⟨t, ht, hactive⟩, hother⟩ := htr
    exact ha.tracked_set ⟨t, ht, iff_of_true hactive (Nat.succ_pos m)⟩ hother hk
  evicted b' y hy := by
    have hne : b' ≠ b := by
      rintro rfl
      rw [hev.1] at hy
      cases hy
    rw [hev.2 b' hne] at hy
    rw [Dict.get?_set_ne _ hne]
    exact ha.evicted b' y hy
  inj := ha.inj
  kept := ha.kept

/-- **The id of a block in use is shared**. -/
theorem incr (ha : Accounts all held refcounter free tracker evictor cached ids D)
    (hm : refcounter.get? b = some m) (hne : m ≠ 0) :
    Accounts all (b :: held) (refcounter.set b (m + 1)) free tracker evictor cached ids D where
  counted := ha.counted.incr hm
  free_nodup := ha.free_nodup
  free_iff b' := by
    rcases eq_or_ne b' b with rfl | hb
    · rw [Dict.get?_set_self, ha.free_iff, hm]
      exact iff_of_false (fun hand => hne (Option.some.inj hand.1)) fun hand => nomatch hand.1
    · rw [Dict.get?_set_ne _ hb]
      exact ha.free_iff b'
  tracked b' k hk := by
    obtain ⟨t, ht, hiff⟩ := ha.tracked b m hm
    exact ha.tracked_set ⟨t, ht, hiff.trans (iff_of_true (Nat.pos_of_ne_zero hne) (Nat.succ_pos m))⟩
      (fun _ _ => rfl) hk
  evicted b' y hy := by
    obtain ⟨hzero, hcached⟩ := ha.evicted b' y hy
    have hb : b' ≠ b := by
      rintro rfl
      rw [hm] at hzero
      exact hne (Option.some.inj hzero)
    rw [Dict.get?_set_ne _ hb]
    exact ⟨hzero, hcached⟩
  inj := ha.inj
  kept := ha.kept

/-- **An id in use is cached** under a new hash. -/
theorem register (ha : Accounts all held refcounter free tracker evictor cached ids D)
    (hm : refcounter.get? b = some (m + 1)) (huncached : ∀ h, cached.get? h ≠ some b) (hnew : cached.get? h = none) :
    Accounts all held refcounter free tracker evictor (cached.set h b) ids D where
  counted := ha.counted
  free_nodup := ha.free_nodup
  free_iff := ha.free_iff
  tracked := ha.tracked
  evicted b' y hy := by
    obtain ⟨hzero, hcached⟩ := ha.evicted b' y hy
    have hne : y.contentHash ≠ h := by
      intro heq
      rw [heq, hnew] at hcached
      cases hcached
    rw [Dict.get?_set_ne _ hne]
    exact ⟨hzero, hcached⟩
  inj h₁ h₂ b' h₁' h₂' := by
    rw [Dict.get?_set] at h₁' h₂'
    split_ifs at h₁' h₂' with heq₁ heq₂ heq₂
    · rw [heq₁, heq₂]
    · cases h₁'
      exact absurd h₂' (huncached h₂)
    · cases h₂'
      exact absurd h₁' (huncached h₁)
    · exact ha.inj h₁ h₂ b' h₁' h₂'
  kept h' b' hb' := by
    rw [Dict.get?_set] at hb'
    split_ifs at hb' with heq
    · cases hb'
      refine ⟨(ha.counted.mem_of_get? hm).1, fun hmem => ?_⟩
      rw [ha.free_iff, hm] at hmem
      cases hmem.1
    · exact ha.kept h' b' hb'

/-- **An id is in one place**: free, with the evictor, or in use. -/
theorem place (ha : Accounts all held refcounter free tracker evictor cached ids D) (hb : b ∈ all) : ∃ t,
    tracker.get? b = some t ∧
      (b ∈ free ∧ evictor.get? b = none ∧ refcounter.get? b = some 0 ∧ t.active = false ∨
        b ∉ free ∧ (∃ x, evictor.get? b = some x ∧ cached.get? x.contentHash = some b) ∧
          refcounter.get? b = some 0 ∧ t.active = false ∨
        b ∉ free ∧ evictor.get? b = none ∧ (∃ m, refcounter.get? b = some (m + 1)) ∧ t.active = true) := by
  obtain ⟨m, hm⟩ : ∃ m, refcounter.get? b = some m := ⟨_, ha.counted.get?_of_mem hb⟩
  obtain ⟨t, ht, hactive⟩ := ha.tracked b m hm
  refine ⟨t, ht, ?_⟩
  cases m with
  | zero =>
    have hidle : t.active = false := Bool.not_eq_true _ ▸ fun h => Nat.lt_irrefl 0 (hactive.mp h)
    cases hev : evictor.get? b with
    | none => exact Or.inl ⟨(ha.free_iff b).mpr ⟨hm, hev⟩, rfl, hm, hidle⟩
    | some x =>
      have hnot : b ∉ free := fun hmem => by
        rw [((ha.free_iff b).mp hmem).2] at hev
        cases hev
      exact Or.inr (Or.inl ⟨hnot, ⟨x, rfl, (ha.evicted b x hev).2⟩, hm, hidle⟩)
  | succ m =>
    have hnone : evictor.get? b = none := by
      cases hev : evictor.get? b with
      | none => rfl
      | some x =>
        rw [(ha.evicted b x hev).1] at hm
        cases hm
    have hnot : b ∉ free := fun hmem => by
      rw [((ha.free_iff b).mp hmem).1] at hm
      cases hm
    exact Or.inr (Or.inr ⟨hnot, hnone, ⟨m, hm⟩, hactive.mpr (Nat.succ_pos m)⟩)

/-- The ids with count zero are the free ones, and those of the evictor. -/
theorem perm_free (ha : Accounts all held refcounter free tracker evictor cached ids D) (hall : all.Nodup) :
    (free ++ evictor.keys).Perm (all.filter fun b => refcounter.get? b = some 0) := by
  rw [List.perm_ext_iff_of_nodup ?_ (hall.filter _)]
  · intro b
    rw [List.mem_append, List.mem_filter, decide_eq_true_eq]
    constructor
    · intro h
      have hzero : refcounter.get? b = some 0 := by
        rcases h with h | h
        · exact ((ha.free_iff b).mp h).1
        · obtain ⟨x, hx⟩ := evictor.exists_get?_of_mem h
          exact (ha.evicted b x hx).1
      exact ⟨(ha.counted.mem_of_get? hzero).1, hzero⟩
    · rintro ⟨-, hzero⟩
      cases hev : evictor.get? b with
      | none => exact Or.inl ((ha.free_iff b).mpr ⟨hzero, hev⟩)
      | some x => exact Or.inr (evictor.mem_keys_of_get? hev)
  · refine List.nodup_append.mpr ⟨ha.free_nodup, evictor.keys_nodup, fun b hb b' hb' => ?_⟩
    rintro rfl
    obtain ⟨x, hx⟩ := evictor.exists_get?_of_mem hb'
    rw [((ha.free_iff b).mp hb).2] at hx
    cases hx

end Accounts

end SpaceServe
