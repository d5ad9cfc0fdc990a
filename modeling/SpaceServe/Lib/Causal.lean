import Mathlib.Data.List.Basic
import Mathlib.Data.List.TakeDrop
import Mathlib.Logic.Function.Basic
import Mathlib.Tactic.Common

/-!
# Causal models in a paged memory

A layered model of sequences. A layer stores an entry for every position and computes the state of a
position from the entries of the positions up to it, so that the entries of a position are the same in
every sequence with the same beginning.

* `CausalModel`, `state`, `stored`: the model on a whole sequence;
* `Item`, `layer`, `run`: a batch of positions, whose entries are stored in slots of a memory and read
  from there;
* `Placed`: what every slot is for; `Placed.read`, `layer_spec`;
* **`run_spec`**: if the slots that are not written hold the entries they are for, a batch computes what
  the model does on whole sequences, and all slots hold the entries they are for afterwards.
-/

set_option autoImplicit false

/-- The state of a token at a position, the entry that a layer stores for a state at a position, and the
next state, given the entries of the positions up to it. -/
structure CausalModel (τ H K : Type) where
  embed : τ → ℕ → H
  entry : ℕ → ℕ → H → K
  attend : ℕ → ℕ → H → List K → H

namespace CausalModel

variable {τ H K ι : Type} (M : CausalModel τ H K)

/-! ## Whole sequences -/

/-- The state of `t` behind `ts` before layer `l`. -/
def state : ℕ → List τ → τ → H
  | 0, ts, t => M.embed t ts.length
  | l + 1, ts, t => M.attend l ts.length (state l ts t)
      ((ts ++ [t]).mapIdx fun i u => M.entry l i (state l ((ts ++ [t]).take i) u))

/-- The entry that layer `l` stores for `t` behind `ts`. -/
def stored (l : ℕ) (ts : List τ) (t : τ) : K := M.entry l ts.length (M.state l ts t)

theorem state_succ (l : ℕ) (ts : List τ) (t : τ) :
    M.state (l + 1) ts t = M.attend l ts.length (M.state l ts t)
      ((ts ++ [t]).mapIdx fun i u => M.stored l ((ts ++ [t]).take i) u) := by
  rw [state]
  congr 1
  apply List.ext_getElem (by simp)
  intro i h₁ h₂
  have hi : i ≤ (ts ++ [t]).length := by simp at h₁ ⊢; omega
  simp only [List.getElem_mapIdx, stored, List.length_take, Nat.min_eq_left hi]

/-! ## Batches -/

/-- A token of a batch: the sequence behind which it stands, the slot for its entries, and the slots of
the positions up to it. -/
structure Item (τ ι : Type) where
  behind : List τ
  token : τ
  slot : ι
  view : List ι

/-- The sequence up to the token. -/
def Item.upTo (it : Item τ ι) : List τ := it.behind ++ [it.token]

variable [DecidableEq ι]

/-- Write entries, the later ones last. -/
def store (xs : List (ι × K)) (mem : ι → K) : ι → K :=
  xs.foldl (fun mem x => Function.update mem x.1 x.2) mem

/-- All writes to a slot write the same entry, or there is none and it is there already. -/
theorem store_apply {xs : List (ι × K)} {mem : ι → K} {s : ι} {v : K} (hv : ∀ x ∈ xs, x.1 = s → x.2 = v)
    (hs : s ∉ xs.map Prod.fst → mem s = v) : store xs mem s = v := by
  induction xs generalizing mem with
  | nil => exact hs (by simp)
  | cons x xs ih =>
    refine ih (fun y hy => hv y (List.mem_cons_of_mem x hy)) fun hns => ?_
    by_cases hx : x.1 = s
    · exact (hx ▸ Function.update_self x.1 x.2 mem : Function.update mem x.1 x.2 s = x.2).trans
        (hv x List.mem_cons_self hx)
    · refine (Function.update_of_ne (Ne.symm hx) x.2 mem).trans (hs ?_)
      simp only [List.map_cons, List.mem_cons, not_or]
      exact ⟨Ne.symm hx, hns⟩

/-- One layer: the entries of all positions are stored, and then read. -/
def layer (l : ℕ) (items : List (Item τ ι)) (hs : List H) (mem : ι → K) : List H × (ι → K) :=
  let mem := store (List.zipWith (fun it h => (it.slot, M.entry l it.behind.length h)) items hs) mem
  (List.zipWith (fun it h => M.attend l it.behind.length h (it.view.map mem)) items hs, mem)

/-- The first `n` layers, each with a memory of its own. -/
def run (items : List (Item τ ι)) (mem : ℕ → ι → K) : ℕ → List H × (ℕ → ι → K)
  | 0 => (items.map fun it => M.embed it.token it.behind.length, mem)
  | n + 1 =>
    let x := run items mem n
    let y := M.layer n items x.1 (x.2 n)
    (y.1, Function.update x.2 n y.2)

/-- The slots of a batch are for what it writes and reads; `content` is what every slot is for. -/
structure Placed (content : ι → Option (List τ × τ)) (items : List (Item τ ι)) : Prop where
  slot : ∀ it ∈ items, content it.slot = some (it.behind, it.token)
  view : ∀ it ∈ items, it.view.map content = it.upTo.mapIdx fun i u => some (it.upTo.take i, u)

variable {M} {content : ι → Option (List τ × τ)} {items : List (Item τ ι)} {l n : ℕ}

variable (M content) in
/-- The slots of a layer hold the entries they are for. -/
def Holds (l : ℕ) (mem : ι → K) : Prop :=
  ∀ s ts t, content s = some (ts, t) → mem s = M.stored l ts t

omit [DecidableEq ι] in
/-- What is read through a view. -/
theorem Placed.read (h : Placed content items) {mem : ι → K} (hmem : Holds M content l mem)
    {it : Item τ ι} (hit : it ∈ items) :
    it.view.map mem = it.upTo.mapIdx fun i u => M.stored l (it.upTo.take i) u := by
  have hview := h.view it hit
  have hlen := congrArg List.length hview
  simp only [List.length_map, List.length_mapIdx] at hlen
  apply List.ext_getElem (by simpa using hlen)
  intro i h₁ h₂
  rw [List.length_map] at h₁
  rw [List.length_mapIdx] at h₂
  have hget := congrArg (fun l => l[i]?) hview
  simp only [List.getElem?_map, List.getElem?_mapIdx, List.getElem?_eq_getElem h₁,
    List.getElem?_eq_getElem h₂, Option.map_some, Option.some.injEq] at hget
  simp only [List.getElem_map, List.getElem_mapIdx]
  exact hmem _ _ _ hget

/-- **One layer of a batch.** -/
theorem layer_spec (h : Placed content items) {mem : ι → K}
    (hmem : ∀ s ts t, content s = some (ts, t) → s ∉ items.map Item.slot → mem s = M.stored l ts t) :
    (M.layer l items (items.map fun it => M.state l it.behind it.token) mem).1 =
        (items.map fun it => M.state (l + 1) it.behind it.token) ∧
      Holds M content l (M.layer l items (items.map fun it => M.state l it.behind it.token) mem).2 := by
  have hxs : List.zipWith (fun it h => (it.slot, M.entry l it.behind.length h)) items
      (items.map fun it => M.state l it.behind it.token) =
        items.map fun it => (it.slot, M.stored l it.behind it.token) := by
    rw [List.zipWith_map_right, List.zipWith_self]
    rfl
  have hholds : Holds M content l
      (store (items.map fun it => (it.slot, M.stored l it.behind it.token)) mem) := by
    intro s ts t hs
    refine store_apply (fun x hx he => ?_) fun hns => hmem s ts t hs ?_
    · obtain ⟨it, hit, rfl⟩ := List.mem_map.mp hx
      have hc := h.slot it hit
      rw [show it.slot = s from he, hs] at hc
      obtain ⟨rfl, rfl⟩ := Prod.mk.inj (Option.some.inj hc)
      rfl
    · rwa [List.map_map] at hns
  rw [layer, hxs]
  refine ⟨?_, hholds⟩
  rw [List.zipWith_map_right, List.zipWith_self]
  apply List.map_congr_left
  intro it hit
  rw [h.read hholds hit, state_succ]
  rfl

/-- **A batch computes what the model does on whole sequences**, and leaves every slot with the entry it
is for. -/
theorem run_spec (h : Placed content items) {mem : ℕ → ι → K}
    (hmem : ∀ l < n, ∀ s ts t, content s = some (ts, t) → s ∉ items.map Item.slot →
      mem l s = M.stored l ts t) :
    (M.run items mem n).1 = (items.map fun it => M.state n it.behind it.token) ∧
      (∀ l < n, Holds M content l ((M.run items mem n).2 l)) ∧
      ∀ l, n ≤ l → (M.run items mem n).2 l = mem l := by
  induction n with
  | zero => exact ⟨rfl, fun l hl => absurd hl (Nat.not_lt_zero l), fun l _ => rfl⟩
  | succ n ih =>
    obtain ⟨h1, h2, h3⟩ := ih fun l hl => hmem l (Nat.lt_succ_of_lt hl)
    obtain ⟨g1, g2⟩ := layer_spec (M := M) (l := n) h (hmem n (Nat.lt_succ_self n))
    rw [run]
    simp only [h1, h3 n (Nat.le_refl n)]
    refine ⟨g1, fun l hl => ?_, fun l hl => ?_⟩
    · by_cases hln : l = n
      · rw [hln, Function.update_self]
        exact g2
      · rw [Function.update_of_ne hln]
        exact h2 l (by omega)
    · rw [Function.update_of_ne (by omega)]
      exact h3 l (by omega)

end CausalModel
