import SpaceServe.Lib.Exec

/-!
# Announced messages

A reader takes messages from a queue into its store. It is told, separately from the queue, the keys
of all messages that were sent. First it takes the messages that it happens to see; then, for each
announced key that it does not have, it waits for one more message, whichever it is.

* `fetch`: waiting for a key;
* `Announced`: each message brings a key that the store does not have when the message is taken;
* **`Announced.drain`**: the reader ends up with all messages taken, however many it saw at first.
-/

set_option autoImplicit false

namespace Py

section

variable {S M K : Type} (put : S → M → Except Exn S) (names : M → List K) (has : S → K → Bool)

/-- Take one message unless `k` is there. -/
def fetch (x : S × List M) (k : K) : Except Exn (S × List M) :=
  if has x.1 k then .ok x
  else match x.2 with
    | [] => .error .diverges
    | m :: queue => do
      let s ← put x.1 m
      .ok (s, queue)

/-- Each message brings a key that is not there yet, and leaves all its keys. -/
inductive Announced : S → List M → S → Prop
  | nil (s : S) : Announced s [] s
  | cons {s s₁ s' : S} {m : M} {queue : List M} : (∃ k ∈ names m, has s k = false) →
      put s m = .ok s₁ → (∀ k ∈ names m, has s₁ k = true) → Announced s₁ queue s' →
      Announced s (m :: queue) s'

variable {put names has}

theorem Announced.snoc {s s₁ s' : S} {m : M} {queue : List M}
    (h : Announced put names has s queue s₁) (hnew : ∃ k ∈ names m, has s₁ k = false)
    (hput : put s₁ m = .ok s') (hall : ∀ k ∈ names m, has s' k = true) :
    Announced put names has s (queue ++ [m]) s' := by
  induction h with
  | nil s => exact .cons hnew hput hall (.nil s')
  | cons hnew₁ hput₁ hall₁ _ ih => exact .cons hnew₁ hput₁ hall₁ (ih hnew hput)

/-- Keys that are there are skipped. -/
theorem foldlM_fetch_of_has {s : S} {queue : List M} : ∀ {ks : List K},
    (∀ k ∈ ks, has s k = true) → ks.foldlM (fetch put has) (s, queue) = .ok (s, queue)
  | [], _ => rfl
  | k :: ks, h => by
    rw [List.foldlM_cons, fetch, if_pos (h k List.mem_cons_self), ok_bind]
    exact foldlM_fetch_of_has fun k' hk' => h k' (List.mem_cons_of_mem _ hk')

/-- The first key that is missing brings the next message, and with it all keys of the message. -/
theorem foldlM_fetch_of_new {s s₁ : S} {m : M} {queue : List M} (hput : put s m = .ok s₁) :
    ∀ {ks : List K}, (∃ k ∈ ks, has s k = false) → (∀ k ∈ ks, has s₁ k = true) →
      ks.foldlM (fetch put has) (s, m :: queue) = .ok (s₁, queue)
  | [], h, _ => by
    obtain ⟨k, hk, -⟩ := h
    cases hk
  | k :: ks, h, hall => by
    have hrest : ∀ k' ∈ ks, has s₁ k' = true := fun k' hk' => hall k' (List.mem_cons_of_mem _ hk')
    rw [List.foldlM_cons, fetch]
    by_cases hk : has s k = true
    · rw [if_pos hk, ok_bind]
      obtain ⟨k', hk', hno⟩ := h
      obtain rfl | hk' := List.mem_cons.mp hk'
      · rw [hk] at hno
        cases hno
      · exact foldlM_fetch_of_new hput ⟨k', hk', hno⟩ hrest
    · rw [if_neg hk]
      simp only [hput, ok_bind]
      exact foldlM_fetch_of_has hrest

/-- **All messages are taken**, whatever prefix of the queue was seen at first. -/
theorem Announced.drain (hmono : ∀ s m s₁, put s m = .ok s₁ → ∀ k, has s k = true → has s₁ k = true)
    {s s' : S} {queue : List M} (h : Announced put names has s queue s') (seen : ℕ) :
    ∃ s₁, (queue.take seen).foldlM put s = .ok s₁ ∧
      (queue.flatMap names).foldlM (fetch put has) (s₁, queue.drop seen) = .ok (s', []) := by
  induction h generalizing seen with
  | nil s => exact ⟨s, by rw [List.take_nil]; rfl, by rw [List.drop_nil]; rfl⟩
  | @cons s s₁ s' m queue hnew hput hall _ ih =>
    cases seen with
    | zero =>
      obtain ⟨s₂, h₂, hrun⟩ := ih 0
      cases h₂
      refine ⟨s, rfl, ?_⟩
      rw [List.drop_zero, List.flatMap_cons, List.foldlM_append, foldlM_fetch_of_new hput hnew hall,
        ok_bind]
      exact hrun
    | succ seen =>
      obtain ⟨s₂, h₂, hrun⟩ := ih seen
      refine ⟨s₂, by rw [List.take_succ_cons, List.foldlM_cons, hput, ok_bind]; exact h₂, ?_⟩
      -- the keys of the first message are still there
      have hkept : ∀ k ∈ names m, has s₂ k = true := fun k hk =>
        foldlM_invariant (P := fun s => has s k = true)
          (fun s m s' _ hs hput => hmono s m s' hput k hs) (hall k hk) h₂
      rw [List.drop_succ_cons, List.flatMap_cons, List.foldlM_append, foldlM_fetch_of_has hkept,
        ok_bind]
      exact hrun

end

end Py
