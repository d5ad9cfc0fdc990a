import Mathlib.Tactic.Common

/-!
# Exceptions, loops and runs

Programs that may raise are `Except Exn`-valued functions of their state. A `for` loop is a
`List.foldlM`; a run of a state machine is one too.

* `bind_eq_ok`, `assert_eq_ok`, `ofOption_eq_ok`: how a computation that returned has run;
* `RaisesOnly`, `RaisesOnly.bind`: which exceptions a computation can raise;
* `foldlM_invariant`: a loop whose body keeps `P` keeps `P`;
* `Reachable`, `Reachable.invariant`: what holds initially and survives every admissible step
  holds in every reachable state;
* `Reachable.project`: a part of a machine that runs like a machine of its own;
* `runChecked`, `reachable_of_runChecked`, `exists_reachable`: reachable states by evaluation.
-/

set_option autoImplicit false

namespace Py

/-- The exceptions a program can raise. `diverges` is not an exception of the language: a loop
of the model that ran past its bound returns it. -/
inductive Exn
  | assertionError (msg : String)
  | valueError (msg : String)
  | keyError
  | indexError (msg : String)
  | attributeError (msg : String)
  | typeError (msg : String)
  | runtimeError (msg : String)
  | zeroDivisionError
  | notImplementedError
  | diverges
deriving DecidableEq

/-- `assert c, msg`. -/
def assert (c : Prop) [Decidable c] (msg : String) : Except Exn Unit :=
  if c then .ok () else .error (.assertionError msg)

/-- Unwrap a lookup, raising `e` when it failed. -/
def ofOption {α : Type} (e : Exn) : Option α → Except Exn α
  | some a => .ok a
  | none => .error e

section Bind

variable {ε α β : Type}

theorem bind_eq_ok {x : Except ε α} {f : α → Except ε β} {b : β} :
    (x >>= f) = .ok b ↔ ∃ a, x = .ok a ∧ f a = .ok b := by
  cases x with
  | error e => simp [bind, Except.bind]
  | ok a => simp [bind, Except.bind]

@[simp] theorem ok_bind (a : α) (f : α → Except ε β) : (Except.ok a >>= f) = f a := rfl

@[simp] theorem error_bind (e : ε) (f : α → Except ε β) :
    ((Except.error e : Except ε α) >>= f) = .error e := rfl

theorem assert_eq_ok {c : Prop} [Decidable c] {msg : String} {u : Unit} :
    assert c msg = .ok u ↔ c := by
  unfold assert
  split_ifs with h <;> simp [h]

theorem assert_of {c : Prop} [Decidable c] (h : c) (msg : String) : assert c msg = .ok () :=
  if_pos h

theorem assert_not {c : Prop} [Decidable c] (h : ¬ c) (msg : String) :
    assert c msg = .error (.assertionError msg) :=
  if_neg h

theorem ofOption_eq_ok {e : Exn} {o : Option α} {a : α} :
    ofOption e o = .ok a ↔ o = some a := by
  cases o <;> simp [ofOption]

@[simp] theorem ofOption_some (e : Exn) (a : α) : ofOption e (some a) = .ok a := rfl

end Bind

/-! ## Exceptions -/

section Raises

variable {ε α β : Type} {P Q : ε → Prop} {x : Except ε α}

/-- A computation that raises nothing but what `P` allows. -/
def RaisesOnly (P : ε → Prop) (x : Except ε α) : Prop := ∀ e, x = .error e → P e

theorem RaisesOnly.ok (a : α) : RaisesOnly P (.ok a : Except ε α) := fun _ h => by cases h

theorem RaisesOnly.of_eq_ok {a : α} (h : x = .ok a) : RaisesOnly P x := h ▸ RaisesOnly.ok a

/-- **Exception rule** for a sequence of two computations. -/
theorem RaisesOnly.bind {f : α → Except ε β} (hx : RaisesOnly P x)
    (hf : ∀ a, x = .ok a → RaisesOnly P (f a)) : RaisesOnly P (x >>= f) := by
  cases x with
  | error e' => exact fun e h => hx e (by cases h; rfl)
  | ok a => exact hf a rfl

theorem RaisesOnly.mono (h : RaisesOnly P x) (hPQ : ∀ e, P e → Q e) : RaisesOnly Q x :=
  fun e he => hPQ e (h e he)

theorem RaisesOnly.ofOption {P : Exn → Prop} {e : Exn} (he : P e) (o : Option α) :
    RaisesOnly P (Py.ofOption e o) := by
  cases o with
  | none =>
    rintro _ ⟨⟩
    exact he
  | some a => exact RaisesOnly.ok a

theorem RaisesOnly.assert {P : Exn → Prop} {c : Prop} [Decidable c] {msg : String}
    (hmsg : P (.assertionError msg)) : RaisesOnly P (Py.assert c msg) := by
  unfold Py.assert
  split_ifs
  · exact RaisesOnly.ok ()
  · rintro _ ⟨⟩
    exact hmsg

theorem RaisesOnly.returns (h : RaisesOnly P x) (hP : ∀ e, ¬ P e) : ∃ a, x = .ok a := by
  cases x with
  | error e => exact absurd (h e rfl) (hP e)
  | ok a => exact ⟨a, rfl⟩

end Raises

/-! ## Loops -/

section Loop

variable {ε σ α : Type}

/-- **Loop rule.** A body that keeps `P` on the elements of the list keeps `P` over the loop. -/
theorem foldlM_invariant {f : σ → α → Except ε σ} {P : σ → Prop} :
    ∀ {l : List α} {s s' : σ}, (∀ s a s', a ∈ l → P s → f s a = .ok s' → P s') →
      P s → l.foldlM f s = .ok s' → P s'
  | [], s, s', _, hs, h => by cases h; exact hs
  | a :: l, s, s', hf, hs, h => by
    rw [List.foldlM_cons, bind_eq_ok] at h
    obtain ⟨s₁, h₁, h₂⟩ := h
    exact foldlM_invariant (fun t b t' hb => hf t b t' (List.mem_cons_of_mem _ hb))
      (hf s a s₁ List.mem_cons_self hs h₁) h₂

/-- **Total loop rule.** A body that returns and keeps `P` gives a loop that returns. -/
theorem foldlM_total {f : σ → α → Except ε σ} {P : σ → Prop} :
    ∀ {l : List α} {s : σ}, (∀ s a, a ∈ l → P s → ∃ s', f s a = .ok s' ∧ P s') →
      P s → ∃ s', l.foldlM f s = .ok s' ∧ P s'
  | [], s, _, hs => ⟨s, rfl, hs⟩
  | a :: l, s, hf, hs => by
    obtain ⟨s₁, h₁, hs₁⟩ := hf s a List.mem_cons_self hs
    obtain ⟨s', h', hs'⟩ := foldlM_total
      (fun t b hb => hf t b (List.mem_cons_of_mem _ hb)) hs₁
    exact ⟨s', by rw [List.foldlM_cons, h₁]; exact h', hs'⟩

/-- A comprehension whose body returns `g a` on each element. -/
theorem mapM_eq_ok_map {β : Type} {f : α → Except ε β} {g : α → β} :
    ∀ {l : List α}, (∀ a ∈ l, f a = .ok (g a)) → l.mapM f = .ok (l.map g)
  | [], _ => rfl
  | a :: l, hf => by
    rw [List.mapM_cons, hf a List.mem_cons_self, ok_bind,
      mapM_eq_ok_map fun a' ha' => hf a' (List.mem_cons_of_mem _ ha')]
    rfl

/-- The values of a comprehension are values of its body. -/
theorem exists_of_mem_mapM {β : Type} {f : α → Except ε β} :
    ∀ {l : List α} {bs : List β}, l.mapM f = .ok bs → ∀ b ∈ bs, ∃ a ∈ l, f a = .ok b
  | [], bs, h, b, hb => by
    cases h
    cases hb
  | a :: l, bs, h, b, hb => by
    simp only [List.mapM_cons, bind_eq_ok] at h
    obtain ⟨b₁, h₁, bs₁, h₂, h⟩ := h
    cases h
    obtain rfl | hb := List.mem_cons.mp hb
    · exact ⟨a, List.mem_cons_self, h₁⟩
    · obtain ⟨a', ha', h'⟩ := exists_of_mem_mapM h₂ b hb
      exact ⟨a', List.mem_cons_of_mem _ ha', h'⟩

/-- A comprehension that returned has a value for every element, at its place. -/
theorem getElem?_of_mapM {β : Type} {f : α → Except ε β} :
    ∀ {l : List α} {bs : List β}, l.mapM f = .ok bs → bs.length = l.length ∧
      ∀ (i : ℕ) a, l[i]? = some a → ∃ b, bs[i]? = some b ∧ f a = .ok b
  | [], bs, h => by
    obtain rfl := Except.ok.inj h
    exact ⟨rfl, fun i a hi => by simp at hi⟩
  | a :: l, bs, h => by
    simp only [List.mapM_cons, bind_eq_ok] at h
    obtain ⟨b, hb, bs₁, hbs₁, h⟩ := h
    obtain rfl := Except.ok.inj h
    obtain ⟨hlen, hget⟩ := getElem?_of_mapM hbs₁
    refine ⟨congrArg Nat.succ hlen, fun i a' hi => ?_⟩
    cases i with
    | zero =>
      obtain rfl := Option.some.inj hi
      exact ⟨b, rfl, hb⟩
    | succ i => exact hget i a' hi

/-- A body that returns on every element gives a comprehension that returns. -/
theorem mapM_total {β : Type} {f : α → Except ε β} :
    ∀ {l : List α}, (∀ a ∈ l, ∃ b, f a = .ok b) → ∃ bs, l.mapM f = .ok bs
  | [], _ => ⟨[], rfl⟩
  | a :: l, hf => by
    obtain ⟨b, hb⟩ := hf a List.mem_cons_self
    obtain ⟨bs, hbs⟩ := mapM_total fun a' ha' => hf a' (List.mem_cons_of_mem _ ha')
    exact ⟨b :: bs, by rw [List.mapM_cons, hb, ok_bind, hbs]; rfl⟩

end Loop

/-! ## Runs -/

section Run

variable {ε S E : Type}

/-- The states reached from `s₀` by steps that returned, under an assumption `adm` on what the
environment does in each state. -/
inductive Reachable (step : S → E → Except ε S) (adm : S → E → Prop) (s₀ : S) : S → Prop
  | start : Reachable step adm s₀ s₀
  | next {s s' : S} {e : E} : Reachable step adm s₀ s → adm s e → step s e = .ok s' →
      Reachable step adm s₀ s'

/-- **Invariant rule.** -/
theorem Reachable.invariant {step : S → E → Except ε S} {adm : S → E → Prop} {s₀ s : S}
    {P : S → Prop} (h₀ : P s₀)
    (hstep : ∀ s e s', P s → adm s e → step s e = .ok s' → P s')
    (h : Reachable step adm s₀ s) : P s := by
  induction h with
  | start => exact h₀
  | next _ ha hs ih => exact hstep _ _ _ ih ha hs

theorem Reachable.mono {step : S → E → Except ε S} {adm adm' : S → E → Prop} {s₀ s : S}
    (h : Reachable step adm s₀ s) (hadm : ∀ s e, adm s e → adm' s e) :
    Reachable step adm' s₀ s := by
  induction h with
  | start => exact .start
  | next _ ha hs ih => exact ih.next (hadm _ _ ha) hs

/-- What an invariant adds to the assumption may be used in a stronger one. -/
theorem Reachable.strengthen {step : S → E → Except ε S} {adm adm' : S → E → Prop} {s₀ s : S}
    {P : S → Prop} (h : Reachable step adm s₀ s) (h₀ : P s₀)
    (hstep : ∀ s e s', P s → adm s e → step s e = .ok s' → P s')
    (hadm : ∀ s e, P s → adm s e → adm' s e) : Reachable step adm' s₀ s := by
  induction h with
  | start => exact .start
  | next hs ha hn ih => exact ih.next (hadm _ _ (hs.invariant h₀ hstep) ha) hn

/-- **Projection rule.** If every step of a machine is a step of a part of it, or leaves the part as it
is, the part runs like a machine of its own. -/
theorem Reachable.project {T F : Type} {step : S → E → Except ε S} {adm : S → E → Prop} {s₀ s : S}
    {step' : T → F → Except ε T} {adm' : T → F → Prop} {part : S → T} {P : S → Prop}
    (h : Reachable step adm s₀ s) (h₀ : P s₀)
    (hstep : ∀ s e s', P s → adm s e → step s e = .ok s' → P s')
    (hpart : ∀ s e s', P s → adm s e → step s e = .ok s' → part s' = part s ∨
      ∃ f, adm' (part s) f ∧ step' (part s) f = .ok (part s')) :
    Reachable step' adm' (part s₀) (part s) := by
  induction h with
  | start => exact .start
  | next hs ha hn ih =>
    obtain hsame | ⟨f, hf, hstep'⟩ := hpart _ _ _ (hs.invariant h₀ hstep) ha hn
    · rw [hsame]
      exact ih
    · exact ih.next hf hstep'

/-- The state after a list of events, if they are admissible and every step returns. -/
def runChecked (step : S → E → Except ε S) (adm : S → E → Prop) [∀ s e, Decidable (adm s e)] :
    S → List E → Option S
  | s, [] => some s
  | s, e :: es =>
    if adm s e then
      match step s e with
      | .ok s' => runChecked step adm s' es
      | .error _ => none
    else none

/-- What a checked run reaches is reachable. -/
theorem reachable_of_runChecked {step : S → E → Except ε S} {adm : S → E → Prop}
    [∀ s e, Decidable (adm s e)] {s₀ : S} : ∀ {es : List E} {s s' : S},
      Reachable step adm s₀ s → runChecked step adm s es = some s' → Reachable step adm s₀ s'
  | [], s, s', hs, h => by cases h; exact hs
  | e :: es, s, s', hs, h => by
    rw [runChecked] at h
    by_cases ha : adm s e
    · rw [if_pos ha] at h
      cases hst : step s e with
      | error _ => rw [hst] at h; cases h
      | ok s₁ =>
        rw [hst] at h
        exact reachable_of_runChecked (hs.next ha hst) h
    · rw [if_neg ha] at h
      cases h

/-- A result that passes a test is one. -/
theorem exists_ok_of_any {α : Type} {x : Except ε α} {P : α → Bool} (h : x.toOption.any P = true) :
    ∃ a, x = .ok a ∧ P a = true := by
  cases x with
  | error e => cases h
  | ok a => exact ⟨a, rfl, h⟩

/-- A checked run that ends in `P` reaches a state with `P`. -/
theorem exists_reachable (step : S → E → Except ε S) (adm : S → E → Prop)
    [∀ s e, Decidable (adm s e)] (s₀ : S) (es : List E) (P : S → Prop) [DecidablePred P]
    (h : (runChecked step adm s₀ es).any (fun s => decide (P s)) = true) :
    ∃ s, Reachable step adm s₀ s ∧ P s := by
  obtain ⟨s, hs, hp⟩ := (Option.any_eq_true _ _).mp h
  exact ⟨s, reachable_of_runChecked .start hs, of_decide_eq_true hp⟩

end Run

end Py
