import SpaceServe.Lib.Exec

/-!
# Programs with a state that outlives exceptions

What was written before an exception was raised stays written. A program is `ExceptT Exn (StateM σ)`, so a run
of it gives a result and a state in any case.

* `runOn`, `fromExcept`, `fromState`: runs, and programs without and with a state change;
* `Triple`: an invariant that is kept even by exceptions, what the program returns, and what it may raise;
* **`Triple.bind`**, `Triple.pure`, `Triple.fromExcept`, `Triple.fromState`: its rules;
* **`Triple.mapM`**, **`Triple.foldlM`**: the rules for loops;
* `zoom`, `exec`: a program on a part of the state; a run that is lost if it raises;
* `Returns`: the run returns a value in a state; **`returns_bind`** and the rules for the other programs;
* `Raises`: the run raises an exception in a state; **`raises_bind`** and the rules for the other programs;
* `Never`: no run raises the exception; **`Never.bind`** and the rules for the other programs.
-/

set_option autoImplicit false

namespace Py

/-- Programs over a state that may raise. -/
abbrev StateE (σ α : Type) := ExceptT Exn (StateM σ) α

variable {σ α β : Type}

/-- The result of a run, and the state after it. -/
def StateE.runOn (x : StateE σ α) (s : σ) : Except Exn α × σ := x s

/-- A computation without a state. -/
def StateE.fromExcept (x : Except Exn α) : StateE σ α := fun s => (x, s)

/-- A computation that changes the state if it returns. -/
def StateE.fromState (f : σ → Except Exn (α × σ)) : StateE σ α := fun s =>
  match f s with
  | .ok (a, s') => (.ok a, s')
  | .error e => (.error e, s)

/-- The second program runs from the state that the first one left, if that returned. -/
theorem runOn_bind (x : StateE σ α) (f : α → StateE σ β) (s : σ) : StateE.runOn (x >>= f) s =
    match x.runOn s with
    | (.ok a, s') => (f a).runOn s'
    | (.error e, s') => (.error e, s') := by
  simp only [StateE.runOn, bind, ExceptT.bind, ExceptT.mk, StateT.bind, ExceptT.bindCont]
  rcases x s with ⟨r, s'⟩
  cases r <;> rfl

/-- From a state with `P`, the program ends in one, whether it returns or raises; what it returns satisfies
`Q`, and what it raises satisfies `E`. -/
def Triple (P : σ → Prop) (Q : α → Prop) (E : Exn → Prop) (x : StateE σ α) : Prop :=
  ∀ s, P s → P (x.runOn s).2 ∧ (∀ a, (x.runOn s).1 = .ok a → Q a) ∧ ∀ e, (x.runOn s).1 = .error e → E e

namespace Triple

variable {P : σ → Prop} {Q : α → Prop} {R : β → Prop} {E : Exn → Prop}

/-- **Sequence rule.** -/
theorem bind {x : StateE σ α} {f : α → StateE σ β} (hx : Triple P Q E x)
    (hf : ∀ a, Q a → Triple P R E (f a)) : Triple P R E (x >>= f) := by
  intro s hs
  obtain ⟨hP, hQ, hE⟩ := hx s hs
  rw [runOn_bind]
  cases hres : x.runOn s with
  | mk r s' =>
    rw [hres] at hP hQ hE
    cases r with
    | ok a => exact hf a (hQ a rfl) s' hP
    | error e =>
      refine ⟨hP, ?_, ?_⟩
      · intro a ha
        cases ha
      · intro e' he
        cases he
        exact hE e rfl

theorem pure {a : α} (h : Q a) : Triple P Q E (Pure.pure a : StateE σ α) := by
  refine fun s hs => ⟨hs, fun a' ha => ?_, fun e he => by cases he⟩
  cases ha
  exact h

theorem fromExcept {x : Except Exn α} (hok : ∀ a, x = .ok a → Q a) (herr : ∀ e, x = .error e → E e) :
    Triple P Q E (StateE.fromExcept x) := fun _ hs => ⟨hs, hok, herr⟩

theorem fromState {f : σ → Except Exn (α × σ)} (h : ∀ s, P s → ∃ a s', f s = .ok (a, s') ∧ P s' ∧ Q a) :
    Triple P Q E (StateE.fromState f) := by
  intro s hs
  obtain ⟨a, s', hf, hP, hQ⟩ := h s hs
  have hrun : StateE.runOn (StateE.fromState f) s = (.ok a, s') := by
    rw [StateE.runOn, StateE.fromState, hf]
  rw [hrun]
  refine ⟨hP, fun a' ha => ?_, fun e he => by cases he⟩
  cases ha
  exact hQ

theorem mono {Q' : α → Prop} {E' : Exn → Prop} {x : StateE σ α} (h : Triple P Q E x)
    (hQ : ∀ a, Q a → Q' a) (hE : ∀ e, E e → E' e) : Triple P Q' E' x := fun s hs =>
  let ⟨hP, hok, herr⟩ := h s hs
  ⟨hP, fun a ha => hQ a (hok a ha), fun e he => hE e (herr e he)⟩

/-- **Comprehension rule.** -/
theorem mapM {f : α → StateE σ β} {R : α → β → Prop} : ∀ {l : List α},
    (∀ a ∈ l, Triple P (R a) E (f a)) → Triple P (List.Forall₂ R l) E (l.mapM f)
  | [], _ => pure .nil
  | a :: l, h => by
    rw [List.mapM_cons]
    apply bind (h a List.mem_cons_self)
    intro b hb
    apply bind (mapM fun a' ha' => h a' (List.mem_cons_of_mem _ ha'))
    intro bs hbs
    exact pure (.cons hb hbs)

/-- **Loop rule.** What holds of the accumulator before each rest of the list. -/
theorem foldlM {f : β → α → StateE σ β} {I : List α → β → Prop} : ∀ {l : List α} {b : β},
    (∀ a rest b, I (a :: rest) b → Triple P (I rest) E (f b a)) → I l b →
      Triple P (I []) E (l.foldlM f b)
  | [], _, _, hb => pure hb
  | a :: l, b, hf, hb => by
    rw [List.foldlM_cons]
    exact bind (hf a l b hb) fun b' hb' => foldlM hf hb'

end Triple

/-! ## Runs that return -/

/-- A program on a part of the state. -/
def StateE.zoom {τ : Type} (get : σ → τ) (set : σ → τ → σ) (x : StateE τ α) : StateE σ α := fun s =>
  match x.runOn (get s) with
  | (r, t) => (r, set s t)

/-- A run that gives its state with what it returns, and is lost if it raises. -/
def StateE.exec (x : StateE σ α) (s : σ) : Except Exn (α × σ) :=
  match x.runOn s with
  | (.ok a, s') => .ok (a, s')
  | (.error e, _) => .error e

/-- The run from `s` returns `a` in `s'`. -/
def Returns (x : StateE σ α) (s : σ) (a : α) (s' : σ) : Prop := x.runOn s = (.ok a, s')

section Returns

variable {s s' : σ} {a : α} {b : β}

/-- **Sequence rule.** -/
theorem returns_bind {x : StateE σ α} {f : α → StateE σ β} {s' : σ} :
    Returns (x >>= f) s b s' ↔ ∃ a s₁, Returns x s a s₁ ∧ Returns (f a) s₁ b s' := by
  unfold Returns
  rw [runOn_bind]
  cases hres : x.runOn s with
  | mk r s₁ =>
    cases r with
    | ok a => simp
    | error e => simp

@[simp] theorem returns_pure {a' : α} : Returns (Pure.pure a' : StateE σ α) s a s' ↔ a = a' ∧ s' = s := by
  show ((Except.ok a' : Except Exn α), s) = (.ok a, s') ↔ _
  rw [Prod.mk.injEq, Except.ok.injEq, eq_comm, eq_comm (a := s)]

@[simp] theorem returns_fromExcept {x : Except Exn α} :
    Returns (StateE.fromExcept x) s a s' ↔ x = .ok a ∧ s' = s := by
  show (x, s) = (.ok a, s') ↔ _
  rw [Prod.mk.injEq, eq_comm (a := s)]

@[simp] theorem returns_get {s₁ : σ} : Returns (get : StateE σ σ) s s₁ s' ↔ s₁ = s ∧ s' = s := by
  show ((Except.ok s : Except Exn σ), s) = (.ok s₁, s') ↔ _
  rw [Prod.mk.injEq, Except.ok.injEq, eq_comm, eq_comm (a := s)]

@[simp] theorem returns_set {s₁ : σ} {u : PUnit} : Returns (set s₁ : StateE σ PUnit) s u s' ↔ s' = s₁ := by
  show ((Except.ok ⟨⟩ : Except Exn PUnit), s₁) = (.ok u, s') ↔ _
  rw [Prod.mk.injEq, eq_comm (a := s₁)]
  exact and_iff_right rfl

@[simp] theorem returns_modify {f : σ → σ} {u : PUnit} :
    Returns (modify f : StateE σ PUnit) s u s' ↔ s' = f s := by
  show ((Except.ok ⟨⟩ : Except Exn PUnit), f s) = (.ok u, s') ↔ _
  rw [Prod.mk.injEq, eq_comm (a := f s)]
  exact and_iff_right rfl

theorem returns_fromState {f : σ → Except Exn (α × σ)} :
    Returns (StateE.fromState f) s a s' ↔ f s = .ok (a, s') := by
  unfold Returns StateE.runOn StateE.fromState
  cases hf : f s with
  | error e => simp
  | ok p => simp [Prod.ext_iff]

theorem returns_zoom {τ : Type} {get : σ → τ} {set : σ → τ → σ} {x : StateE τ α} :
    Returns (StateE.zoom get set x) s a s' ↔ ∃ t, Returns x (get s) a t ∧ s' = set s t := by
  unfold Returns StateE.zoom
  show (match x.runOn (get s) with | (r, t) => (r, set s t)) = _ ↔ _
  cases hx : x.runOn (get s) with
  | mk r t =>
    simp only [Prod.mk.injEq]
    constructor
    · rintro ⟨rfl, rfl⟩
      exact ⟨t, ⟨rfl, rfl⟩, rfl⟩
    · rintro ⟨t', ⟨rfl, rfl⟩, rfl⟩
      exact ⟨rfl, rfl⟩

/-- The handler runs from the state that the exception left. -/
theorem runOn_tryCatch (x : StateE σ α) (h : Exn → StateE σ α) (s : σ) : StateE.runOn (tryCatch x h) s =
    match x.runOn s with
    | (.ok a, s₁) => (.ok a, s₁)
    | (.error e, s₁) => (h e).runOn s₁ := by
  simp only [StateE.runOn, tryCatch, tryCatchThe, MonadExceptOf.tryCatch, ExceptT.tryCatch, ExceptT.mk, bind,
    StateT.bind]
  rcases x s with ⟨r, s₁⟩
  cases r <;> rfl

/-- **Exception rule.** -/
theorem returns_tryCatch {x : StateE σ α} {h : Exn → StateE σ α} :
    Returns (tryCatch x h) s a s' ↔ Returns x s a s' ∨
      ∃ e s₁, x.runOn s = (.error e, s₁) ∧ Returns (h e) s₁ a s' := by
  unfold Returns
  rw [runOn_tryCatch]
  cases hx : x.runOn s with
  | mk r s₁ =>
    cases r with
    | ok a' => simp
    | error e => simp

theorem exec_eq_ok {x : StateE σ α} : x.exec s = .ok (a, s') ↔ Returns x s a s' := by
  unfold StateE.exec Returns
  cases hx : x.runOn s with
  | mk r s₁ =>
    cases r with
    | ok a' => simp
    | error e => simp

@[simp] theorem returns_throw {e : Exn} : ¬ Returns (throw e : StateE σ α) s a s' := fun h => by
  cases congrArg Prod.fst h

end Returns

/-! ## Runs that raise -/

/-- The run from `s` raises `e`, and leaves `s'`. -/
def Raises (x : StateE σ α) (s : σ) (e : Exn) (s' : σ) : Prop := x.runOn s = (.error e, s')

section Raises

variable {s s' : σ} {e : Exn}

/-- **Sequence rule.** -/
theorem raises_bind {x : StateE σ α} {f : α → StateE σ β} :
    Raises (x >>= f) s e s' ↔ Raises x s e s' ∨ ∃ a s₁, Returns x s a s₁ ∧ Raises (f a) s₁ e s' := by
  unfold Raises Returns
  rw [runOn_bind]
  cases hres : x.runOn s with
  | mk r s₁ =>
    cases r with
    | ok a => simp
    | error e => simp

@[simp] theorem raises_pure {a : α} : ¬ Raises (Pure.pure a : StateE σ α) s e s' := fun h => by
  cases congrArg Prod.fst h

@[simp] theorem raises_fromExcept {x : Except Exn α} :
    Raises (StateE.fromExcept x) s e s' ↔ x = .error e ∧ s' = s := by
  show (x, s) = (.error e, s') ↔ _
  rw [Prod.mk.injEq, eq_comm (a := s)]

@[simp] theorem raises_get : ¬ Raises (get : StateE σ σ) s e s' := fun h => by
  cases congrArg Prod.fst h

@[simp] theorem raises_set {s₁ : σ} : ¬ Raises (set s₁ : StateE σ PUnit) s e s' := fun h => by
  cases congrArg Prod.fst h

@[simp] theorem raises_modify {f : σ → σ} : ¬ Raises (modify f : StateE σ PUnit) s e s' := fun h => by
  cases congrArg Prod.fst h

@[simp] theorem raises_throw {e' : Exn} : Raises (throw e' : StateE σ α) s e s' ↔ e = e' ∧ s' = s := by
  show ((Except.error e' : Except Exn α), s) = (.error e, s') ↔ _
  rw [Prod.mk.injEq, Except.error.injEq, eq_comm, eq_comm (a := s)]

theorem raises_fromState {f : σ → Except Exn (α × σ)} :
    Raises (StateE.fromState f) s e s' ↔ f s = .error e ∧ s' = s := by
  unfold Raises StateE.runOn StateE.fromState
  cases hf : f s with
  | error e => simp [eq_comm]
  | ok p => simp

theorem raises_zoom {τ : Type} {get : σ → τ} {set : σ → τ → σ} {x : StateE τ α} :
    Raises (StateE.zoom get set x) s e s' ↔ ∃ t, Raises x (get s) e t ∧ s' = set s t := by
  unfold Raises StateE.zoom
  show (match x.runOn (get s) with | (r, t) => (r, set s t)) = _ ↔ _
  cases hx : x.runOn (get s) with
  | mk r t =>
    simp only [Prod.mk.injEq]
    constructor
    · rintro ⟨rfl, rfl⟩
      exact ⟨t, ⟨rfl, rfl⟩, rfl⟩
    · rintro ⟨t', ⟨rfl, rfl⟩, rfl⟩
      exact ⟨rfl, rfl⟩

/-- **Exception rule.** -/
theorem raises_tryCatch {x : StateE σ α} {h : Exn → StateE σ α} : Raises (tryCatch x h) s e s' ↔
    ∃ e' s₁, Raises x s e' s₁ ∧ Raises (h e') s₁ e s' := by
  unfold Raises
  rw [runOn_tryCatch]
  cases hx : x.runOn s with
  | mk r s₁ =>
    cases r with
    | ok a' => simp
    | error e => simp

end Raises

/-! ## Exceptions that are not raised -/

/-- No run raises the exception. -/
def Never (e : Exn) (x : StateE σ α) : Prop := ∀ s s', ¬ Raises x s e s'

namespace Never

variable {e : Exn}

/-- **Sequence rule.** -/
protected theorem bind {x : StateE σ α} {f : α → StateE σ β} (hx : Never e x) (hf : ∀ a, Never e (f a)) :
    Never e (x >>= f) := by
  intro s s' h
  rcases raises_bind.mp h with h | ⟨a, s₁, -, h⟩
  · exact hx s s' h
  · exact hf a s₁ s' h

/-- The program before it does not raise either. -/
theorem raises_bind_iff {x : StateE σ α} {f : α → StateE σ β} {s s' : σ} (hx : Never e x) :
    Raises (x >>= f) s e s' ↔ ∃ a s₁, Returns x s a s₁ ∧ Raises (f a) s₁ e s' := by
  rw [raises_bind, or_iff_right (hx s s')]

/-- The program after it does not raise. -/
theorem raises_bind_iff_left {x : StateE σ α} {f : α → StateE σ β} {s s' : σ} (hf : ∀ a, Never e (f a)) :
    Raises (x >>= f) s e s' ↔ Raises x s e s' := by
  rw [raises_bind, or_iff_left]
  rintro ⟨a, s₁, -, hraises⟩
  exact hf a s₁ s' hraises

protected theorem pure (a : α) : Never e (Pure.pure a : StateE σ α) := fun _ _ => raises_pure

protected theorem get : Never e (get : StateE σ σ) := fun _ _ => raises_get

protected theorem set (s : σ) : Never e (set s : StateE σ PUnit) := fun _ _ => raises_set

protected theorem modify (f : σ → σ) : Never e (modify f : StateE σ PUnit) := fun _ _ => raises_modify

protected theorem throw {e' : Exn} (h : e ≠ e') : Never e (throw e' : StateE σ α) := fun _ _ hr =>
  h (raises_throw.mp hr).1

theorem fromExcept {x : Except Exn α} (hx : RaisesOnly (· ≠ e) x) :
    Never e (StateE.fromExcept x : StateE σ α) := fun _ _ h => hx e (raises_fromExcept.mp h).1 rfl

theorem fromState {f : σ → Except Exn (α × σ)} (hf : ∀ s, RaisesOnly (· ≠ e) (f s)) :
    Never e (StateE.fromState f) := fun s _ h => hf s e (raises_fromState.mp h).1 rfl

theorem zoom {τ : Type} {get : σ → τ} {set : σ → τ → σ} {x : StateE τ α} (hx : Never e x) :
    Never e (StateE.zoom get set x) := by
  intro s s' h
  obtain ⟨t, h, -⟩ := raises_zoom.mp h
  exact hx (get s) t h

end Never

end Py
