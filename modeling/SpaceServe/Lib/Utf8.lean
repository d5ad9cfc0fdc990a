import Mathlib.Data.List.Basic
import Mathlib.Tactic.Common

/-!
# Decoding UTF-8

`bytes.decode("utf-8", errors="replace")`: a sequence that is invalid or cut off becomes one `U+FFFD`. The
decoder takes the bytes one by one; between them it stands either between two characters or behind the
first bytes of one.

* `first`, `step`, `run`, `decode`: the decoder;
* `run_append`, `Boundary`, `decode_append`: decoding in two parts;
* **`Boundary.of_append`**: where a decoding may be cut does not depend on where it began;
* `encode`, `run_encodeChar`, **`decode_encode`**.
-/

set_option autoImplicit false

namespace Py.Utf8

/-- The first bytes of a character: how many bytes are to come, the bits so far, and the bytes that may
come next. -/
structure Pending where
  needed : ℕ
  bits : ℕ
  lower : ℕ
  upper : ℕ
  le_lower : 0x80 ≤ lower
  upper_le : upper ≤ 0xBF

/-- What stands for bytes that are no character. -/
def replacement : Char := '\uFFFD'

/-- The state behind a first byte, where `needed` bytes are to come. -/
def begin (b needed bits : ℕ) : Pending where
  needed := needed
  bits := bits
  lower := if b = 0xE0 then 0xA0 else if b = 0xF0 then 0x90 else 0x80
  upper := if b = 0xED then 0x9F else if b = 0xF4 then 0x8F else 0xBF
  le_lower := by split_ifs <;> omega
  upper_le := by split_ifs <;> omega

/-- A byte between two characters. -/
def first (b : ℕ) : List Char × Option Pending :=
  if b ≤ 0x7F then ([Char.ofNat b], none)
  else if 0xC2 ≤ b ∧ b ≤ 0xDF then ([], some (begin b 1 (b - 0xC0)))
  else if 0xE0 ≤ b ∧ b ≤ 0xEF then ([], some (begin b 2 (b - 0xE0)))
  else if 0xF0 ≤ b ∧ b ≤ 0xF4 then ([], some (begin b 3 (b - 0xF0)))
  else ([replacement], none)

/-- A byte: what comes out, and the state behind it. -/
def step : Option Pending → ℕ → List Char × Option Pending
  | none, b => first b
  | some p, b =>
    if p.lower ≤ b ∧ b ≤ p.upper then
      let bits := p.bits * 64 + (b - 0x80)
      if p.needed = 1 then ([Char.ofNat bits], none) else ([], some (begin 0 (p.needed - 1) bits))
    else
      -- the sequence is invalid, and the byte is the first of another one
      (replacement :: (first b).1, (first b).2)

/-- The bytes one by one. -/
def run : Option Pending → List UInt8 → List Char × Option Pending
  | p, [] => ([], p)
  | p, b :: bytes => ((step p b.toNat).1 ++ (run (step p b.toNat).2 bytes).1,
      (run (step p b.toNat).2 bytes).2)

/-- `decode("utf-8", errors="replace")`. -/
def decode (bytes : List UInt8) : List Char :=
  (run none bytes).1 ++ (if (run none bytes).2.isSome then [replacement] else [])

/-- The bytes end between two characters. -/
def Boundary (bytes : List UInt8) : Prop := (run none bytes).2 = none

variable {a b bytes : List UInt8}

theorem run_append (p : Option Pending) (a b : List UInt8) :
    run p (a ++ b) = ((run p a).1 ++ (run (run p a).2 b).1, (run (run p a).2 b).2) := by
  induction a generalizing p with
  | nil => rfl
  | cons x a ih => simp only [List.cons_append, run, ih, List.append_assoc]

theorem boundary_nil : Boundary [] := rfl

theorem Boundary.append (ha : Boundary a) (hb : Boundary b) : Boundary (a ++ b) := by
  rw [Boundary, run_append, ha]
  exact hb

/-- **Decoding in two parts** that meet between two characters. -/
theorem decode_append (ha : Boundary a) (b : List UInt8) : decode (a ++ b) = decode a ++ decode b := by
  simp only [decode, run_append]
  rw [show (run none a).2 = none from ha]
  simp

/-- Bytes that end within a character are decoded with a replacement at the end. -/
theorem getLast?_decode (h : ¬ Boundary bytes) : (decode bytes).getLast? = some replacement := by
  have hsome : (run none bytes).2.isSome = true := Option.isSome_iff_ne_none.mpr h
  rw [decode, if_pos hsome, List.getLast?_append]
  rfl

/-! ## Where it began does not matter -/

/-- A byte that continues a character begins none. -/
theorem first_continuation {b : ℕ} (hle : 0x80 ≤ b) (hge : b ≤ 0xBF) : first b = ([replacement], none) := by
  rw [first, if_neg (by omega), if_neg (by omega), if_neg (by omega), if_neg (by omega)]

/-- A decoder that began later is in the same state as one that began earlier, or between two
characters. -/
theorem run_lag (p : Option Pending) (bytes : List UInt8) :
    (run none bytes).2 = none ∨ (run none bytes).2 = (run p bytes).2 := by
  induction bytes generalizing p with
  | nil => exact Or.inl rfl
  | cons x bytes ih =>
    simp only [run]
    cases p with
    | none => exact Or.inr rfl
    | some p =>
      by_cases hin : p.lower ≤ x.toNat ∧ x.toNat ≤ p.upper
      · have hfirst : step none x.toNat = ([replacement], none) :=
          first_continuation (Nat.le_trans p.le_lower hin.1) (Nat.le_trans hin.2 p.upper_le)
        rw [hfirst]
        exact ih _
      · have hsame : step (some p) x.toNat = (replacement :: (first x.toNat).1, (first x.toNat).2) :=
          if_neg hin
        rw [hsame]
        exact Or.inr rfl

/-- **Where a decoding may be cut** does not depend on where it began. -/
theorem Boundary.of_append (h : Boundary (a ++ b)) : Boundary b := by
  rw [Boundary, run_append] at h
  rcases run_lag (run none a).2 b with hb | hb
  · exact hb
  · exact hb.trans h

/-! ## Texts -/

/-- `text.encode("utf-8")`. -/
def encode (text : List Char) : List UInt8 := text.flatMap String.utf8EncodeChar

theorem step_begin {b needed bits x : ℕ} (hlower : (begin b needed bits).lower ≤ x)
    (hupper : x ≤ (begin b needed bits).upper) (hmore : needed ≠ 1) :
    step (some (begin b needed bits)) x =
      ([], some (begin 0 (needed - 1) (bits * 64 + (x - 0x80)))) := by
  rw [step, if_pos ⟨hlower, hupper⟩]
  exact if_neg hmore

theorem step_last {b bits x : ℕ} (hlower : (begin b 1 bits).lower ≤ x)
    (hupper : x ≤ (begin b 1 bits).upper) :
    step (some (begin b 1 bits)) x = ([Char.ofNat (bits * 64 + (x - 0x80))], none) := by
  rw [step, if_pos ⟨hlower, hupper⟩]
  exact if_pos rfl

/-- A byte within a character, but for the second one. -/
theorem step_middle {needed bits n : ℕ} (hn : n < 64) (hmore : needed ≠ 1) :
    step (some (begin 0 needed bits)) (n + 128) = ([], some (begin 0 (needed - 1) (bits * 64 + n))) := by
  have hlower : (begin 0 needed bits).lower ≤ n + 128 := Nat.le_add_left 128 n
  have hupper : n + 128 ≤ (begin 0 needed bits).upper := show n + 128 ≤ 0xBF by omega
  rw [step_begin hlower hupper hmore, Nat.add_sub_cancel]

theorem step_final {bits n : ℕ} (hn : n < 64) :
    step (some (begin 0 1 bits)) (n + 128) = ([Char.ofNat (bits * 64 + n)], none) := by
  have hlower : (begin 0 1 bits).lower ≤ n + 128 := Nat.le_add_left 128 n
  have hupper : n + 128 ≤ (begin 0 1 bits).upper := show n + 128 ≤ 0xBF by omega
  rw [step_last hlower hupper, Nat.add_sub_cancel]

theorem run_last {p : Option Pending} {x : UInt8} {c : Char} (hstep : step p x.toNat = ([c], none)) :
    run p [x] = ([c], none) := by
  simp only [run, hstep, List.append_nil]

theorem run_more {p : Option Pending} {q : Pending} {x : UInt8} {rest : List UInt8}
    {r : List Char × Option Pending} (hstep : step p x.toNat = ([], some q))
    (hrest : run (some q) rest = r) : run p (x :: rest) = r := by
  simp only [run, hstep, hrest, List.nil_append]

theorem first_two {b : ℕ} (h : 0xC2 ≤ b ∧ b ≤ 0xDF) : first b = ([], some (begin b 1 (b - 0xC0))) := by
  rw [first, if_neg (by omega), if_pos h]

theorem first_three {b : ℕ} (h : 0xE0 ≤ b ∧ b ≤ 0xEF) : first b = ([], some (begin b 2 (b - 0xE0))) := by
  rw [first, if_neg (by omega), if_neg (by omega), if_pos h]

theorem first_four {b : ℕ} (h : 0xF0 ≤ b ∧ b ≤ 0xF4) : first b = ([], some (begin b 3 (b - 0xF0))) := by
  rw [first, if_neg (by omega), if_neg (by omega), if_neg (by omega), if_pos h]

/-- **The bytes of a character** take the decoder from one place between two characters to the next. -/
theorem run_encodeChar (c : Char) : run none (String.utf8EncodeChar c) = ([c], none) := by
  have hvalid : c.val.toNat < 0xD800 ∨ 0xDFFF < c.val.toNat ∧ c.val.toNat < 0x110000 := c.valid
  have hofNat : Char.ofNat c.val.toNat = c := Char.ofNat_toNat c
  have hbyte : ∀ n < 256, (UInt8.ofNat n).toNat = n := fun n hn => by
    rw [UInt8.toNat_ofNat']
    exact Nat.mod_eq_of_lt hn
  unfold String.utf8EncodeChar
  generalize c.val.toNat = v at hvalid hofNat
  simp only
  split_ifs with h1 h2 h3
  · -- one byte
    refine run_last ?_
    rw [hbyte _ (by omega), step, first, if_pos h1, hofNat]
  · have hlead : v / 64 % 32 + 192 < 256 := by omega
    refine run_more (q := begin (v / 64 % 32 + 192) 1 (v / 64 % 32)) ?_ (run_last ?_)
    · rw [hbyte _ hlead, step, first_two (by omega), Nat.add_sub_cancel]
    · rw [hbyte _ (by omega), step_last (by simp only [begin]; split_ifs <;> omega)
        (by simp only [begin]; split_ifs <;> omega)]
      rw [show v / 64 % 32 * 64 + (v % 64 + 128 - 0x80) = v by omega, hofNat]
  · have hlead : v / 4096 % 16 + 224 < 256 := by omega
    refine run_more (q := begin (v / 4096 % 16 + 224) 2 (v / 4096 % 16)) ?_
      (run_more (q := begin 0 1 (v / 4096 % 16 * 64 + v / 64 % 64)) ?_ (run_last ?_))
    · rw [hbyte _ hlead, step, first_three (by omega), Nat.add_sub_cancel]
    · rw [hbyte _ (by omega), step_begin (by simp only [begin]; split_ifs <;> omega)
        (by simp only [begin]; split_ifs <;> omega) (by omega), Nat.add_sub_cancel]
    · rw [hbyte _ (by omega), step_final (Nat.mod_lt _ (by omega))]
      rw [show (v / 4096 % 16 * 64 + v / 64 % 64) * 64 + v % 64 = v by omega, hofNat]
  · have hlead : v / 262144 % 8 + 240 < 256 := by omega
    refine run_more (q := begin (v / 262144 % 8 + 240) 3 (v / 262144 % 8)) ?_
      (run_more (q := begin 0 2 (v / 262144 % 8 * 64 + v / 4096 % 64)) ?_
        (run_more (q := begin 0 1 ((v / 262144 % 8 * 64 + v / 4096 % 64) * 64 + v / 64 % 64)) ?_
          (run_last ?_)))
    · rw [hbyte _ hlead, step, first_four (by omega), Nat.add_sub_cancel]
    · rw [hbyte _ (by omega), step_begin (by simp only [begin]; split_ifs <;> omega)
        (by simp only [begin]; split_ifs <;> omega) (by omega), Nat.add_sub_cancel]
    · rw [hbyte _ (by omega), step_middle (Nat.mod_lt _ (by omega)) (by omega)]
    · rw [hbyte _ (by omega), step_final (Nat.mod_lt _ (by omega))]
      rw [show ((v / 262144 % 8 * 64 + v / 4096 % 64) * 64 + v / 64 % 64) * 64 + v % 64 = v by omega,
        hofNat]

theorem run_encode (text : List Char) : run none (encode text) = (text, none) := by
  induction text with
  | nil => rfl
  | cons c text ih =>
    have hcons : encode (c :: text) = String.utf8EncodeChar c ++ encode text := rfl
    rw [hcons, run_append, run_encodeChar c, ih]
    rfl

/-- **A text** is what its bytes are decoded to. -/
theorem decode_encode (text : List Char) : decode (encode text) = text := by
  simp [decode, run_encode]

end Py.Utf8
