import Mathlib.Algebra.GroupWithZero.Nat
import Mathlib.Tactic.Common

/-!
# Bytes

* `utf8`: a text in UTF-8; `utf8_inj`;
* `leBytes`: a number in little-endian bytes; **`leBytes_inj`**.
-/

set_option autoImplicit false

namespace Py

/-- `s.encode("utf-8")`. -/
def utf8 (s : String) : List UInt8 := s.toByteArray.data.toList

theorem utf8_inj {s t : String} (h : utf8 s = utf8 t) : s = t :=
  String.toByteArray_inj.mp (ByteArray.ext (Array.toList_inj.mp h))

/-- The lowest `w` bytes of a number, the lowest first. -/
def leBytes : ℕ → ℕ → List UInt8
  | 0, _ => []
  | w + 1, n => UInt8.ofNat n :: leBytes w (n / 256)

theorem length_leBytes (w n : ℕ) : (leBytes w n).length = w := by
  induction w generalizing n with
  | zero => rfl
  | succ w ih => rw [leBytes, List.length_cons, ih]

/-- **The bytes of a number determine it**, up to what they leave out. -/
theorem leBytes_inj {w n m : ℕ} (h : leBytes w n = leBytes w m) : n % 256 ^ w = m % 256 ^ w := by
  induction w generalizing n m with
  | zero => rw [Nat.pow_zero, Nat.mod_one, Nat.mod_one]
  | succ w ih =>
    obtain ⟨hlow, hrest⟩ := List.cons.inj h
    have hmod : n % 256 = m % 256 := by
      simpa using congrArg UInt8.toNat hlow
    rw [Nat.pow_succ', Nat.mod_mul, Nat.mod_mul, hmod, ih hrest]

end Py
