import Mathlib

/-!
# A block of shared bytes

* `Memory.write`, `Memory.slice`: storing bytes at an address, and the bytes between two addresses;
* `Memory.write_of_lt`, `Memory.write_of_le`, `Memory.slice_write_of_disjoint`: what a write leaves
  alone;
* **`Memory.slice_write`**: a slice that starts where the bytes were stored starts with them.
-/

set_option autoImplicit false

namespace Py

/-- The bytes of a block, by address. -/
abbrev Memory := ℕ → UInt8

namespace Memory

/-- `buf[start:start + len(bytes)] = bytes`. -/
def write (mem : Memory) (start : ℕ) (bytes : List UInt8) : Memory := fun a =>
  if start ≤ a then bytes[a - start]?.getD (mem a) else mem a

/-- `buf[start:start + size]`. -/
def slice (mem : Memory) (start size : ℕ) : List UInt8 :=
  (List.range size).map fun i => mem (start + i)

variable {mem : Memory} {start a size : ℕ} {bytes : List UInt8}

theorem write_of_lt (h : a < start) : mem.write start bytes a = mem a :=
  if_neg (by omega)

theorem write_of_le (h : start + bytes.length ≤ a) : mem.write start bytes a = mem a := by
  have hnone : bytes[a - start]? = none := List.getElem?_eq_none (by omega)
  rw [write, hnone, Option.getD_none, ite_self]

theorem write_add {i : ℕ} (h : i < bytes.length) :
    mem.write start bytes (start + i) = bytes[i] := by
  rw [write, if_pos (by omega), show start + i - start = i by omega,
    List.getElem?_eq_getElem h, Option.getD_some]

@[simp] theorem write_self (v : UInt8) : mem.write start [v] start = v := by
  rw [write, if_pos (le_refl start), Nat.sub_self]
  rfl

theorem write_of_ne {v : UInt8} (h : a ≠ start) : mem.write start [v] a = mem a := by
  rcases Nat.lt_or_gt_of_ne h with hlt | hgt
  · exact write_of_lt hlt
  · exact write_of_le hgt

theorem slice_write_of_disjoint {dst : ℕ} (h : start + size ≤ dst ∨ dst + bytes.length ≤ start) :
    (mem.write dst bytes).slice start size = mem.slice start size := by
  apply List.map_congr_left
  intro i hi
  have hi' : i < size := List.mem_range.mp hi
  rcases h with h | h
  · exact write_of_lt (by omega)
  · exact write_of_le (by omega)

/-- **A slice that starts where bytes were stored starts with them.** -/
theorem slice_write (h : bytes.length ≤ size) :
    (mem.write start bytes).slice start size =
      bytes ++ mem.slice (start + bytes.length) (size - bytes.length) := by
  obtain ⟨rest, rfl⟩ := Nat.exists_eq_add_of_le h
  rw [slice, List.range_add, List.map_append, List.map_map, Nat.add_sub_cancel_left]
  congr 1
  · apply List.ext_getElem (by simp)
    intro i h₁ h₂
    rw [List.getElem_map, List.getElem_range]
    exact write_add h₂
  · apply List.map_congr_left
    intro i _
    rw [Function.comp_apply, write_of_le (by omega), Nat.add_assoc]

end Memory

end Py
