import Chip8.Machine.Exec
import Mathlib.Data.List.Basic

/-!
# Memory as a list of bytes

Writing bytes from an address on replaces so many bytes there, which gives all of memory at power-on
(`bytes_startWith`). They are read back as they were written (`read8_writeFrom`), and no other byte
changes. The bytes below the program area are the interpreter's own. Writes to the program area
leave them alone, so they are at power-on what the font makes them, whatever program is loaded
(`reserved_startWith`).
-/

namespace Chip8

namespace Memory

variable {m : Memory} {a : Int}

theorem cell_coe (k : Fin memorySize) : cell k = k := by
  have bound : k.val < 0x1000 := k.isLt
  apply Fin.ext
  simp only [cell, memorySize]
  omega

theorem ext_read8 {m' : Memory} (same : ∀ b : Int, 0 ≤ b → b ≤ 0xFFF → m.read8 b = m'.read8 b) :
    m = m' := by
  have bytes : m.bytes = m'.bytes := by
    apply Vector.ext
    intro k bound
    have here := same k (Int.natCast_nonneg k) (Int.lt_add_one_iff.1 (Int.ofNat_lt.2 bound))
    have place : cell k = ⟨k, bound⟩ := cell_coe ⟨k, bound⟩
    simp only [read8, place] at here
    exact here
  cases m
  cases m'
  exact congrArg Memory.mk bytes

theorem read8_writeFrom_of_outside {b : Int} (bytes : List UInt8)
    (fits : 0 ≤ a ∧ a + bytes.length ≤ 0x1000) (inside : 0 ≤ b ∧ b ≤ 0xFFF)
    (outside : b < a ∨ a + bytes.length ≤ b) :
    (m.writeFrom a bytes).read8 b = m.read8 b := by
  induction bytes generalizing m a with
  | nil => rfl
  | cons byte rest ih =>
    rw [List.length_cons] at fits outside
    have apart : cell a ≠ cell b := by
      rw [Ne, cell_eq_cell]
      unfold memorySize
      omega
    rw [writeFrom, ih (by omega) (by omega), read8_write8, if_neg apart]

theorem read8_writeFrom {k : Nat} (bytes : List UInt8) (fits : 0 ≤ a ∧ a + bytes.length ≤ 0x1000)
    (bound : k < bytes.length) : (m.writeFrom a bytes).read8 (a + k) = bytes[k] := by
  induction bytes generalizing m a k with
  | nil => cases bound
  | cons byte rest ih =>
    rw [List.length_cons] at fits bound
    cases k with
    | zero =>
      have first :=
        read8_writeFrom_of_outside (m := m.write8 a byte) (a := a + 1) (b := a) rest (by omega)
          (by omega)
        (.inl (by omega))
      rw [writeFrom, Int.ofNat_zero, Int.add_zero, first, read8_write8_self]
      rfl
    | succ k =>
      have next : a + ((k + 1 : Nat) : Int) = a + 1 + k := by omega
      rw [writeFrom, next, ih (by omega) (by omega)]
      rfl

/-- Bytes that are written back to where they were read change nothing. -/
theorem writeFrom_self (m : Memory) {count : Nat} (fits : 0 ≤ a ∧ a + count ≤ 0x1000) :
    m.writeFrom a ((List.range count).map fun (k : Nat) => m.read8 (a + k)) = m := by
  have length : ((List.range count).map fun (k : Nat) => m.read8 (a + k)).length = count := by
    rw [List.length_map, List.length_range]
  refine ext_read8 fun b low high => ?_
  by_cases inside : a ≤ b ∧ b < a + count
  · obtain ⟨k, hk⟩ := Int.le.dest inside.1
    have bound : k < count := by omega
    rw [← hk, read8_writeFrom _ (by rw [length]; exact fits) (by rw [length]; exact bound),
      List.getElem_map, List.getElem_range]
  · exact read8_writeFrom_of_outside _ (by rw [length]; exact fits) ⟨low, high⟩
      (by rw [length]; omega)

/-! ## The interpreter's own bytes -/

/-- The bytes below the program area. -/
def reserved (m : Memory) : List UInt8 := m.slice 0 programStart

theorem reserved_write8 (low : 0x200 ≤ a) (high : a ≤ 0xFFF) (b : UInt8) :
    (m.write8 a b).reserved = m.reserved := by
  have place : (cell a).val = a.toNat := by
    simp only [cell, memorySize]
    omega
  have above : (programStart : Int).toNat ≤ a.toNat := by
    unfold programStart
    omega
  simp only [reserved, slice, write8, Vector.toList_set, place, Int.toNat_zero, List.drop_zero]
  exact List.take_set_of_le above

theorem reserved_writeFrom (bytes : List UInt8) (low : 0x200 ≤ a)
    (high : a + bytes.length ≤ 0x1000) :
    (m.writeFrom a bytes).reserved = m.reserved := by
  induction bytes generalizing m a with
  | nil => rfl
  | cons b rest ih =>
    rw [List.length_cons] at high
    rw [writeFrom, ih (by omega) (by omega), reserved_write8 low (by omega)]

end Memory

namespace Machine

theorem reserved_startMemory : startMemory.reserved = Font.table ++ List.replicate 432 0 := by
  decide +kernel

/-- Loading a program that fits leaves the font and the zeros behind it. -/
theorem reserved_startWith {program : List UInt8} (fits : program.length ≤ maxProgramSize) :
    (startWith program).memory.reserved = Font.table ++ List.replicate 432 0 := by
  have high : (programStart : Int) + program.length ≤ 0x1000 := by
    unfold maxProgramSize memorySize at fits
    unfold programStart at fits ⊢
    omega
  exact (Memory.reserved_writeFrom program (Int.le_refl _) high).trans reserved_startMemory

end Machine

end Chip8
