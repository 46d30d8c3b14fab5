import Chip8.Machine
import Mathlib.Data.List.Basic

/-!
# The call stack as a list

While the stack pointer is between zero and sixteen, the used slots are the first so many. A call
appends to them, and a return takes the last of them away.
-/

namespace Chip8.Machine

variable {m : Machine}

theorem usedSlots_of_nonneg (low : 0 ≤ m.sp) : m.usedSlots = m.stack.toList.take m.sp.toNat :=
  if_neg (by omega)

/-- A call appends its return address. -/
theorem usedSlots_push (low : 0 ≤ m.sp) (room : m.sp < stackDepth) (w : UInt16) :
    { m.setSlot m.sp w with sp := Counter.add m.sp 1 }.usedSlots = m.usedSlots ++ [w] := by
  have depth : (stackDepth : Int) = 16 := rfl
  have bound : m.sp.toNat < m.stack.toList.length := by
    rw [Vector.length_toList]
    omega
  have next : Counter.add m.sp 1 = m.sp + 1 := Counter.add_word (by omega) (by omega)
  have succ : (m.sp + 1).toNat = m.sp.toNat + 1 := by omega
  have stack : (m.setSlot m.sp w).stack = m.stack.setIfInBounds m.sp.toNat w := by
    rw [setSlot, if_neg (by omega)]
  rw [usedSlots_of_nonneg low, usedSlots_of_nonneg (by simp only [next]; omega)]
  simp only [stack, next, succ, Vector.toList_setIfInBounds]
  rw [List.take_succ_eq_append_getElem (by simpa using bound), List.take_set_of_le (Nat.le_refl _),
    List.getElem_set_self]

/-- A return takes the last used slot, which is there, and leaves the others. -/
theorem exists_usedSlots_pop (used : 0 < m.sp) (high : m.sp ≤ stackDepth) :
    ∃ w, m.slot? (Counter.add m.sp (-1)) = some w ∧
      m.usedSlots = { m with sp := Counter.add m.sp (-1) }.usedSlots ++ [w] := by
  have depth : (stackDepth : Int) = 16 := rfl
  have bound : (m.sp - 1).toNat < m.stack.toList.length := by
    rw [Vector.length_toList]
    omega
  have previous : Counter.add m.sp (-1) = m.sp - 1 := Counter.add_word (by omega) (by omega)
  have succ : m.sp.toNat = (m.sp - 1).toNat + 1 := by omega
  refine ⟨m.stack.toList[(m.sp - 1).toNat], ?_, ?_⟩
  · rw [previous, slot?, if_neg (by omega)]
    simp at bound
    simp [bound]
  · rw [usedSlots_of_nonneg (by omega), usedSlots_of_nonneg (by simp only [previous]; omega)]
    simp only [previous, succ]
    exact List.take_succ_eq_append_getElem bound

end Chip8.Machine
