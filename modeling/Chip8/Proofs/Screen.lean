import Chip8.Screen
import Mathlib.Tactic.Common

/-!
# Cells of a screen

Drawing turns zeros into ones and ones into zeros, so a screen of zeros and ones stays one.
-/

namespace Chip8.Screen

/-- Every cell is zero or one. -/
def Binary (s : Screen) : Prop := ∀ k : Fin pixelCount, s.cells[k] = 0 ∨ s.cells[k] = 1

variable {s : Screen}

theorem binary_dark : dark.Binary := by
  intro k
  simp [dark]

theorem Binary.flip (h : s.Binary) (x y : Nat) : (s.flip x y).2.Binary := by
  intro k
  simp only [Screen.flip, Fin.getElem_fin, Vector.getElem_set]
  split
  · have old := h (cell x y)
    rw [Fin.getElem_fin] at old
    rcases old with hc | hc
    · exact .inr (by rw [hc]; rfl)
    · exact .inl (by rw [hc]; rfl)
  · exact h k

theorem Binary.drawColumns (h : s.Binary) (x y : Nat) (row : UInt8) (cs : List Nat) :
    (s.drawColumns x y row cs).2.Binary := by
  induction cs generalizing s with
  | nil => exact h
  | cons c cs ih =>
    rw [Screen.drawColumns]
    split
    · exact ih (h.flip (x + c) y)
    · exact ih h

theorem Binary.drawSprite (h : s.Binary) (x y : Nat) (rows : List UInt8) :
    (s.drawSprite x y rows).2.Binary := by
  induction rows generalizing s y with
  | nil => exact h
  | cons row rest ih => exact ih (h.drawColumns x y row (List.range 8)) (y + 1)

end Chip8.Screen
