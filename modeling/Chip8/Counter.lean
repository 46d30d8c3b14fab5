import Chip8.Text.Decimal
import Chip8.Text.Radix

/-!
# Counters

Counters and addresses are whole numbers kept to 53 significant bits. Up to `2 ^ 53` every whole
number is kept, so counting is exact (`add_eq`). Above that a sum goes to the nearest number of so
few bits, and from halfway to the one whose last kept bit is zero. A running machine stays far
below; only a counter that was set from outside can be so large.
-/

namespace Chip8.Counter

/-- The magnitude up to which every whole number is kept. -/
def exactLimit : Nat := 9007199254740992

/-- A whole number kept to 53 significant bits. -/
def keep (n : Int) : Int :=
  if n.natAbs ≤ exactLimit then n else n.sign * (roundSignificant n.natAbs).num

/-- The sum of two counters. -/
def add (c d : Int) : Int := keep (c + d)

/-- A counter in decimal digits: all of them as far as counting is exact, else as few as tell the
number from its neighbours. -/
def text (c : Int) : String :=
  if c.natAbs ≤ exactLimit then Text.decimal c else Text.numberText (.ofInt c)

theorem keep_eq {n : Int} (h : n.natAbs ≤ exactLimit) : keep n = n := if_pos h

/-- Counting is exact below the limit. -/
theorem add_eq {c d : Int} (h : (c + d).natAbs ≤ exactLimit) : add c d = c + d := keep_eq h

/-- Sums of words and small numbers are exact. -/
theorem add_word {c d : Int} (low : -0x10000 ≤ c + d) (high : c + d ≤ 0x20000) : add c d = c + d :=
  add_eq (by unfold exactLimit; omega)

end Chip8.Counter
