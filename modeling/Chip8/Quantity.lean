import Chip8.Number

/-!
# The arithmetic of a clock

A clock multiplies elapsed time by a rate and counts whole ticks. `Quantity` lists the operations
that this takes, so that one clock runs on floating-point numbers and is reasoned about over the
rationals.
-/

namespace Chip8

/-- Times and rates: ordered numbers with a count of whole units. -/
class Quantity (α : Type) extends Add α, Sub α, Mul α, Div α where
  ofNat : Nat → α
  lt : α → α → Bool
  le : α → α → Bool
  /-- The number of whole units; none of them for a negative quantity. -/
  wholeUnits : α → Nat
  /-- The part of a tick by which a tick may be early. -/
  tolerance : α

namespace Quantity

instance : Quantity Rat where
  ofNat n := n
  lt a b := decide (a < b)
  le a b := decide (a ≤ b)
  wholeUnits q := q.floor.toNat
  tolerance := 1 / 1000000

/-- A count that no run of ticks comes to an end of. -/
def boundless : Nat := twoPow 1024

instance : Quantity Float where
  ofNat n := Float.ofNat n
  lt a b := decide (a < b)
  le a b := decide (a ≤ b)
  wholeUnits x :=
    match Number.ofFloat x with
    | .finite q => q.floor.toNat
    | .infinite false => boundless
    | _ => 0
  tolerance := 1e-6

variable {α : Type} [Quantity α]

/-- `x`, or `low` if `x` is below it. -/
def atLeast (low x : α) : α := if lt x low then low else x

/-- The part of the span `x` that fits under `cap`; nothing when the two cannot be compared. -/
def within (cap x : α) : α :=
  if lt cap x then cap
  else if le x cap && lt (ofNat 0) x then x
  else ofNat 0

end Quantity

end Chip8
