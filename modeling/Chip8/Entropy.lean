import Chip8.Number

/-!
# Random bytes

A random source is a list of bytes, or of numbers that bytes are made of, used again and again from
its start.
-/

namespace Chip8.Entropy

/-- The byte in the low eight bits of a number's whole part. -/
def ofNumber (n : Number) : UInt8 := UInt8.ofInt n.truncate

/-- The byte that a number of the unit interval selects out of 256. -/
def ofUnit (x : Float) : UInt8 := UInt8.ofInt ((Number.ofFloat (x * 256)).floor?.getD 0)

/-- A list of bytes that is used again and again; an empty one gives zeros. -/
structure Cycle where
  bytes : Array UInt8
  /-- The place of the next byte. -/
  next : Nat

namespace Cycle

def ofList (bytes : List UInt8) : Cycle := ⟨bytes.toArray, 0⟩

def draw (c : Cycle) : UInt8 × Cycle :=
  (c.bytes.getD c.next 0, { c with next := if c.next + 1 < c.bytes.size then c.next + 1 else 0 })

end Cycle

end Chip8.Entropy
