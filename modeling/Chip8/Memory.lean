import Chip8.Counter

/-!
# Memory and the bus

The machine has 4096 bytes of memory. The interpreter keeps its own data below `0x200`; programs
live above. Instructions reach memory over a bus. The wrapping bus takes every address modulo 4096;
the strict bus refuses addresses outside memory, and writes below the program area.
-/

namespace Chip8

def memorySize : Nat := 0x1000

def programStart : Nat := 0x200

/-- The number of bytes that a program may have. -/
def maxProgramSize : Nat := memorySize - programStart

/-- Does the address name a byte of memory? -/
def isAddressable (a : Int) : Bool := 0 ≤ a && a < memorySize

/-- May programs write to the address? -/
def isWritable (a : Int) : Bool := isAddressable a && programStart ≤ a

/-- May an instruction be fetched from the address? Its two bytes must lie in the program area. -/
def isFetchable (a : Int) : Bool := programStart ≤ a && isAddressable a && isAddressable (a + 1)

theorem isAddressable_iff {a : Int} : isAddressable a = true ↔ 0 ≤ a ∧ a ≤ 0xFFF := by
  simp only [isAddressable, Bool.and_eq_true, decide_eq_true_eq]
  simp only [memorySize]
  omega

theorem isWritable_iff {a : Int} : isWritable a = true ↔ 0x200 ≤ a ∧ a ≤ 0xFFF := by
  simp only [isWritable, isAddressable_iff, Bool.and_eq_true, decide_eq_true_eq]
  simp only [programStart]
  omega

theorem isFetchable_iff {a : Int} : isFetchable a = true ↔ 0x200 ≤ a ∧ a ≤ 0xFFE := by
  simp only [isFetchable, isAddressable_iff, Bool.and_eq_true, decide_eq_true_eq]
  simp only [programStart]
  omega

structure Memory where
  bytes : Vector UInt8 memorySize
deriving DecidableEq

/-- A block of bytes that does not fit where it is to go. -/
structure LoadError where
  size : Nat
  address : Int
deriving DecidableEq

def LoadError.message (e : LoadError) : String :=
  "load of " ++ Text.decimal e.size ++ " bytes at 0x" ++ Text.hexLower 0 e.address ++
    " exceeds memory"

namespace Memory

def blank : Memory := ⟨Vector.replicate memorySize 0⟩

instance : Inhabited Memory := ⟨blank⟩

/-- The byte of memory that the wrapping bus selects for an address. -/
def cell (a : Int) : Fin memorySize :=
  ⟨(a % memorySize).toNat, by unfold memorySize; omega⟩

/-- The byte at an address taken modulo the size of memory. -/
def read8 (m : Memory) (a : Int) : UInt8 := m.bytes[cell a]

/-- The big-endian word at an address. -/
def read16 (m : Memory) (a : Int) : UInt16 :=
  UInt16.ofNat ((m.read8 a).toNat * 256 + (m.read8 (Counter.add a 1)).toNat)

/-- Memory with the byte at an address, taken modulo the size of memory, replaced. -/
def write8 (m : Memory) (a : Int) (b : UInt8) : Memory := ⟨m.bytes.set (cell a) b⟩

/-- Memory with the bytes from an address on replaced, one after another. -/
def writeFrom (m : Memory) (a : Int) : List UInt8 → Memory
  | [] => m
  | b :: rest => (m.write8 a b).writeFrom (a + 1) rest

/-- Copies a block of bytes to an address, if all of it fits. -/
def load (m : Memory) (a : Int) (block : List UInt8) : Except LoadError Memory :=
  if a < 0 ∨ memorySize < a + block.length then .error ⟨block.length, a⟩
  else .ok (m.writeFrom a block)

/-- The bytes from an address on, as far as there are any; a negative address counts as zero. -/
def slice (m : Memory) (a : Int) (count : Int) : List UInt8 :=
  (m.bytes.toList.drop a.toNat).take count.toNat

/-- Two addresses select the same byte when they agree modulo the size of memory. -/
theorem cell_eq_cell {a b : Int} : cell a = cell b ↔ a % memorySize = b % memorySize := by
  simp only [cell, Fin.mk.injEq, memorySize]
  omega

theorem read8_write8 (m : Memory) (a b : Int) (v : UInt8) :
    (m.write8 a v).read8 b = if cell a = cell b then v else m.read8 b := by
  simp [read8, write8, Vector.getElem_set, Fin.ext_iff]

@[simp] theorem read8_write8_self (m : Memory) (a : Int) (v : UInt8) :
    (m.write8 a v).read8 a = v := by
  simp [read8_write8]

end Memory

/-- How instructions reach memory, with the failures of `f`. -/
structure Bus (f : Type → Type) where
  read : Memory → Int → f UInt8
  write : Memory → Int → UInt8 → f Memory

namespace Bus

def wrapping : Bus Id where
  read m a := m.read8 a
  write m a b := m.write8 a b

def strict : Bus Option where
  read m a := if isAddressable a then some (m.read8 a) else none
  write m a b := if isWritable a then some (m.write8 a b) else none

variable {f : Type → Type} [Monad f]

/-- Reads `count` bytes, lowest address first. -/
def readBlock (bus : Bus f) (m : Memory) (a : Int) : Nat → f (List UInt8)
  | 0 => pure []
  | count + 1 => do
    let b ← bus.read m a
    let rest ← bus.readBlock m (a + 1) count
    pure (b :: rest)

/-- Writes the bytes, lowest address first. -/
def writeBlock (bus : Bus f) (m : Memory) (a : Int) : List UInt8 → f Memory
  | [] => pure m
  | b :: rest => do
    let m ← bus.write m a b
    bus.writeBlock m (a + 1) rest

/-- Reads a big-endian word. -/
def readWord (bus : Bus f) (m : Memory) (a : Int) : f UInt16 := do
  let high ← bus.read m a
  let low ← bus.read m (Counter.add a 1)
  pure (UInt16.ofNat (high.toNat * 256 + low.toNat))

/-! The wrapping bus does what memory itself does. -/

@[simp] theorem readBlock_wrapping (m : Memory) (a : Int) (count : Nat) :
    wrapping.readBlock m a count = (List.range count).map fun (k : Nat) => m.read8 (a + k) := by
  induction count generalizing a with
  | zero => rfl
  | succ count ih =>
    have shift (k : Nat) : a + 1 + (k : Int) = a + ((k + 1 : Nat) : Int) := by omega
    rw [List.range_succ_eq_map, List.map_cons, List.map_map]
    change wrapping.read m a :: wrapping.readBlock m (a + 1) count = _
    rw [ih]
    simp [Function.comp_def, shift, wrapping]

@[simp] theorem writeBlock_wrapping (m : Memory) (a : Int) (bytes : List UInt8) :
    wrapping.writeBlock m a bytes = m.writeFrom a bytes := by
  induction bytes generalizing m a with
  | nil => rfl
  | cons b rest ih => exact ih _ _

@[simp] theorem readWord_wrapping (m : Memory) (a : Int) : wrapping.readWord m a = m.read16 a := rfl

end Bus

end Chip8
