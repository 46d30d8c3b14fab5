import Chip8.Memory

/-!
# The program counter

The program counter holds the address of the next instruction. Running a program from power-on
always leaves an address in it. A return through a stack pointer that was set from outside may find
no stack slot; it leaves the counter empty, and moving an empty counter on garbles it. Nothing can
be fetched with either until a jump gives the counter an address again.
-/

namespace Chip8

inductive ProgramCounter
  | address (a : Int)
  /-- Nothing: its address was to come from a stack slot that does not exist. -/
  | empty
  /-- No number: it was moved on while it was empty. -/
  | garbled
deriving DecidableEq

namespace ProgramCounter

def add : ProgramCounter → Int → ProgramCounter
  | address a, d => address (Counter.add a d)
  | _, _ => garbled

/-- The address that an instruction can be fetched from, if the counter holds one. -/
def fetchable? : ProgramCounter → Option Int
  | address a => if isFetchable a then some a else none
  | _ => none

/-- Can the counter be followed for two bytes of memory? -/
def isInMemory : ProgramCounter → Bool
  | address a => isAddressable a && isAddressable (a + 1)
  | _ => false

/-- The word that a call leaves on the stack: the address behind the call, and zero if there is
none. -/
def returnWord : ProgramCounter → UInt16
  | address a => UInt16.ofInt (Counter.add a 2)
  | _ => 0

/-- The word at the counter, and zero where there is none. -/
def wordIn (memory : Memory) : ProgramCounter → UInt16
  | address a => if isAddressable a then memory.read16 a else 0
  | _ => 0

/-- The word at the counter as a bus has it, and zero where there is none. -/
def wordOn {f : Type → Type} [Monad f] (bus : Bus f) (memory : Memory) : ProgramCounter → f UInt16
  | address a => if isAddressable a then bus.readWord memory a else pure 0
  | _ => pure 0

def garbledText : String := Text.numberText .nan

/-- The counter in lower-case hexadecimal, at least `width` characters. An empty counter has no
text. -/
def hexLower (width : Nat) : ProgramCounter → String
  | address a => Text.hexLower width a
  | garbled => garbledText
  | empty => ""

/-- The counter in upper-case hexadecimal, at least `width` characters. An empty counter has no
text. -/
def hexUpper (width : Nat) : ProgramCounter → String
  | address a => Text.hexUpper width a
  | garbled => String.ofList (garbledText.toList.map Char.toUpper)
  | empty => ""

/-- What is said when an empty counter was to be shown. -/
def emptyMessage : String := "Cannot read properties of undefined (reading 'toString')"

theorem add_address {a d : Int} (h : (a + d).natAbs ≤ Counter.exactLimit) :
    (address a).add d = address (a + d) := congrArg address (Counter.add_eq h)

theorem wordOn_wrapping (memory : Memory) (c : ProgramCounter) :
    c.wordOn Bus.wrapping memory = c.wordIn memory := by
  cases c with
  | address a =>
    unfold wordOn wordIn
    split <;> rfl
  | _ => rfl

/-- A call in the program area leaves the address behind it. -/
theorem toNat_returnWord {a : Int} (low : 0x200 ≤ a) (high : a ≤ 0xFFE) :
    ((address a).returnWord.toNat : Int) = a + 2 := by
  rw [returnWord, Counter.add_word (by omega) (by omega), UInt16.ofInt, UInt16.toNat_ofNat']
  omega

theorem fetchable?_eq_some_iff {c : ProgramCounter} {a : Int} :
    c.fetchable? = some a ↔ c = address a ∧ isFetchable a = true := by
  cases c <;> simp only [fetchable?, address.injEq, reduceCtorEq, false_and]
  split <;> grind

theorem fetchable?_address {a : Int} (h : 0x200 ≤ a ∧ a ≤ 0xFFE) :
    (address a).fetchable? = some a :=
  if_pos (isFetchable_iff.2 h)

theorem fetchable?_address_eq_none {a : Int} (h : ¬ (0x200 ≤ a ∧ a ≤ 0xFFE)) :
    (address a).fetchable? = none :=
  if_neg (mt isFetchable_iff.1 h)

end ProgramCounter

end Chip8
