import Chip8.Font
import Chip8.Instr
import Chip8.ProgramCounter
import Chip8.Screen

/-!
# The machine

The whole state of the machine. A machine starts with the glyphs in low memory, everything else
zero, and the program counter at the start of the program area. Nothing bounds the counters:
instructions check them where they use them. `Machine.problems` lists what is wrong with a machine
whose counters were set from outside.
-/

namespace Chip8

def stackDepth : Nat := 16

abbrev Key := Fin 16

structure Machine where
  memory : Memory
  v : Vector UInt8 16
  stack : Vector UInt16 stackDepth
  screen : Screen
  /-- Which keys are down. -/
  keypad : Vector Bool 16
  pc : ProgramCounter
  /-- The number of stack slots in use. -/
  sp : Int
  /-- The index register. It may point past the end of memory. -/
  i : Int
  /-- The delay timer. -/
  dt : Int
  /-- The sound timer. -/
  st : Int
  /-- The screen was drawn on since it was last handed over. -/
  drawn : Bool
  programSize : Nat
deriving DecidableEq

/-- The registers of a machine and the used part of its stack, bottom first, as they are
reported. -/
structure Snapshot where
  pc : ProgramCounter
  sp : Int
  i : Int
  dt : Int
  st : Int
  v : List Int
  stack : List Int
deriving DecidableEq

namespace Machine

/-- Memory at power-on: the glyphs from address zero, then zeros. -/
def startMemory : Memory := Memory.blank.writeFrom 0 Font.table

/-- The machine at power-on, without a program. -/
def start : Machine where
  memory := startMemory
  v := Vector.replicate 16 0
  stack := Vector.replicate stackDepth 0
  screen := .dark
  keypad := Vector.replicate 16 false
  pc := .address programStart
  sp := 0
  i := 0
  dt := 0
  st := 0
  drawn := false
  programSize := 0

instance : Inhabited Machine := ⟨start⟩

/-- The machine with a program copied to the start of the program area, if it fits there. -/
def loadProgram (m : Machine) (program : List UInt8) : Except LoadError Machine := do
  let memory ← m.memory.load programStart program
  pure { m with memory, programSize := program.length }

/-- The machine at power-on with a program that fits the program area. -/
def startWith (program : List UInt8) : Machine :=
  { start with
    memory := startMemory.writeFrom programStart program
    programSize := program.length }

theorem loadProgram_start (program : List UInt8) :
    start.loadProgram program =
      if maxProgramSize < program.length then .error ⟨program.length, programStart⟩
      else .ok (startWith program) := by
  have fits : ((programStart : Int) < 0 ∨ (memorySize : Int) < programStart + program.length) ↔
      maxProgramSize < program.length := by
    unfold maxProgramSize memorySize programStart
    omega
  simp only [loadProgram, Memory.load, fits]
  split <;> rfl

def reg (m : Machine) (x : Reg) : UInt8 := m.v[x]

def setReg (m : Machine) (x : Reg) (b : UInt8) : Machine := { m with v := m.v.set x b }

/-- The machine with a register set to a result, and then the flag register to a flag. The flag wins
when the result went to the flag register. -/
def setWithFlag (m : Machine) (x : Reg) (b : UInt8) (flag : Bool) : Machine :=
  (m.setReg x b).setReg flagReg (if flag then 1 else 0)

/-- The registers from `V0` on set to the bytes, one after another. -/
def setRegs (m : Machine) (bytes : List UInt8) : Machine :=
  { m with v := Vector.ofFn fun x => bytes.getD x (m.v[x]) }

theorem reg_setReg (m : Machine) (x y : Reg) (b : UInt8) :
    (m.setReg x b).reg y = if x = y then b else m.reg y := by
  simp [reg, setReg, Vector.getElem_set, Fin.ext_iff]

@[simp] theorem reg_setReg_self (m : Machine) (x : Reg) (b : UInt8) : (m.setReg x b).reg x = b := by
  simp [reg_setReg]

theorem reg_setWithFlag (m : Machine) (x y : Reg) (b : UInt8) (flag : Bool) :
    (m.setWithFlag x b flag).reg y =
      if y = flagReg then (if flag then 1 else 0) else if x = y then b else m.reg y := by
  simp only [setWithFlag, reg_setReg, eq_comm]

theorem reg_setRegs (m : Machine) (bytes : List UInt8) (x : Reg) :
    (m.setRegs bytes).reg x = bytes.getD x (m.reg x) := by
  simp [reg, setRegs]

/-- The stack slot with a number, if there is one. -/
def slot? (m : Machine) (n : Int) : Option UInt16 := if n < 0 then none else m.stack[n.toNat]?

/-- The machine with a stack slot set, if there is one with that number. -/
def setSlot (m : Machine) (n : Int) (w : UInt16) : Machine :=
  if n < 0 then m else { m with stack := m.stack.setIfInBounds n.toNat w }

/-- The machine with a word written where the program counter points. With no address there, both of
its bytes go to the first cell, one after the other. -/
def placeWord (m : Machine) (w : UInt16) : Machine :=
  let high := UInt8.ofNat (w.toNat / 256)
  let low := UInt8.ofNat w.toNat
  match m.pc with
  | .address a => { m with memory := (m.memory.write8 a high).write8 (Counter.add a 1) low }
  | _ => { m with memory := (m.memory.write8 0 high).write8 0 low }

/-- Is the key down that a register names? Numbers above fifteen name no key. -/
def keyDown (m : Machine) (key : UInt8) : Bool := m.keypad.toArray.getD key.toNat false

/-- The stack slots that count as used: the first `sp`, and for a negative `sp` all but the last
`-sp`. -/
def usedSlots (m : Machine) : List UInt16 :=
  if m.sp < 0 then m.stack.toList.take (stackDepth - m.sp.natAbs)
    else m.stack.toList.take m.sp.toNat

def snapshot (m : Machine) : Snapshot where
  pc := m.pc
  sp := m.sp
  i := m.i
  dt := m.dt
  st := m.st
  v := m.v.toList.map fun b => b.toNat
  stack := m.usedSlots.map fun w => w.toNat

/-- One period of the timers: each counts down to zero and stops there. -/
def countDown (t : Int) : Int := if 0 < t then Counter.add t (-1) % 256 else t

theorem countDown_eq {t : Int} (low : 0 ≤ t) (high : t ≤ 0xFF) : countDown t = max 0 (t - 1) := by
  unfold countDown
  split
  · rw [Counter.add_word (by omega) (by omega)]
    omega
  · omega

def tickTimers (m : Machine) : Machine := { m with dt := countDown m.dt, st := countDown m.st }

def sounding (m : Machine) : Bool := 0 < m.st

/-! ## Consistency -/

inductive Problem
  | stackPointer (sp : Int)
  | programCounter (pc : ProgramCounter)
  | delayTimer (dt : Int)
  | soundTimer (st : Int)
  | indexRegister (i : Int)
deriving DecidableEq

def Problem.message : Problem → String
  | stackPointer sp => "SP out of range: " ++ Counter.text sp
  | programCounter pc => "PC not fetchable: 0x" ++ pc.hexLower 0
  | delayTimer dt => "DT out of range: " ++ Counter.text dt
  | soundTimer st => "ST out of range: " ++ Counter.text st
  | indexRegister i => "I negative: " ++ Counter.text i

/-- Everything that is wrong with the counters of the machine; empty when they are consistent. -/
def problems (m : Machine) : List Problem :=
  (if m.sp < 0 ∨ stackDepth < m.sp then [.stackPointer m.sp] else []) ++
  (if m.pc.isInMemory then [] else [.programCounter m.pc]) ++
  (if m.dt < 0 ∨ 0xFF < m.dt then [.delayTimer m.dt] else []) ++
  (if m.st < 0 ∨ 0xFF < m.st then [.soundTimer m.st] else []) ++
  (if m.i < 0 then [.indexRegister m.i] else [])

end Machine

end Chip8
