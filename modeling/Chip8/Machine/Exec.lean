import Chip8.Machine.Fault

/-!
# Carrying out instructions

`Instr.executeOn` carries out one instruction on a machine whose memory is behind a given bus, and
`Instr.execute` does so on the wrapping bus. The program counter is not moved: the outcome says how
it is to move. Whatever can go wrong is checked before anything is changed, so a fault leaves the
machine as it was.
-/

namespace Chip8

inductive Move
  /-- To the next word. -/
  | advance
  /-- Past the next word. -/
  | skip
  | jump (target : Int)
  /-- There is no address to go on at: it was to be found outside the stack. The counter is left
  empty. -/
  | nowhere
deriving DecidableEq

inductive Outcome
  | proceed (move : Move)
  /-- The machine waits for a key, to be stored in a register. -/
  | awaitKey (x : Reg)
  | fault (cause : Cause)
  /-- The word is no instruction. -/
  | unknown
deriving DecidableEq

/-- The points on which machines of this kind do not agree. -/
structure Dialect where
  /-- Adding to the index register sets the flag register when the sum leaves the 12-bit address
  space. -/
  addIndexSetsFlag : Bool
deriving DecidableEq

namespace Dialect

def standard : Dialect := ⟨false⟩

instance : Inhabited Dialect := ⟨standard⟩

end Dialect

/-- To the second next word if the condition holds, else to the next. -/
def skipIf (condition : Bool) : Outcome := .proceed (if condition then .skip else .advance)

/-- A jump, unless the word at its target would not lie in memory. -/
def jumpTo (target : Int) : Outcome :=
  if 0xFFF ≤ target then .fault (.jumpOutside target) else .proceed (.jump target)

def returnTo (slot : Option UInt16) : Move :=
  match slot with
  | some target => .jump target.toNat
  | none => .nowhere

/-- Do the `count` bytes from an address on lie in memory? It is enough that the first and the last
do. -/
def readable (a : Int) (count : Nat) : Bool :=
  count = 0 || isAddressable a && isAddressable (a + count - 1)

/-- Do the `count` bytes from an address on lie in the program area? -/
def writable (a : Int) (count : Nat) : Bool := isWritable a && isWritable (a + count - 1)

theorem readable_iff {a : Int} {count : Nat} :
    readable a count = true ↔ count = 0 ∨ 0 ≤ a ∧ a + count ≤ 0x1000 := by
  simp only [readable, isAddressable_iff, Bool.or_eq_true, Bool.and_eq_true, decide_eq_true_eq]
  omega

theorem writable_iff {a : Int} {count : Nat} (some : 0 < count) :
    writable a count = true ↔ 0x200 ≤ a ∧ a + count ≤ 0x1000 := by
  simp only [writable, isWritable_iff, Bool.and_eq_true]
  omega

/-- The hundreds, tens and units of a byte. -/
def decimalDigits (b : UInt8) : List UInt8 := [b / 100, b / 10 % 10, b % 10]

namespace Instr

variable {f : Type → Type} [Monad f]

/-- Carries out an instruction on a machine whose memory is behind the given bus. `entropy` is the
byte that the random source gives if it is asked. -/
def executeOn (bus : Bus f) (dialect : Dialect) (entropy : UInt8) (m : Machine) :
    Instr → f (Outcome × Machine)
  | clear => pure (.proceed .advance, { m with screen := .dark, drawn := true })
  | ret =>
    if m.sp = 0 then pure (.fault .returnOnEmptyStack, m)
    else
      let sp := Counter.add m.sp (-1)
      pure (.proceed (returnTo (m.slot? sp)), { m with sp })
  | .jump target => pure (jumpTo target, m)
  | call target =>
    if stackDepth ≤ m.sp then pure (.fault (.callOnFullStack target m.sp), m)
    else
      match jumpTo target with
      | .proceed move =>
        pure (.proceed move,
          { m.setSlot m.sp m.pc.returnWord with sp := Counter.add m.sp 1 })
      | refused => pure (refused, m)
  | skipIfByte x b => pure (skipIf (m.reg x = b), m)
  | skipUnlessByte x b => pure (skipIf (m.reg x ≠ b), m)
  | skipIfSame x y => pure (skipIf (m.reg x = m.reg y), m)
  | setByte x b => pure (.proceed .advance, m.setReg x b)
  | addByte x b => pure (.proceed .advance, m.setReg x (m.reg x + b))
  | copy x y => pure (.proceed .advance, m.setReg x (m.reg y))
  | or x y => pure (.proceed .advance, m.setReg x (m.reg x ||| m.reg y))
  | and x y => pure (.proceed .advance, m.setReg x (m.reg x &&& m.reg y))
  | xor x y => pure (.proceed .advance, m.setReg x (m.reg x ^^^ m.reg y))
  | add x y =>
    let a := m.reg x
    let b := m.reg y
    pure (.proceed .advance, m.setWithFlag x (a + b) (255 < a.toNat + b.toNat))
  | sub x y =>
    let a := m.reg x
    let b := m.reg y
    pure (.proceed .advance, m.setWithFlag x (a - b) (b < a))
  | shiftRight x _ =>
    let a := m.reg x
    pure (.proceed .advance, m.setWithFlag x (a / 2) (a % 2 = 1))
  | subFrom x y =>
    let a := m.reg x
    let b := m.reg y
    pure (.proceed .advance, m.setWithFlag x (b - a) (a < b))
  | shiftLeft x _ =>
    let a := m.reg x
    pure (.proceed .advance, m.setWithFlag x (a + a) (128 ≤ a))
  | skipUnlessSame x y => pure (skipIf (m.reg x ≠ m.reg y), m)
  | setIndex target => pure (.proceed .advance, { m with i := target })
  | jumpOffset base => pure (jumpTo ((m.reg offsetReg).toNat + base), m)
  | random x mask => pure (.proceed .advance, m.setReg x (entropy &&& mask))
  | draw x y height =>
    if readable m.i height then do
      let rows ← bus.readBlock m.memory m.i height
      let (hit, screen) := m.screen.drawSprite (m.reg x).toNat (m.reg y).toNat rows
      pure (.proceed .advance,
        { m with screen, drawn := true }.setReg flagReg (if hit then 1 else 0))
    else pure (.fault (.readOutside m.i height), m)
  | skipIfKey x => pure (skipIf (m.keyDown (m.reg x)), m)
  | skipUnlessKey x => pure (skipIf (!m.keyDown (m.reg x)), m)
  | getDelay x => pure (.proceed .advance, m.setReg x (UInt8.ofInt m.dt))
  | waitKey x => pure (.awaitKey x, m)
  | setDelay x => pure (.proceed .advance, { m with dt := (m.reg x).toNat })
  | setSound x => pure (.proceed .advance, { m with st := (m.reg x).toNat })
  | addIndex x =>
    let sum := Counter.add m.i (m.reg x).toNat
    let next := { m with i := sum % 0x10000 }
    pure (.proceed .advance,
      if dialect.addIndexSetsFlag then next.setReg flagReg (if 0xFFF < sum then 1 else 0) else next)
  | glyph x => pure (.proceed .advance, { m with i := Font.glyphAddress (m.reg x).toNat })
  | storeDigits x =>
    if writable m.i 3 then do
      let memory ← bus.writeBlock m.memory m.i (decimalDigits (m.reg x))
      pure (.proceed .advance, { m with memory })
    else pure (.fault (.writeOutside m.i 3), m)
  | saveRegs x =>
    if writable m.i (x + 1) then do
      let memory ← bus.writeBlock m.memory m.i (m.v.toList.take (x + 1))
      pure (.proceed .advance, { m with memory })
    else pure (.fault (.writeOutside m.i (x + 1)), m)
  | loadRegs x =>
    if readable m.i (x + 1) then do
      let bytes ← bus.readBlock m.memory m.i (x + 1)
      pure (.proceed .advance, m.setRegs bytes)
    else pure (.fault (.readOutside m.i (x + 1)), m)

def execute (dialect : Dialect) (entropy : UInt8) (m : Machine) (i : Instr) : Outcome × Machine :=
  i.executeOn Bus.wrapping dialect entropy m

/-! What the instructions that can fault do on the wrapping bus. -/

section Execute

variable (dialect : Dialect) (entropy : UInt8) (m : Machine) (x y : Reg) (target : Addr)

theorem execute_ret :
    ret.execute dialect entropy m =
      if m.sp = 0 then (.fault .returnOnEmptyStack, m)
      else
        let sp := Counter.add m.sp (-1)
        (.proceed (returnTo (m.slot? sp)), { m with sp }) := rfl

theorem execute_jump : (Instr.jump target).execute dialect entropy m = (jumpTo target, m) := rfl

theorem execute_jumpOffset :
    (jumpOffset target).execute dialect entropy m =
      (jumpTo ((m.reg offsetReg).toNat + target), m) := rfl

theorem execute_call :
    (call target).execute dialect entropy m =
      if stackDepth ≤ m.sp then (.fault (.callOnFullStack target m.sp), m)
      else if 0xFFF ≤ (target : Int) then (.fault (.jumpOutside target), m)
      else
        (.proceed (.jump target),
          { m.setSlot m.sp m.pc.returnWord with sp := Counter.add m.sp 1 }) := by
  by_cases outside : 0xFFF ≤ (target : Int)
  · simp only [execute, executeOn, jumpTo, if_pos outside]
    split <;> rfl
  · simp only [execute, executeOn, jumpTo, if_neg outside]
    split <;> rfl

theorem execute_draw (height : Fin 16) :
    (draw x y height).execute dialect entropy m =
      if readable m.i height then
        let rows := (List.range height).map fun (k : Nat) => m.memory.read8 (m.i + k)
        let drawing := m.screen.drawSprite (m.reg x).toNat (m.reg y).toNat rows
        (.proceed .advance,
          { m with screen := drawing.2, drawn := true }.setReg flagReg (if drawing.1 then 1 else 0))
      else (.fault (.readOutside m.i height), m) := by
  rw [← Bus.readBlock_wrapping]
  rfl

theorem execute_storeDigits :
    (storeDigits x).execute dialect entropy m =
      if writable m.i 3 then
        (.proceed .advance, { m with memory := m.memory.writeFrom m.i (decimalDigits (m.reg x)) })
      else (.fault (.writeOutside m.i 3), m) := by
  rw [← Bus.writeBlock_wrapping]
  rfl

theorem execute_saveRegs :
    (saveRegs x).execute dialect entropy m =
      if writable m.i (x + 1) then
        (.proceed .advance, { m with memory := m.memory.writeFrom m.i (m.v.toList.take (x + 1)) })
      else (.fault (.writeOutside m.i (x + 1)), m) := by
  rw [← Bus.writeBlock_wrapping]
  rfl

theorem execute_loadRegs :
    (loadRegs x).execute dialect entropy m =
      if readable m.i (x + 1) then
        let bytes := (List.range (x + 1)).map fun (k : Nat) => m.memory.read8 (m.i + k)
        (.proceed .advance, m.setRegs bytes)
      else (.fault (.readOutside m.i (x + 1)), m) := by
  rw [← Bus.readBlock_wrapping]
  rfl

end Execute

end Instr

/-- Carries out a word on a machine whose memory is behind the given bus. A word that is no
instruction changes nothing. -/
def Word.executeOn {f : Type → Type} [Monad f] (bus : Bus f) (dialect : Dialect) (entropy : UInt8)
    (m : Machine) (w : UInt16) : f (Outcome × Machine) :=
  match Instr.ofWord? w with
  | some i => i.executeOn bus dialect entropy m
  | none => pure (.unknown, m)

def Word.execute (dialect : Dialect) (entropy : UInt8) (m : Machine) (w : UInt16) :
    Outcome × Machine :=
  Word.executeOn Bus.wrapping dialect entropy m w

def Machine.move (m : Machine) : Move → Machine
  | .advance => { m with pc := m.pc.add 2 }
  | .skip => { m with pc := m.pc.add 4 }
  | .jump target => { m with pc := .address target }
  | .nowhere => { m with pc := .empty }

end Chip8
