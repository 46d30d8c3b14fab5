/-!
# Instructions

An instruction is one 16-bit word. `Instr` names what the machine can do, with the operands that the
word carries. `Instr.ofWord?` reads a word and answers nothing for words outside the instruction
set, and `Instr.toWord` writes one. The two shifts carry a second register that they do not use, so
each word in the set is one instruction and each instruction one word.
-/

namespace Chip8

abbrev Reg := Fin 16

/-- The register that offset jumps add. -/
def offsetReg : Reg := ⟨0, by decide⟩

def flagReg : Reg := ⟨15, by decide⟩

/-- A 12-bit address operand. -/
abbrev Addr := Fin 4096

inductive Instr
  | clear
  | ret
  | jump (target : Addr)
  | call (target : Addr)
  | skipIfByte (x : Reg) (byte : UInt8)
  | skipUnlessByte (x : Reg) (byte : UInt8)
  | skipIfSame (x y : Reg)
  | setByte (x : Reg) (byte : UInt8)
  /-- Adds a byte to a register, without a flag. -/
  | addByte (x : Reg) (byte : UInt8)
  | copy (x y : Reg)
  | or (x y : Reg)
  | and (x y : Reg)
  | xor (x y : Reg)
  /-- Adds the second register to the first; the flag is the carry. -/
  | add (x y : Reg)
  /-- Subtracts the second register from the first; the flag says that the first was greater. -/
  | sub (x y : Reg)
  /-- Halves the first register; the flag is the bit that falls out. -/
  | shiftRight (x y : Reg)
  /-- Sets the first register to the second less the first; the flag says that the second was
  greater. -/
  | subFrom (x y : Reg)
  /-- Doubles the first register; the flag is the bit that falls out. -/
  | shiftLeft (x y : Reg)
  | skipUnlessSame (x y : Reg)
  | setIndex (target : Addr)
  /-- Continues at an address plus the offset register. -/
  | jumpOffset (base : Addr)
  /-- Sets a register to a random byte under a mask. -/
  | random (x : Reg) (mask : UInt8)
  /-- Draws the sprite of `height` rows at the index register, at the coordinates in two
  registers. -/
  | draw (x y : Reg) (height : Fin 16)
  | skipIfKey (x : Reg)
  | skipUnlessKey (x : Reg)
  | getDelay (x : Reg)
  /-- Waits for a key and stores it. -/
  | waitKey (x : Reg)
  | setDelay (x : Reg)
  | setSound (x : Reg)
  | addIndex (x : Reg)
  /-- Points the index register at the glyph for a register. -/
  | glyph (x : Reg)
  /-- Stores the three decimal digits of a register. -/
  | storeDigits (x : Reg)
  /-- Stores the registers up to `x`. -/
  | saveRegs (x : Reg)
  /-- Loads the registers up to `x`. -/
  | loadRegs (x : Reg)
deriving DecidableEq, Repr

/-! ## The fields of a word -/

namespace Word

/-- The four bits that select the family. -/
def family (w : UInt16) : Fin 16 := ⟨w.toNat / 4096, by have := w.toNat_lt; omega⟩

/-- The second nibble, a register. -/
def x (w : UInt16) : Reg := ⟨w.toNat / 256 % 16, by omega⟩

/-- The third nibble, a register. -/
def y (w : UInt16) : Reg := ⟨w.toNat / 16 % 16, by omega⟩

def nibble (w : UInt16) : Fin 16 := ⟨w.toNat % 16, by omega⟩

def byte (w : UInt16) : UInt8 := UInt8.ofNat w.toNat

/-- The low twelve bits. -/
def addr (w : UInt16) : Addr := ⟨w.toNat % 4096, by omega⟩

/-- A word with a family, two registers and a last nibble. -/
def ofNibbles (family x y nibble : Fin 16) : UInt16 :=
  UInt16.ofNat (family.val * 4096 + x.val * 256 + y.val * 16 + nibble.val)

/-- A word with a family, a register and a low byte. -/
def ofByte (family x : Fin 16) (byte : UInt8) : UInt16 :=
  UInt16.ofNat (family.val * 4096 + x.val * 256 + byte.toNat)

/-- A word with a family and an address. -/
def ofAddr (family : Fin 16) (addr : Addr) : UInt16 :=
  UInt16.ofNat (family.val * 4096 + addr.val)

/-! A word is made of its fields, and gives back the fields that it was made of. -/

theorem ofAddr_fields (w : UInt16) : ofAddr (family w) (addr w) = w := by
  apply UInt16.toNat_inj.1
  have := w.toNat_lt
  simp only [ofAddr, family, addr, UInt16.toNat_ofNat']
  omega

theorem ofByte_fields (w : UInt16) : ofByte (family w) (x w) (byte w) = w := by
  apply UInt16.toNat_inj.1
  have := w.toNat_lt
  simp only [ofByte, family, x, byte, UInt16.toNat_ofNat', UInt8.toNat_ofNat']
  omega

theorem ofNibbles_fields (w : UInt16) : ofNibbles (family w) (x w) (y w) (nibble w) = w := by
  apply UInt16.toNat_inj.1
  have := w.toNat_lt
  simp only [ofNibbles, family, x, y, nibble, UInt16.toNat_ofNat']
  omega

variable (family₀ x₀ y₀ nibble₀ : Fin 16) (addr₀ : Addr) (byte₀ : UInt8)

@[simp] theorem family_ofAddr : family (ofAddr family₀ addr₀) = family₀ := by
  simp only [family, ofAddr, UInt16.toNat_ofNat', Fin.ext_iff]
  omega

@[simp] theorem addr_ofAddr : addr (ofAddr family₀ addr₀) = addr₀ := by
  simp only [addr, ofAddr, UInt16.toNat_ofNat', Fin.ext_iff]
  omega

@[simp] theorem family_ofByte : family (ofByte family₀ x₀ byte₀) = family₀ := by
  have := byte₀.toNat_lt
  simp only [family, ofByte, UInt16.toNat_ofNat', Fin.ext_iff]
  omega

@[simp] theorem x_ofByte : x (ofByte family₀ x₀ byte₀) = x₀ := by
  have := byte₀.toNat_lt
  simp only [x, ofByte, UInt16.toNat_ofNat', Fin.ext_iff]
  omega

@[simp] theorem byte_ofByte : byte (ofByte family₀ x₀ byte₀) = byte₀ := by
  apply UInt8.toNat_inj.1
  have := byte₀.toNat_lt
  simp only [byte, ofByte, UInt16.toNat_ofNat', UInt8.toNat_ofNat']
  omega

@[simp] theorem family_ofNibbles : family (ofNibbles family₀ x₀ y₀ nibble₀) = family₀ := by
  simp only [family, ofNibbles, UInt16.toNat_ofNat', Fin.ext_iff]
  omega

@[simp] theorem x_ofNibbles : x (ofNibbles family₀ x₀ y₀ nibble₀) = x₀ := by
  simp only [x, ofNibbles, UInt16.toNat_ofNat', Fin.ext_iff]
  omega

@[simp] theorem y_ofNibbles : y (ofNibbles family₀ x₀ y₀ nibble₀) = y₀ := by
  simp only [y, ofNibbles, UInt16.toNat_ofNat', Fin.ext_iff]
  omega

@[simp] theorem nibble_ofNibbles : nibble (ofNibbles family₀ x₀ y₀ nibble₀) = nibble₀ := by
  simp only [nibble, ofNibbles, UInt16.toNat_ofNat', Fin.ext_iff]
  omega

end Word

namespace Instr

open Word

/-! ## Reading words -/

/-- The arithmetic instruction that the last nibble of a word of family 8 selects. -/
def ofArithmetic? (x y : Reg) (selector : Fin 16) : Option Instr :=
  match selector with
  | 0x0 => some (copy x y)
  | 0x1 => some (or x y)
  | 0x2 => some (and x y)
  | 0x3 => some (xor x y)
  | 0x4 => some (add x y)
  | 0x5 => some (sub x y)
  | 0x6 => some (shiftRight x y)
  | 0x7 => some (subFrom x y)
  | 0xE => some (shiftLeft x y)
  | _ => none

/-- The instruction that the low byte of a word of family F selects. -/
def ofMisc? (x : Reg) (selector : UInt8) : Option Instr :=
  if selector = 0x07 then some (getDelay x)
  else if selector = 0x0A then some (waitKey x)
  else if selector = 0x15 then some (setDelay x)
  else if selector = 0x18 then some (setSound x)
  else if selector = 0x1E then some (addIndex x)
  else if selector = 0x29 then some (glyph x)
  else if selector = 0x33 then some (storeDigits x)
  else if selector = 0x55 then some (saveRegs x)
  else if selector = 0x65 then some (loadRegs x)
  else none

/-- The instruction that a word stands for, if it is in the instruction set. -/
def ofWord? (w : UInt16) : Option Instr :=
  match family w with
  | 0x0 => if w = 0x00E0 then some clear else if w = 0x00EE then some ret else none
  | 0x1 => some (jump (addr w))
  | 0x2 => some (call (addr w))
  | 0x3 => some (skipIfByte (x w) (byte w))
  | 0x4 => some (skipUnlessByte (x w) (byte w))
  | 0x5 => if nibble w = 0 then some (skipIfSame (x w) (y w)) else none
  | 0x6 => some (setByte (x w) (byte w))
  | 0x7 => some (addByte (x w) (byte w))
  | 0x8 => ofArithmetic? (x w) (y w) (nibble w)
  | 0x9 => if nibble w = 0 then some (skipUnlessSame (x w) (y w)) else none
  | 0xA => some (setIndex (addr w))
  | 0xB => some (jumpOffset (addr w))
  | 0xC => some (random (x w) (byte w))
  | 0xD => some (draw (x w) (y w) (nibble w))
  | 0xE =>
    if byte w = 0x9E then some (skipIfKey (x w))
    else if byte w = 0xA1 then some (skipUnlessKey (x w))
    else none
  | _ => ofMisc? (x w) (byte w) -- 0xF, the last family

/-! ## Writing words -/

def toWord : Instr → UInt16
  | clear => 0x00E0
  | ret => 0x00EE
  | jump target => ofAddr 0x1 target
  | call target => ofAddr 0x2 target
  | skipIfByte x b => ofByte 0x3 x b
  | skipUnlessByte x b => ofByte 0x4 x b
  | skipIfSame x y => ofNibbles 0x5 x y 0
  | setByte x b => ofByte 0x6 x b
  | addByte x b => ofByte 0x7 x b
  | copy x y => ofNibbles 0x8 x y 0x0
  | or x y => ofNibbles 0x8 x y 0x1
  | and x y => ofNibbles 0x8 x y 0x2
  | xor x y => ofNibbles 0x8 x y 0x3
  | add x y => ofNibbles 0x8 x y 0x4
  | sub x y => ofNibbles 0x8 x y 0x5
  | shiftRight x y => ofNibbles 0x8 x y 0x6
  | subFrom x y => ofNibbles 0x8 x y 0x7
  | shiftLeft x y => ofNibbles 0x8 x y 0xE
  | skipUnlessSame x y => ofNibbles 0x9 x y 0
  | setIndex target => ofAddr 0xA target
  | jumpOffset base => ofAddr 0xB base
  | random x mask => ofByte 0xC x mask
  | draw x y height => ofNibbles 0xD x y height
  | skipIfKey x => ofByte 0xE x 0x9E
  | skipUnlessKey x => ofByte 0xE x 0xA1
  | getDelay x => ofByte 0xF x 0x07
  | waitKey x => ofByte 0xF x 0x0A
  | setDelay x => ofByte 0xF x 0x15
  | setSound x => ofByte 0xF x 0x18
  | addIndex x => ofByte 0xF x 0x1E
  | glyph x => ofByte 0xF x 0x29
  | storeDigits x => ofByte 0xF x 0x33
  | saveRegs x => ofByte 0xF x 0x55
  | loadRegs x => ofByte 0xF x 0x65

/-! ## Reading what was written -/

theorem toWord_of_ofArithmetic? {x y selector : Fin 16} {i : Instr}
    (h : ofArithmetic? x y selector = some i) :
    i.toWord = ofNibbles 0x8 x y selector := by
  revert h
  unfold ofArithmetic?
  split <;> intro h <;> cases h <;> rfl

theorem toWord_of_ofMisc? {x : Reg} {selector : UInt8} {i : Instr}
    (h : ofMisc? x selector = some i) :
    i.toWord = ofByte 0xF x selector := by
  revert h
  unfold ofMisc?
  repeat' split
  all_goals intro h; cases h
  all_goals simp_all [toWord]

/-- A word that stands for an instruction is the one that the instruction is written as. -/
theorem toWord_of_ofWord? {w : UInt16} {i : Instr} (h : ofWord? w = some i) : i.toWord = w := by
  have ha := ofAddr_fields w
  have hb := ofByte_fields w
  have hn := ofNibbles_fields w
  revert h
  unfold ofWord?
  split
  case h_9 hf => exact fun h => (toWord_of_ofArithmetic? h).trans (hf ▸ hn)
  case h_16 =>
    have hf : family w = 0xF := by
      clear ha hb hn
      generalize family w = f at *
      revert f
      decide
    exact fun h => (toWord_of_ofMisc? h).trans (hf ▸ hb)
  all_goals
    rename_i hf
    rw [hf] at ha hb hn
    repeat' split
    all_goals intro h; cases h
    all_goals simp_all [toWord]

/-- Every instruction is read back from its word. -/
theorem ofWord?_toWord (i : Instr) : ofWord? i.toWord = some i := by
  cases i <;> simp [toWord, ofWord?, ofArithmetic?, ofMisc?] <;> rfl

theorem ofWord?_eq_some_iff {w : UInt16} {i : Instr} : ofWord? w = some i ↔ w = i.toWord :=
  ⟨fun h => (toWord_of_ofWord? h).symm, fun h => h ▸ ofWord?_toWord i⟩

def drawsRandom : Instr → Bool
  | random .. => true
  | _ => false

end Instr

end Chip8
