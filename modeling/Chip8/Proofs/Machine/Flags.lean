import Chip8.Proofs.Processor.Step

/-!
# Arithmetic with a flag

Five operations on two registers leave a flag beside their result. What the flag is (`Flagged.flag`)
and what ties the result to it and to the operands (`Flagged.Relates`) is said of the operands as
they were before. The result goes to the first register and then the flag to the flag register, so
the flag stays where the two are the same (`flag_arithmetic`).
-/

namespace Chip8

/-- The operations that set the flag register, by what they do with a first operand and a second
one. -/
inductive Flagged
  | add
  | sub
  | shiftRight
  | subFrom
  | shiftLeft

namespace Flagged

/-- The last nibble of the words of the operation. -/
def selector : Flagged → Nat
  | add => 0x4
  | sub => 0x5
  | shiftRight => 0x6
  | subFrom => 0x7
  | shiftLeft => 0xE

/-- The word of the operation on two registers. -/
def word (op : Flagged) (x y : Reg) : UInt16 :=
  UInt16.ofNat (0x8000 + 0x100 * x + 0x10 * y + op.selector)

def instr (x y : Reg) : Flagged → Instr
  | add => .add x y
  | sub => .sub x y
  | shiftRight => .shiftRight x y
  | subFrom => .subFrom x y
  | shiftLeft => .shiftLeft x y

/-- The flag that the operation leaves: the carry, that it subtracted from the greater number, or
the bit that falls out. -/
def flag (a b : Nat) : Flagged → Nat
  | add => if 255 < a + b then 1 else 0
  | sub => if b < a then 1 else 0
  | shiftRight => a % 2
  | subFrom => if a < b then 1 else 0
  | shiftLeft => a / 128

/-- The result of the operation, by the operands and the flag that it leaves. -/
def Relates (a b flag result : Nat) : Flagged → Prop
  | add => 256 * flag + result = a + b
  | sub => (result : Int) = ((a : Int) - b) % 256
  | shiftRight => 2 * result + flag = a
  | subFrom => (result : Int) = ((b : Int) - a) % 256
  | shiftLeft => 256 * flag + result = 2 * a

theorem toWord_instr (op : Flagged) (x y : Reg) : (op.instr x y).toWord = op.word x y := by
  cases op with
  | add | sub | shiftRight | subFrom | shiftLeft =>
    apply congrArg UInt16.ofNat
    simp only [selector]
    omega

theorem toNat_sub_byte (a b : UInt8) :
    ((a - b).toNat : Int) = ((a.toNat : Int) - b.toNat) % 256 := by
  have := a.toNat_lt
  have := b.toNat_lt
  rw [UInt8.toNat_sub]
  omega

theorem toNat_decide (p : Prop) [Decidable p] : (decide p).toNat = if p then 1 else 0 :=
  Bool.cond_decide p 1 0

variable (d : Dialect) (e : UInt8) (m : Machine)

/-- Each operation stores a result and a flag, in this order. -/
theorem exists_execute (op : Flagged) (x y : Reg) :
    ∃ (result : UInt8) (set : Bool),
      (op.instr x y).execute d e m = (.proceed .advance, m.setWithFlag x result set) ∧
      set.toNat = op.flag (m.reg x).toNat (m.reg y).toNat ∧
      op.Relates (m.reg x).toNat (m.reg y).toNat set.toNat result.toNat := by
  have boundA := (m.reg x).toNat_lt
  have boundB := (m.reg y).toNat_lt
  cases op with
  | add =>
    have flag := toNat_decide (255 < (m.reg x).toNat + (m.reg y).toNat)
    refine ⟨_, _, rfl, flag, ?_⟩
    rw [Relates, flag, UInt8.toNat_add]
    split <;> omega
  | sub =>
    refine ⟨_, _, rfl, toNat_decide (m.reg y < m.reg x), ?_⟩
    exact toNat_sub_byte ..
  | shiftRight =>
    have bit : m.reg x % 2 = 1 ↔ (m.reg x).toNat % 2 = 1 := UInt8.toNat_inj.symm
    have half : (m.reg x / 2).toNat = (m.reg x).toNat / 2 := rfl
    have flag : (decide (m.reg x % 2 = 1)).toNat = (m.reg x).toNat % 2 := by
      rw [toNat_decide]
      simp only [bit]
      split <;> omega
    refine ⟨_, _, rfl, flag, ?_⟩
    rw [Relates, flag, half]
    omega
  | subFrom =>
    refine ⟨_, _, rfl, toNat_decide (m.reg x < m.reg y), ?_⟩
    exact toNat_sub_byte ..
  | shiftLeft =>
    have bit : 128 ≤ m.reg x ↔ 128 ≤ (m.reg x).toNat := UInt8.le_iff_toNat_le
    have flag : (decide (128 ≤ m.reg x)).toNat = (m.reg x).toNat / 128 := by
      rw [toNat_decide]
      simp only [bit]
      split <;> omega
    refine ⟨_, _, rfl, flag, ?_⟩
    rw [Relates, flag, UInt8.toNat_add]
    omega

end Flagged

/-- Arithmetic leaves the flag in the flag register and, elsewhere, the result in the first
register, both from the operands as they were before. The other registers keep what they hold, the
second operand among them. -/
theorem flag_arithmetic (op : Flagged) (d : Dialect) (e : UInt8) (m : Machine) (x y : Reg) :
    let a := (m.reg x).toNat
    let b := (m.reg y).toNat
    ∃ m', Word.execute d e m (op.word x y) = (.proceed .advance, m') ∧
      (m'.reg flagReg).toNat = op.flag a b ∧
      (x ≠ flagReg → op.Relates a b (m'.reg flagReg).toNat (m'.reg x).toNat) ∧
      ∀ r, r ≠ x → r ≠ flagReg → m'.reg r = m.reg r := by
  intro a b
  obtain ⟨result, set, done, flag, relates⟩ := op.exists_execute d e m x y
  have flagged : ((m.setWithFlag x result set).reg flagReg).toNat = set.toNat := by
    rw [Machine.reg_setWithFlag, if_pos rfl]
    cases set <;> rfl
  refine ⟨m.setWithFlag x result set, ?_, flagged.trans flag, ?_, ?_⟩
  · rw [← op.toWord_instr, Word.execute_of_some d e m (op.instr x y).ofWord?_toWord]
    exact done
  · intro elsewhere
    rw [flagged, Machine.reg_setWithFlag, if_neg elsewhere, if_pos rfl]
    exact relates
  · intro r other plain
    rw [Machine.reg_setWithFlag, if_neg plain, if_neg other.symm]

/-- Nine is taken from five, where the nine lies in the flag register itself. -/
theorem flag_arithmetic_flag_operand :
    let m := { Machine.start with v := Vector.replicate 16 5 }.setReg flagReg 9
    (0 : Reg) ≠ flagReg ∧ (1 : Reg) ≠ 0 ∧ (1 : Reg) ≠ flagReg ∧
    ∃ m', Word.execute .standard 0 m 0x80F5 = (.proceed .advance, m') ∧
      (m'.reg flagReg).toNat = 0 ∧ ((m'.reg 0).toNat : Int) = (5 - 9) % 256 ∧ m'.reg 1 = 5 := by
  intro m
  have first : (m.reg 0).toNat = 5 := by decide +kernel
  have second : (m.reg 15).toNat = 9 := by decide +kernel
  obtain ⟨m', done, flag, relates, others⟩ := flag_arithmetic .sub .standard 0 m 0 15
  rw [first, second] at flag relates
  refine ⟨by decide, by decide, by decide, m', done, flag, relates (by decide), ?_⟩
  rw [others 1 (by decide) (by decide)]
  decide +kernel

end Chip8
