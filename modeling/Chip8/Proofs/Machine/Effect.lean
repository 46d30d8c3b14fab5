import Chip8.Processor
import Mathlib.Tactic.Common

/-!
# What instructions do

`Effect` lists what an instruction can do to a machine when it goes on, together with what it has
checked before. `Instr.execute_cases` says that every instruction faults or waits without touching
the machine, or has one of these effects; `Processor.step_stepped` says the same of a whole step.
What a run keeps is proved from these two, without a look at the single instructions.
-/

namespace Chip8

open Instr

/-- How an instruction that goes on changes the machine, and how the program counter is to move
afterwards. -/
inductive Effect (m : Machine) : Move → Machine → Prop
  | registers (v : Vector UInt8 16) : Effect m .advance { m with v }
  | skip (condition : Bool) : Effect m (if condition then .skip else .advance) m
  | index (i : Int) (v : Vector UInt8 16) (low : 0 ≤ i) (high : i ≤ 0xFFFF) :
      Effect m .advance { m with i, v }
  | delay (b : UInt8) : Effect m .advance { m with dt := b.toNat }
  | sound (b : UInt8) : Effect m .advance { m with st := b.toNat }
  | clear : Effect m .advance { m with screen := .dark, drawn := true }
  | draw (x y : Nat) (rows : List UInt8) (v : Vector UInt8 16) :
      Effect m .advance { m with screen := (m.screen.drawSprite x y rows).2, drawn := true, v }
  | store (bytes : List UInt8) (fits : writable m.i bytes.length = true) :
      Effect m .advance { m with memory := m.memory.writeFrom m.i bytes }
  | jump (target : Int) (low : 0 ≤ target) (high : target < 0xFFF) : Effect m (.jump target) m
  | call (target : Int) (low : 0 ≤ target) (high : target < 0xFFF) (room : m.sp < stackDepth) :
      Effect m (.jump target)
        { m.setSlot m.sp m.pc.returnWord with sp := Counter.add m.sp 1 }
  | ret (used : m.sp ≠ 0) :
      Effect m (returnTo (m.slot? (Counter.add m.sp (-1)))) { m with sp := Counter.add m.sp (-1) }

variable {m m' : Machine} {move : Move}

/-- No effect moves the program counter by itself. -/
theorem Effect.pc_eq (h : Effect m move m') : m'.pc = m.pc := by
  cases h with
  | call target low high room =>
    unfold Machine.setSlot
    split <;> rfl
  | _ => rfl

/-! ## Instructions -/

theorem Machine.length_take_v (m : Machine) (x : Reg) :
    (m.v.toList.take (x + 1)).length = x + 1 := by
  rw [List.length_take, Vector.length_toList]
  omega

section Instructions

variable (d : Dialect) (e : UInt8)

/-- A jump is refused, or goes to an address whose next one lies in memory too. -/
theorem jumpTo_cases (target : Int) (low : 0 ≤ target) :
    (∃ cause, jumpTo target = .fault cause) ∨
      jumpTo target = .proceed (.jump target) ∧ Effect m (.jump target) m := by
  unfold jumpTo
  split
  · exact .inl ⟨_, rfl⟩
  · next h => exact .inr ⟨rfl, .jump target low (by omega)⟩

/-- An instruction faults or waits and leaves the machine alone, or it goes on and has one of the
effects. -/
theorem Instr.execute_cases (m : Machine) (i : Instr) :
    (∃ cause, i.execute d e m = (.fault cause, m)) ∨
    (∃ x, i.execute d e m = (.awaitKey x, m)) ∨
    ∃ move m', i.execute d e m = (.proceed move, m') ∧ Effect m move m' := by
  cases i with
  | clear => exact .inr (.inr ⟨_, _, rfl, .clear⟩)
  | ret =>
    rw [execute_ret]
    split
    · exact .inl ⟨_, rfl⟩
    · next h => exact .inr (.inr ⟨_, _, rfl, .ret h⟩)
  | jump target =>
    rw [execute_jump]
    rcases jumpTo_cases (m := m) target (by omega) with ⟨cause, h⟩ | ⟨h, effect⟩
    · exact .inl ⟨cause, by rw [h]⟩
    · exact .inr (.inr ⟨_, m, by rw [h], effect⟩)
  | jumpOffset base =>
    rw [execute_jumpOffset]
    rcases jumpTo_cases (m := m) ((m.reg offsetReg).toNat + base) (by omega) with
      ⟨cause, h⟩ | ⟨h, effect⟩
    · exact .inl ⟨cause, by rw [h]⟩
    · exact .inr (.inr ⟨_, m, by rw [h], effect⟩)
  | call target =>
    rw [execute_call]
    split
    · exact .inl ⟨_, rfl⟩
    · next room =>
      split
      · exact .inl ⟨_, rfl⟩
      · next inside => exact .inr (.inr ⟨_, _, rfl, .call _ (by omega) (by omega) (by omega)⟩)
  | draw x y height =>
    rw [execute_draw]
    split
    · exact .inr (.inr ⟨_, _, rfl, .draw ..⟩)
    · exact .inl ⟨_, rfl⟩
  | waitKey x => exact .inr (.inl ⟨x, rfl⟩)
  | setDelay x => exact .inr (.inr ⟨_, _, rfl, .delay _⟩)
  | setSound x => exact .inr (.inr ⟨_, _, rfl, .sound _⟩)
  | setIndex target => exact .inr (.inr ⟨_, _, rfl, .index target.val m.v (by omega) (by omega)⟩)
  | addIndex x =>
    have low : 0 ≤ Counter.add m.i (m.reg x).toNat % 0x10000 := by omega
    have high : Counter.add m.i (m.reg x).toNat % 0x10000 ≤ 0xFFFF := by omega
    by_cases h : d.addIndexSetsFlag = true
    · exact .inr (.inr ⟨_, _, congrArg (Outcome.proceed .advance, ·) (if_pos h),
        .index _ _ low high⟩)
    · exact .inr (.inr ⟨_, _, congrArg (Outcome.proceed .advance, ·) (if_neg h),
        .index _ m.v low high⟩)
  | glyph x =>
    have := (m.reg x).toNat_lt
    have high : ((Font.glyphAddress (m.reg x).toNat : Nat) : Int) ≤ 0xFFFF := by
      unfold Font.glyphAddress Font.glyphHeight
      omega
    exact .inr (.inr ⟨_, _, rfl, .index _ m.v (by omega) high⟩)
  | storeDigits x =>
    rw [execute_storeDigits]
    split
    · next h => exact .inr (.inr ⟨_, _, rfl, .store _ h⟩)
    · exact .inl ⟨_, rfl⟩
  | saveRegs x =>
    rw [execute_saveRegs]
    split
    · next h =>
      exact .inr (.inr ⟨_, _, rfl, .store _ ((m.length_take_v x).symm ▸ h)⟩)
    · exact .inl ⟨_, rfl⟩
  | loadRegs x =>
    rw [execute_loadRegs]
    split
    · exact .inr (.inr ⟨_, _, rfl, .registers _⟩)
    · exact .inl ⟨_, rfl⟩
  | skipIfByte | skipUnlessByte | skipIfSame | skipUnlessSame | skipIfKey | skipUnlessKey =>
    exact .inr (.inr ⟨_, _, rfl, .skip _⟩)
  | setByte | addByte | copy | or | and | xor | add | sub | shiftRight | subFrom | shiftLeft |
      random | getDelay =>
    exact .inr (.inr ⟨_, _, rfl, .registers _⟩)

end Instructions

end Chip8
