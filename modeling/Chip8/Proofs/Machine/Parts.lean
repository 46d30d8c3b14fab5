import Chip8.Proofs.Machine.Effect
import Chip8.Proofs.Memory

/-!
# The parts of the machine that an instruction writes

A machine is made of parts: each byte of memory, each register, each stack slot, and the other
fields. Two machines that agree at every part are equal (`Machine.ext_agreeAt`). `Instr.Writes` says
at which parts an instruction can write, and `Instr.agreeAt_execute` that it leaves every other part
alone. The dialect decides about one part only, the flag after an addition to the index register
(`Instr.execute_dialect`).
-/

namespace Chip8

/-- The parts of a machine that are written separately. -/
inductive Part
  | byte (a : Addr)
  | register (r : Reg)
  | slot (k : Fin stackDepth)
  | screen
  | drawn
  | keypad
  | counter
  | pointer
  | index
  | delay
  | sound
  | programSize

namespace Machine

/-- Two machines hold the same at a part. -/
def AgreeAt (m m' : Machine) : Part → Prop
  | .byte a => m.memory.read8 a = m'.memory.read8 a
  | .register r => m.reg r = m'.reg r
  | .slot k => m.stack[k] = m'.stack[k]
  | .screen => m.screen = m'.screen
  | .drawn => m.drawn = m'.drawn
  | .keypad => m.keypad = m'.keypad
  | .counter => m.pc = m'.pc
  | .pointer => m.sp = m'.sp
  | .index => m.i = m'.i
  | .delay => m.dt = m'.dt
  | .sound => m.st = m'.st
  | .programSize => m.programSize = m'.programSize

variable {m m' m'' : Machine} {p : Part}

theorem AgreeAt.refl (m : Machine) (p : Part) : m.AgreeAt m p := by
  cases p <;> rfl

theorem AgreeAt.symm (agree : m.AgreeAt m' p) : m'.AgreeAt m p := by
  cases p <;> exact Eq.symm agree

theorem AgreeAt.trans (first : m.AgreeAt m' p) (second : m'.AgreeAt m'' p) : m.AgreeAt m'' p := by
  cases p <;> exact Eq.trans first second

/-- The parts make up the machine. -/
theorem ext_agreeAt (agree : ∀ p, m.AgreeAt m' p) : m = m' := by
  have memory : m.memory = m'.memory := by
    refine Memory.ext_read8 fun b low high => ?_
    have here : m.memory.read8 (b.toNat : Int) = m'.memory.read8 (b.toNat : Int) :=
      agree (.byte ⟨b.toNat, by omega⟩)
    rwa [Int.toNat_of_nonneg low] at here
  have registers : m.v = m'.v := Vector.ext fun k bound => agree (.register ⟨k, bound⟩)
  have slots : m.stack = m'.stack := Vector.ext fun k bound => agree (.slot ⟨k, bound⟩)
  have screen : m.screen = m'.screen := agree .screen
  have drawn : m.drawn = m'.drawn := agree .drawn
  have keypad : m.keypad = m'.keypad := agree .keypad
  have counter : m.pc = m'.pc := agree .counter
  have pointer : m.sp = m'.sp := agree .pointer
  have index : m.i = m'.i := agree .index
  have delay : m.dt = m'.dt := agree .delay
  have sound : m.st = m'.st := agree .sound
  have size : m.programSize = m'.programSize := agree .programSize
  cases m
  cases m'
  simp_all only

/-! ## Writing -/

theorem agreeAt_setReg {x : Reg} (other : p ≠ .register x) (m : Machine) (b : UInt8) :
    (m.setReg x b).AgreeAt m p := by
  cases p with
  | register r =>
    have apart : x ≠ r := fun same => other (congrArg Part.register same.symm)
    exact (m.reg_setReg x r b).trans (if_neg apart)
  | _ => rfl

theorem agreeAt_setWithFlag {x : Reg} (other : p ≠ .register x) (plain : p ≠ .register flagReg)
    (m : Machine) (b : UInt8) (flag : Bool) : (m.setWithFlag x b flag).AgreeAt m p :=
  (agreeAt_setReg plain _ _).trans (agreeAt_setReg other _ _)

theorem agreeAt_setRegs {bytes : List UInt8} (other : ∀ r : Reg, r < bytes.length → p ≠ .register r)
    (m : Machine) :
    (m.setRegs bytes).AgreeAt m p := by
  cases p with
  | register r =>
    have beyond : bytes.length ≤ r := Nat.le_of_not_lt fun bound => other r bound rfl
    refine (m.reg_setRegs bytes r).trans ?_
    rw [List.getD_eq_getElem?_getD, List.getElem?_eq_none beyond]
    rfl
  | _ =>
    unfold setRegs
    rfl

theorem agreeAt_setSlot {n : Int} (other : ∀ k : Fin stackDepth, (k : Int) = n → p ≠ .slot k)
    (m : Machine) (w : UInt16) : (m.setSlot n w).AgreeAt m p := by
  unfold setSlot
  split
  · exact .refl m p
  · next low =>
    cases p with
    | slot k =>
      have apart : n.toNat ≠ k := fun same => other k (by omega) rfl
      exact Vector.getElem_setIfInBounds_ne k.isLt apart
    | _ => rfl

theorem agreeAt_setPointer (other : p ≠ .pointer) (m : Machine) (sp : Int) :
    { m with sp }.AgreeAt m p := by
  cases p with
  | pointer => exact absurd rfl other
  | _ => rfl

theorem agreeAt_setIndex (other : p ≠ .index) (m : Machine) (i : Int) :
    { m with i }.AgreeAt m p := by
  cases p with
  | index => exact absurd rfl other
  | _ => rfl

theorem agreeAt_writeFrom {a : Int} {bytes : List UInt8} (fits : 0 ≤ a ∧ a + bytes.length ≤ 0x1000)
    (other : ∀ b : Addr, a ≤ b → (b : Int) < a + bytes.length → p ≠ .byte b) (m : Machine) :
    { m with memory := m.memory.writeFrom a bytes }.AgreeAt m p := by
  cases p with
  | byte b =>
    have outside : (b : Int) < a ∨ a + bytes.length ≤ b := by
      by_contra inside
      exact other b (by omega) (by omega) rfl
    exact Memory.read8_writeFrom_of_outside bytes fits (by omega) outside
  | _ => rfl

end Machine

/-! ## Instructions -/

namespace Instr

/-- The parts that an instruction can write, apart from the program counter. -/
def Writes (d : Dialect) (m : Machine) : Instr → Part → Prop
  | clear, p => p = .screen ∨ p = .drawn
  | draw .., p => p = .screen ∨ p = .drawn ∨ p = .register flagReg
  | call _, p => p = .pointer ∨ ∃ k : Fin stackDepth, (k : Int) = m.sp ∧ p = .slot k
  | ret, p => p = .pointer
  | setByte x _, p | addByte x _, p | copy x _, p | or x _, p | and x _, p | xor x _,
      p | random x _, p
  | getDelay x, p => p = .register x
  | add x _, p | sub x _, p | shiftRight x _, p | subFrom x _, p | shiftLeft x _, p =>
    p = .register x ∨ p = .register flagReg
  | setIndex _, p | glyph _, p => p = .index
  | addIndex _, p => p = .index ∨ d.addIndexSetsFlag = true ∧ p = .register flagReg
  | setDelay _, p => p = .delay
  | setSound _, p => p = .sound
  | storeDigits _, p => ∃ a : Addr, (m.i ≤ a ∧ (a : Int) ≤ m.i + 2) ∧ p = .byte a
  | saveRegs x, p => ∃ a : Addr, (m.i ≤ a ∧ (a : Int) ≤ m.i + x) ∧ p = .byte a
  | loadRegs x, p => ∃ r ≤ x, p = .register r
  | jump _, _ | jumpOffset _, _ | skipIfByte .., _ | skipUnlessByte .., _ | skipIfSame ..,
      _ | skipUnlessSame .., _
  | skipIfKey _, _ | skipUnlessKey _, _ | waitKey _, _ => False

open Machine

variable (d : Dialect) (e : UInt8) (m : Machine) {i : Instr} {p : Part}

theorem agreeAt_execute (unwritten : ¬ i.Writes d m p) : (i.execute d e m).2.AgreeAt m p := by
  cases i with
  | clear =>
    cases p with
    | screen => exact absurd (.inl rfl) unwritten
    | drawn => exact absurd (.inr rfl) unwritten
    | _ => rfl
  | draw x y height =>
    rw [execute_draw]
    split
    · have flag : p ≠ .register flagReg := fun same => unwritten (.inr (.inr same))
      refine (agreeAt_setReg flag _ _).trans ?_
      cases p with
      | screen => exact absurd (.inl rfl) unwritten
      | drawn => exact absurd (.inr (.inl rfl)) unwritten
      | _ => rfl
    · exact .refl m p
  | call target =>
    rw [execute_call]
    repeat' split
    · exact .refl m p
    · exact .refl m p
    · -- First the slot is written, then the pointer.
      have pointer : p ≠ .pointer := fun same => unwritten (.inl same)
      refine (agreeAt_setPointer pointer (m.setSlot m.sp m.pc.returnWord) _).trans ?_
      exact agreeAt_setSlot (fun k top same => unwritten (.inr ⟨k, top, same⟩)) m _
  | ret =>
    rw [execute_ret]
    split
    · exact .refl m p
    · exact agreeAt_setPointer unwritten m _
  | setByte | addByte | copy | or | and | xor | random | getDelay =>
    exact agreeAt_setReg unwritten m _
  | add | sub | shiftRight | subFrom | shiftLeft =>
    exact agreeAt_setWithFlag (fun same => unwritten (.inl same))
      (fun same => unwritten (.inr same)) m _ _
  | setIndex | glyph => exact agreeAt_setIndex unwritten m _
  | addIndex x =>
    have index : p ≠ .index := fun same => unwritten (.inl same)
    simp only [execute, executeOn]
    split
    · next flags =>
      have flag : p ≠ .register flagReg := fun same => unwritten (.inr ⟨flags, same⟩)
      exact (agreeAt_setReg flag _ _).trans (agreeAt_setIndex index m _)
    · exact agreeAt_setIndex index m _
  | setDelay =>
    cases p with
    | delay => exact absurd rfl unwritten
    | _ => rfl
  | setSound =>
    cases p with
    | sound => exact absurd rfl unwritten
    | _ => rfl
  | storeDigits x =>
    rw [execute_storeDigits]
    split
    · next fits =>
      have fits := (writable_iff (by omega)).1 fits
      have length : (decimalDigits (m.reg x)).length = 3 := rfl
      exact agreeAt_writeFrom (by omega)
        (fun b low high same => unwritten ⟨b, ⟨low, by omega⟩, same⟩) m
    · exact .refl m p
  | saveRegs x =>
    rw [execute_saveRegs]
    split
    · next fits =>
      have fits := (writable_iff (by omega)).1 fits
      have length := m.length_take_v x
      exact agreeAt_writeFrom (by omega)
        (fun b low high same => unwritten ⟨b, ⟨low, by omega⟩, same⟩) m
    · exact .refl m p
  | loadRegs x =>
    rw [execute_loadRegs]
    split
    · refine agreeAt_setRegs (fun r bound same => unwritten ⟨r, ?_, same⟩) m
      rw [List.length_map, List.length_range] at bound
      exact Nat.le_of_lt_succ bound
    · exact .refl m p
  | _ => exact .refl m p

theorem exists_execute_addIndex (x : Reg) :
    ∃ m', (addIndex x).execute d e m = (.proceed .advance, m') ∧ ∀ p, p ≠ .register flagReg →
      m'.AgreeAt { m with i := Counter.add m.i (m.reg x).toNat % 0x10000 } p := by
  refine ⟨_, rfl, fun p plain => ?_⟩
  split
  · exact agreeAt_setReg plain _ _
  · exact .refl _ p

/-- The dialect decides about one part only: the flag after an addition to the index register. -/
theorem execute_dialect (i : Instr) (d' : Dialect) :
    i.execute d e m = i.execute d' e m ∨
    (∃ x, i = addIndex x) ∧ ∃ n n', i.execute d e m = (.proceed .advance, n) ∧
      i.execute d' e m = (.proceed .advance, n') ∧ ∀ p, p ≠ .register flagReg → n.AgreeAt n' p := by
  cases i with
  | addIndex x =>
    obtain ⟨n, done, agree⟩ := exists_execute_addIndex d e m x
    obtain ⟨n', done', agree'⟩ := exists_execute_addIndex d' e m x
    exact .inr ⟨⟨x, rfl⟩, n, n', done, done',
      fun p plain => (agree p plain).trans (agree' p plain).symm⟩
  | _ => exact .inl rfl

end Instr

end Chip8
