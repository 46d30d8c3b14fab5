import Chip8.Proofs.Memory
import Chip8.Proofs.Processor.Step

/-!
# Saving and loading registers

Saving copies the registers up to one of them to memory, from the index register on, and loading
copies them back (`Word.execute_save`, `Word.execute_load`). What was saved can be loaded whatever
the registers hold by then, also fewer registers than were saved, and saving what was just loaded
leaves memory as it was (`save_load_inverse`).
-/

namespace Chip8

namespace Machine

variable {m : Machine} {x r : Reg}

@[simp] theorem memory_setRegs (m : Machine) (bytes : List UInt8) :
    (m.setRegs bytes).memory = m.memory := by
  unfold setRegs
  rfl

@[simp] theorem i_setRegs (m : Machine) (bytes : List UInt8) : (m.setRegs bytes).i = m.i := by
  unfold setRegs
  rfl

/-- Registers that are set from a list take the bytes in turn, and the others keep theirs. -/
theorem reg_setRegs_range (m : Machine) (x r : Reg) (byte : Nat → UInt8) :
    (m.setRegs ((List.range (x + 1)).map byte)).reg r = if r ≤ x then byte r else m.reg r := by
  rw [reg_setRegs, List.getD_eq_getElem?_getD, List.getElem?_map]
  by_cases covered : r ≤ x
  · have bound : r.val < x.val + 1 := Nat.lt_succ_of_le covered
    rw [if_pos covered, List.getElem?_range bound]
    rfl
  · have bound : x.val + 1 ≤ r.val := Nat.lt_of_not_le covered
    have length : (List.range (x.val + 1)).length ≤ r.val := by rwa [List.length_range]
    rw [if_neg covered, List.getElem?_eq_none length]
    rfl

/-- The bytes of the registers up to one of them. -/
def firstRegs (m : Machine) (x : Reg) : List UInt8 := m.v.toList.take (x + 1)

theorem length_firstRegs (m : Machine) (x : Reg) : (m.firstRegs x).length = x + 1 :=
  m.length_take_v x

theorem getElem_firstRegs {k : Nat} (bound : k < (m.firstRegs x).length) :
    (m.firstRegs x)[k] = m.reg ⟨k, by have := m.length_firstRegs x; omega⟩ := by
  simp [firstRegs, reg]

/-- Loaded registers are saved as the bytes that they were loaded from. -/
theorem firstRegs_setRegs_range (m : Machine) (x : Reg) (byte : Nat → UInt8) :
    (m.setRegs ((List.range (x + 1)).map byte)).firstRegs x = (List.range (x + 1)).map byte := by
  apply List.ext_getElem
  · rw [length_firstRegs, List.length_map, List.length_range]
  · intro k bound _
    rw [length_firstRegs] at bound
    have covered : (⟨k, by omega⟩ : Reg) ≤ x := Nat.le_of_lt_succ bound
    rw [getElem_firstRegs, reg_setRegs_range, if_pos covered, List.getElem_map, List.getElem_range]

end Machine

/-! ## Instructions -/

section Instructions

open Machine

variable (d : Dialect) (e : UInt8) {m : Machine} {x : Reg}

theorem Word.execute_save (low : 0x200 ≤ m.i) (high : m.i + x ≤ 0xFFF) :
    execute d e m (ofByte 0xF x 0x55) =
      (.proceed .advance, { m with memory := m.memory.writeFrom m.i (m.firstRegs x) }) := by
  have word : Instr.ofWord? (ofByte 0xF x 0x55) = some (.saveRegs x) :=
    Instr.ofWord?_toWord (.saveRegs x)
  have inside : writable m.i (x + 1) = true := (writable_iff (by omega)).2 ⟨low, by omega⟩
  rw [execute_of_some d e m word, Instr.execute_saveRegs, if_pos inside]
  rfl

theorem Word.execute_load (low : 0 ≤ m.i) (high : m.i + x ≤ 0xFFF) :
    execute d e m (ofByte 0xF x 0x65) =
      (.proceed .advance,
        m.setRegs ((List.range (x + 1)).map fun (k : Nat) => m.memory.read8 (m.i + k))) := by
  have word : Instr.ofWord? (ofByte 0xF x 0x65) = some (.loadRegs x) :=
    Instr.ofWord?_toWord (.loadRegs x)
  have inside : readable m.i (x + 1) = true := readable_iff.2 (.inr ⟨low, by omega⟩)
  rw [execute_of_some d e m word, Instr.execute_loadRegs, if_pos inside]

variable (e' : UInt8)

/-- Registers that were saved can be loaded, over whatever the registers hold by then. -/
theorem load_after_save {x₁ x₂ : Reg} (low : 0x200 ≤ m.i) (order : x₁ ≤ x₂)
    (high : m.i + x₂ ≤ 0xFFF) (v : Vector UInt8 16) :
    ∃ loaded,
      Word.execute d e { m with memory := m.memory.writeFrom m.i (m.firstRegs x₂), v }
          (Word.ofByte 0xF x₁ 0x65) =
        (.proceed .advance, loaded) ∧
      (∀ r : Reg, loaded.reg r = if r ≤ x₁ then m.reg r else v[r]) ∧
      loaded.i = m.i ∧ loaded.memory = m.memory.writeFrom m.i (m.firstRegs x₂) := by
  have within : x₁.val ≤ x₂.val := order
  have length := m.length_firstRegs x₂
  let overwritten : Machine := { m with memory := m.memory.writeFrom m.i (m.firstRegs x₂), v }
  have loads := Word.execute_load (m := overwritten) (x := x₁) d e (by change 0 ≤ m.i; omega)
    (by change m.i + x₁ ≤ 0xFFF; omega)
  refine ⟨_, loads, ?_, ?_, ?_⟩
  · intro r
    rw [reg_setRegs_range]
    by_cases covered : r ≤ x₁
    · have bound : r.val ≤ x₁.val := covered
      rw [if_pos covered, if_pos covered]
      change (m.memory.writeFrom m.i (m.firstRegs x₂)).read8 (m.i + r.val) = m.reg r
      rw [Memory.read8_writeFrom _ (by omega) (by omega), getElem_firstRegs]
    · rw [if_neg covered, if_neg covered]
      rfl
  · exact i_setRegs ..
  · exact memory_setRegs ..

/-- Saving registers that were just loaded leaves memory as it was. -/
theorem save_after_load (low : 0x200 ≤ m.i) (high : m.i + x ≤ 0xFFF) :
    ∃ loaded saved, Word.execute d e m (Word.ofByte 0xF x 0x65) = (.proceed .advance, loaded) ∧
      Word.execute d e' loaded (Word.ofByte 0xF x 0x55) = (.proceed .advance, saved) ∧
      saved.memory = m.memory := by
  have loads := Word.execute_load d e (m := m) (x := x) (by omega) high
  have bytes := firstRegs_setRegs_range m x fun (k : Nat) => m.memory.read8 (m.i + k)
  have memory :
      m.memory.writeFrom m.i ((List.range (x + 1)).map fun (k : Nat) => m.memory.read8 (m.i + k)) =
      m.memory := m.memory.writeFrom_self (by omega)
  generalize (List.range (x + 1)).map (fun (k : Nat) => m.memory.read8 (m.i + k)) =
    read at loads bytes memory
  have saves :=
    Word.execute_save (m := m.setRegs read) (x := x) d e' (by rwa [i_setRegs]) (by rwa [i_setRegs])
  rw [bytes, i_setRegs, memory_setRegs, memory] at saves
  exact ⟨_, _, loads, saves, rfl⟩

/-- Registers that are saved, overwritten and loaded again hold what they held before, also if fewer
of them are loaded than were saved. The others stay as they were overwritten, and no memory changes
but where registers were saved. The other way round, loading registers and saving them again changes
no memory at all. -/
theorem save_load_inverse (low : 0x200 ≤ m.i) :
    (∀ x₁ x₂ : Reg, x₁ ≤ x₂ → m.i + x₂ ≤ 0xFFF →
      ∃ saved, Word.execute d e m (Word.ofByte 0xF x₂ 0x55) = (.proceed .advance, saved) ∧
        ∀ v, ∃ loaded,
          Word.execute d e' { saved with v } (Word.ofByte 0xF x₁ 0x65) =
            (.proceed .advance, loaded) ∧
          (∀ r : Reg, loaded.reg r = if r ≤ x₁ then m.reg r else v[r]) ∧
          loaded.i = m.i ∧
          ∀ a, 0 ≤ a → a ≤ 0xFFF → (a < m.i ∨ m.i + x₂ < a) →
            loaded.memory.read8 a = m.memory.read8 a) ∧
    ∀ x : Reg, m.i + x ≤ 0xFFF →
      ∃ loaded saved, Word.execute d e m (Word.ofByte 0xF x 0x65) = (.proceed .advance, loaded) ∧
        Word.execute d e' loaded (Word.ofByte 0xF x 0x55) = (.proceed .advance, saved) ∧
        saved.memory = m.memory := by
  refine ⟨?_, fun x high => save_after_load d e e' low high⟩
  intro x₁ x₂ order high
  have saves := Word.execute_save d e (x := x₂) low high
  refine ⟨_, saves, ?_⟩
  intro v
  obtain ⟨loaded, loads, registers, index, memory⟩ := load_after_save d e' low order high v
  refine ⟨loaded, loads, registers, index, ?_⟩
  intro a lowest highest outside
  have length := m.length_firstRegs x₂
  rw [memory]
  exact Memory.read8_writeFrom_of_outside _ (by omega) ⟨lowest, highest⟩ (by omega)

end Instructions

/-- All registers saved to the last bytes of memory, and the first four of them loaded again over
zeros. -/
theorem save_load_inverse_at_end_of_memory :
    let m : Machine :=
  { Machine.start with i := 0xFF0, v := Vector.ofFn fun x => UInt8.ofNat (x.val + 1) }
    0x200 ≤ m.i ∧ m.i + (15 : Reg) ≤ 0xFFF ∧ (3 : Reg) ≤ 15 ∧
    ∃ saved loaded, Word.execute .standard 0 m 0xFF55 = (.proceed .advance, saved) ∧
      Word.execute .standard 0 { saved with v := Vector.replicate 16 0 } 0xF365 =
        (.proceed .advance, loaded) ∧
      loaded.reg 3 = 4 ∧ loaded.reg 4 = 0 ∧ loaded.memory.read8 0xFEF = m.memory.read8 0xFEF := by
  intro m
  have low : 0x200 ≤ m.i := by decide
  have high : m.i + (15 : Reg) ≤ 0xFFF := by decide
  have order : (3 : Reg) ≤ 15 := by decide
  obtain ⟨saved, saves, after⟩ := (save_load_inverse .standard 0 0 low).1 3 15 order high
  obtain ⟨loaded, loads, registers, -, memory⟩ := after (Vector.replicate 16 0)
  refine ⟨low, high, order, saved, loaded, saves, loads, ?_, ?_, ?_⟩
  · rw [registers 3]
    decide +kernel
  · rw [registers 4]
    decide +kernel
  · exact memory 0xFEF (by decide) (by decide) (.inl (by decide))

end Chip8
