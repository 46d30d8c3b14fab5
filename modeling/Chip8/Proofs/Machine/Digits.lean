import Chip8.Proofs.Machine.SaveLoad

/-!
# Decimal digits in memory

A register can be stored as its decimal digits, from the index register on. They lie there one byte
each, the hundreds first, so that they can be loaded into the first three registers, and there they
are the digits of what the register held (`load_stored_digits`).
-/

namespace Chip8

theorem length_decimalDigits (b : UInt8) : (decimalDigits b).length = 3 := rfl

theorem digit_le (b : UInt8) {digit : UInt8} (member : digit ∈ decimalDigits b) :
    digit.toNat ≤ 9 := by
  have bound := b.toNat_lt
  simp only [decimalDigits, List.mem_cons, List.not_mem_nil, or_false] at member
  rcases member with rfl | rfl | rfl
  · rw [UInt8.toNat_div]
    change b.toNat / 100 ≤ 9
    omega
  · rw [UInt8.toNat_mod, UInt8.toNat_div]
    change b.toNat / 10 % 10 ≤ 9
    omega
  · rw [UInt8.toNat_mod]
    change b.toNat % 10 ≤ 9
    omega

theorem value_decimalDigits (b : UInt8) :
    100 * (b / 100).toNat + 10 * (b / 10 % 10).toNat + (b % 10).toNat = b.toNat := by
  simp only [UInt8.toNat_mod, UInt8.toNat_div]
  change 100 * (b.toNat / 100) + 10 * (b.toNat / 10 % 10) + b.toNat % 10 = b.toNat
  omega

variable (d : Dialect) (e : UInt8) {m : Machine}

theorem Word.execute_storeDigits (x : Reg) (low : 0x200 ≤ m.i) (high : m.i ≤ 0xFFD) :
    execute d e m (ofByte 0xF x 0x33) =
      (.proceed .advance,
        { m with memory := m.memory.writeFrom m.i (decimalDigits (m.reg x)) }) := by
  have word : Instr.ofWord? (ofByte 0xF x 0x33) = some (.storeDigits x) :=
    Instr.ofWord?_toWord (.storeDigits x)
  have inside : writable m.i 3 = true := (writable_iff (by omega)).2 ⟨low, by omega⟩
  rw [execute_of_some d e m word, Instr.execute_storeDigits, if_pos inside]

/-- Digits that were written are loaded into the first three registers, one each. -/
theorem load_written_digits (low : 0 ≤ m.i) (high : m.i ≤ 0xFFD) (b : UInt8) :
    ∃ loaded,
      Word.execute d e { m with memory := m.memory.writeFrom m.i (decimalDigits b) } 0xF265 =
        (.proceed .advance, loaded) ∧
      loaded.reg 0 = b / 100 ∧ loaded.reg 1 = b / 10 % 10 ∧ loaded.reg 2 = b % 10 ∧
      (∀ r : Reg, 2 < r → loaded.reg r = m.reg r) ∧
      loaded.i = m.i ∧ loaded.memory = m.memory.writeFrom m.i (decimalDigits b) := by
  let written : Machine := { m with memory := m.memory.writeFrom m.i (decimalDigits b) }
  have loads := Word.execute_load (m := written) (x := 2) d e low (by change m.i + 2 ≤ 0xFFF; omega)
  have digit (r : Reg) (covered : r ≤ 2) :
      (written.setRegs ((List.range ((2 : Reg) + 1)).map fun (k : Nat) =>
        written.memory.read8 (m.i + k))).reg r =
        (decimalDigits b).getD r 0 := by
    have bound : r.val < (decimalDigits b).length := Nat.lt_succ_of_le covered
    rw [Machine.reg_setRegs_range, if_pos covered, List.getD_eq_getElem?_getD,
      List.getElem?_eq_getElem bound]
    exact Memory.read8_writeFrom _ (by rw [length_decimalDigits]; omega) bound
  refine ⟨_, loads, digit 0 (by decide), digit 1 (by decide), digit 2 (by decide), ?_,
    Machine.i_setRegs .., Machine.memory_setRegs ..⟩
  intro r above
  rw [Machine.reg_setRegs_range, if_neg (Fin.not_le.2 above)]
  rfl

variable (e' : UInt8)

/-- The digits of a register that are stored and then loaded make up what it held, also where they
are loaded over it. No memory changes but where they were stored, and no register but those that
they were loaded into. -/
theorem load_stored_digits (x : Reg) (low : 0x200 ≤ m.i) (high : m.i ≤ 0xFFD) :
    ∃ stored loaded, Word.execute d e m (Word.ofByte 0xF x 0x33) = (.proceed .advance, stored) ∧
      Word.execute d e' stored 0xF265 = (.proceed .advance, loaded) ∧
      (loaded.reg 0).toNat ≤ 9 ∧ (loaded.reg 1).toNat ≤ 9 ∧ (loaded.reg 2).toNat ≤ 9 ∧
      100 * (loaded.reg 0).toNat + 10 * (loaded.reg 1).toNat + (loaded.reg 2).toNat =
        (m.reg x).toNat ∧
      (∀ a, 0 ≤ a → a ≤ 0xFFF → (a < m.i ∨ m.i + 2 < a) →
        loaded.memory.read8 a = m.memory.read8 a) ∧
      (∀ r : Reg, 2 < r → loaded.reg r = m.reg r) ∧ loaded.i = m.i := by
  have stores := Word.execute_storeDigits d e x low high
  obtain ⟨loaded, loads, hundreds, tens, units, others, index, memory⟩ :=
    load_written_digits d e' (by omega) high (m.reg x)
  refine ⟨_, loaded, stores, loads, ?_, ?_, ?_, ?_, ?_, others, index⟩
  · exact hundreds ▸ digit_le (m.reg x) (by simp [decimalDigits])
  · exact tens ▸ digit_le (m.reg x) (by simp [decimalDigits])
  · exact units ▸ digit_le (m.reg x) (by simp [decimalDigits])
  · rw [hundreds, tens, units]
    exact value_decimalDigits (m.reg x)
  · intro a lowest highest outside
    rw [memory]
    exact Memory.read8_writeFrom_of_outside _ (by rw [length_decimalDigits]; omega)
      ⟨lowest, highest⟩
      (by rw [length_decimalDigits]; omega)

/-- The second register is stored in the last bytes of memory, and its digits are loaded over it. -/
theorem load_stored_digits_at_end_of_memory :
    let m : Machine :=
  { Machine.start with i := 0xFFD, v := Vector.ofFn fun x => UInt8.ofNat (x.val + 233) }
    0x200 ≤ m.i ∧ m.i ≤ 0xFFD ∧ m.reg 1 = 234 ∧
    ∃ stored loaded, Word.execute .standard 0 m 0xF133 = (.proceed .advance, stored) ∧
      Word.execute .standard 0 stored 0xF265 = (.proceed .advance, loaded) ∧
      100 * (loaded.reg 0).toNat + 10 * (loaded.reg 1).toNat + (loaded.reg 2).toNat = 234 ∧
      loaded.reg 3 = 236 ∧ loaded.memory.read8 0xFFC = m.memory.read8 0xFFC := by
  intro m
  have low : 0x200 ≤ m.i := by decide
  have high : m.i ≤ 0xFFD := by decide
  have held : m.reg 1 = 234 := by decide +kernel
  obtain ⟨stored, loaded, stores, loads, -, -, -, value, memory, others, -⟩ :=
    load_stored_digits .standard 0 0 1 low high
  rw [held] at value
  refine ⟨low, high, held, stored, loaded, stores, loads, value, ?_, ?_⟩
  · rw [others 3 (by decide)]
    decide +kernel
  · exact memory 0xFFC (by decide) (by decide) (.inl (by decide))

end Chip8
