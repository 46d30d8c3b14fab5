import Chip8.Proofs.Machine.Devices
import Mathlib.Data.Fin.Basic

/-!
# What a step writes

`Word.Writes` says, part by part, which words can write there. A step leaves alone all that its word
does not write, and it tallies its word only if that is no instruction (`step_writes`). The dialect
shows in the flag register only.
-/

namespace Chip8

namespace Word

/-- The word writes the result of an operation to its first register. -/
def SetsRegister (w : UInt16) : Prop :=
  (family w).val = 0x6 ∨ (family w).val = 0x7 ∨
    (family w).val = 0x8 ∧ ((nibble w).val ≤ 0x7 ∨ (nibble w).val = 0xE) ∨
    (family w).val = 0xC ∨ (family w).val = 0xF ∧ byte w = 0x07

/-- The word writes a flag. -/
def SetsFlag (d : Dialect) (w : UInt16) : Prop :=
  (family w).val = 0x8 ∧ (0x4 ≤ (nibble w).val ∧ (nibble w).val ≤ 0x7 ∨ (nibble w).val = 0xE) ∨
    (family w).val = 0xD ∨ (family w).val = 0xF ∧ byte w = 0x1E ∧ d.addIndexSetsFlag = true

/-- The words that can write at a part of the machine. All of them move the program counter. -/
def Writes (d : Dialect) (m : Machine) (w : UInt16) : Part → Prop
  | .byte a =>
    (family w).val = 0xF ∧ m.i ≤ a ∧
      (byte w = 0x33 ∧ (a : Int) ≤ m.i + 2 ∨ byte w = 0x55 ∧ (a : Int) ≤ m.i + x w)
  | .register r =>
    SetsRegister w ∧ r = x w ∨ SetsFlag d w ∧ r = flagReg ∨ (family w).val = 0xF ∧ byte w = 0x65 ∧
      r ≤ x w
  | .slot k => (family w).val = 0x2 ∧ (k : Int) = m.sp
  | .screen | .drawn => Draws w
  | .counter => True
  | .pointer => (family w).val = 0x2 ∨ w = 0x00EE
  | .index => (family w).val = 0xA ∨ (family w).val = 0xF ∧ (byte w = 0x1E ∨ byte w = 0x29)
  | .delay => (family w).val = 0xF ∧ byte w = 0x15
  | .sound => (family w).val = 0xF ∧ byte w = 0x18
  | .keypad | .programSize => False

instance (w : UInt16) : Decidable (SetsRegister w) := inferInstanceAs (Decidable (_ ∨ _))

instance (d : Dialect) (w : UInt16) : Decidable (SetsFlag d w) :=
  inferInstanceAs (Decidable (_ ∨ _))

instance (w : UInt16) : Decidable (Draws w) := inferInstanceAs (Decidable (_ ∨ _))

instance (d : Dialect) (m : Machine) (w : UInt16) : (p : Part) → Decidable (Writes d m w p)
  | .byte _ | .slot _ | .delay | .sound => inferInstanceAs (Decidable (_ ∧ _))
  | .register _ | .pointer | .index => inferInstanceAs (Decidable (_ ∨ _))
  | .screen | .drawn => inferInstanceAs (Decidable (Draws w))
  | .counter => inferInstanceAs (Decidable True)
  | .keypad | .programSize => inferInstanceAs (Decidable False)

variable {d : Dialect} {m : Machine} {p : Part}

/-- What an instruction writes is written by its word. -/
theorem writes_of_instr {i : Instr} (writes : i.Writes d m p) : Writes d m i.toWord p := by
  cases i with
  | clear => rcases writes with rfl | rfl <;> exact .inl rfl
  | draw x y height =>
    have draws : Draws (Instr.draw x y height).toWord := (draws_iff (Instr.ofWord?_toWord _)).2 rfl
    rcases writes with rfl | rfl | rfl
    · exact draws
    · exact draws
    · simp [Writes, SetsFlag, Instr.toWord]
  | call target =>
    rcases writes with rfl | ⟨k, top, rfl⟩
    · simp [Writes, Instr.toWord]
    · simp [Writes, Instr.toWord, top]
  | ret =>
    cases writes
    exact .inr rfl
  | setByte | addByte | copy | or | and | xor | random | getDelay =>
    cases writes
    simp [Writes, SetsRegister, Instr.toWord]
  | add | sub | shiftRight | subFrom | shiftLeft =>
    rcases writes with rfl | rfl
    all_goals simp [Writes, SetsRegister, SetsFlag, Instr.toWord]
  | setIndex | glyph | setDelay | setSound =>
    cases writes
    simp [Writes, Instr.toWord]
  | addIndex x =>
    rcases writes with rfl | ⟨flags, rfl⟩
    · simp [Writes, Instr.toWord]
    · simp [Writes, SetsFlag, Instr.toWord, flags]
  | storeDigits x =>
    obtain ⟨a, ⟨low, high⟩, rfl⟩ := writes
    simp [Writes, Instr.toWord, low, high]
  | saveRegs x =>
    obtain ⟨a, ⟨low, high⟩, rfl⟩ := writes
    simp [Writes, Instr.toWord, low, high]
  | loadRegs x =>
    obtain ⟨r, covered, rfl⟩ := writes
    simp [Writes, Instr.toWord, covered]
  | _ => cases writes

variable (e : UInt8) {w : UInt16}

theorem agreeAt_execute (unwritten : ¬ Writes d m w p) : (Word.execute d e m w).2.AgreeAt m p := by
  cases word : Instr.ofWord? w with
  | none =>
    rw [execute_of_none d e m word]
    exact .refl m p
  | some i =>
    rw [execute_of_some d e m word]
    refine Instr.agreeAt_execute d e m fun writes => unwritten ?_
    rw [← Instr.toWord_of_ofWord? word]
    exact writes_of_instr writes

/-- The word adds to the index register. -/
def AddsIndex (w : UInt16) : Prop := (family w).val = 0xF ∧ byte w = 0x1E

instance (w : UInt16) : Decidable (AddsIndex w) := inferInstanceAs (Decidable (_ ∧ _))

theorem execute_dialect (m : Machine) (w : UInt16) (d d' : Dialect) :
    Word.execute d e m w = Word.execute d' e m w ∨
    AddsIndex w ∧ ∃ n n', Word.execute d e m w = (.proceed .advance, n) ∧
      Word.execute d' e m w = (.proceed .advance, n') ∧
      ∀ p, p ≠ .register flagReg → n.AgreeAt n' p := by
  cases word : Instr.ofWord? w with
  | none =>
    left
    rw [execute_of_none d e m word, execute_of_none d' e m word]
  | some i =>
    rw [execute_of_some d e m word, execute_of_some d' e m word]
    rcases i.execute_dialect d e m d' with same | ⟨⟨x, rfl⟩, differ⟩
    · exact .inl same
    · have adds : AddsIndex w := by
        rw [← Instr.toWord_of_ofWord? word]
        simp [AddsIndex, Instr.toWord]
      exact .inr ⟨adds, differ⟩

end Word

theorem Machine.agreeAt_move {p : Part} (other : p ≠ .counter) (m : Machine) (move : Move) :
    (m.move move).AgreeAt m p := by
  cases p with
  | counter => exact absurd rfl other
  | _ => cases move <;> rfl

theorem Machine.AgreeAt.move {m m' : Machine} {p : Part} (counter : m.pc = m'.pc)
    (agree : m.AgreeAt m' p) (move : Move) : (m.move move).AgreeAt (m'.move move) p := by
  cases p with
  | counter => cases move <;> simp [AgreeAt, Machine.move, counter]
  | _ => cases move <;> exact agree

/-! ## Steps -/

namespace Processor

variable {c : Processor} {a : Int} {p : Part}

theorem agreeAt_step (fetch : c.machine.pc.fetchable? = some a) (e : UInt8)
    (unwritten : ¬ Word.Writes c.dialect c.machine (c.fetch a) p) :
    (c.step e).2.machine.AgreeAt c.machine p := by
  have kept := Word.agreeAt_execute e unwritten
  have counter : p ≠ .counter := by
    rintro rfl
    exact unwritten trivial
  rw [step_of_fetchable fetch]
  generalize Word.execute c.dialect e c.machine (c.fetch a) = result at kept ⊢
  obtain ⟨outcome, next⟩ := result
  cases outcome with
  | proceed move => exact (Machine.agreeAt_move counter next move).trans kept
  | unknown => exact (Machine.agreeAt_move counter next .advance).trans kept
  | _ => exact kept

theorem count_step (fetch : c.machine.pc.fetchable? = some a) (e : UInt8) (v : UInt16) :
    (c.step e).2.unknowns.count v =
      c.unknowns.count v + if Instr.ofWord? (c.fetch a) = none ∧ v = c.fetch a then 1 else 0 := by
  rw [step_of_fetchable fetch]
  cases word : Instr.ofWord? (c.fetch a) with
  | none =>
    rw [Word.execute_of_none _ _ _ word]
    simp [conclude, Tally.count_bump, eq_comm]
  | some i =>
    rw [Word.execute_of_some _ _ _ word]
    rcases i.execute_cases c.dialect e c.machine with ⟨cause, h⟩ | ⟨x, h⟩ | ⟨move, m, h, effect⟩
    all_goals
      rw [h]
      simp [conclude]

/-- A word that draws faults, or marks the screen as drawn on. -/
theorem drawn_step (fetch : c.machine.pc.fetchable? = some a) (e : UInt8)
    (draws : Word.Draws (c.fetch a)) (goes : ∀ f, (c.step e).1 ≠ .faulted f) :
    (c.step e).2.machine.drawn = true := by
  obtain ⟨i, word, draws⟩ := Word.exists_of_draws draws
  rw [step_of_fetchable fetch, Word.execute_of_some _ _ _ word] at goes ⊢
  rcases i.execute_of_draws c.dialect e c.machine draws with ⟨cause, h⟩ | ⟨m', h, drawn⟩
  · rw [h] at goes
    exact absurd rfl (goes _)
  · rw [h]
    exact drawn

theorem drawn_step_of_drawn (drawn : c.machine.drawn = true) (e : UInt8) :
    (c.step e).2.machine.drawn = true := by
  by_cases draws : ∃ a w, (c.step e).1 = .executed a w ∧ Word.Draws w
  · obtain ⟨a, w, executed, draws⟩ := draws
    exact drawn_step_of_draws executed draws
  · rw [(screen_step_of_not_draws fun a w executed word => draws ⟨a, w, executed, word⟩).2]
    exact drawn

/-- The dialect shows in the flag register only, after an addition to the index register. -/
theorem step_dialect (fetch : c.machine.pc.fetchable? = some a) (e : UInt8) (d : Dialect) :
    let other := { c with dialect := d }.step e
    other.1 = (c.step e).1 ∧ other.2.unknowns = (c.step e).2.unknowns ∧
    ∀ p, (Word.AddsIndex (c.fetch a) → p ≠ .register flagReg) →
      other.2.machine.AgreeAt (c.step e).2.machine p := by
  intro other
  have there : other =
      { c with dialect := d }.conclude a (c.fetch a) (Word.execute d e c.machine (c.fetch a)) :=
    step_of_fetchable (c := { c with dialect := d }) fetch e
  rw [there, step_of_fetchable fetch]
  rcases Word.execute_dialect e c.machine (c.fetch a) d c.dialect with
    same | ⟨adds, n, n', done, done', agree⟩
  · -- The outcome may be a fault, which reports the machine, so the machines must be equal and not
    -- only agree.
    rw [same]
    generalize Word.execute c.dialect e c.machine (c.fetch a) = result
    obtain ⟨outcome, next⟩ := result
    cases outcome <;> exact ⟨rfl, rfl, fun p _ => .refl _ p⟩
  · have counter : n.pc = n'.pc := agree .counter nofun
    rw [done, done']
    exact ⟨rfl, rfl, fun p plain => (agree p (plain adds)).move counter .advance⟩

/-- A step leaves alone all parts of the machine that its word does not write. -/
theorem step_writes (c : Processor) (e : UInt8) :
    let c' := (c.step e).2
    (c.machine.pc.fetchable? = none → c' = c) ∧
    ∀ a, c.machine.pc.fetchable? = some a →
      let w := c.fetch a
      (∀ p, ¬ Word.Writes c.dialect c.machine w p → c'.machine.AgreeAt c.machine p) ∧
      c'.dialect = c.dialect ∧
      (∀ v, c'.unknowns.count v = c.unknowns.count v + if Instr.ofWord? w = none ∧
        v = w then 1 else 0) ∧
      (Word.Draws w → (∀ f, (c.step e).1 ≠ .faulted f) → c'.machine.drawn = true) ∧
      (c.machine.drawn = true → c'.machine.drawn = true) ∧
      ∀ d,
        let other := { c with dialect := d }.step e
        other.1 = (c.step e).1 ∧ other.2.unknowns = c'.unknowns ∧
        (¬ Word.AddsIndex w → other.2.machine = c'.machine) ∧
        ∀ p, p ≠ .register flagReg → other.2.machine.AgreeAt c'.machine p := by
  intro c'
  constructor
  · intro fetch
    exact congrArg Prod.snd (step_of_not_fetchable fetch e)
  · intro a fetch
    refine ⟨fun p => agreeAt_step fetch e, (c.step_stepped e).dialect_eq, count_step fetch e,
      drawn_step fetch e, fun drawn => drawn_step_of_drawn drawn e, fun d => ?_⟩
    obtain ⟨result, unknowns, agree⟩ := step_dialect fetch e d
    refine ⟨result, unknowns, fun plain => ?_, fun p other => agree p fun _ => other⟩
    exact Machine.ext_agreeAt fun p => agree p fun adds => absurd adds plain

/-- An addition that leaves the address space writes the index register and, where the dialect says
so, the flag. -/
theorem step_writes_index_flag :
    let c := Processor.new
      { Machine.startWith [0xF0, 0x1E] with v := Vector.replicate 16 0xFF, i := 0xFFF } ⟨true⟩
    let other := { c with dialect := .standard }.step 0
    c.machine.pc.fetchable? = some 0x200 ∧ c.fetch 0x200 = 0xF01E ∧
    ¬ Word.Writes c.dialect c.machine 0xF01E (.register 0) ∧
    (c.step 0).2.machine.AgreeAt c.machine (.register 0) ∧
    other.2.machine.AgreeAt (c.step 0).2.machine .index ∧
    (c.step 0).2.machine.reg flagReg = 1 ∧ other.2.machine.reg flagReg = 0xFF := by
  intro c other
  have word : c.fetch 0x200 = 0xF01E := by decide +kernel
  have unwritten : ¬ Word.Writes c.dialect c.machine 0xF01E (.register 0) := by decide +kernel
  obtain ⟨kept, -, -, -, -, dialects⟩ := (step_writes c 0).2 0x200 rfl
  refine ⟨rfl, word, unwritten, kept _ (word ▸ unwritten), (dialects .standard).2.2.2 .index nofun,
    ?_, ?_⟩
  · decide +kernel
  · decide +kernel

end Processor

end Chip8
