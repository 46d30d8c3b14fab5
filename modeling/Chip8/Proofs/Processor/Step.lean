import Chip8.Proofs.Machine.Effect

/-!
# What a step does

`Stepped` lists what a step of the processor can come to, each time with the word that was fetched
and with what the step leaves behind. `step_stepped` says that there is nothing else.
-/

namespace Chip8

/-! ## Words -/

@[simp] theorem Word.family_clear : family 0x00E0 = 0 := by decide

@[simp] theorem Word.family_ret : family 0x00EE = 0 := by decide

theorem Instr.toWord_eq_ret {i : Instr} : i.toWord = 0x00EE ↔ i = ret := by
  constructor
  · intro h
    have := ofWord?_toWord i
    rw [h] at this
    exact (Option.some.inj this).symm
  · rintro rfl
    rfl

section Words

variable (d : Dialect) (e : UInt8) (m : Machine) {w : UInt16}

theorem Word.execute_of_some {i : Instr} (h : Instr.ofWord? w = some i) :
    Word.execute d e m w = i.execute d e m := by
  unfold Word.execute Word.executeOn
  rw [h]
  rfl

theorem Word.execute_of_none (h : Instr.ofWord? w = none) :
    Word.execute d e m w = (.unknown, m) := by
  unfold Word.execute Word.executeOn
  rw [h]
  rfl

end Words

namespace Processor

variable {c : Processor} {a : Int}

/-! ## Steps -/

theorem step_of_fetchable (fetch : c.machine.pc.fetchable? = some a) (e : UInt8) :
    c.step e = c.conclude a (c.fetch a) (Word.execute c.dialect e c.machine (c.fetch a)) := by
  unfold step stepOn
  rw [fetch]
  rfl

theorem step_of_not_fetchable (fetch : c.machine.pc.fetchable? = none) (e : UInt8) :
    c.step e = (refusal c.machine (c.machine.pc.wordIn c.machine.memory), c) := by
  rw [← ProgramCounter.wordOn_wrapping]
  unfold step stepOn
  rw [fetch]
  rfl

theorem refusal_of_address {m : Machine} (counter : m.pc = .address a) (w : UInt16) :
    refusal m w = .faulted (faultOf m (.fetchOutside (.address a)) w (.address a)) := by
  rw [refusal, counter]
  rfl

/-- What a step of a processor can come to. -/
inductive Stepped (c : Processor) : StepResult → Processor → Prop
  | executed {a : Int} {move : Move} {m : Machine} (fetch : c.machine.pc.fetchable? = some a)
      (effect : Effect c.machine move m) :
      Stepped c (.executed a (c.fetch a)) { c with machine := m.move move }
  | awaitingKey {a : Int} (fetch : c.machine.pc.fetchable? = some a) (x : Reg) :
      Stepped c (.awaitingKey a (c.fetch a) x) c
  | unknown {a : Int} (fetch : c.machine.pc.fetchable? = some a) :
      Stepped c (.unknown a (c.fetch a))
        { c with machine := c.machine.move .advance, unknowns := c.unknowns.bump (c.fetch a) }
  | faulted {a : Int} (fetch : c.machine.pc.fetchable? = some a) (cause : Cause) :
      Stepped c (.faulted (faultOf c.machine cause (c.fetch a) (.address a))) c
  | unfetched (fetch : c.machine.pc.fetchable? = none) (present : c.machine.pc ≠ .empty) :
      Stepped c (.faulted (faultOf c.machine (.fetchOutside c.machine.pc)
        (c.machine.pc.wordIn c.machine.memory) c.machine.pc)) c
  | lost (empty : c.machine.pc = .empty) : Stepped c .lost c

theorem Stepped.dialect_eq {c' : Processor} {result : StepResult} (stepped : c.Stepped result c') :
    c'.dialect = c.dialect := by
  cases stepped <;> rfl

theorem step_stepped (c : Processor) (e : UInt8) : Stepped c (c.step e).1 (c.step e).2 := by
  cases fetch : c.machine.pc.fetchable? with
  | none =>
    rw [step_of_not_fetchable fetch, refusal]
    split
    · next empty => exact .lost empty
    · next present => exact .unfetched fetch present
  | some a =>
    rw [step_of_fetchable fetch]
    cases word : Instr.ofWord? (c.fetch a) with
    | none =>
      rw [Word.execute_of_none _ _ _ word]
      exact .unknown fetch
    | some i =>
      rw [Word.execute_of_some _ _ _ word]
      rcases i.execute_cases c.dialect e c.machine with ⟨cause, h⟩ | ⟨x, h⟩ | ⟨move, m, h, effect⟩
      · rw [h]
        exact .faulted fetch cause
      · rw [h]
        exact .awaitingKey fetch x
      · rw [h]
        exact .executed fetch effect

end Processor

end Chip8
