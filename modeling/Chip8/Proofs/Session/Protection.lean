import Chip8.Proofs.Bus
import Chip8.Proofs.Memory
import Chip8.Proofs.Session.Sound

/-!
# Protection of memory over a run

The interpreter's own bytes stay what they were at power-on, since every effect that stores bytes
has checked that all of them go to the program area (`Effect.reserved`). With
`Processor.stepOn_inBounds`, a run never relies on the bus to wrap an address: on the strict bus
every step that does not fault does the same.
-/

namespace Chip8

/-! ## Bytes below the program area -/

@[simp] theorem Machine.memory_move (m : Machine) (move : Move) :
    (m.move move).memory = m.memory := by
  cases move <;> rfl

theorem Effect.reserved {m m' : Machine} {move : Move} (h : Effect m move m') :
    m'.memory.reserved = m.memory.reserved := by
  cases h with
  | store bytes fits =>
    cases bytes with
    | nil => rfl
    | cons b rest =>
      obtain ⟨low, high⟩ := (writable_iff (by simp)).1 fits
      exact Memory.reserved_writeFrom (b :: rest) low high
  | call =>
    unfold Machine.setSlot
    split <;> rfl
  | _ => rfl

theorem Processor.Stepped.reserved {c c' : Processor} {result : StepResult}
    (h : c.Stepped result c') :
    c'.machine.memory.reserved = c.machine.memory.reserved := by
  cases h with
  | executed _ effect =>
    rw [Machine.memory_move]
    exact effect.reserved
  | unknown => rw [Machine.memory_move]
  | _ => rfl

theorem Change.reserved {a b : Processor × Status} (h : Change a b) :
    b.1.machine.memory.reserved = a.1.machine.memory.reserved := by
  cases h with
  | step c e => exact (c.step_stepped e).reserved
  | _ => rfl

/-- A step that does not fault has fetched a word at its counter. -/
theorem Processor.fetchable_of_not_faulted {c : Processor} {a : Int}
    (counter : c.machine.pc = .address a) (e : UInt8) (goes : ∀ f, (c.step e).1 ≠ .faulted f) :
    c.machine.pc.fetchable? = some a := by
  cases fetch : c.machine.pc.fetchable? with
  | none =>
    have step := congrArg Prod.fst (step_of_not_fetchable fetch e)
    rw [refusal_of_address counter] at step
    exact absurd step (goes _)
  | some b =>
    have holds := (ProgramCounter.fetchable?_eq_some_iff.1 fetch).1
    rw [counter] at holds
    cases holds
    rfl

namespace Play

variable {σ α : Type} [Quantity α] {program : List UInt8} {settings : Settings α} {s : Session α}

theorem reserved_after (setup : Session.ofProgram? program settings = .ok s) (h : Host σ) (host : σ)
    (calls : List (Call α)) :
    ((Play.new s host).after h calls).session.machine.memory.reserved =
      Font.table ++ List.replicate 432 0 := by
  obtain ⟨fits, clock, -, rfl⟩ := Session.ofProgram?_eq_ok_iff.1 setup
  have change {a b : Processor × Status} (h : Change a b)
      (ha : a.1.machine.memory.reserved = Font.table ++ List.replicate 432 0) :
      b.1.machine.memory.reserved = Font.table ++ List.replicate 432 0 := h.reserved.trans ha
  exact after_keeps change calls (Machine.reserved_startWith fits)

/-! ## Steps of a run -/

/-- What a run from a program leaves alone, and what its steps ask of memory. The keypad is left
open, since it is set anew by the poll before a step. -/
theorem protected_after (setup : Session.ofProgram? program settings = .ok s) (h : Host σ)
    (host : σ) (calls : List (Call α)) :
    let p := (Play.new s host).after h calls
    p.session.machine.memory.reserved = Font.table ++ List.replicate 432 0 ∧
    ∀ (keypad : Vector Bool 16) (e : UInt8),
      let c := { p.session.processor with machine := { p.session.machine with keypad } }
      (∀ f, (c.step e).1 ≠ .faulted f) →
        (∃ a, c.machine.pc = .address a ∧ 0x200 ≤ a ∧ a ≤ 0xFFE ∧
          ∃ accesses, (c.stepOn Bus.logged e).run [] =
            (c.step e, [.read a, .read (a + 1)] ++ accesses) ∧
            ∀ access ∈ accesses, access.Legal) ∧
        c.stepOn Bus.strict e = some (c.step e) := by
  intro p
  refine ⟨reserved_after setup h host calls, ?_⟩
  intro keypad e c goes
  obtain ⟨a, counter, -, -⟩ := (soundAt_after setup h host calls).machine.counter
  have counter : c.machine.pc = .address a := counter
  have fetch := Processor.fetchable_of_not_faulted counter e goes
  have inside := isFetchable_iff.1 (ProgramCounter.fetchable?_eq_some_iff.1 fetch).2
  have logged := Processor.stepOn_logged fetch e
  exact ⟨⟨a, counter, inside.1, inside.2, logged⟩, (Processor.stepOn_inBounds fetch e).strict⟩

/-- A program that is about to store the digits of a register over its own first word. -/
theorem protected_after_setIndex :
    let settings : Settings Rat := ⟨600, 60, .standard, 0, .halt⟩
    let h : Host Unit := ⟨none, none, fun u => (0, u)⟩
    ∃ s, Session.ofProgram? [0xA2, 0x00, 0xF0, 0x33] settings = .ok s ∧
      let c := ((Play.new s ()).after h [.tick .instruction]).session.processor
      (c.step 0).1 = .executed 0x202 0xF033 ∧
      c.machine.memory.reserved = Font.table ++ List.replicate 432 0 ∧
      (∃ a, c.machine.pc = .address a ∧ 0x200 ≤ a ∧ a ≤ 0xFFE ∧
        ∃ accesses, (c.stepOn Bus.logged 0).run [] =
          (c.step 0, [.read a, .read (a + 1)] ++ accesses) ∧
          ∀ access ∈ accesses, access.Legal) ∧
      c.stepOn Bus.strict 0 = some (c.step 0) := by
  intro settings h
  obtain ⟨s, setup⟩ : ∃ s, Session.ofProgram? [0xA2, 0x00, 0xF0, 0x33] settings = .ok s :=
    ⟨_, Session.ofProgram?_eq_ok_iff.2 ⟨by decide, _, rfl, rfl⟩⟩
  refine ⟨s, setup, ?_⟩
  obtain ⟨kept, steps⟩ := protected_after setup h () [.tick .instruction]
  obtain ⟨-, clock, built, rfl⟩ := Session.ofProgram?_eq_ok_iff.1 setup
  intro c
  have executed : (c.step 0).1 = .executed 0x202 0xF033 := by
    cases built
    decide +kernel
  refine ⟨executed, kept, steps c.machine.keypad 0 fun f hf => ?_⟩
  cases executed.symm.trans hf

end Play

end Chip8
