import Chip8.Proofs.Machine.Sound
import Chip8.Proofs.Session.Calls
import Chip8.Settings

/-!
# Sessions that a run can come to

Every session that is set up with a program keeps its machine sound, whatever its host answers and
whatever is asked of it. A wait for a key needs care, since it ends with the program counter moved
by two: `SoundAt` records that a session waits only at a word that can be fetched. Once the program
counter has run off the end of memory, the next instruction tick that goes through stops the
session.
-/

namespace Chip8

/-- What holds of the processor and the status of a session throughout. -/
structure SoundAt (core : Processor × Status) : Prop where
  machine : core.1.machine.Sound
  waiting : ∀ x, core.2 = .awaitingKey x → ∃ a, core.1.machine.pc.fetchable? = some a

/-- A step that ends in a wait for a key has fetched a word and has not moved on. -/
theorem Processor.Stepped.fetchable_of_waiting {c c' : Processor} {result : StepResult} {x : Reg}
    (stepped : c.Stepped result c') (waits : result.status = .awaitingKey x) :
    ∃ a, c'.machine.pc.fetchable? = some a := by
  cases stepped with
  | awaitingKey fetch => exact ⟨_, fetch⟩
  | _ => cases waits

namespace SoundAt

variable {a b : Processor × Status}

theorem change (change : Change a b) (h : SoundAt a) : SoundAt b := by
  obtain ⟨machine, waiting⟩ := h
  cases change with
  | keys | shown => exact ⟨{ machine with }, waiting⟩
  | halt => exact ⟨machine, nofun⟩
  | timers c s =>
    have machine : c.machine.Sound := machine
    have dt := Machine.countDown_eq machine.delay.1 machine.delay.2
    have st := Machine.countDown_eq machine.sound.1 machine.sound.2
    refine ⟨{ machine with delay := ?_, sound := ?_ }, waiting⟩
    · have := machine.delay
      simp only [Machine.tickTimers]
      omega
    · have := machine.sound
      simp only [Machine.tickTimers]
      omega
  | resume c x key =>
    obtain ⟨a, fetch⟩ := waiting x rfl
    have stored : Effect c.machine .advance (c.machine.setReg x (UInt8.ofNat key)) := .registers _
    exact ⟨(machine.effect fetch stored).moved (machine.lands fetch stored), nofun⟩
  | step c e =>
    have stepped := c.step_stepped e
    exact ⟨machine.stepped stepped, fun x waits => stepped.fetchable_of_waiting waits⟩

end SoundAt

namespace Play

variable {σ α : Type} {h : Host σ} {p : Play σ α}

/-! ## Stopping -/

theorem pc_pollInput : (p.pollInput h).2.session.machine.pc = p.session.machine.pc := by
  unfold pollInput
  split <;> rfl

theorem status_setTone (on : Bool) : (p.setTone on).session.status = p.session.status :=
  congrArg Prod.snd (core_setTone on)

theorem status_settle_of_halted {reason : HaltReason} (halted : p.session.status = .halted reason) :
    (p.settle h).session.status = .halted reason := by
  have stopped : p.session.isHalted = true := Session.isHalted_iff.2 ⟨reason, halted⟩
  unfold settle
  rw [handOver_of_halted stopped]
  exact (status_setTone _).trans halted

theorem quit_pollInput (stays : ∀ poll, h.poll = some poll → (poll p.host).1.quit = false) :
    ¬ (p.pollInput h).1.any (·.quit) = true := by
  unfold pollInput
  split
  · exact Bool.false_ne_true
  · next poll hpoll =>
    rw [Option.any_some, stays poll hpoll]
    exact Bool.false_ne_true

theorem status_executeStep_of_faulted {f : Fault} (running : p.session.status = .running)
    (faults : ∀ e, (p.session.processor.step e).1 = .faulted f) :
    (p.executeStep h).2.session.status = .halted (.fault f) := by
  obtain ⟨e, core⟩ := core_executeStep h running
  have status : (p.executeStep h).2.session.status = (p.session.processor.step e).1.status :=
    congrArg Prod.snd core
  rw [status, faults e]
  rfl

/-- A step that faults stops the session within the tick, in either fault mode. -/
theorem status_tickInstruction_of_faulted {f : Fault} (running : p.session.status = .running)
    (stays : ∀ poll, h.poll = some poll → (poll p.host).1.quit = false)
    (faults : ∀ e, ((p.pollInput h).2.session.processor.step e).1 = .faulted f) :
    (p.tickInstruction h).2.session.status = .halted (.fault f) := by
  have alive : ¬ p.session.isHalted = true := by
    intro halted
    obtain ⟨reason, status⟩ := Session.isHalted_iff.1 halted
    cases running.symm.trans status
  have noQuit := quit_pollInput stays
  have status := (status_pollInput h p).trans running
  have halted := status_executeStep_of_faulted (h := h) status faults
  unfold tickInstruction
  rw [if_neg alive]
  split
  next poll q polled =>
  rw [polled] at noQuit halted status
  rw [if_neg noQuit]
  split
  · next waits =>
    rw [status] at waits
    cases waits
  · split
    · next hq =>
      rw [hq] at halted
      exact halted
    · next r hq =>
      rw [hq] at halted
      have same (keyDowns : List Number) : r.deliverKey keyDowns = r :=
        deliverKey_of_halted halted keyDowns
      simp only [same]
      exact status_settle_of_halted halted

/-- Where no word can be fetched, the next tick that goes through stops the session for that. -/
theorem tickInstruction_of_not_fetchable {a : Int} (running : p.session.status = .running)
    (counter : p.session.machine.pc = .address a) (outside : a < 0x200 ∨ 0xFFE < a)
    (stays : ∀ poll, h.poll = some poll → (poll p.host).1.quit = false) :
    ∃ f, (p.tickInstruction h).2.session.haltReason? = some (.fault f) ∧
      f.cause = .fetchOutside (.address a) := by
  have pc : (p.pollInput h).2.session.processor.machine.pc = .address a :=
    pc_pollInput.trans counter
  have fetch : (p.pollInput h).2.session.processor.machine.pc.fetchable? = none :=
    pc ▸ ProgramCounter.fetchable?_address_eq_none (by omega)
  have faults (e : UInt8) := congrArg Prod.fst (Processor.step_of_not_fetchable fetch e)
  simp only [Processor.refusal_of_address pc] at faults
  exact ⟨_,
    Session.haltReason?_eq_some_iff.2 (status_tickInstruction_of_faulted running stays faults), rfl⟩

variable [Quantity α] {program : List UInt8} {settings : Settings α} {s : Session α}

/-! ## Runs -/

/-- A session that was set up with a program is sound after any calls. -/
theorem soundAt_after (setup : Session.ofProgram? program settings = .ok s) (h : Host σ) (host : σ)
    (calls : List (Call α)) : SoundAt ((Play.new s host).after h calls).session.core := by
  obtain ⟨-, clock, -, rfl⟩ := Session.ofProgram?_eq_ok_iff.1 setup
  exact after_keeps SoundAt.change calls ⟨Machine.Sound.startWith program, nofun⟩

/-- The machine of a session is sound after any calls. The one thing that can be wrong with its
counters is that the program counter ran off the end of memory, and then the next instruction tick
that goes through stops the session. -/
theorem sound_after (setup : Session.ofProgram? program settings = .ok s) (h : Host σ) (host : σ)
    (calls : List (Call α)) :
    let p := (Play.new s host).after h calls
    let m := p.session.machine
    m.Sound ∧
    (m.problems = [] ∨
      ∃ a, m.pc = .address a ∧ 0xFFF ≤ a ∧ a ≤ 0x1002 ∧ m.problems = [.programCounter m.pc]) ∧
    (m.problems ≠ [] → p.session.isHalted = false →
      (∀ poll, h.poll = some poll → (poll p.host).1.quit = false) →
      ∃ f, (p.tickInstruction h).2.session.haltReason? = some (.fault f) ∧
        f.cause.reason = .invalidAddress) := by
  intro p m
  have sound : SoundAt p.session.core := soundAt_after setup h host calls
  have cases := sound.machine.problems_cases
  refine ⟨sound.machine, cases, fun wrong alive stays => ?_⟩
  obtain ⟨a, counter, low, -, -⟩ := cases.resolve_left wrong
  have running : p.session.status = .running := by
    refine status_eq_running (by rw [alive]; exact Bool.false_ne_true) fun x waits => ?_
    obtain ⟨b, fetch⟩ := sound.waiting x waits
    have none := ProgramCounter.fetchable?_address_eq_none (a := a) (by omega)
    rw [← counter] at none
    exact absurd (none.symm.trans fetch) nofun
  obtain ⟨f, halted, cause⟩ := tickInstruction_of_not_fetchable running counter (by omega) stays
  exact ⟨f, halted, by rw [cause]; rfl⟩

/-- A jump to the last word of memory, where an empty word is skipped: the tick after these two
stops the session. -/
theorem sound_after_jump_to_last_word :
    let settings : Settings Rat := ⟨600, 60, .standard, 0, .halt⟩
    let h : Host Unit := ⟨none, none, fun u => (0, u)⟩
    ∃ s, Session.ofProgram? [0x1F, 0xFE] settings = .ok s ∧
      let p := (Play.new s ()).after h [.tick .instruction, .tick .instruction]
      p.session.machine.Sound ∧
      p.session.machine.problems = [.programCounter (.address 0x1000)] ∧
      p.session.isHalted = false ∧
      ∃ f, (p.tickInstruction h).2.session.haltReason? = some (.fault f) ∧
        f.cause.reason = .invalidAddress := by
  intro settings h
  obtain ⟨s, setup⟩ : ∃ s, Session.ofProgram? [0x1F, 0xFE] settings = .ok s :=
    ⟨_, Session.ofProgram?_eq_ok_iff.2 ⟨by decide, _, rfl, rfl⟩⟩
  refine ⟨s, setup, ?_⟩
  have found := sound_after setup h () [.tick .instruction, .tick .instruction]
  obtain ⟨-, clock, built, rfl⟩ := Session.ofProgram?_eq_ok_iff.1 setup
  intro p
  obtain ⟨problems, alive⟩ :
      p.session.machine.problems = [.programCounter (.address 0x1000)] ∧
      p.session.isHalted = false := by
    cases built
    decide +kernel
  exact ⟨found.1, problems, alive, found.2.2 (problems ▸ List.cons_ne_nil _ _) alive nofun⟩

end Play

end Chip8
