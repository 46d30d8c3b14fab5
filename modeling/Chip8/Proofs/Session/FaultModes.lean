import Chip8.Proofs.Session.Advance
import Chip8.Proofs.Session.Signals
import Chip8.Proofs.Session.Simulation
import Chip8.Proofs.Session.Sound

/-!
# Halting and throwing

A fault stops a session, and in one of the two modes it also goes to the caller. That cuts the tick
short, and the advance around it. Nothing is lost by this: in a session that has just stopped with
its tone off, the rest of the tick does nothing. So the mode decides only what the caller is told
(`Told`), and never what becomes of the play (`perform_withMode`).
-/

namespace Chip8

namespace Play

variable {σ α : Type} {h : Host σ} {p q : Play σ α} {mode : FaultMode}

/-- The play with another fault mode. -/
def withMode (p : Play σ α) (faultMode : FaultMode) : Play σ α :=
  { p with session := { p.session with faultMode } }

/-! ## The mode in the parts of a tick -/

theorem setTone_withMode (on : Bool) :
    (p.withMode mode).setTone on = (p.setTone on).withMode mode := by
  unfold setTone
  change (if p.session.toneOn = on then _ else _) = _
  split <;> rfl

theorem halt_withMode (reason : HaltReason) :
    (p.withMode mode).halt reason = (p.halt reason).withMode mode :=
  setTone_withMode (p := { p with session := { p.session with status := .halted reason } }) false

theorem logs_withMode (lines : List String) :
    lines.foldl (fun p line => p.log .error line) (p.withMode mode) =
      (lines.foldl (fun p line => p.log .error line) p).withMode mode := by
  induction lines generalizing p with
  | nil => rfl
  | cons line lines ih => exact ih (p := p.log .error line)

theorem pollInput_withMode (h : Host σ) :
    (p.withMode mode).pollInput h = ((p.pollInput h).1, (p.pollInput h).2.withMode mode) := by
  unfold pollInput
  cases h.poll <;> rfl

theorem deliverKey_withMode (keyDowns : List Number) :
    (p.withMode mode).deliverKey keyDowns = (p.deliverKey keyDowns).withMode mode := by
  simp only [deliverKey, withMode]
  split <;> rfl

theorem handOver_withMode (h : Host σ) :
    (p.withMode mode).handOver h = ((p.handOver h).1, (p.handOver h).2.withMode mode) := by
  unfold handOver
  cases h.present with
  | none => rfl
  | some present =>
    change (if (p.session.machine.drawn && !p.session.isHalted) = true then _ else _) = _
    dsimp only
    split <;> rfl

theorem settle_withMode (h : Host σ) : (p.withMode mode).settle h = (p.settle h).withMode mode := by
  unfold settle
  rw [handOver_withMode]
  generalize p.handOver h = answer
  obtain ⟨quits, q⟩ := answer
  dsimp only
  split
  · exact halt_withMode .userQuit
  · exact setTone_withMode _

/-- Booking a step differs by the mode in the answer to a fault alone. -/
theorem book_withMode (result : StepResult) :
    ((p.withMode mode).book result).2 = (p.book result).2.withMode mode ∧
      ((∀ f, result ≠ .faulted f) → ((p.withMode mode).book result).1 = (p.book result).1) := by
  cases result with
  | executed a w =>
    refine ⟨?_, fun _ => rfl⟩
    change (if tracesNow p.countInstruction.session = true then _ else _) = _
    simp only [book]
    split <;> rfl
  | awaitingKey | unknown | lost => exact ⟨rfl, fun _ => rfl⟩
  | faulted f =>
    refine ⟨?_, fun other => absurd rfl (other f)⟩
    simp only [book, halt_withMode, logs_withMode]

/-- A step differs by the mode in its answer alone, and only if the session has stopped in it. -/
theorem executeStep_withMode (h : Host σ) (p : Play σ α) (mode : FaultMode) :
    ((p.withMode mode).executeStep h).2 = (p.executeStep h).2.withMode mode ∧
      (((p.withMode mode).executeStep h).1 = (p.executeStep h).1 ∨
        ∃ q, Silenced q (p.executeStep h).2) := by
  rw [executeStep_eq, executeStep_eq]
  let drawn := p.drawByte h
  let step := p.session.processor.step drawn.1
  change (((p.stepped step.2 step.1 drawn.2).withMode mode).book step.1).2 = _ ∧
    ((((p.stepped step.2 step.1 drawn.2).withMode mode).book step.1).1 = _ ∨ _)
  obtain ⟨play, answer⟩ := book_withMode (p := p.stepped step.2 step.1 drawn.2) step.1
  refine ⟨play, ?_⟩
  by_cases faulted : ∃ f, step.1 = .faulted f
  · obtain ⟨f, faulted⟩ := faulted
    refine .inr ⟨p.stepped step.2 step.1 drawn.2, ?_⟩
    dsimp only
    rw [faulted]
    exact silenced_book_faulted _ f
  · exact .inl (answer (not_exists.1 faulted))

/-- Two answers with the plays behind them that are the same but for the mode. Also the answers are
the same, unless the session has stopped. -/
def Matched (mode : FaultMode) (a b : Option Interruption × Play σ α) : Prop :=
  b.2 = a.2.withMode mode ∧ (b.1 = a.1 ∨ a.2.session.isHalted = true)

/-- What is left of an instruction tick after its step, unless that cut it short. -/
def afterStep (h : Host σ) (keyDowns : List Number) :
    Option Interruption × Play σ α → Option Interruption × Play σ α
  | (some i, p) => (some i, p)
  | (none, p) => (none, (p.deliverKey keyDowns).settle h)

theorem afterStep_of_silenced (silenced : Silenced p q) (h : Host σ) (keyDowns : List Number)
    (thrown : Option Interruption) : afterStep h keyDowns (thrown, q) = (thrown, q) := by
  cases thrown with
  | some i => rfl
  | none => rw [afterStep, silenced.deliverKey_eq, silenced.settle_eq]

theorem afterStep_withMode (h : Host σ) (keyDowns : List Number) (thrown : Option Interruption) :
    afterStep h keyDowns (thrown, p.withMode mode) =
      ((afterStep h keyDowns (thrown, p)).1,
        (afterStep h keyDowns (thrown, p)).2.withMode mode) := by
  cases thrown with
  | some i => rfl
  | none => rw [afterStep, deliverKey_withMode, settle_withMode, afterStep]

theorem executed_withMode (h : Host σ) (p : Play σ α) (mode : FaultMode) (keyDowns : List Number) :
    Matched mode (afterStep h keyDowns (p.executeStep h))
      (afterStep h keyDowns ((p.withMode mode).executeStep h)) := by
  obtain ⟨play, answer⟩ := executeStep_withMode h p mode
  generalize p.executeStep h = a at play answer ⊢
  generalize (p.withMode mode).executeStep h = b at play answer ⊢
  obtain ⟨thrown, r⟩ := a
  obtain ⟨thrown', r'⟩ := b
  dsimp only at play answer
  subst play
  rw [afterStep_withMode]
  rcases answer with same | ⟨q, silenced⟩
  · subst same
    exact ⟨rfl, .inl rfl⟩
  · -- What is left of the tick does nothing, so it does not matter whether it is cut short.
    rw [afterStep_of_silenced silenced, afterStep_of_silenced silenced]
    exact ⟨rfl, .inr silenced.halted⟩

theorem tickInstruction_withMode (h : Host σ) (p : Play σ α) (mode : FaultMode) :
    Matched mode (p.tickInstruction h) ((p.withMode mode).tickInstruction h) := by
  unfold tickInstruction
  rw [pollInput_withMode]
  change Matched mode _ (if p.session.isHalted = true then _ else _)
  split
  · exact ⟨rfl, .inl rfl⟩
  generalize p.pollInput h = answer
  obtain ⟨poll, q⟩ := answer
  dsimp only
  split
  · exact ⟨halt_withMode .userQuit, .inl rfl⟩
  have executed := executed_withMode h q mode (poll.elim [] (·.keyDowns))
  have status : (q.withMode mode).session.status = q.session.status := rfl
  rw [deliverKey_withMode, settle_withMode, status]
  cases q.session.status with
  | awaitingKey => exact ⟨rfl, .inl rfl⟩
  | running | halted => exact executed

theorem tickTimer_withMode (h : Host σ) (p : Play σ α) (mode : FaultMode) :
    (p.withMode mode).tickTimer h = (p.tickTimer h).withMode mode := by
  unfold tickTimer
  change (if p.session.isHalted = true then _ else _) = _
  split
  · rfl
  · exact settle_withMode
      (p := { p with session := p.session.modifyMachine Machine.tickTimers }.note .timed) h

theorem tick_withMode (h : Host σ) (p : Play σ α) (mode : FaultMode) (t : Tick) :
    Matched mode (p.tick h t) ((p.withMode mode).tick h t) := by
  cases t with
  | instruction => exact tickInstruction_withMode h p mode
  | timer => exact ⟨tickTimer_withMode h p mode, .inl rfl⟩

/-! ## The mode in a call -/

section Calls

variable [Quantity α]

theorem advance_withMode (h : Host σ) (p : Play σ α) (mode : FaultMode) (ms : α) :
    ((p.withMode mode).advance h ms).2 = (p.advance h ms).2.withMode mode := by
  have ticks (t : Tick) (a b : Option Interruption × Play σ α) (matched : Matched mode a b) :
      Paired (Matched mode) (receive h t a) (receive h t b) := by
    obtain ⟨play, answer⟩ := tick_withMode h a.2 mode t
    rw [← matched.1] at play answer
    refine ⟨?_, play, answer⟩
    have halted : (b.2.tick h t).2.session.isHalted = (a.2.tick h t).2.session.isHalted := by
      rw [play]
      rfl
    rcases answer with same | stopped
    · simp only [receive, same, halted]
    · simp only [receive, halted, stopped, Bool.not_true, Bool.and_false]
  have passed : Paired (Matched mode) (p.session.clock.advance ms (receive h) (none, p))
      ((p.withMode mode).session.clock.advance ms (receive h) (none, p.withMode mode)) :=
    Clock.advance_paired ticks p.session.clock ms ⟨rfl, .inl rfl⟩
  by_cases halted : p.session.isHalted = true
  · rw [advance_of_halted halted, advance_of_halted (p := p.withMode mode) halted]
  · rw [advance_of_alive halted, advance_of_alive (p := p.withMode mode) halted]
    generalize p.session.clock.advance ms (receive h) (none, p) = a at passed ⊢
    generalize (p.withMode mode).session.clock.advance ms (receive h) (none, p.withMode mode) =
      b at passed ⊢
    obtain ⟨clock, thrown, q⟩ := a
    obtain ⟨clock', thrown', q'⟩ := b
    obtain ⟨rfl, rfl, -⟩ := passed
    rfl

theorem perform_withMode (h : Host σ) (p : Play σ α) (mode : FaultMode) (call : Call α) :
    ((p.withMode mode).perform h call).2 = (p.perform h call).2.withMode mode := by
  cases call with
  | tick t => exact (tick_withMode h p mode t).1
  | advance ms => exact advance_withMode h p mode ms

theorem after_withMode (h : Host σ) (p : Play σ α) (mode : FaultMode) (calls : List (Call α)) :
    (p.withMode mode).after h calls = (p.after h calls).withMode mode := by
  induction calls generalizing p with
  | nil => rfl
  | cons call calls ih =>
    change ((p.withMode mode).perform h call).2.after h calls = _
    rw [perform_withMode]
    exact ih _

end Calls

/-! ## What the caller is told -/

def Unfaulted (p : Play σ α) : Prop := ∀ f, p.session.status ≠ .halted (.fault f)

/-- What a session that had not stopped tells its caller, and how it stands then. -/
inductive Told (mode : FaultMode) (q : Play σ α) (answer : Option Interruption) : Prop
  | faulted (f : Fault) (stopped : q.session.status = .halted (.fault f))
      (told : answer = if mode = .throw then some (.fault f) else none)
  | nothing (unfaulted : q.Unfaulted) (told : answer = none)
  | lost (unfaulted : q.Unfaulted) (empty : q.session.machine.pc = .empty)
      (told : answer = some .lost)

theorem unfaulted_of_alive (alive : ¬ p.session.isHalted = true) : p.Unfaulted :=
  fun _ halted => alive (Session.isHalted_iff.2 ⟨_, halted⟩)

theorem unfaulted_halt_userQuit (p : Play σ α) : (p.halt .userQuit).Unfaulted := by
  intro f
  rw [session_halt]
  exact nofun

theorem Unfaulted.deliverKey (unfaulted : p.Unfaulted) (keyDowns : List Number) :
    (p.deliverKey keyDowns).Unfaulted := by
  unfold Play.deliverKey
  split
  · exact fun f => nofun
  · exact unfaulted

theorem Unfaulted.settle (unfaulted : p.Unfaulted) (h : Host σ) : (p.settle h).Unfaulted := by
  have shown : (p.handOver h).2.Unfaulted := by
    unfold handOver
    split
    · exact unfaulted
    · split <;> exact unfaulted
  unfold Play.settle
  generalize p.handOver h = answer at shown
  obtain ⟨quits, q⟩ := answer
  dsimp only
  split
  · exact unfaulted_halt_userQuit q
  · intro f
    rw [status_setTone]
    exact shown f

theorem told_executeStep (h : Host σ) (running : p.session.status = .running) :
    Told p.session.faultMode (p.executeStep h).2 (p.executeStep h).1 := by
  have made := p.session.processor.step_stepped (p.drawByte h).1
  rw [executeStep_eq]
  dsimp only
  generalize p.session.processor.step (p.drawByte h).1 = step at made ⊢
  obtain ⟨result, c⟩ := step
  dsimp only at made ⊢
  have unfaulted : p.Unfaulted := by
    intro f stopped
    cases running.symm.trans stopped
  cases result with
  | executed a w =>
    refine .nothing ?_ rfl
    simp only [book]
    split <;> exact unfaulted
  | awaitingKey a w x =>
    refine .nothing (fun f stopped => ?_) rfl
    cases stopped
  | unknown a w => exact .nothing unfaulted rfl
  | lost =>
    refine .lost unfaulted ?_ rfl
    cases made with
    | lost empty => exact empty
  | faulted f =>
    refine .faulted f ?_ ?_
    · simp only [book, session_foldl_log, session_halt]
    · simp only [book, session_foldl_log, session_halt]
      rfl

theorem told_tickInstruction (h : Host σ) (alive : ¬ p.session.isHalted = true) :
    Told p.session.faultMode (p.tickInstruction h).2 (p.tickInstruction h).1 := by
  have polled : (p.pollInput h).2.session.status = p.session.status ∧
      (p.pollInput h).2.session.faultMode = p.session.faultMode := by
    unfold pollInput
    split <;> exact ⟨rfl, rfl⟩
  have unfaulted := unfaulted_of_alive alive
  unfold tickInstruction
  rw [if_neg alive]
  generalize p.pollInput h = answer at polled
  obtain ⟨poll, q⟩ := answer
  obtain ⟨status, same⟩ := polled
  dsimp only at status same ⊢
  rw [← same]
  unfold Unfaulted at unfaulted
  rw [← status] at unfaulted
  split
  · exact .nothing (unfaulted_halt_userQuit q) rfl
  split
  · exact .nothing ((Unfaulted.deliverKey unfaulted _).settle h) rfl
  next awake =>
  have running : q.session.status = .running :=
    status.trans (status_eq_running alive fun x waits => awake x (status.trans waits))
  have told := told_executeStep h running
  split
  · next step =>
    rw [step] at told
    exact told
  · next r step =>
    rw [step] at told
    cases told with
    | faulted f stopped told =>
      refine .faulted f ?_ told
      rw [deliverKey_of_halted stopped]
      exact status_settle_of_halted stopped
    | nothing unfaulted => exact .nothing ((unfaulted.deliverKey _).settle h) rfl
    | lost _ _ told => cases told

theorem told_tick (h : Host σ) (alive : ¬ p.session.isHalted = true) (t : Tick) :
    Told p.session.faultMode (p.tick h t).2 (p.tick h t).1 := by
  cases t with
  | instruction => exact told_tickInstruction h alive
  | timer =>
    have eq : p.tickTimer h =
        ({ p with session := p.session.modifyMachine Machine.tickTimers }.note .timed).settle h :=
      if_neg alive
    refine .nothing ?_ rfl
    change (p.tickTimer h).Unfaulted
    rw [eq]
    exact Unfaulted.settle
      (p := { p with session := p.session.modifyMachine Machine.tickTimers }.note .timed)
      (unfaulted_of_alive alive) h

theorem faultMode_tick (h : Host σ) (p : Play σ α) (t : Tick) :
    (p.tick h t).2.session.faultMode = p.session.faultMode := by
  have same : (p.tick h t).2 = (p.tick h t).2.withMode p.session.faultMode :=
    (tick_withMode h p p.session.faultMode t).1
  rw [same]
  rfl

theorem faultMode_after [Quantity α] (h : Host σ) (p : Play σ α) (calls : List (Call α)) :
    (p.after h calls).session.faultMode = p.session.faultMode := by
  have same : p.after h calls = (p.after h calls).withMode p.session.faultMode :=
    after_withMode h p p.session.faultMode calls
  rw [same]
  rfl

theorem Told.setClock {answer : Option Interruption} (told : Told mode q answer) (clock : Clock α) :
    Told mode { q with session := { q.session with clock } } answer := by
  cases told with
  | faulted f stopped told => exact .faulted f stopped told
  | nothing unfaulted told => exact .nothing unfaulted told
  | lost unfaulted empty told => exact .lost unfaulted empty told

variable [Quantity α]

theorem told_advance (h : Host σ) (alive : ¬ p.session.isHalted = true) (ms : α) :
    Told p.session.faultMode (p.advance h ms).2 (p.advance h ms).1 := by
  have ended := Clock.advance_ends (receive h)
    (J := fun s => (s.1 = none ∧ s.2.session.faultMode = p.session.faultMode) ∧
      ¬ s.2.session.isHalted = true)
    (I := fun s => Told p.session.faultMode s.2 s.1) ?ends ?step p.session.clock ms (none, p)
      ⟨⟨rfl, rfl⟩, alive⟩
  case ends => exact fun s ⟨⟨told, _⟩, alive⟩ => .nothing (unfaulted_of_alive alive) told
  case step =>
    rintro t s ⟨⟨-, mode⟩, alive⟩
    refine ⟨mode ▸ told_tick h alive t, fun more => ?_⟩
    rw [receive, Bool.and_eq_true, Option.isNone_iff_eq_none, Bool.not_eq_true', ← Bool.not_eq_true]
      at more
    exact ⟨⟨more.1, (faultMode_tick h s.2 t).trans mode⟩, more.2⟩
  rw [advance_of_alive alive]
  exact ended.setClock _

theorem told_perform (h : Host σ) (alive : ¬ p.session.isHalted = true) (call : Call α) :
    Told p.session.faultMode (p.perform h call).2 (p.perform h call).1 := by
  cases call with
  | tick t => exact told_tick h alive t
  | advance ms => exact told_advance h alive ms

omit [Quantity α] in
theorem Told.eq_some_iff {answer : Option Interruption} (told : Told mode q answer)
    (present : q.session.machine.pc ≠ .empty) (i : Interruption) :
    answer = some i ↔ mode = .throw ∧ ∃ f, i = .fault f ∧
    q.session.status = .halted (.fault f) := by
  cases told with
  | faulted f stopped told =>
    rw [told, stopped]
    split
    · next throws => simp [throws, eq_comm]
    · next halts => simp [halts]
  | nothing unfaulted told =>
    rw [told]
    exact iff_of_false nofun fun ⟨_, f, _, stopped⟩ => unfaulted f stopped
  | lost _ empty => exact absurd empty present

theorem perform_of_halted (halted : p.session.isHalted = true) (call : Call α) :
    p.perform h call = (none, p) := by
  cases call with
  | tick t =>
    cases t with
    | instruction => exact if_pos halted
    | timer => exact congrArg (Prod.mk none) (tickTimer_of_halted halted)
  | advance ms => exact advance_of_halted halted ms

/-- What a sound session tells its caller: the fault that stops it, if faults are thrown, and
otherwise nothing. -/
theorem perform_eq_some_iff (h : Host σ) (call : Call α)
    (sound : SoundAt (p.perform h call).2.session.core) (i : Interruption) :
    (p.perform h call).1 = some i ↔
      p.session.faultMode = .throw ∧ ∃ f, i = .fault f ∧ ¬ p.session.isHalted = true ∧
        (p.perform h call).2.session.status = .halted (.fault f) := by
  by_cases halted : p.session.isHalted = true
  · rw [perform_of_halted halted]
    exact iff_of_false nofun fun ⟨_, _, _, alive, _⟩ => alive halted
  · obtain ⟨a, counter, -, -⟩ := sound.machine.counter
    have present : (p.perform h call).2.session.machine.pc ≠ .empty := by
      intro empty
      cases counter.symm.trans empty
    rw [(told_perform h halted call).eq_some_iff present]
    exact and_congr_right fun _ => exists_congr fun f => and_congr_right fun _ =>
      (and_iff_right halted).symm

variable {program : List UInt8} {settings : Settings α} {s : Session α}

/-- Two sessions that differ in the fault mode alone go through the same, whatever is asked of them,
and they ask and tell their host the same. The one that throws does so exactly in the call in which
a fault stops it, and it throws that fault. The other one never throws. -/
theorem faultModes_agree
    (setup : Session.ofProgram? program { settings with faultMode := .halt } = .ok s) :
    ∃ t, Session.ofProgram? program { settings with faultMode := .throw } = .ok t ∧
      ∀ {σ : Type} (h : Host σ) (host : σ) (calls : List (Call α)),
        let p := (Play.new s host).after h calls
        let q := (Play.new t host).after h calls
        q = { p with session := { p.session with faultMode := .throw } } ∧
        ∀ call,
          (p.perform h call).1 = none ∧
          ∀ i, (q.perform h call).1 = some i ↔
            ∃ f, i = .fault f ∧ ¬ p.session.isHalted = true ∧
              (p.perform h call).2.session.status = .halted (.fault f) := by
  obtain ⟨fits, clock, created, eq⟩ := Session.ofProgram?_eq_ok_iff.1 setup
  have other : Session.ofProgram? program { settings with faultMode := .throw } =
      .ok { s with faultMode := .throw } :=
    Session.ofProgram?_eq_ok_iff.2 ⟨fits, clock, created, by rw [eq]; rfl⟩
  refine ⟨_, other, fun h host calls => ?_⟩
  intro p q
  have modes : q = p.withMode .throw := after_withMode h (.new s host) .throw calls
  have halts : p.session.faultMode = .halt := by
    rw [faultMode_after, eq]
    rfl
  refine ⟨modes, fun call => ?_⟩
  have sound := soundAt_after setup h host (calls ++ [call])
  have sound' := soundAt_after other h host (calls ++ [call])
  rw [after_append] at sound sound'
  have answer (i : Interruption) := perform_eq_some_iff (p := p) h call sound i
  have answer' (i : Interruption) := perform_eq_some_iff (p := q) h call sound' i
  have play : (q.perform h call).2 = (p.perform h call).2.withMode .throw :=
    modes ▸ perform_withMode h p .throw call
  constructor
  · rw [Option.eq_none_iff_forall_ne_some]
    intro i told
    cases halts.symm.trans ((answer i).1 told).1
  · intro i
    rw [answer', play, modes]
    exact and_iff_right rfl

/-- A return on an empty stack, with the tone on, a frame handed over and three more ticks due. -/
theorem faultModes_agree_with_ticks_due :
    let program : List UInt8 := [0x60, 0x05, 0xF0, 0x18, 0xD0, 0x01, 0x00, 0xEE]
    let settings : Settings Rat := ⟨600, 60, .standard, 0, .halt⟩
    let h : Host Nat := ⟨none, some fun _ n => (false, n + 1), fun n => (0, n)⟩
    let f : Fault :=
      ⟨.returnOnEmptyStack, 0x00EE, .address 0x206,
        ⟨.address 0x206, 0, 0, 0, 5, 5 :: List.replicate 15 0, []⟩⟩
    ∃ s t, Session.ofProgram? program { settings with faultMode := .halt } = .ok s ∧
      Session.ofProgram? program { settings with faultMode := .throw } = .ok t ∧
      let p := (Play.new s 0).after h [.tick .instruction]
      let q := (Play.new t 0).after h [.tick .instruction]
      let stopped := (p.perform h (.advance 10)).2
      p.session.isHalted = false ∧ stopped.session.status = .halted (.fault f) ∧
      stopped.session.clock.instructionTicks = 3 ∧ stopped.host = 1 ∧
      stopped.tones = [true, false] ∧
      (p.perform h (.advance 10)).1 = none ∧ (q.perform h (.advance 10)).1 = some (.fault f) ∧
      q = { p with session := { p.session with faultMode := .throw } } := by
  intro program settings h f
  obtain ⟨s, setup⟩ :
      ∃ s, Session.ofProgram? program { settings with faultMode := .halt } = .ok s :=
    ⟨_, Session.ofProgram?_eq_ok_iff.2 ⟨by decide, _, rfl, rfl⟩⟩
  obtain ⟨t, other, agree⟩ := faultModes_agree setup
  refine ⟨s, t, setup, other, ?_⟩
  intro p q stopped
  obtain ⟨modes, told⟩ := agree h 0 [.tick .instruction]
  obtain ⟨halting, throwing⟩ := told (.advance 10)
  have run : p.session.isHalted = false ∧ stopped.session.status = .halted (.fault f) ∧
      stopped.session.clock.instructionTicks = 3 ∧ stopped.host = 1 ∧
      stopped.tones = [true, false] := by
    cases setup
    decide +kernel
  obtain ⟨alive, status, ticks, shown, tones⟩ := run
  have throws := (throwing (.fault f)).2 ⟨f, rfl, by rw [alive]; exact Bool.false_ne_true, status⟩
  exact ⟨alive, status, ticks, shown, tones, halting, throws, modes⟩

end Play

end Chip8
