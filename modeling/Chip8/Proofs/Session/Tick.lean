import Chip8.Session

/-!
# The parts of a tick

An instruction tick that executes draws a byte of the random source if the step needs one, makes the
step and books its result. `book` is the last part by itself, so that what a tick does is read off
the result of the step.

Whatever is to hold after every tick follows from what each part of a tick does (`tick_induction`).
-/

namespace Chip8.Play

variable {σ α : Type}

/-- The byte for the next step, and the state of the host behind it. -/
def drawByte (h : Host σ) (p : Play σ α) : UInt8 × σ :=
  if p.session.processor.drawsRandom then h.entropy p.host else (0, p.host)

/-- A step has been made, and its result is not booked yet. -/
def stepped (p : Play σ α) (processor : Processor) (result : StepResult) (host : σ) : Play σ α :=
  { p with session := { p.session with processor }, host }.note (.stepped result)

/-- Books the result of a step. Answers what goes to the caller. -/
def book (p : Play σ α) : StepResult → Option Interruption × Play σ α
  | .executed pc w =>
    let p := p.countInstruction
    (none, if tracesNow p.session then p.log .info (Report.trace pc w p.session.machine) else p)
  | .awaitingKey _ _ x =>
    let p := p.countInstruction
    (none, { p with session := { p.session with status := .awaitingKey x } })
  | .unknown pc w => (none, p.countInstruction.log .warn (unknownWarning pc w))
  | .faulted f =>
    let p := (faultLines f).foldl (fun p line => p.log .error line) (p.halt (.fault f))
    (if p.session.faultMode = .throw then some (.fault f) else none, p)
  | .lost => (some .lost, p)

theorem executeStep_eq (h : Host σ) (p : Play σ α) :
    p.executeStep h =
      let drawn := p.drawByte h
      let step := p.session.processor.step drawn.1
      (p.stepped step.2 step.1 drawn.2).book step.1 := by
  unfold executeStep
  rfl

/-! ## Sessions -/

theorem session_setTone (p : Play σ α) (on : Bool) :
    (p.setTone on).session = { p.session with toneOn := on } := by
  unfold setTone
  split
  · next same => rw [← same]
  · rfl

theorem session_halt (p : Play σ α) (reason : HaltReason) :
    (p.halt reason).session = { p.session with status := .halted reason, toneOn := false } :=
  session_setTone ..

theorem session_foldl_log (p : Play σ α) (lines : List String) :
    (lines.foldl (fun p line => p.log .error line) p).session = p.session := by
  induction lines generalizing p with
  | nil => rfl
  | cons line lines ih => exact ih _

/-- Booking a step leaves the processor as the step left it. -/
theorem processor_book (p : Play σ α) (result : StepResult) :
    (p.book result).2.session.processor = p.session.processor := by
  cases result with
  | executed =>
    simp only [book]
    split <;> rfl
  | faulted f => simp only [book, session_foldl_log, session_halt]
  | _ => rfl

theorem status_pollInput (h : Host σ) (p : Play σ α) :
    (p.pollInput h).2.session.status = p.session.status := by
  unfold pollInput
  split <;> rfl

theorem deliverKey_of_halted {p : Play σ α} {reason : HaltReason}
    (halted : p.session.status = .halted reason) (keyDowns : List Number) :
    p.deliverKey keyDowns = p := by
  unfold deliverKey
  rw [halted]

theorem handOver_of_not_ready {h : Host σ} {p : Play σ α}
    (ready : h.present = none ∨ ¬ (p.session.machine.drawn && !p.session.isHalted) = true) :
    p.handOver h = (false, p) := by
  unfold handOver
  split
  · rfl
  · next present displays =>
    rw [displays] at ready
    exact if_neg (ready.resolve_left nofun)

theorem handOver_of_halted {h : Host σ} {p : Play σ α} (halted : p.session.isHalted = true) :
    p.handOver h = (false, p) := by
  refine handOver_of_not_ready (.inr ?_)
  rw [halted, Bool.not_true, Bool.and_false]
  exact Bool.false_ne_true

/-- A session that goes on without waiting for a key is running. -/
theorem status_eq_running {p : Play σ α} (alive : ¬ p.session.isHalted = true)
    (awake : ∀ x, p.session.status ≠ .awaitingKey x) : p.session.status = .running := by
  rw [Session.isHalted_iff] at alive
  cases status : p.session.status with
  | running => rfl
  | awaitingKey x => exact absurd status (awake x)
  | halted reason => exact absurd ⟨reason, status⟩ alive

/-! ## Invariants -/

/-- The parts of an instruction tick: `K` holds once the input was polled, `J` before the tick is
settled, and `I` at its end. A step that is cut short ends the tick there and then. -/
theorem tickInstruction_cases {h : Host σ} {p : Play σ α} {I J K : Play σ α → Prop}
    (stopped : p.session.isHalted = true → I p)
    (poll : ¬ p.session.isHalted = true → K (p.pollInput h).2)
    (halt : ∀ q, K q → I (q.halt .userQuit)) (wait : ∀ q, K q → J q)
    (step : ∀ q, K q → q.session.status = .running →
      J (q.executeStep h).2 ∧ ((q.executeStep h).1.isSome = true → I (q.executeStep h).2))
    (key : ∀ q keyDowns, J q → J (q.deliverKey keyDowns)) (settle : ∀ q, J q → I (q.settle h)) :
    I (p.tickInstruction h).2 := by
  have status := status_pollInput h p
  unfold tickInstruction
  split
  · next halted => exact stopped halted
  next alive =>
  have polled := poll alive
  generalize p.pollInput h = answer at polled status ⊢
  obtain ⟨poll, q⟩ := answer
  dsimp only at polled status ⊢
  split
  · exact halt q polled
  split
  · exact settle _ (key q _ (wait q polled))
  next awake =>
  have running : q.session.status = .running :=
    status.trans (status_eq_running alive fun x hx => awake x (status.trans hx))
  obtain ⟨goes, cut⟩ := step q polled running
  split
  · next executed =>
    rw [executed] at cut
    exact cut rfl
  · next executed =>
    rw [executed] at goes
    exact settle _ (key _ _ goes)

/-- What holds between ticks is `I`, and `J` is what holds of a tick that has still to be settled. A
step that is cut short ends its tick, so `I` has to hold there as well. -/
theorem tick_induction {h : Host σ} {I J : Play σ α → Prop} (poll : ∀ p, I p → I (p.pollInput h).2)
    (halt : ∀ p, I p → I (p.halt .userQuit)) (wait : ∀ p, I p → J p)
    (step : ∀ p, I p → p.session.status = .running →
      J (p.executeStep h).2 ∧ ((p.executeStep h).1.isSome = true → I (p.executeStep h).2))
    (key : ∀ p keyDowns, J p → J (p.deliverKey keyDowns)) (settle : ∀ p, J p → I (p.settle h))
    (time : ∀ p, I p →
      J ({ p with session := p.session.modifyMachine Machine.tickTimers }.note .timed))
    (tick : Tick) {p : Play σ α} (hp : I p) : I (p.tick h tick).2 := by
  cases tick with
  | timer =>
    simp only [Play.tick, tickTimer]
    split
    · exact hp
    · exact settle _ (time p hp)
  | instruction =>
    exact tickInstruction_cases (fun _ => hp) (fun _ => poll p hp) halt wait step key settle

end Chip8.Play
