import Chip8.Quantity
import Chip8.Text.Decimal

/-!
# The clock

A clock turns elapsed time into ticks of two schedules, instructions and timers. How many ticks of a
schedule are due depends only on the time elapsed and on the rate of that schedule. Due ticks come
earliest first, and an instruction tick before a timer tick of the same time. The receiver of the
ticks may stop the clock; what it did not take stays due.
-/

namespace Chip8

inductive Tick
  | instruction
  | timer
deriving DecidableEq

/-- Two schedules over one elapsed time. -/
structure Clock (α : Type) where
  instructionHz : α
  timerHz : α
  /-- Milliseconds since the start. -/
  elapsed : α
  /-- Instruction ticks issued so far. -/
  instructionTicks : Nat
  /-- Timer ticks issued so far. -/
  timerTicks : Nat

/-- A clock was asked for with a rate that is not positive. -/
structure ClockError (α : Type) where
  instructionHz : α
  timerHz : α

def ClockError.message (e : ClockError Float) : String :=
  "clock rates must be positive (instructionHz=" ++ Text.floatText e.instructionHz ++ ", timerHz="
    ++ Text.floatText e.timerHz ++ ")"

namespace Clock

open Quantity

variable {α : Type} [Quantity α] {σ : Type}

/-- A clock at its start, if both rates are positive. -/
def create? (instructionHz timerHz : α) : Except (ClockError α) (Clock α) :=
  if lt (ofNat 0) instructionHz && lt (ofNat 0) timerHz then
    .ok { instructionHz, timerHz, elapsed := ofNat 0, instructionTicks := 0, timerTicks := 0 }
  else .error { instructionHz, timerHz }

def reset (c : Clock α) : Clock α :=
  { c with elapsed := ofNat 0, instructionTicks := 0, timerTicks := 0 }

/-- The number of ticks of a schedule that are due after a time in milliseconds. -/
def due (elapsed hz : α) : Nat := wholeUnits (elapsed * hz / ofNat 1000 + tolerance)

/-- Is the next instruction tick no later than the next timer tick? The times are compared without
division. -/
def instructionFirst (c : Clock α) : Bool :=
  le (ofNat (c.instructionTicks + 1) * c.timerHz) (ofNat (c.timerTicks + 1) * c.instructionHz)

/-- The kind of the next tick, when so many of either kind are due. -/
def next? (c : Clock α) (dueInstructions dueTimers : Nat) : Option Tick :=
  if c.instructionTicks < dueInstructions then
    if c.timerTicks < dueTimers then some (if c.instructionFirst then .instruction else .timer)
    else some .instruction
  else if c.timerTicks < dueTimers then some .timer
  else none

/-- The clock with one more tick issued. -/
def issue (c : Clock α) : Tick → Clock α
  | .instruction => { c with instructionTicks := c.instructionTicks + 1 }
  | .timer => { c with timerTicks := c.timerTicks + 1 }

/-- The number of ticks still to come, when so many of either kind are due. -/
def pending (c : Clock α) (dueInstructions dueTimers : Nat) : Nat :=
  (dueInstructions - c.instructionTicks) + (dueTimers - c.timerTicks)

theorem pending_issue_lt {c : Clock α} {dueInstructions dueTimers : Nat} {tick : Tick}
    (h : c.next? dueInstructions dueTimers = some tick) :
    (c.issue tick).pending dueInstructions dueTimers < c.pending dueInstructions dueTimers := by
  unfold next? at h
  cases tick <;> simp only [issue, pending] <;> grind

/-- Issues due ticks to a receiver with a state, until none is left or the receiver answers that it
wants no more. -/
def replay (dueInstructions dueTimers : Nat) (receive : Tick → σ → Bool × σ) (c : Clock α) (s : σ) :
    Clock α × σ :=
  match _h : c.next? dueInstructions dueTimers with
  | none => (c, s)
  | some tick =>
    match receive tick s with
    | (true, s) => replay dueInstructions dueTimers receive (c.issue tick) s
    | (false, s) => (c.issue tick, s)
termination_by c.pending dueInstructions dueTimers
decreasing_by exact pending_issue_lt _h

/-- Lets time pass, and issues what has come due. A span that is not positive changes nothing. -/
def advance (c : Clock α) (ms : α) (receive : Tick → σ → Bool × σ) (s : σ) : Clock α × σ :=
  if lt (ofNat 0) ms then
    let c := { c with elapsed := c.elapsed + ms }
    c.replay (due c.elapsed c.instructionHz) (due c.elapsed c.timerHz) receive s
  else (c, s)

/-- The milliseconds between two ticks at a rate. -/
def period (hz : α) : α := ofNat 1000 / hz

def timerPeriod (c : Clock α) : α := period c.timerHz

end Clock

end Chip8
