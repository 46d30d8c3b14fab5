import Chip8.Session

/-!
# Following the wall clock

A session follows the wall clock in slices: it sleeps, reads the clock, and lets as much time pass
as went by since the reading before, but never more than a cap, so that it catches up on a long
pause only in part.
-/

namespace Chip8

inductive RealtimeEnd
  | halted (reason : HaltReason)
  | thrown (interruption : Interruption)
  /-- The clock gave no more readings. -/
  | outOfReadings

namespace Realtime

open Quantity

variable {α : Type} [Quantity α] {σ : Type}

/-- Milliseconds slept in a slice, unless said otherwise. -/
def standardSlice : Nat := 1

/-- Milliseconds caught up on in a slice, unless said otherwise. -/
def standardCap : Nat := 250

/-- The pause of a slice: the one asked for, or none if that is negative. -/
def pause (asked : Option α) : α := atLeast (ofNat 0) (asked.getD (ofNat standardSlice))

/-- The cap of a slice: the one asked for, but one millisecond at least. -/
def cap (asked : Option α) : α := atLeast (ofNat 1) (asked.getD (ofNat standardCap))

/-- The time that passes in a slice between two readings. -/
def span (cap last now : α) : α := within cap (now - last)

/-- One slice: what went by between two readings passes. Answers what goes to the caller. -/
def slice (h : Host σ) (cap last now : α) (p : Play σ α) : Option Interruption × Play σ α :=
  p.advance h (span cap last now)

/-- Runs slices until the session has halted, a slice is cut short, or the clock gives no more
readings. `sleep` is what the host does in a pause. -/
def slices (h : Host σ) (sleep : σ → σ) (cap last : α) :
    List α → Play σ α → RealtimeEnd × Play σ α
  | readings, p =>
    match p.session.haltReason? with
    | some reason => (.halted reason, p)
    | none =>
      let p := { p with host := sleep p.host }
      match readings with
      | [] => (.outOfReadings, p)
      | now :: rest =>
        match slice h cap last now p with
        | (some i, p) => (.thrown i, p)
        | (none, p) => slices h sleep cap now rest p

/-- Runs a session against the readings of a clock, the first of which is the start. -/
def run (h : Host σ) (sleep : σ → σ) (cap : α) (readings : List α) (p : Play σ α) :
    RealtimeEnd × Play σ α :=
  match readings with
  | [] => (.outOfReadings, p)
  | start :: rest => slices h sleep cap start rest p

end Realtime

end Chip8
