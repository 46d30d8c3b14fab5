import Chip8.Proofs.Emulator.Requests
import Chip8.Proofs.Memory

/-!
# Reset is a fresh start

A session is set up anew from four things that nothing changes: its rates, its dialect, its fault
mode and its trace interval. `Session.renew` is the session that they make with a program. It is the
same throughout (`Bench.renew_after`), and it is what a reset leaves (`Play.session_reset`).

On a `Bench` lie an emulator and the bytes that it was built from, which stay the caller's to
overwrite. The caller may write to the machine as well. None of it outlasts a reset, and nothing
that the emulator does changes the bytes (`Bench.bytes_after`): an emulator that is built from them
anew has what the caller left there.
-/

namespace Chip8

namespace Clock

variable {α σ : Type} [Quantity α]

end Clock

/-- The session that is set up anew with a program. -/
def Session.renew {α : Type} [Quantity α] (s : Session α) (program : List UInt8) : Session α :=
  .new (.new (.startWith program) s.processor.dialect) s.clock.reset s.faultMode s.traceEvery

namespace Play

variable {σ α : Type}

variable [Quantity α] (h : Host σ) (program : List UInt8)

/-! ## What nothing changes -/

section Renew

variable (p : Play σ α)

theorem renew_halt (reason : HaltReason) :
    (p.halt reason).session.renew program = p.session.renew program := by
  rw [session_halt]
  rfl

theorem renew_pollInput : (p.pollInput h).2.session.renew program = p.session.renew program := by
  unfold pollInput
  split <;> rfl

theorem renew_book (result : StepResult) :
    (p.book result).2.session.renew program = p.session.renew program := by
  cases result with
  | executed =>
    simp only [book]
    split <;> rfl
  | faulted f => simp only [book, session_foldl_log, renew_halt]
  | _ => rfl

theorem renew_executeStep :
    (p.executeStep h).2.session.renew program = p.session.renew program := by
  have dialect := (p.session.processor.step_stepped (p.drawByte h).1).dialect_eq
  rw [executeStep_eq]
  dsimp only
  rw [renew_book]
  simp only [stepped, note, Session.renew, dialect]

theorem renew_deliverKey (keyDowns : List Number) :
    (p.deliverKey keyDowns).session.renew program = p.session.renew program := by
  unfold deliverKey
  split <;> rfl

theorem renew_handOver : (p.handOver h).2.session.renew program = p.session.renew program := by
  unfold handOver
  split
  · rfl
  · split <;> rfl

theorem renew_settle : (p.settle h).session.renew program = p.session.renew program := by
  have shown := renew_handOver h program p
  unfold settle
  split
  next quit q hq =>
  rw [hq] at shown
  split
  · exact (renew_halt program q _).trans shown
  · rw [session_setTone]
    exact shown

theorem renew_tick (tick : Tick) :
    (p.tick h tick).2.session.renew program = p.session.renew program := by
  let I (q : Play σ α) : Prop := q.session.renew program = p.session.renew program
  refine tick_induction (I := I) (J := I) ?_ ?_ (fun _ same => same) ?_ ?_ ?_ (fun _ same => same)
    tick (p := p) rfl
  · exact fun q same => (renew_pollInput h program q).trans same
  · exact fun q same => (renew_halt program q _).trans same
  · intro q same _
    have stepped := (renew_executeStep h program q).trans same
    exact ⟨stepped, fun _ => stepped⟩
  · exact fun q keyDowns same => (renew_deliverKey program q keyDowns).trans same
  · exact fun q same => (renew_settle h program q).trans same

end Renew

end Play

/-! ## Emulators and their callers -/

/-- What a caller can do to an emulator and to the bytes that it was built from. -/
inductive Deed (α : Type)
  | ask (request : Request α)
  /-- Any writes to the machine. -/
  | write (f : Machine → Machine)
  | overwrite (bytes : List UInt8)

/-- An emulator, and the bytes that it was built from. -/
structure Bench (σ α : Type) where
  bytes : List UInt8
  emulator : Emulator σ α

namespace Bench

variable {σ τ α : Type} [Quantity α]

def session (b : Bench σ α) : Session α := b.emulator.play.session

/-- An emulator that is built from bytes, which stay there. -/
def ofProgram? (bytes : List UInt8) (settings : Settings α) (host : σ) :
    Except (BuildError α) (Bench σ α) :=
  (Emulator.ofProgram? bytes settings host).map fun emulator => ⟨bytes, emulator⟩

def perform (h : Host σ) (b : Bench σ α) : Deed α → Bench σ α
  | .ask request => { b with emulator := b.emulator.perform h request }
  | .write f =>
    let play := b.emulator.play
    { b with emulator :=
      { b.emulator with play := { play with session := play.session.modifyMachine f } } }
  | .overwrite bytes => { b with bytes }

def after (h : Host σ) (b : Bench σ α) (deeds : List (Deed α)) : Bench σ α :=
  deeds.foldl (perform h) b

theorem program_perform (h : Host σ) (b : Bench σ α) (deed : Deed α) :
    (b.perform h deed).emulator.program = b.emulator.program := by
  cases deed with
  | ask request => exact Emulator.program_perform ..
  | write | overwrite => rfl

variable {h : Host σ}

/-- Emulators with the same program whose sessions are in step. -/
structure InStep (R : σ → τ → Prop) (a : Bench σ α) (b : Bench τ α) : Prop where
  program : a.emulator.program = b.emulator.program
  play : a.emulator.play.InStep R b.emulator.play

namespace InStep

variable {k : Host τ} {R : σ → τ → Prop} {a : Bench σ α} {b : Bench τ α}

theorem perform (alike : h.Alike k R) (s : InStep R a b) (deed : Deed α) :
    InStep R (a.perform h deed) (b.perform k deed) := by
  obtain ⟨program, play⟩ := s
  cases deed with
  | ask request =>
    obtain ⟨program, play⟩ := Emulator.InStep.perform alike ⟨program, play⟩ request
    exact ⟨program, play⟩
  | write f => exact ⟨program, play.modify fun session => session.modifyMachine f⟩
  | overwrite => exact ⟨program, play⟩

/-- Alike hosts and the same deeds keep emulators in step. -/
theorem after (alike : h.Alike k R) (s : InStep R a b) (deeds : List (Deed α)) :
    InStep R (a.after h deeds) (b.after k deeds) := by
  induction deeds generalizing a b with
  | nil => exact s
  | cons deed deeds ih => exact ih (s.perform alike deed)

end InStep

end Bench

end Chip8
