import Chip8.Emulator
import Chip8.Proofs.Session.Alike
import Chip8.Proofs.Session.Sound

/-!
# What is asked of an emulator

A caller of an emulator lets single ticks happen, lets time or one frame pass, and begins again with
the machine as it is or with the program. `Emulator.after` is the emulator after a list of such
requests, whatever they gave the caller. What every tick and both ways to begin again keep, every
list of requests keeps (`Emulator.after_induction`).
-/

namespace Chip8

inductive Request (α : Type)
  | call (call : Call α)
  | frame
  /-- To begin again with the machine as it is. -/
  | restart
  /-- To begin again with the program. -/
  | reset

namespace Emulator

variable {σ α : Type} [Quantity α] {h : Host σ}

def perform (h : Host σ) (e : Emulator σ α) : Request α → Emulator σ α
  | .call call => { e with play := (e.play.perform h call).2 }
  | .frame => { e with play := (e.play.runFrame h).2 }
  | .restart => { e with play := e.play.restart }
  | .reset => e.reset

def after (h : Host σ) (e : Emulator σ α) (requests : List (Request α)) : Emulator σ α :=
  requests.foldl (perform h) e

theorem program_perform (e : Emulator σ α) (request : Request α) :
    (e.perform h request).program = e.program := by
  cases request <;> rfl

theorem after_induction {I : Play σ α → Prop} {program : List UInt8}
    (tick : ∀ p t, I p → I (p.tick h t).2)
    (clock : ∀ p clock, I p → I { p with session := { p.session with clock } })
      (restart : ∀ p, I p → I p.restart) (reset : ∀ p, I p → I (p.reset program))
        (requests : List (Request α))
    {e : Emulator σ α} (copy : e.program = program) (he : I e.play) :
        I (e.after h requests).play := by
  induction requests generalizing e with
  | nil => exact he
  | cons request requests ih =>
    refine ih ((program_perform e request).trans copy) ?_
    cases request with
    | call call => exact Play.after_induction tick clock [call] he
    | frame => exact Play.after_induction tick clock [.advance e.play.session.clock.timerPeriod] he
    | restart => exact restart _ he
    | reset =>
      change I (e.play.reset e.program)
      rw [copy]
      exact reset _ he

/-- Emulators with the same program whose sessions are in step. -/
structure InStep {σ τ α : Type} (R : σ → τ → Prop) (a : Emulator σ α) (b : Emulator τ α) :
    Prop where
  program : a.program = b.program
  play : a.play.InStep R b.play

namespace InStep

variable {τ : Type} {k : Host τ} {R : σ → τ → Prop} {a : Emulator σ α} {b : Emulator τ α}

theorem perform (alike : h.Alike k R) (s : InStep R a b) (request : Request α) :
    InStep R (a.perform h request) (b.perform k request) := by
  obtain ⟨program, play⟩ := s
  refine ⟨by rw [program_perform, program_perform, program], ?_⟩
  cases request with
  | call call => exact (play.perform alike call).2
  | frame => exact (play.runFrame alike).2
  | restart => exact play.restart
  | reset =>
    change Play.InStep R (a.play.reset a.program) (b.play.reset b.program)
    rw [program]
    exact play.reset _

theorem after (alike : h.Alike k R) (s : InStep R a b) (requests : List (Request α)) :
    InStep R (a.after h requests) (b.after k requests) := by
  induction requests generalizing a b with
  | nil => exact s
  | cons request requests ih => exact ih (s.perform alike request)

end InStep

end Emulator

/-- To begin again leaves a sound machine sound, and ends every wait. -/
theorem SoundAt.restart {σ α : Type} [Quantity α] {p : Play σ α} (sound : SoundAt p.session.core) :
    SoundAt p.restart.session.core := by
  unfold Play.restart
  rw [Play.core_setTone]
  exact ⟨sound.machine, nofun⟩

theorem SoundAt.reset {σ α : Type} [Quantity α] (p : Play σ α) (program : List UInt8) :
    SoundAt (p.reset program).session.core := by
  unfold Play.reset Play.restart
  rw [Play.core_setTone]
  exact ⟨Machine.Sound.startWith program, nofun⟩

/-- The plays that an emulator can come to, whatever is asked of it. -/
def Play.Reachable {σ α : Type} [Quantity α] (h : Host σ) (p : Play σ α) : Prop :=
  ∃ bytes settings host, ∃ e : Emulator σ α, ∃ requests,
    Emulator.ofProgram? bytes settings host = .ok e ∧ p = (e.after h requests).play

namespace Play.Reachable

variable {σ α : Type} [Quantity α] {h : Host σ} {p : Play σ α}

/-- What a session starts with, and every tick and both ways to begin again keep, holds whatever is
asked. -/
theorem keeps {I : Play σ α → Prop}
    (start : ∀ {bytes settings s}, Session.ofProgram? bytes settings = .ok s →
      ∀ host, I (.new s host))
    (tick : ∀ p t, I p → I (p.tick h t).2)
    (clock : ∀ p clock, I p → I { p with session := { p.session with clock } })
    (restart : ∀ p, I p → I p.restart) (reset : ∀ p program, I p → I (p.reset program))
      (reachable : p.Reachable h) :
    I p := by
  obtain ⟨bytes, settings, host, e, requests, built, rfl⟩ := reachable
  obtain ⟨s, set, rfl⟩ := Emulator.ofProgram?_eq_ok_iff.1 built
  exact Emulator.after_induction tick clock restart (fun p => reset p bytes) requests rfl
    (start set host)

theorem soundAt (reachable : p.Reachable h) : SoundAt p.session.core := by
  refine reachable.keeps (I := fun p => SoundAt p.session.core)
    (fun set host => soundAt_after set h host [])
    (fun p t sound => ?_) (fun _ _ sound => sound) (fun p sound => sound.restart) fun p program _ =>
      .reset p program
  exact changes_keep SoundAt.change (tick_changes h t) sound

end Play.Reachable

end Chip8
