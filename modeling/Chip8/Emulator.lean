import Chip8.Cartridge
import Chip8.Settings

/-!
# Emulators

An emulator is a session in progress together with the program that it was built with. It has a copy
of the program of its own, so it can begin again whatever became of the bytes that it was given.
-/

namespace Chip8

/-- Why an emulator cannot be built. -/
inductive BuildError (α : Type)
  | program (e : ProgramError)
  | setup (e : SetupError α)

structure Emulator (σ α : Type) where
  play : Play σ α
  program : List UInt8

namespace Emulator

variable {σ α : Type} [Quantity α]

/-- An emulator for a program that fits, with a host in the given state. -/
def ofProgram? (bytes : List UInt8) (settings : Settings α) (host : σ) :
    Except (BuildError α) (Emulator σ α) :=
  match checkProgram bytes with
  | .error e => .error (.program e)
  | .ok program =>
    match Session.ofProgram? program settings with
    | .error e => .error (.setup e)
    | .ok session => .ok ⟨.new session host, program⟩

/-- Begins again with the program. -/
def reset (e : Emulator σ α) : Emulator σ α := { e with play := e.play.reset e.program }

theorem ofProgram?_eq_ok_iff {bytes : List UInt8} {settings : Settings α} {host : σ}
    {e : Emulator σ α} :
    ofProgram? bytes settings host = .ok e ↔
      ∃ s, Session.ofProgram? bytes settings = .ok s ∧ e = ⟨.new s host, bytes⟩ := by
  rcases Nat.lt_or_ge maxProgramSize bytes.length with big | fits
  · have refused (s : Session α) : Session.ofProgram? bytes settings ≠ .ok s := by
      intro set
      have := (Session.ofProgram?_eq_ok_iff.1 set).1
      omega
    rw [ofProgram?, checkProgram_of_lt big]
    exact iff_of_false nofun fun ⟨s, set, _⟩ => refused s set
  · rw [ofProgram?, checkProgram_of_le fits]
    cases set : Session.ofProgram? bytes settings <;> simp [set, eq_comm]

end Emulator

end Chip8
