import Chip8.Options
import Chip8.Session
import Chip8.Text.Numeral

/-!
# Settings

A session is set up from the environment and then from the command line, each layer over the one
before. A rate that is missing or blank, and any other setting that cannot be read, leaves the value
of the layer below; a rate that can be read but is not a positive number is an error.
-/

namespace Chip8

/-- How a session is set up. -/
structure Settings (α : Type) where
  instructionHz : α
  timerHz : α
  dialect : Dialect
  /-- The trace interval before it is cut down to 32 bits. -/
  traceEvery : Nat
  faultMode : FaultMode

/-- A rate that is not a positive number. -/
structure SettingsError where
  name : String
  raw : String
deriving DecidableEq

def SettingsError.message (e : SettingsError) : String :=
  e.name ++ " must be a positive number, got " ++ e.raw

namespace Settings

open Text

def standard : Settings Float where
  instructionHz := 600
  timerHz := 60
  dialect := .standard
  traceEvery := 0
  faultMode := .halt

/-- The value of a flag in any of its spellings, blanks and case aside. -/
def flag? (cs : List Char) : Option Bool :=
  let word := (trim cs).map Char.toLower
  if ["1", "true", "yes", "on"].any (·.toList = word) then some true
  else if ["0", "false", "no", "off"].any (·.toList = word) then some false
  else none

/-- A flag as it is given, or the fallback. -/
def flag (raw : Option String) (fallback : Bool) : Bool :=
  (raw.bind fun s => flag? s.toList).getD fallback

/-- Is the number finite and positive? -/
def isRate (x : Float) : Bool := Quantity.lt (Quantity.ofNat 0) x && x.isFinite

/-- A rate as it is given, or the fallback. -/
def rate (name : String) (raw : Option String) (fallback : Float) : Except SettingsError Float :=
  match raw with
  | none => .ok fallback
  | some s =>
    if trim s.toList = [] then .ok fallback
    else
      match numeral? s.toList with
      | some x => if isRate x then .ok x else .error ⟨name, s⟩
      | none => .error ⟨name, s⟩

/-- The numeral in a text, if it is finite. -/
def finite? (s : String) : Option Rat :=
  match (numeral? s.toList).map Number.ofFloat with
  | some (.finite q) => some q
  | _ => none

/-- A trace interval as it is given, or the fallback. -/
def trace (raw : Option String) (fallback : Nat) : Nat :=
  match raw.bind finite? with
  | some q => q.floor.toNat
  | none => fallback

/-- A fault mode as it is given, or the fallback. -/
def mode (raw : Option String) (fallback : FaultMode) : FaultMode :=
  match raw with
  | some "halt" => .halt
  | some "throw" => .throw
  | _ => fallback

/-- The names that a layer has for the settings. -/
structure Names where
  instructionHz : String
  timerHz : String
  addIndexSetsFlag : String
  traceEvery : String
  faultMode : String

def environmentNames : Names where
  instructionHz := "CHIP8_IPS"
  timerHz := "CHIP8_TIMER_HZ"
  addIndexSetsFlag := "CHIP8_ADDI_VF"
  traceEvery := "CHIP8_TRACE"
  faultMode := "CHIP8_ON_FAULT"

def optionNames : Names where
  instructionHz := "ips"
  timerHz := "timerHz"
  addIndexSetsFlag := "addiVf"
  traceEvery := "trace"
  faultMode := "onFault"

/-- Settings with a layer of values over them. -/
def layer (base : Settings Float) (names : Names) (value : String → Option String) :
    Except SettingsError (Settings Float) := do
  let instructionHz ← rate names.instructionHz (value names.instructionHz) base.instructionHz
  let timerHz ← rate names.timerHz (value names.timerHz) base.timerHz
  pure {
    instructionHz, timerHz
    dialect := ⟨flag (value names.addIndexSetsFlag) base.dialect.addIndexSetsFlag⟩
    traceEvery := trace (value names.traceEvery) base.traceEvery
    faultMode := mode (value names.faultMode) base.faultMode }

/-- The standard settings under the environment. -/
def ofVariables (env : String → Option String) : Except SettingsError (Settings Float) :=
  layer standard environmentNames env

def withOptions (base : Settings Float) (options : Options) :
    Except SettingsError (Settings Float) :=
  layer base optionNames options.get?

/-- The settings that the environment and then the command line make. -/
def resolve (env : String → Option String) (options : Options) :
    Except SettingsError (Settings Float) := do
  (← ofVariables env).withOptions options

end Settings

/-! ## Setting up -/

inductive SetupError (α : Type)
  | program (e : LoadError)
  | clock (e : ClockError α)

/-- A session with a program, set up by settings. -/
def Session.ofProgram? {α : Type} [Quantity α] (program : List UInt8) (settings : Settings α) :
    Except (SetupError α) (Session α) :=
  match Machine.start.loadProgram program,
  Clock.create? settings.instructionHz settings.timerHz with
  | .error e, _ => .error (.program e)
  | .ok _, .error e => .error (.clock e)
  | .ok machine, .ok clock =>
    let every := traceInterval (.ofNat settings.traceEvery)
    .ok (.new (.new machine settings.dialect) clock settings.faultMode every)

/-- A session is set up exactly when the program fits and the clock accepts the rates. -/
theorem Session.ofProgram?_eq_ok_iff {α : Type} [Quantity α] {program : List UInt8}
    {settings : Settings α} {s : Session α} :
    Session.ofProgram? program settings = .ok s ↔
      program.length ≤ maxProgramSize ∧
      ∃ clock, Clock.create? settings.instructionHz settings.timerHz = .ok clock ∧
        s = .new (.new (.startWith program) settings.dialect) clock settings.faultMode
          (traceInterval (.ofNat settings.traceEvery)) := by
  unfold ofProgram?
  rw [Machine.loadProgram_start]
  by_cases fits : program.length ≤ maxProgramSize
  · rw [if_neg (by omega)]
    cases Clock.create? settings.instructionHz settings.timerHz <;> simp [fits, eq_comm]
  · simp [fits, show maxProgramSize < program.length by omega]

end Chip8
