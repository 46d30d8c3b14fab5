import Chip8.Command.Surroundings
import Chip8.Entropy
import Chip8.Keypad.Script
import Chip8.Screen.Recorder
import Chip8.Session.Realtime
import Chip8.Settings

/-!
# Running a program

The command that runs a program, for a number of frames or against the wall clock, and then shows
the screen or writes it to a file. It has four parts: `Plan.make?` reads arguments and environment,
`Plan.start?` sets up a session with the program, `headless` or a loop of slices runs it, and
`finish` reports. Bad arguments, a bad setting and an unreadable program end the command with exit
code one, a fault with two.
-/

namespace Chip8.Command.Run

def usage : String :=
  "Usage: npm start -- --rom=path/to/game.ch8 [--ips=600] [--frames=600] [--realtime=0|1] " ++
  "[--out=screen.png] [--scale=8] [--keys=tick:key[:hold],...] [--bell=0|1] [--dump=0|1] " ++
  "[--trace=N] [--addiVf=0|1] [--onFault=halt|throw]"

def exitOk : Nat := 0
def exitRefused : Nat := 1
def exitFault : Nat := 2

/-! ## Arguments -/

/-- What the arguments and the environment ask for. -/
structure Plan where
  programPath : String
  settings : Settings Float
  keys : List KeyEvent
  realtime : Bool
  /-- The number of timer periods to run for, rounded up where it is used. -/
  frames : Float
  scale : Float
  /-- Where the screen is written, if not to the terminal. -/
  picturePath : Option String
  bell : Bool
  dump : Bool

/-- Why the arguments cannot be carried out. -/
inductive PlanError
  | noProgram
  | settings (e : SettingsError)
  | keys (e : KeyScriptError)

def PlanError.lines : PlanError → List Line
  | noProgram => [⟨.error, usage⟩]
  | settings e => [⟨.error, "[run] " ++ e.message⟩, ⟨.error, usage⟩]
  | keys e => [⟨.error, "[run] " ++ e.message⟩, ⟨.error, usage⟩]

/-- A number of at least one as it is given, or the fallback. -/
def atLeastOne (raw : Option String) (fallback : Float) : Float :=
  match raw.bind fun s => Text.numeral? s.toList with
  | some x => if x.isFinite then Quantity.atLeast 1 x else fallback
  | none => fallback

/-- A path, if it is not empty. -/
def path? (raw : Option String) : Option String := raw.filter (· ≠ "")

namespace Plan

/-- The plan that arguments and environment make. -/
def make? (args : Arguments) (env : String → Option String) : Except PlanError Plan :=
  let option := args.options.get?
  match path? (option "rom" <|> args.positionals.head? <|> env "CHIP8_ROM") with
  | none => .error .noProgram
  | some programPath =>
    match Settings.resolve env args.options, KeyScript.parse? ((option "keys").getD "").toList with
    | .error e, _ => .error (.settings e)
    | .ok _, .error e => .error (.keys e)
    | .ok settings, .ok entries =>
      let realtime := Settings.flag (option "realtime") false
      .ok {
        programPath, settings, realtime
        keys := entries.map (·.event)
        frames := atLeastOne (option "frames") 600
        scale := atLeastOne (option "scale") 8
        picturePath := path? (option "out")
        bell := Settings.flag (option "bell") realtime
        dump := Settings.flag (option "dump") false }

/-- The number of timer periods that a headless run makes. -/
def periods (plan : Plan) : Nat :=
  match Number.ofFloat plan.frames with
  | .finite q => q.ceil.toNat
  | _ => 0

def banner (plan : Plan) (size : Nat) : String :=
  "[run] ROM: " ++ plan.programPath ++ " (" ++ Text.decimal size ++ " bytes)  ips="
    ++ Text.floatText plan.settings.instructionHz ++ "  timerHz=" ++
      Text.floatText plan.settings.timerHz
    ++ "  realtime=" ++ (if plan.realtime then "true" else "false") ++ "  frames="
    ++ (if plan.realtime then "unbounded" else Text.floatText plan.frames)

end Plan

/-! ## The session and its host -/

/-- The host of the session: the scripted keys, the last frame, and a random source. -/
structure Player (ρ : Type) where
  keypad : Keypad
  recorder : FrameRecorder
  random : ρ

/-- The host's answers, given how the random source makes a byte. -/
def host {ρ : Type} (draw : ρ → UInt8 × ρ) : Host (Player ρ) where
  poll := some fun s => let (poll, keypad) := s.keypad.poll; (poll, { s with keypad })
  present := some fun screen s =>
    let (quit, recorder) := s.recorder.present screen.frame
    (quit, { s with recorder })
  entropy s := let (byte, random) := draw s.random; (byte, { s with random })

/-- The line about an error that nothing in the command expects. -/
def unhandled (kind message : String) : String :=
  "[run] Unhandled error: " ++ kind ++ ": " ++ message

/-- Why a session with a valid plan and program cannot be set up. -/
inductive StartError
  | program (e : ProgramError)
  | keys (e : KeyError)
  | setup (e : SetupError Float)

/-- What is printed about a session that cannot be set up, and the exit code. -/
def StartError.result (before : List Line) : StartError → Result
  | program e => ⟨exitRefused, [⟨.error, "[run] " ++ e.message⟩], none⟩
  | keys e => ⟨exitFault, before ++ [⟨.error, unhandled "RangeError" e.message⟩], none⟩
  | setup (.program e) => ⟨exitFault, before ++ [⟨.error, unhandled "RangeError" e.message⟩], none⟩
  | setup (.clock e) => ⟨exitFault, before ++ [⟨.error, unhandled "RangeError" e.message⟩], none⟩

/-- A session with what has been printed in it. -/
structure Stage (ρ : Type) where
  play : Play (Player ρ) Float
  terminal : Terminal

namespace Stage

variable {ρ : Type}

/-- Shows what happened since the last time. -/
def flush (s : Stage ρ) : Stage ρ where
  play := { s.play with journal := #[] }
  terminal := s.play.journal.foldl Terminal.take s.terminal

end Stage

/-- Sets up a session with a program. -/
def start {ρ : Type} (plan : Plan) (program : List UInt8) (random : ρ) :
    Except StartError (Stage ρ) :=
  match Keypad.create? plan.keys (.infinite false), Session.ofProgram? program plan.settings with
  | .error e, _ => .error (.keys e)
  | .ok _, .error e => .error (.setup e)
  | .ok keypad, .ok session =>
    let terminal := (Terminal.new plan.bell).print [⟨.log, plan.banner program.length⟩]
    .ok ⟨.new session ⟨keypad, .new (.infinite false), random⟩, terminal⟩

/-! ## Running -/

/-- How the running part of a command ended. -/
inductive Ending
  | halted (reason : HaltReason)
  | thrown (interruption : Interruption)

/-- Runs timer periods until so many are over or the session has halted. -/
def headless {ρ : Type} (h : Host (Player ρ)) : Nat → Stage ρ → Ending × Stage ρ
  | periods, s =>
    match s.play.session.haltReason? with
    | some reason => (.halted reason, s)
    | none =>
      match periods with
      | 0 => (.halted .userQuit, s)
      | periods + 1 =>
        let (thrown, play) := s.play.runFrame h
        let s := { s with play }.flush
        match thrown with
        | some i => (.thrown i, s)
        | none => headless h periods s

/-- Runs against the readings of a clock; nothing if they are used up before the session has
halted. -/
def realtime {ρ : Type} (h : Host (Player ρ)) (readings : List Float) (s : Stage ρ) :
    Option (Ending × Stage ρ) :=
  let (ending, play) := Realtime.run h id (Realtime.cap none) readings s.play
  let s := { s with play }.flush
  match ending with
  | .halted reason => some (.halted reason, s)
  | .thrown i => some (.thrown i, s)
  | .outOfReadings => none

/-! ## Reporting -/

def summary (session : Session Float) (frame : Frame) : String :=
  "[run] executed=" ++ Text.decimal session.executed ++ " frames=" ++ Text.decimal session.presented
    ++ " screen=" ++ frame.fingerprint

/-- The registers, what is wrong with them, and the program area as far as the program reaches. -/
def dumpLines (m : Machine) : List Line :=
  linesOn .log ((Report.registers m.snapshot).map ("[run] " ++ ·)) ++
  linesOn .warn (m.problems.map fun problem => "[run] invariant violated: " ++ problem.message) ++
  linesOn .log
    (Report.hexDump (m.memory.slice programStart m.programSize) programStart Report.rowWidth)

/-- The unknown words met, with their counts. -/
def unknownLines (unknowns : Tally UInt16) : List Line :=
  linesOn .log <| unknowns.ranking.map fun (w, count) =>
    "[run] unknown opcode " ++ Text.hexLower 4 w.toNat ++ " x" ++ Text.decimal count

/-- The exit code for the reason that a session stopped. -/
def exitCode : HaltReason → Nat
  | .userQuit => exitOk
  | .fault _ => exitFault

/-- The line about an interruption that reached the command. -/
def interruptionLine : Interruption → String
  | .fault f => "[run] " ++ f.headline
  | .lost => unhandled "TypeError" ProgramCounter.emptyMessage

/-- Reports how a session ended. -/
def finish {ρ : Type} (plan : Plan) (world : Surroundings) (ending : Ending) (s : Stage ρ) :
    Result :=
  let before := s.terminal.lines.toList
  match ending with
  | .thrown i => ⟨exitFault, before ++ [⟨.error, interruptionLine i⟩], none⟩
  | .halted reason =>
    let session := s.play.session
    let frame := s.play.host.recorder.last
    let before := before ++ [⟨.log, summary session frame⟩]
    let after :=
      (if plan.dump then dumpLines session.machine else []) ++
        unknownLines session.processor.unknowns
    match plan.picturePath with
    | none => ⟨exitCode reason, before ++ linesOn .log frame.picture ++ after, none⟩
    | some path =>
      -- The image is made before its file is created.
      let created := Image.create? frame (.ofFloat plan.scale) .white .black world.stores
      match created, world.files.create path with
      | .error e, _ => ⟨exitFault, before ++ [⟨.error, unhandled e.kind e.message⟩], none⟩
      | .ok _, .error e => ⟨exitFault, before ++ [⟨.error, unhandled e.kind e.message⟩], none⟩
      | .ok image, .ok () =>
        ⟨exitCode reason, before ++ ⟨.log, "[run] wrote " ++ path⟩ :: after, some (path, image)⟩

/-! ## The command -/

/-- Reads the arguments and the program, and sets up a session; or says at once how the command
ends. -/
def prepare {ρ : Type} (world : Surroundings) (random : ρ) : Except Result (Plan × Stage ρ) :=
  match Plan.make? (Arguments.parse world.args) world.env with
  | .error e => .error ⟨exitRefused, e.lines, none⟩
  | .ok plan =>
    match programOfFile plan.programPath (world.files.read plan.programPath) with
    | .error e => .error (StartError.result [] (.program e))
    | .ok program =>
      match start plan program random with
      | .error e => .error (e.result [⟨.log, plan.banner program.length⟩])
      | .ok stage => .ok (plan, stage)

/-- Runs the command with a random source and the readings of a clock; nothing if these are used up
before a session against the wall clock has halted. -/
def run {ρ : Type} (world : Surroundings) (draw : ρ → UInt8 × ρ) (random : ρ)
    (readings : List Float) :
    Option Result :=
  match prepare world random with
  | .error result => some result
  | .ok (plan, stage) =>
    let ended :=
      if plan.realtime then realtime (host draw) readings stage
      else some (headless (host draw) plan.periods stage)
    ended.map fun (ending, stage) => finish plan world ending stage

end Chip8.Command.Run
