import Chip8.Command.Disassemble
import Chip8.Command.Run
import Chip8.Image.Png

/-!
# The command line

`disasm` as the first argument lists a program; otherwise a program is run, with or without `run` in
front of its arguments.
-/

namespace Chip8.Main

open Command

/-- What a failed file operation says. -/
def fileError (path : String) : IO.Error → FileError
  | .noFileOrDirectory .. => .notFound (Text.whole path)
  | .inappropriateType .. => .isDirectory
  | e => .other (toString e)

def readBytes (path : String) : IO (Except FileError (List UInt8)) := do
  match checkPath path with
  | .error e => return .error e
  | .ok () =>
    try
      let bytes ← IO.FS.readBinFile (Text.plain path)
      return .ok bytes.toList
    catch e => return .error (fileError path e)

def writeBytes (path : String) (bytes : List UInt8) : IO (Except FileError Unit) := do
  match checkPath path with
  | .error e => return .error e
  | .ok () =>
    try
      IO.FS.writeBinFile (Text.plain path) ⟨bytes.toArray⟩
      return .ok ()
    catch e => return .error (fileError path e)

/-- The environment variables that the commands read. -/
def variableNames : List String :=
  let names := Settings.environmentNames
  ["CHIP8_ROM", names.instructionHz, names.timerHz, names.addIndexSetsFlag, names.traceEvery,
    names.faultMode]

def readEnv : IO (String → Option String) := do
  let values ← variableNames.filterMapM fun name => do
    return (← IO.getEnv name).map fun value => (name, Text.hold value)
  return fun name => values.lookup name

def printLine (line : Line) : IO Unit :=
  let text := Text.plain line.text
  match line.stream with
  | .log => IO.println text
  | .stdout => do
    IO.print text
    (← IO.getStdout).flush
  | .warn | .error => IO.eprintln text

def finishWith (result : Result) (printed : Nat) : IO UInt32 := do
  (result.lines.drop printed).forM printLine
  return result.exitCode.toUInt32

/-- A byte from a pseudo-random generator. -/
def drawByte (gen : StdGen) : UInt8 × StdGen :=
  let (n, gen) := randNat gen 0 255
  (UInt8.ofNat n, gen)

def milliseconds : IO Float := return Float.ofNat (← IO.monoMsNow)

/-- Prints the lines of a stage from a given one on. -/
def printFrom (printed : Nat) (s : Run.Stage StdGen) : IO Unit :=
  (s.terminal.lines.toList.drop printed).forM printLine

/-- Follows the wall clock until the session has halted, printing as it goes. -/
partial def follow (h : Host (Run.Player StdGen)) (cap last : Float) (s : Run.Stage StdGen) :
    IO (Run.Ending × Run.Stage StdGen) := do
  match s.play.session.haltReason? with
  | some reason => return (.halted reason, s)
  | none =>
    IO.sleep (UInt32.ofNat Realtime.standardSlice)
    let now ← milliseconds
    let (thrown, play) := Realtime.slice h cap last now s.play
    let printed := s.terminal.lines.size
    let s := { s with play }.flush
    printFrom printed s
    match thrown with
    | some i => return (.thrown i, s)
    | none => follow h cap now s

def runProgram (args : List String) : IO UInt32 := do
  let env ← readEnv
  let parsed := Arguments.parse args
  let contents ← match Run.Plan.make? parsed env with
    | .ok plan => readBytes plan.programPath
    | .error _ => pure (.ok [])
  let world (created : Except FileError Unit) : Surroundings :=
    { args, env, files := ⟨fun _ => contents, fun _ => created⟩ }
  match Run.prepare (world (.ok ())) (mkStdGen (← IO.rand 0 0x7FFFFFFF)) with
  | .error result => finishWith result 0
  | .ok (plan, stage) =>
    let h := Run.host drawByte
    let (ending, stage) ←
      if plan.realtime then do
        printFrom 0 stage
        follow h (Realtime.cap none) (← milliseconds) stage
      else pure (Run.headless h plan.periods stage)
    let printed := if plan.realtime then stage.terminal.lines.size else 0
    let created ← match plan.picturePath, ending with
      | some path, .halted _ => writeBytes path []
      | _, _ => pure (.ok ())
    let result := Run.finish plan (world created) ending stage
    match result.picture with
    | some (path, image) => discard (writeBytes path (Png.encode image))
    | none => pure ()
    finishWith result printed

def listProgram (args : List String) : IO UInt32 := do
  let parsed := Arguments.parse args
  let path := (parsed.options.get? "rom" <|> parsed.positionals.head?).getD ""
  let contents ← readBytes path
  let files : Files := ⟨fun _ => contents, fun _ => .ok ()⟩
  finishWith (Disassemble.run { args, env := fun _ => none, files }) 0

end Chip8.Main

def main (args : List String) : IO UInt32 :=
  match args.map Chip8.Text.hold with
  | "disasm" :: rest => Chip8.Main.listProgram rest
  | "run" :: rest => Chip8.Main.runProgram rest
  | args => Chip8.Main.runProgram args
