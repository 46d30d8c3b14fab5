import Chip8.Cartridge
import Chip8.Image
import Chip8.Options
import Chip8.Session
import Chip8.Tone

/-!
# What a command sees and says

A command is given its arguments, the environment, the files it may use and the memory for an image,
and answers an exit code, the lines that it printed, and the picture that it wrote.
-/

namespace Chip8.Command

/-- Where a line goes. -/
inductive Stream
  | log
  | warn
  | error
  /-- Written as it is, without a line end. -/
  | stdout
deriving DecidableEq

structure Line where
  stream : Stream
  text : String
deriving DecidableEq

structure Files where
  read : String → Except FileError (List UInt8)
  /-- Can a file be created under this path? -/
  create : String → Except FileError Unit

/-- What a command is started with. -/
structure Surroundings where
  args : List String
  env : String → Option String
  files : Files
  /-- Where the bytes of a picture are stored. -/
  stores : Image.Stores := .standard

structure Result where
  exitCode : Nat
  lines : List Line
  /-- The picture written, and the path of its file. -/
  picture : Option (String × Image)

/-- Lines on one stream. -/
def linesOn (stream : Stream) (texts : List String) : List Line := texts.map (⟨stream, ·⟩)

/-- The stream for log lines of a level. -/
def streamOf : Level → Stream
  | .info => .log
  | .warn => .warn
  | .error => .error

/-- What has been printed in a session, and the bell if there is one. -/
structure Terminal where
  bell : Option Bell
  lines : Array Line

namespace Terminal

def new (withBell : Bool) : Terminal := ⟨if withBell then some .silent else none, #[]⟩

def print (t : Terminal) (lines : List Line) : Terminal := { t with lines := t.lines ++ lines }

/-- Shows one event of a session: log lines are printed, and the bell rings when the tone comes
on. -/
def take (t : Terminal) : Event → Terminal
  | .logged level line => t.print [⟨streamOf level, line⟩]
  | .tone on =>
    match t.bell with
    | none => t
    | some bell =>
      let (rings, bell) := bell.signal on
      { t with bell := some bell }.print (if rings then [⟨.stdout, Bell.sound⟩] else [])
  | _ => t

end Terminal

end Chip8.Command
