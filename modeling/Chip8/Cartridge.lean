import Chip8.Memory
import Chip8.Text.Quoted

/-!
# Program files

A program is copied verbatim to the program area, so a file is accepted when its bytes fit there. A
file that cannot be read is refused with the reason that the system gives.
-/

namespace Chip8

/-- Why a file cannot be opened or read. -/
inductive FileError
  | notFound (path : String)
  /-- A directory cannot be read as a file. -/
  | isDirectory
  /-- A directory cannot be opened for writing. -/
  | opensDirectory (path : String)
  /-- The path goes on after the name of a file. -/
  | notDirectory (path : String)
  | nameTooLong (path : String)
  /-- The path has a zero character, which no file system takes. -/
  | zeroCharacter (path : String)
  /-- Any other reason, in the system's words. -/
  | other (text : String)
deriving DecidableEq

def FileError.message : FileError → String
  | notFound path => "ENOENT: no such file or directory, open '" ++ path ++ "'"
  | isDirectory => "EISDIR: illegal operation on a directory, read"
  | opensDirectory path => "EISDIR: illegal operation on a directory, open '" ++ path ++ "'"
  | notDirectory path => "ENOTDIR: not a directory, open '" ++ path ++ "'"
  | nameTooLong path => "ENAMETOOLONG: name too long, open '" ++ path ++ "'"
  | zeroCharacter path =>
    "The argument 'path' must be a string, Uint8Array, or URL without null bytes. Received " ++
      Text.shown path
  | other text => text

/-- The kind of the error, as reports of unhandled errors begin with it. -/
def FileError.kind : FileError → String
  | zeroCharacter _ => "TypeError"
  | _ => "Error"

/-- Refuses a path with a zero character. -/
def checkPath (path : String) : Except FileError Unit :=
  if path.toList.contains '\x00' then .error (.zeroCharacter path) else .ok ()

/-- Why a program is refused. -/
inductive ProgramError
  | unreadable (path : String) (cause : FileError)
  | oversize (size : Nat)
deriving DecidableEq

def ProgramError.message : ProgramError → String
  | unreadable path cause => "cannot read ROM " ++ path ++ ": " ++ cause.message
  | oversize size =>
    "ROM is " ++ Counter.text size ++ " bytes; at most " ++ Text.decimal maxProgramSize ++
      " fit above 0x200"

/-- Refuses a program of a size that does not fit the program area. -/
def checkSize (size : Nat) : Except ProgramError Unit :=
  if maxProgramSize < size then .error (.oversize size) else .ok ()

/-- The bytes of a program, if they fit the program area. -/
def checkProgram (bytes : List UInt8) : Except ProgramError (List UInt8) := do
  checkSize bytes.length
  pure bytes

theorem checkProgram_of_le {bytes : List UInt8} (fits : bytes.length ≤ maxProgramSize) :
    checkProgram bytes = .ok bytes := by
  rw [checkProgram, checkSize, if_neg (by omega)]
  rfl

theorem checkProgram_of_lt {bytes : List UInt8} (big : maxProgramSize < bytes.length) :
    checkProgram bytes = .error (.oversize bytes.length) := by
  rw [checkProgram, checkSize, if_pos big]
  rfl

/-- The program in a file, given what reading the file gave. -/
def programOfFile (path : String) (contents : Except FileError (List UInt8)) :
    Except ProgramError (List UInt8) :=
  match contents with
  | .ok bytes => checkProgram bytes
  | .error cause => .error (.unreadable path cause)

end Chip8
