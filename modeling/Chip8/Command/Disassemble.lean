import Chip8.Command.Surroundings
import Chip8.Instr.Assembly

/-!
# Listing a program

The command that prints the listing of a program file.
-/

namespace Chip8.Command.Disassemble

def usage : String := "Usage: npm run disasm -- --rom=path/to/game.ch8"

/-- A line of a listing as it is printed. -/
def lineText (line : ListingLine) : String :=
  Text.hexUpper 3 line.address ++ ": " ++ Word.text line.code ++ "  " ++ line.text

def run (world : Surroundings) : Result :=
  let args := Arguments.parse world.args
  match (args.options.get? "rom" <|> args.positionals.head?).filter (· ≠ "") with
  | none => ⟨1, [⟨.error, usage⟩], none⟩
  | some path =>
    match programOfFile path (world.files.read path) with
    | .error e => ⟨1, [⟨.error, "[disasm] " ++ e.message⟩], none⟩
    | .ok program => ⟨0, linesOn .log ((listing programStart program).map lineText), none⟩

end Chip8.Command.Disassemble
