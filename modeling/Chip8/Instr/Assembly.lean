import Chip8.Counter
import Chip8.Instr

/-!
# Assembly text

An instruction is written as a mnemonic and its operands. The shifts show only the register that
they change. Words outside the instruction set are written as data. A program is listed word by word
from its start; a byte left over at its end is listed as a byte.
-/

namespace Chip8

inductive Operand
  | reg (x : Reg)
  | byte (b : UInt8)
  | addr (a : Addr)
  | count (n : Fin 16)
  /-- A place with a name of its own, such as the delay timer. -/
  | named (name : String)
deriving DecidableEq

/-- A register is `V` and a digit, bytes and addresses are hexadecimal, counts decimal. -/
def Operand.text : Operand → String
  | reg x => "V" ++ Text.hexUpper 1 x
  | byte b => "0x" ++ Text.hexUpper 2 b.toNat
  | addr a => "0x" ++ Text.hexUpper 3 a
  | count n => Text.decimal n
  | named name => name

namespace Instr

open Operand

/-- The mnemonic and the operands of an instruction. -/
def parts : Instr → String × List Operand
  | clear => ("CLS", [])
  | ret => ("RET", [])
  | jump target => ("JP", [addr target])
  | call target => ("CALL", [addr target])
  | skipIfByte x b => ("SE", [reg x, byte b])
  | skipUnlessByte x b => ("SNE", [reg x, byte b])
  | skipIfSame x y => ("SE", [reg x, reg y])
  | setByte x b => ("LD", [reg x, byte b])
  | addByte x b => ("ADD", [reg x, byte b])
  | copy x y => ("LD", [reg x, reg y])
  | or x y => ("OR", [reg x, reg y])
  | and x y => ("AND", [reg x, reg y])
  | xor x y => ("XOR", [reg x, reg y])
  | add x y => ("ADD", [reg x, reg y])
  | sub x y => ("SUB", [reg x, reg y])
  | shiftRight x _ => ("SHR", [reg x])
  | subFrom x y => ("SUBN", [reg x, reg y])
  | shiftLeft x _ => ("SHL", [reg x])
  | skipUnlessSame x y => ("SNE", [reg x, reg y])
  | setIndex target => ("LD", [named "I", addr target])
  | jumpOffset base => ("JP", [reg offsetReg, addr base])
  | random x mask => ("RND", [reg x, byte mask])
  | draw x y height => ("DRW", [reg x, reg y, count height])
  | skipIfKey x => ("SKP", [reg x])
  | skipUnlessKey x => ("SKNP", [reg x])
  | getDelay x => ("LD", [reg x, named "DT"])
  | waitKey x => ("LD", [reg x, named "K"])
  | setDelay x => ("LD", [named "DT", reg x])
  | setSound x => ("LD", [named "ST", reg x])
  | addIndex x => ("ADD", [named "I", reg x])
  | glyph x => ("LD", [named "F", reg x])
  | storeDigits x => ("LD", [named "B", reg x])
  | saveRegs x => ("LD", [named "[I]", reg x])
  | loadRegs x => ("LD", [reg x, named "[I]"])

def text (i : Instr) : String :=
  match i.parts with
  | (mnemonic, []) => mnemonic
  | (mnemonic, operands) => mnemonic ++ " " ++ String.intercalate ", " (operands.map Operand.text)

end Instr

/-- The four digits of a word. -/
def Word.text (w : UInt16) : String := Text.hexUpper 4 w.toNat

/-- The assembly text of a word; data if it is no instruction. -/
def Word.assembly (w : UInt16) : String :=
  match Instr.ofWord? w with
  | some i => i.text
  | none => "DW 0x" ++ Word.text w

/-! ## Listings -/

/-- A line of a listing: where the code stands, its one or two bytes as a number, and its text. -/
structure ListingLine where
  address : Int
  code : UInt16
  text : String
deriving DecidableEq

/-- The listing of the part of a program that begins at an offset from its `origin`. -/
def listingFrom (origin : Int) (offset : Nat) : List UInt8 → List ListingLine
  | [] => []
  | [last] => [⟨Counter.add origin offset, last.toUInt16, "DB 0x" ++ Text.hexUpper 2 last.toNat⟩]
  | high :: low :: rest =>
    let w := UInt16.ofNat (high.toNat * 256 + low.toNat)
    ⟨Counter.add origin offset, w, Word.assembly w⟩ :: listingFrom origin (offset + 2) rest

/-- The listing of a program whose first byte is at `origin`. -/
def listing (origin : Int) (program : List UInt8) : List ListingLine := listingFrom origin 0 program

end Chip8
