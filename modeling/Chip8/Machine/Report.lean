import Chip8.Instr.Assembly
import Chip8.Machine.Fault

/-!
# Reports

The lines in which registers, memory, faults and executed instructions are shown.
-/

namespace Chip8

namespace Report

open Text

/-- Two upper-case hexadecimal digits for a byte. -/
def byteText (b : UInt8) : String := hexUpper 2 b.toNat

/-- The registers and the used part of the stack, in four lines. -/
def registers (s : Snapshot) : List String :=
  let regs := s.v.zipIdx.map fun (value, n) => "V" ++ hexUpper 1 n ++ "=" ++ hexUpper 2 value
  ["PC=" ++ s.pc.hexUpper 3 ++ " SP=" ++ Counter.text s.sp ++ " I=" ++ hexUpper 3 s.i ++ " DT=" ++
    hexUpper 2 s.dt
      ++ " ST=" ++ hexUpper 2 s.st,
    "Stack: [" ++ joinBlank (s.stack.map (hexUpper 3)) ++ "]",
    joinBlank (regs.take 8),
    joinBlank (regs.drop 8)]

/-- Rows of `width + 1` bytes, the last one with what is left. -/
def chunks (width : Nat) : List UInt8 → List (List UInt8)
  | [] => []
  | b :: rest => (b :: rest.take width) :: chunks width (rest.drop width)
termination_by bytes => bytes.length
decreasing_by simp only [List.length_drop, List.length_cons]; omega

/-- A row of a dump: its address and its bytes. -/
def dumpRow (address : Int) (row : List UInt8) : String :=
  hexUpper 3 address ++ ": " ++ joinBlank (row.map byteText)

/-- A dump of bytes, `width` to a row, each row behind the address of its first byte. -/
def hexDump (bytes : List UInt8) (origin : Int) (width : Nat) : List String :=
  (chunks (width - 1) bytes).zipIdx.map fun (row, n) =>
    dumpRow (Counter.add origin (n * width : Nat)) row

def rowWidth : Nat := 16

/-- A fault in words, in six lines. -/
def fault (n : Notice) : List String :=
  [n.reason ++ ": " ++ n.message,
    "  at PC=" ++ n.pc.hexUpper 3 ++ " opcode=" ++ Word.text n.word ++ " (" ++
      Word.assembly n.word ++ ")"]
  ++ (registers n.snapshot).map ("  " ++ ·)

/-- One executed instruction, and the registers after it. -/
def trace (pc : Int) (w : UInt16) (m : Machine) : String :=
  "[TRACE] " ++ hexUpper 4 pc ++ ": " ++ Word.text w ++ "  " ++ padRight 16 (Word.assembly w)
    ++ " I=" ++ hexUpper 3 m.i ++ " SP=" ++ Counter.text m.sp ++ " DT=" ++ hexUpper 2 m.dt
    ++ " ST=" ++ hexUpper 2 m.st ++ " V=" ++ joinBlank (m.v.toList.map byteText)

end Report

end Chip8
