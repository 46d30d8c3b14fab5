import Chip8.Instr.Assembly
import Chip8.Machine

/-!
# Faults

A fault stops the machine at the instruction that raised it. `Cause` says what went wrong; its kind
and its text follow from it. A `Fault` adds where it happened and the registers at that moment, and
a `Notice` is a fault in words, ready to be reported.
-/

namespace Chip8

inductive Cause
  | returnOnEmptyStack
  | callOnFullStack (target : Addr) (frames : Int)
  | jumpOutside (target : Int)
  | readOutside (start : Int) (count : Nat)
  | writeOutside (start : Int) (count : Nat)
  | fetchOutside (pc : ProgramCounter)
deriving DecidableEq

inductive Reason
  | stackOverflow
  | stackUnderflow
  | invalidAddress
deriving DecidableEq

def Reason.text : Reason → String
  | stackOverflow => "StackOverflow"
  | stackUnderflow => "StackUnderflow"
  | invalidAddress => "InvalidAddress"

namespace Cause

def reason : Cause → Reason
  | returnOnEmptyStack => .stackUnderflow
  | callOnFullStack .. => .stackOverflow
  | _ => .invalidAddress

/-- An address as it is written in messages. -/
def place (a : Int) : String := "0x" ++ Text.hexLower 3 a

def message : Cause → String
  | returnOnEmptyStack => "RET with empty stack"
  | callOnFullStack target frames =>
    "CALL " ++ place target ++ " with " ++ Counter.text frames ++ " frames in use"
  | jumpOutside target => "jump target " ++ place target ++ " outside memory"
  | readOutside start count =>
    "read of " ++ Text.decimal count ++ " bytes at " ++ place start ++ " outside memory"
  | writeOutside start count =>
    "write of " ++ Text.decimal count ++ " bytes at " ++ place start ++ " outside program memory"
  | fetchOutside pc => "cannot fetch opcode at 0x" ++ pc.hexLower 0

end Cause

/-- A fault: its cause, the word and its address, and the registers before it. -/
structure Fault where
  cause : Cause
  word : UInt16
  pc : ProgramCounter
  snapshot : Snapshot
deriving DecidableEq

structure Notice where
  reason : String
  message : String
  word : UInt16
  pc : ProgramCounter
  snapshot : Snapshot
deriving DecidableEq

def Fault.notice (f : Fault) : Notice where
  reason := f.cause.reason.text
  message := f.cause.message
  word := f.word
  pc := f.pc
  snapshot := f.snapshot

def Fault.headline (f : Fault) : String :=
  f.cause.reason.text ++ " at PC=0x" ++ f.pc.hexLower 3 ++ ": " ++ f.cause.message

end Chip8
