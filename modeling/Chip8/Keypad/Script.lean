import Chip8.Keypad
import Chip8.Text.Numeral

/-!
# Key scripts

A key script is a list of entries `tick:key` or `tick:key:hold` with commas between them: two
decimal numbers and one hexadecimal digit of either case. Blanks around an entry and empty entries
do not count.
-/

namespace Chip8

/-- An entry of a key script. -/
structure KeyScriptEntry where
  tick : Nat
  key : Key
  hold : Option Nat
deriving DecidableEq

structure KeyScriptError where
  entry : List Char
deriving DecidableEq

def KeyScriptError.message (e : KeyScriptError) : String :=
  "bad key event \"" ++ String.ofList e.entry ++ "\" (expected tick:key[:hold])"

namespace KeyScript

open Text

/-- A non-empty run of decimal digits. -/
def isNumber (cs : List Char) : Bool := !cs.isEmpty && cs.all isDigit

/-- The key that a hexadecimal digit names. -/
def key? (c : Char) : Option Key :=
  match digitValue c with
  | some d => if h : d < 16 then some ⟨d, h⟩ else none
  | none => none

/-- Reads what follows the tick of an entry: the key and an optional hold. -/
def ofKeyAndHold? (tick : Nat) : List Char → Option KeyScriptEntry
  | [] => none
  | k :: rest => do
    let key ← key? k
    match rest with
    | [] => some ⟨tick, key, none⟩
    | ':' :: hold => if isNumber hold then some ⟨tick, key, some (ofDigits hold)⟩ else none
    | _ => none

def entry? (cs : List Char) : Option KeyScriptEntry :=
  let tick := cs.takeWhile (· ≠ ':')
  match cs.dropWhile (· ≠ ':') with
  | [] => none
  | _ :: rest => if isNumber tick then ofKeyAndHold? (ofDigits tick) rest else none

/-- The entries of a script as they are written: the parts between the commas without the blanks
around them, less the empty ones. -/
def parts (cs : List Char) : List (List Char) :=
  ((cs.splitOnP (· = ',')).map trim).filter (· ≠ [])

/-- Reads the written entries in order, up to the first that cannot be read. -/
def entries? : List (List Char) → Except KeyScriptError (List KeyScriptEntry)
  | [] => .ok []
  | part :: rest =>
    match entry? part with
    | none => .error ⟨part⟩
    | some entry => do pure (entry :: (← entries? rest))

def parse? (cs : List Char) : Except KeyScriptError (List KeyScriptEntry) := entries? (parts cs)

end KeyScript

/-- The key event that an entry writes. Its tick and its hold are the nearest numbers to the written
ones. -/
def KeyScriptEntry.event (e : KeyScriptEntry) : KeyEvent where
  tick := .nearest e.tick
  key := .ofNat e.key
  hold := e.hold.map .nearest

end Chip8
