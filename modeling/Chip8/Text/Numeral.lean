import Chip8.Text.Blank

/-!
# Numerals

The numbers that settings are written with. Blanks around a numeral are skipped and an empty text is
zero. A numeral is a run of digits in base sixteen, eight or two behind `0x`, `0o` or `0b`, or a
decimal with an optional sign: digits with at most one point among them and an optional exponent of
ten, or the word `Infinity`. Anything else is no numeral.
-/

namespace Chip8.Text

def isDigit (c : Char) : Bool := '0' ≤ c && c ≤ '9'

/-- The value of a digit in a base up to sixteen, letters of either case. -/
def digitValue (c : Char) : Option Nat :=
  if '0' ≤ c ∧ c ≤ '9' then some (c.toNat - 48)
  else if 'a' ≤ c ∧ c ≤ 'f' then some (c.toNat - 87)
  else if 'A' ≤ c ∧ c ≤ 'F' then some (c.toNat - 55)
  else none

/-- The bytes that pairs of hexadecimal digits write. -/
def bytesOfHex : List Char → List UInt8
  | high :: low :: rest =>
    UInt8.ofNat ((digitValue high).getD 0 * 16 + (digitValue low).getD 0) :: bytesOfHex rest
  | _ => []

/-- The number that decimal digits write. -/
def ofDigits (cs : List Char) : Nat := Nat.ofDigitChars 10 cs 0

/-- The number that a non-empty run of digits writes in the given base. -/
def ofDigitsIn? (base : Nat) : List Char → Option Nat
  | [] => none
  | cs => cs.foldlM (fun value c => do
      let d ← digitValue c
      if d < base then some (base * value + d) else none) 0

/-- The parts of an unsigned decimal numeral: the integer that its digits write, and the power of
ten that it is multiplied by. -/
def decimalParts? (cs : List Char) : Option (Nat × Int) :=
  let whole := cs.takeWhile isDigit
  let rest := cs.dropWhile isDigit
  let (fraction, rest) :=
    match rest with
    | '.' :: r => (r.takeWhile isDigit, r.dropWhile isDigit)
    | r => ([], r)
  if whole.isEmpty && fraction.isEmpty then none
  else
    let digits := ofDigits (whole ++ fraction)
    let scale : Int := -fraction.length
    match rest with
    | [] => some (digits, scale)
    | 'e' :: r | 'E' :: r =>
      let (negative, r) :=
        match r with
        | '+' :: r => (false, r)
        | '-' :: r => (true, r)
        | r => (false, r)
      if r.isEmpty || !r.all isDigit then none
      else
        let power : Int := ofDigits r
        some (digits, if negative then scale - power else scale + power)
    | _ => none

/-- The floating-point number nearest to `digits · 10 ^ power`. Powers out of reach of every such
number are settled by the place of the leading digit. -/
def nearestFloat (digits : Nat) (power : Int) : Float :=
  let place : Int := (Nat.toDigits 10 digits).length + power
  if digits = 0 then 0
  else if 400 < place then 1.0 / 0.0
  else if place < -400 then 0
  else Float.ofScientific digits (power < 0) power.natAbs

/-- The value of an unsigned decimal numeral. -/
def unsigned? (cs : List Char) : Option Float :=
  if cs = "Infinity".toList then some (1.0 / 0.0)
  else (decimalParts? cs).map fun (digits, power) => nearestFloat digits power

/-- The value of a numeral; nothing if the text is not one. -/
def numeral? (cs : List Char) : Option Float :=
  match trim cs with
  | [] => some 0
  | '0' :: 'x' :: r | '0' :: 'X' :: r => (ofDigitsIn? 16 r).map (nearestFloat · 0)
  | '0' :: 'o' :: r | '0' :: 'O' :: r => (ofDigitsIn? 8 r).map (nearestFloat · 0)
  | '0' :: 'b' :: r | '0' :: 'B' :: r => (ofDigitsIn? 2 r).map (nearestFloat · 0)
  | '+' :: r => unsigned? r
  | '-' :: r => (unsigned? r).map (-·)
  | r => unsigned? r

end Chip8.Text
