/-!
# Numbers from outside

Rates, key ticks, limits and random values reach the machine as binary floating-point numbers, and
some of them are not numbers at all. `Number` holds the exact value of such an input: a rational,
one of the two infinities, or nothing comparable. Comparisons with something that is not a number
are all false, so a limit that is not a number is never reached.
-/

namespace Chip8

/-- The exact value of a floating-point input. -/
inductive Number
  | finite (q : Rat)
  | infinite (negative : Bool)
  | nan
deriving DecidableEq, Inhabited

def twoPow (n : Nat) : Nat := Nat.pow 2 n

/-- The value `m · 2 ^ e`. -/
def scaled (m : Nat) (e : Int) : Rat :=
  if 0 ≤ e then ((m * twoPow e.toNat : Nat) : Rat) else mkRat m (twoPow (-e).toNat)

/-- The number nearest to `q`, a half going to the even neighbour. -/
def nearestEven (q : Rat) : Int :=
  let below := q.floor
  let rest := q - below
  if rest < 1 / 2 then below
  else if 1 / 2 < rest then below + 1
  else if below % 2 = 0 then below else below + 1

/-- `q` kept to 53 significant bits. Values below one are left alone: no sum of a tick and a hold is
one. -/
def roundSignificant (q : Rat) : Rat :=
  if q < 1 then q
  else
    let unit := scaled 1 ((q.floor.toNat.log2 : Int) - 52)
    nearestEven (q / unit) * unit

namespace Number

/-- The exact value that the bits of `x` stand for. -/
def ofFloat (x : Float) : Number :=
  let bits := x.toBits.toNat
  let negative : Bool := bits / twoPow 63 % 2 = 1
  let exponent : Nat := bits / twoPow 52 % twoPow 11
  let fraction : Nat := bits % twoPow 52
  if exponent = 2047 then
    if fraction = 0 then .infinite negative else .nan
  else
    let magnitude :=
      if exponent = 0 then scaled fraction (-1074)
      else scaled (twoPow 52 + fraction) ((exponent : Int) - 1075)
    .finite (if negative then -magnitude else magnitude)

def ofNat (n : Nat) : Number := .finite n

def ofInt (n : Int) : Number := .finite n

/-- `a < b`; false when either is not a number. -/
def lt : Number → Number → Bool
  | finite a, finite b => decide (a < b)
  | finite _, infinite negative => !negative
  | infinite negative, finite _ => negative
  | infinite a, infinite b => a && !b
  | _, _ => false

/-- `a ≤ b`; false when either is not a number. -/
def le : Number → Number → Bool
  | finite a, finite b => decide (a ≤ b)
  | finite _, infinite negative => !negative
  | infinite negative, finite _ => negative
  | infinite a, infinite b => a || !b
  | _, _ => false

/-- The larger of the two; not a number when either is not. -/
def max : Number → Number → Number
  | nan, _ => nan
  | _, nan => nan
  | a, b => if a.lt b then b else a

/-- The sum, kept to 53 significant bits. -/
def add : Number → Number → Number
  | finite a, finite b => finite (roundSignificant (a + b))
  | nan, _ => nan
  | _, nan => nan
  | infinite a, infinite b => if a = b then infinite a else nan
  | infinite a, finite _ => infinite a
  | finite _, infinite b => infinite b

/-- The number nearest to a whole one: kept to 53 significant bits, and infinite from `2 ^ 1024`
on. -/
def nearest (n : Nat) : Number :=
  let q := roundSignificant n
  if q < twoPow 1024 then finite q else infinite false

/-- The integer that the number is, if it is one. -/
def toInt? : Number → Option Int
  | finite q => if q.den = 1 then some q.num else none
  | _ => none

/-- The greatest integer that is not above the number. -/
def floor? : Number → Option Int
  | finite q => some q.floor
  | _ => none

/-- The number without its fraction, toward zero; zero for what is not finite. -/
def truncate : Number → Int
  | finite q => if q < 0 then q.ceil else q.floor
  | _ => 0

end Number

end Chip8
