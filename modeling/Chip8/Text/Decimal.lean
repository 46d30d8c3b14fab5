import Chip8.Number

/-!
# Decimal text of a number

A number is written with the fewest decimal digits that read back as the same floating-point number,
and of those the nearest to it. Values from `10 ^ -6` up to `10 ^ 21` are written positionally,
others with an exponent of ten.
-/

namespace Chip8.Text

/-- The value of the last of the 53 significant bits of the positive number `q`. -/
def lastBit (q : Rat) : Rat :=
  scaled 1 (max ((q.num.natAbs.log2 : Int) - q.den.log2 - 52) (-1074))

/-- Does the decimal `d` read back as the floating-point number `q`? The reals that round to `q`
reach halfway to its neighbours, ends included when the last significant bit of `q` is zero. The
neighbour below a power of two is half as far away. -/
def readsBack (q d : Rat) : Bool :=
  let bit := lastBit q
  let significand := (q / bit).floor
  let narrow := significand = twoPow 52 && decide (bit ≠ scaled 1 (-1074))
  let low := if narrow then q - bit / 4 else q - bit / 2
  let high := q + bit / 2
  if significand % 2 = 0 then decide (low ≤ d) && decide (d ≤ high)
  else decide (low < d) && decide (d < high)

/-- `10 ^ e`. -/
def powTen (e : Int) : Rat :=
  if 0 ≤ e then ((Nat.pow 10 e.toNat : Nat) : Rat) else mkRat 1 (Nat.pow 10 (-e).toNat)

/-- The number of digits before the decimal point of `q`: the least `k` with `q < 10 ^ k`. The
search starts from the binary logarithm, which is never more than one too small. -/
def pointPosition (q : Rat) : Int :=
  let estimate := ((q.num.natAbs.log2 : Int) - q.den.log2) * 30103 / 100000
  if q < powTen (estimate - 1) then estimate - 1
  else if q < powTen estimate then estimate
  else if q < powTen (estimate + 1) then estimate + 1
  else estimate + 2

/-- The multiple of `grid` that reads back as `q`, the nearer of its two neighbours there if both
do, an even count on a tie; nothing if neither does. -/
def onGrid? (q grid : Rat) : Option Nat :=
  let below := (q / grid).floor
  let above := below + 1
  match readsBack q (below * grid), readsBack q (above * grid) with
  | true, true =>
    let toBelow := q - below * grid
    let toAbove := above * grid - q
    if toBelow < toAbove then some below.toNat
    else if toAbove < toBelow then some above.toNat
    else some (if below % 2 = 0 then below.toNat else above.toNat)
  | true, false => some below.toNat
  | false, true => some above.toNat
  | false, false => none

/-- The digits of `n` without the zeros at its end. -/
def stripZeros (digits : List Char) : List Char :=
  (digits.reverse.dropWhile (· = '0')).reverse

/-- The fewest significant digits that read back as the positive number `q`, and the place of the
decimal point counted from the first of them. Seventeen digits always do. -/
def shortest (q : Rat) : List Char × Int :=
  let place := pointPosition q
  let tries := (List.range 17).map (· + 1)
  match tries.findSome? fun (count : Nat) =>
    onGrid? q (powTen (place - count)) |>.map (·, count) with
  | some (n, count) =>
    let digits := Nat.toDigits 10 n
    -- A carry into a new leading digit moves the point.
    (stripZeros digits, place + (digits.length - count : Int))
  | none => (['0'], 1)

/-- Digits laid out around a decimal point at `place`. -/
def layOut (digits : List Char) (place : Int) : List Char :=
  let count : Int := digits.length
  if count ≤ place ∧ place ≤ 21 then digits ++ List.replicate (place - count).toNat '0'
  else if 0 < place ∧ place ≤ 21 then digits.take place.toNat ++ '.' :: digits.drop place.toNat
  else if -6 < place ∧ place ≤ 0 then '0' :: '.' :: (List.replicate (-place).toNat '0' ++ digits)
  else
    let exponent := place - 1
    let sign := if exponent < 0 then '-' else '+'
    let tail := 'e' :: sign :: Nat.toDigits 10 exponent.natAbs
    match digits with
    | [d] => d :: tail
    | d :: ds => d :: '.' :: (ds ++ tail)
    | [] => tail

/-- The decimal text of a number; zero has no sign. -/
def numberText : Number → String
  | .nan => "NaN"
  | .infinite false => "Infinity"
  | .infinite true => "-Infinity"
  | .finite q =>
    if q = 0 then "0"
    else
      let (digits, place) := shortest (if q < 0 then -q else q)
      let text := layOut digits place
      String.ofList (if q < 0 then '-' :: text else text)

def floatText (x : Float) : String := numberText (Number.ofFloat x)

end Chip8.Text
