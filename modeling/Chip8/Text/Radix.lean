/-!
# Hexadecimal text

Integers in base sixteen, padded on the left with zeros to a least width. The sign of a negative
number is one of the characters that the width counts, and the padding stands before it: minus one
in three places is `0-1`.
-/

namespace Chip8.Text

/-- The hexadecimal digits of `n`, in lower case. -/
def hexDigits (n : Nat) : List Char := Nat.toDigits 16 n

/-- An integer in base sixteen: a minus sign if it is negative, and the digits of its magnitude. -/
def hexInt (v : Int) : List Char :=
  if v < 0 then '-' :: hexDigits v.natAbs else hexDigits v.natAbs

/-- Lower-case hexadecimal text of at least `width` characters. -/
def hexLower (width : Nat) (v : Int) : String :=
  String.ofList ((hexInt v).leftpad width '0')

/-- Upper-case hexadecimal text of at least `width` characters. -/
def hexUpper (width : Nat) (v : Int) : String :=
  String.ofList (((hexInt v).map Char.toUpper).leftpad width '0')

/-- Bytes in lower-case hexadecimal, two digits each. -/
def hexOfBytes (bytes : List UInt8) : String := String.join (bytes.map fun b => hexLower 2 b.toNat)

/-- A decimal integer. -/
def decimal (v : Int) : String :=
  String.ofList (if v < 0 then '-' :: Nat.toDigits 10 v.natAbs else Nat.toDigits 10 v.natAbs)

/-- Digits given from the last to the first, with a mark behind every third one that is not the
last. -/
def groupedReverse : List Char → List Char
  | a :: b :: c :: d :: rest => a :: b :: c :: '_' :: groupedReverse (d :: rest)
  | digits => digits

/-- Digits in groups of three from the right, a low line between groups. -/
def grouped (digits : List Char) : List Char := (groupedReverse digits.reverse).reverse

/-- The text filled up with blanks on the right to at least `width` characters. -/
def padRight (width : Nat) (s : String) : String :=
  String.ofList (s.toList.rightpad width ' ')

/-- The texts in one line, a blank between neighbours. -/
def joinBlank (parts : List String) : String := String.intercalate " " parts

end Chip8.Text
