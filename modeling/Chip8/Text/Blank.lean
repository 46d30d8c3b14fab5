/-!
# Blank characters

The characters that count as blank at the ends of a text: the ASCII ones, the byte order mark, the
two line separators, and the space separators of Unicode. The next-line control, the Mongolian vowel
separator and the zero-width space are not among them.
-/

namespace Chip8.Text

/-- The code points of the blank characters. -/
def blanks : List Nat :=
  [0x09, 0x0A, 0x0B, 0x0C, 0x0D, 0x20, 0xA0, 0x1680, 0x2000, 0x2001, 0x2002, 0x2003, 0x2004, 0x2005,
    0x2006, 0x2007, 0x2008, 0x2009, 0x200A, 0x2028, 0x2029, 0x202F, 0x205F, 0x3000, 0xFEFF]

def isBlank (c : Char) : Bool := blanks.contains c.toNat

/-- The text without the blanks at its ends. -/
def trim (cs : List Char) : List Char :=
  ((cs.dropWhile isBlank).reverse.dropWhile isBlank).reverse

/-- The characters that end a line. -/
def isLineEnd (c : Char) : Bool := [0x0A, 0x0D, 0x2028, 0x2029].contains c.toNat

end Chip8.Text
