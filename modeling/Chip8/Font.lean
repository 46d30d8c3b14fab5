/-!
# The built-in glyphs

Sixteen hexadecimal digits, five rows of one byte each, stored back to back from address zero.
-/

namespace Chip8.Font

/-- Rows in a glyph. -/
def glyphHeight : Nat := 5

/-- The rows of the sixteen glyphs. -/
def glyphs : List (List UInt8) :=
  [[0xF0, 0x90, 0x90, 0x90, 0xF0],
   [0x20, 0x60, 0x20, 0x20, 0x70],
   [0xF0, 0x10, 0xF0, 0x80, 0xF0],
   [0xF0, 0x10, 0xF0, 0x10, 0xF0],
   [0x90, 0x90, 0xF0, 0x10, 0x10],
   [0xF0, 0x80, 0xF0, 0x10, 0xF0],
   [0xF0, 0x80, 0xF0, 0x90, 0xF0],
   [0xF0, 0x10, 0x20, 0x40, 0x40],
   [0xF0, 0x90, 0xF0, 0x90, 0xF0],
   [0xF0, 0x90, 0xF0, 0x10, 0xF0],
   [0xF0, 0x90, 0xF0, 0x90, 0x90],
   [0xE0, 0x90, 0xE0, 0x90, 0xE0],
   [0xF0, 0x80, 0x80, 0x80, 0xF0],
   [0xE0, 0x90, 0x90, 0x90, 0xE0],
   [0xF0, 0x80, 0xF0, 0x80, 0xF0],
   [0xF0, 0x80, 0xF0, 0x80, 0x80]]

/-- The glyph rows as they lie in memory. -/
def table : List UInt8 := glyphs.flatten

/-- The address of the glyph for a digit. Digits above fifteen have addresses too, past the last
glyph. -/
def glyphAddress (digit : Nat) : Nat := digit * glyphHeight

end Chip8.Font
