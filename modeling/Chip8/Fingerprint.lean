import Chip8.Text.Radix

/-!
# Fingerprints

A 32-bit fingerprint of a byte sequence: starting from an offset, each byte is xored in and the
result is multiplied by a prime. A picture is fingerprinted by its lit pixels alone, eight to a byte
with the leftmost pixel in the most significant bit.
-/

namespace Chip8.Fingerprint

def offset : UInt32 := 0x811c9dc5

def prime : UInt32 := 0x01000193

def mix (h : UInt32) (b : UInt8) : UInt32 := (h ^^^ b.toUInt32) * prime

def ofBytes (bytes : List UInt8) : UInt32 := bytes.foldl mix offset

/-- A fingerprint is written in eight lower-case hexadecimal digits. -/
def text (h : UInt32) : String := Text.hexLower 8 h.toNat

/-- Up to eight pixels as one byte, from the most significant bit down; absent pixels are dark. -/
def packByte : List Bool → Nat → UInt8
  | [], _ => 0
  | _, 0 => 0
  | lit :: rest, weight + 1 =>
    (if lit then (1 : UInt8) <<< weight.toUInt8 else 0) ||| packByte rest weight

/-- Pixels packed eight to a byte. A picture has at most `2 ^ 31` pixels: up to there the number of
a pixel and the number of its byte are the same in signed words of 32 bits, and past that they would
wrap. -/
def pack (lit : List Bool) : List UInt8 :=
  match lit with
  | [] => []
  | l :: rest => packByte (l :: rest.take 7) 8 :: pack (rest.drop 7)
termination_by lit.length
decreasing_by simp only [List.length_drop, List.length_cons]; omega

/-- The fingerprint of a picture given by one byte a pixel, where any value but zero is lit. -/
def ofPicture (cells : List UInt8) : UInt32 := ofBytes (pack (cells.map (· ≠ 0)))

end Chip8.Fingerprint
