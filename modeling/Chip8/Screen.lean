import Chip8.Fingerprint
import Chip8.Number

/-!
# The screen

A screen is 64 pixels wide and 32 high, one byte a pixel in rows from the top, where zero is dark.
Frames are read in four ways: as single pixels, as a count of lit pixels, as text, and as a
fingerprint. A frame handed in from outside may have any length; pixels it lacks are dark.
-/

namespace Chip8

def screenWidth : Nat := 64

def screenHeight : Nat := 32

def pixelCount : Nat := screenWidth * screenHeight

/-- The cells of a picture in row order. -/
abbrev Frame := Array UInt8

structure Screen where
  cells : Vector UInt8 pixelCount
deriving DecidableEq

namespace Frame

def dark : Frame := Array.replicate pixelCount 0

def lit (f : Frame) (i : Nat) : Bool := f.getD i 0 ≠ 0

def countLit (f : Frame) : Nat := f.toList.countP (· ≠ 0)

/-- The index of the pixel in column `x` of row `y`, coordinates wrapping with their sign. -/
def index (x y : Int) : Int := y.tmod screenHeight * screenWidth + x.tmod screenWidth

/-- The lowest bit of the cell with an index; zero where there is none. -/
def bit (f : Frame) (i : Int) : UInt8 := if i < 0 then 0 else f.getD i.toNat 0 &&& 1

/-- The lowest bit of the pixel in column `x` of row `y`. -/
def pixel (f : Frame) (x y : Int) : UInt8 := f.bit (index x y)

/-- What is left of a coordinate that wraps at `size` with its sign. -/
def wrapped (size c : Float) : Float :=
  let turns := c / size
  c - size * (if turns < 0 then turns.ceil else turns.floor)

/-- The index for coordinates that need not be whole numbers, as `index` has it for those that are.
Where it is not whole, there is no cell. -/
def looseIndex (x y : Float) : Float := wrapped 32 y * 64 + wrapped 64 x

/-- One row as text. -/
def rowText (f : Frame) (on off : List Char) (y : Nat) : String :=
  String.ofList <| (List.range screenWidth).flatMap fun x =>
    if f.lit (y * screenWidth + x) then on else off

/-- The screen as text, a line for each row, a lit pixel written as `on` and a dark one as `off`. -/
def rows (f : Frame) (on off : List Char) : List String :=
  (List.range screenHeight).map (f.rowText on off)

/-- The screen as it is shown in a terminal. -/
def picture (f : Frame) : List String := f.rows ['#'] ['.']

/-- The fingerprint of the lit pixels, in hexadecimal. -/
def fingerprint (f : Frame) : String := Fingerprint.text (Fingerprint.ofPicture f.toList)

end Frame

namespace Screen

def dark : Screen := ⟨Vector.replicate pixelCount 0⟩

instance : Inhabited Screen := ⟨dark⟩

def frame (s : Screen) : Frame := s.cells.toArray

/-- The cell in column `x` of row `y`, both taken modulo the size of the screen. -/
def cell (x y : Nat) : Fin pixelCount :=
  ⟨y % screenHeight * screenWidth + x % screenWidth, by
    unfold pixelCount screenHeight screenWidth; omega⟩

/-- Inverts the pixel in column `x` of row `y`; says whether it was lit. -/
def flip (s : Screen) (x y : Nat) : Bool × Screen :=
  let old := s.cells[cell x y]
  (old ≠ 0, ⟨s.cells.set (cell x y) (old ^^^ 1)⟩)

/-- The bit of a sprite row for its column `c`, counted from the left. -/
def spriteBit (row : UInt8) (c : Nat) : Bool := row.toNat / twoPow (7 - c) % 2 = 1

/-- Draws the columns `cs` of one sprite row: inverts the pixels under its set bits; says whether
one of them was lit. -/
def drawColumns (s : Screen) (x y : Nat) (row : UInt8) : List Nat → Bool × Screen
  | [] => (false, s)
  | c :: cs =>
    if spriteBit row c then
      let (hit, s) := s.flip (x + c) y
      let (later, s) := s.drawColumns x y row cs
      (hit || later, s)
    else s.drawColumns x y row cs

/-- Draws a sprite with its top left corner in column `x` of row `y`, its rows one byte each. -/
def drawSprite (s : Screen) (x y : Nat) : List UInt8 → Bool × Screen
  | [] => (false, s)
  | row :: rest =>
    let (hit, s) := s.drawColumns x y row (List.range 8)
    let (later, s) := s.drawSprite x (y + 1) rest
    (hit || later, s)

end Screen

end Chip8
