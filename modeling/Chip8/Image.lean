import Chip8.Counter
import Chip8.Screen

/-!
# Images of the screen

A screen is shown as an image by enlarging every pixel to a square of equal pixels, in one colour if
it is lit and in another if it is dark. A pixel that a frame lacks counts as lit here. What is to be
seen is a `Picture`, a size and a colour for each pixel; an `Image` holds the bytes. `Image.create?`
asks for a store of bytes for the size of the picture and paints the picture into it. Where the
stores come from is left open: `Image.Stores` hands them out, or says why there is none.
-/

namespace Chip8

structure Rgb where
  red : UInt8
  green : UInt8
  blue : UInt8
deriving DecidableEq

namespace Rgb

def white : Rgb := ⟨255, 255, 255⟩

def black : Rgb := ⟨0, 0, 0⟩

/-- The bytes of an opaque pixel of this colour. -/
def bytes (c : Rgb) : List UInt8 := [c.red, c.green, c.blue, 255]

end Rgb

/-- A list of pieces of one length is as long as all of them together. -/
theorem length_flatMap_range {α : Type} (f : Nat → List α) (size : Nat)
    (h : ∀ n, (f n).length = size) (count : Nat) :
    ((List.range count).flatMap f).length = count * size := by
  induction count with
  | zero => simp
  | succ count ih => simp [List.range_succ, ih, h, Nat.succ_mul]

/-- In a list of pieces of one length, an element is found by its piece and its place there. -/
theorem getElem?_flatMap_range {α : Type} (f : Nat → List α) (size : Nat)
    (h : ∀ n, (f n).length = size) {count n place : Nat} (hn : n < count) (hplace : place < size) :
    ((List.range count).flatMap f)[n * size + place]? = (f n)[place]? := by
  induction count with
  | zero => omega
  | succ count ih =>
    rw [List.range_succ, List.flatMap_append, List.flatMap_singleton]
    have length := length_flatMap_range f size h count
    by_cases hlast : n = count
    · subst hlast
      rw [List.getElem?_append_right (by omega), length, Nat.add_sub_cancel_left]
    · have below : n * size + size ≤ count * size := by
        rw [← Nat.succ_mul]
        exact Nat.mul_le_mul_right size (by omega)
      rw [List.getElem?_append_left (by omega)]
      exact ih (by omega)

/-! ## Stored images -/

/-- An image as it is stored, four bytes to a pixel and the rows from the top. -/
structure Image where
  width : Nat
  height : Nat
  data : Vector UInt8 (height * (width * 4))

namespace Image

def size (image : Image) : Nat := image.height * (image.width * 4)

/-- The bytes of all rows. -/
def rgba (image : Image) : List UInt8 := image.data.toList

@[simp] theorem length_rgba (image : Image) : image.rgba.length = image.size :=
  image.data.length_toList

/-- The bytes of a row. -/
def row (image : Image) (y : Nat) : List UInt8 :=
  (image.data.toArray.extract (y * (image.width * 4)) ((y + 1) * (image.width * 4))).toList

/-- The place that a number means: a negative one is counted from behind the last byte, and none
lies outside. -/
def place (image : Image) (n : Int) : Nat :=
  if n < 0 then (image.size + n).toNat else min n.toNat image.size

/-- The bytes from one place to before another. -/
def slice (image : Image) (start stop : Int) : List UInt8 :=
  (image.data.toArray.extract (image.place start) (image.place stop)).toList

def first (image : Image) : List UInt8 := image.slice 0 4

def last (image : Image) : List UInt8 := image.slice (image.size - 4 : Nat) image.size

def fingerprint (image : Image) : UInt32 :=
  image.data.toArray.foldl Fingerprint.mix Fingerprint.offset

theorem row_eq (image : Image) (y : Nat) :
    image.row y = (image.rgba.drop (y * (image.width * 4))).take (image.width * 4) := by
  rw [row, Array.toList_extract, List.extract_eq_take_drop, Nat.succ_mul, Nat.add_sub_cancel_left]
  rfl

/-- The rows are the image, one after the other. -/
theorem flatMap_row (image : Image) : (List.range image.height).flatMap image.row = image.rgba := by
  have rows (count : Nat) :
      (List.range count).flatMap image.row = image.rgba.take (count * (image.width * 4)) := by
    induction count with
    | zero => simp
    | succ count ih =>
      rw [List.range_succ, List.flatMap_append, ih, List.flatMap_singleton, row_eq,
        Nat.succ_mul, List.take_add]
  rw [rows]
  exact List.take_of_length_le (Nat.le_of_eq image.length_rgba)

theorem length_row (image : Image) {y : Nat} (inside : y < image.height) :
    (image.row y).length = image.width * 4 := by
  have whole : (y + 1) * (image.width * 4) ≤ image.size := Nat.mul_le_mul_right _ inside
  rw [Nat.succ_mul] at whole
  rw [row_eq, List.length_take, List.length_drop, length_rgba]
  omega

end Image

/-! ## Pictures -/

/-- What an image shows. -/
structure Picture where
  width : Nat
  height : Nat
  /-- The colour of the pixel in a column of a row, counted from the top left corner. -/
  colour : (column row : Nat) → Rgb

namespace Picture

/-- Is the cell with this index drawn in the colour of lit pixels? -/
def drawnLit (f : Frame) (i : Nat) : Bool := f.getD i 1 ≠ 0

/-- The frame enlarged, every pixel a square of `k` by `k` pixels. -/
def ofFrame (f : Frame) (k : Nat) (on off : Rgb) : Picture where
  width := screenWidth * k
  height := screenHeight * k
  colour x y := if drawnLit f (y / k * screenWidth + x / k) then on else off

def size (d : Picture) : Nat := d.height * (d.width * 4)

/-- The bytes of a row, four to a pixel. -/
def row (d : Picture) (y : Nat) : List UInt8 :=
  (List.range d.width).flatMap fun x => (d.colour x y).bytes

/-- The bytes that show the picture. -/
def rgba (d : Picture) : List UInt8 := (List.range d.height).flatMap d.row

@[simp] theorem length_row (d : Picture) (y : Nat) : (d.row y).length = d.width * 4 :=
  length_flatMap_range _ 4 (fun _ => rfl) _

@[simp] theorem length_rgba (d : Picture) : d.rgba.length = d.size :=
  length_flatMap_range _ _ d.length_row _

/-- Writes the bytes of a pixel into a store from a place on. What would lie outside is not
written. -/
def stamp {n : Nat} (place : Nat) (c : Rgb) (store : Vector UInt8 n) : Vector UInt8 n :=
  (((store.setIfInBounds place c.red).setIfInBounds (place + 1) c.green).setIfInBounds (place + 2)
    c.blue).setIfInBounds (place + 3) 255

/-- Does something for each number below a count, in order. -/
def repeated {n : Nat} (write : Nat → Vector UInt8 n → Vector UInt8 n) (count : Nat)
    (store : Vector UInt8 n) : Vector UInt8 n :=
  (List.range count).foldl (fun store i => write i store) store

/-- Writes all pixels into a store, row by row from the top and each row from the left. -/
def fill (d : Picture) {n : Nat} : Vector UInt8 n → Vector UInt8 n :=
  repeated (fun y => repeated (fun x => stamp ((y * d.width + x) * 4) (d.colour x y)) d.width)
    d.height

/-- Paints the picture into a store of its size. -/
def paint (d : Picture) (store : Vector UInt8 d.size) : Image := ⟨d.width, d.height, d.fill store⟩

end Picture

/-! ## Enlarged frames -/

namespace Image

/-- The side of the square that a screen pixel becomes: the whole part of a scale, but one at
least. -/
def squareSide (scale : Number) : Nat := max 1 (scale.floor?.getD 1).toNat

/-- Why the image of a frame cannot be stored. -/
inductive SizeError
  /-- There is no store, and so the first byte cannot be set. `numbered` says whether that byte
  still has a number: it has none if the width is not finite. -/
  | noStore (numbered : Bool)
  /-- More bytes are asked for than can be counted. -/
  | uncountable (size : Nat)
  /-- More bytes are asked for than there are. -/
  | outOfMemory
  /-- The image has no pixels, so it cannot be read back. -/
  | noPixels
deriving DecidableEq

/-- The greatest number of bytes that can be counted. -/
def countLimit : Nat := Counter.exactLimit - 1

namespace SizeError

/-- The kind of the error, as reports of errors begin with it. -/
def kind : SizeError → String
  | noStore _ => "TypeError"
  | uncountable _ => "RangeError"
  | outOfMemory => "RangeError"
  | noPixels => "Error"

def message : SizeError → String
  | noStore true => "Cannot set properties of null (setting '0')"
  | noStore false => "Cannot set properties of null (setting 'NaN')"
  | uncountable size =>
    "The value of \"size\" is out of range. It must be >= 0 && <= " ++ Text.decimal countLimit
      ++ ". Received " ++ String.ofList (Text.grouped (Counter.text size).toList)
  | outOfMemory => "Array buffer allocation failed"
  | noPixels => "bad png - invalid inflate data response"

end SizeError

/-- A supply of stores: for a width and a height as many bytes as an image takes, whatever they
hold, or why there are none. -/
def Stores := (width height : Nat) → Except SizeError (Vector UInt8 (height * (width * 4)))

namespace Stores

/-- A side as a signed number of 32 bits. -/
def storedSide (side : Nat) : Int := Int.bmod side (twoPow 32)

/-- The stores of a machine with so many bytes of memory, all of them zeros. There is none for a
side that is not positive as a signed number of 32 bits. -/
def ofMemory (memory : Nat) : Stores := fun width height =>
  if storedSide width ≤ 0 || storedSide height ≤ 0 then .error (.noStore (width < twoPow 1024))
  else
    let size := (4 * storedSide width * storedSide height).toNat
    if countLimit < size then .error (.uncountable size)
    else if memory < height * (width * 4) then .error .outOfMemory
    else .ok (Vector.replicate _ 0)

/-- The memory that commands run with, if nothing else is said. -/
def standardMemory : Nat := twoPow 31

def standard : Stores := ofMemory standardMemory

end Stores

/-- The image of a frame at a scale, painted into a store if there is one for it. -/
def create? (f : Frame) (scale : Number) (on off : Rgb) (stores : Stores := .standard) :
    Except SizeError Image :=
  match scale with
  | .nan => .error .noPixels
  | .infinite false => .error (.noStore false)
  | scale =>
    let picture := Picture.ofFrame f (squareSide scale) on off
    (stores picture.width picture.height).map picture.paint

/-- The image is made of the store that there is for its size, and fails with the store. -/
theorem create?_eq_map {f : Frame} {scale : Number} {on off : Rgb} {stores : Stores}
    (number : scale ≠ .nan) (finite : scale ≠ .infinite false) :
    create? f scale on off stores =
      (stores (screenWidth * squareSide scale) (screenHeight * squareSide scale)).map
        (Picture.ofFrame f (squareSide scale) on off).paint := by
  unfold create?
  split
  case h_1 => exact absurd rfl number
  case h_2 => exact absurd rfl finite
  case h_3 => rfl

/-- A machine has stores for images with pixels, and not for more bytes than its memory has. -/
theorem Stores.bounds_of_ofMemory {memory width height : Nat}
    {store : Vector UInt8 (height * (width * 4))}
    (h : ofMemory memory width height = .ok store) :
    0 < width ∧ 0 < height ∧ height * (width * 4) ≤ memory := by
  unfold ofMemory at h
  split at h
  case isTrue => cases h
  case isFalse stored =>
    dsimp only at h
    split at h
    case isTrue => cases h
    case isFalse =>
      split at h
      case isTrue => cases h
      case isFalse fits =>
        have positive {side : Nat} (large : ¬ storedSide side ≤ 0) : 0 < side :=
          Nat.pos_of_ne_zero fun zero => large (zero ▸ Int.le_refl 0)
        simp only [Bool.or_eq_true, decide_eq_true_eq, not_or] at stored
        exact ⟨positive stored.1, positive stored.2, Nat.not_lt.1 fits⟩

theorem bounds_of_create? {f : Frame} {scale : Number} {on off : Rgb} {image : Image}
    {memory : Nat} (h : create? f scale on off (.ofMemory memory) = .ok image) :
    0 < image.width ∧ 0 < image.height ∧ image.size ≤ memory := by
  unfold create? at h
  split at h
  case h_1 => cases h
  case h_2 => cases h
  case h_3 =>
    dsimp only at h
    generalize Picture.ofFrame f (squareSide scale) on off = d at h
    cases stored : Stores.ofMemory memory d.width d.height with
    | error e =>
      rw [stored] at h
      cases h
    | ok store =>
      rw [stored] at h
      cases h
      exact Stores.bounds_of_ofMemory stored

end Image

end Chip8
