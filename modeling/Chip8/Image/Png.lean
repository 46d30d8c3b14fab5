import Chip8.Image

/-!
# PNG files

Images are written as PNG files with eight bits a channel and an alpha channel. The rows are not
filtered and the data stream is stored, not compressed. `Png.decode?` reads files of this form and
answers nothing for any other. Main statement: an image of at most `byteLimit` bytes reads back,
from the file that it was written to, as its size and its bytes (`decode?_encode_of_size_le`), and
so does every image that can be created with the standard memory (`decode?_encode`).
-/

namespace Chip8.Png

/-- The bytes that every file starts with. -/
def signature : List UInt8 := [0x89, 0x50, 0x4E, 0x47, 0x0D, 0x0A, 0x1A, 0x0A]

/-- A number in four bytes, the most significant first. -/
def bigEndian32 (n : Nat) : List UInt8 :=
  [UInt8.ofNat (n / 16777216), UInt8.ofNat (n / 65536), UInt8.ofNat (n / 256), UInt8.ofNat n]

/-- Shifts `bits` bits through the check register. -/
def shiftCheck : Nat → UInt32 → UInt32
  | 0, c => c
  | bits + 1, c => shiftCheck bits (if c &&& 1 = 1 then (c >>> 1) ^^^ 0xEDB88320 else c >>> 1)

/-- The cyclic redundancy check of a chunk. -/
def check (bytes : List UInt8) : UInt32 :=
  (bytes.foldl (fun c b => shiftCheck 8 (c ^^^ b.toUInt32)) 0xFFFFFFFF) ^^^ 0xFFFFFFFF

/-- The checksum of a data stream: two sums modulo a prime. -/
def checksum (bytes : List UInt8) : UInt32 :=
  let (a, b) := bytes.foldl
    (fun ((a, b) : Nat × Nat) byte =>
      let a := (a + byte.toNat) % 65521
      (a, (b + a) % 65521))
    (1, 0)
  UInt32.ofNat (b * 65536 + a)

/-- The names of the chunks: header, data and end. -/
def headerName : List UInt8 := [0x49, 0x48, 0x44, 0x52]
def dataName : List UInt8 := [0x49, 0x44, 0x41, 0x54]
def endName : List UInt8 := [0x49, 0x45, 0x4E, 0x44]

/-- A chunk: its length, its name and data, and the check over both. -/
def chunk (name data : List UInt8) : List UInt8 :=
  bigEndian32 data.length ++ (name ++ data ++ bigEndian32 (check (name ++ data)).toNat)

/-- The bytes of a stored block at most. -/
def blockSize : Nat := 65535

/-- A stored block: a mark on the last one, its size and the complement of that, and the data. -/
def storedBlock (mark : UInt8) (data : List UInt8) : List UInt8 :=
  let low := UInt8.ofNat data.length
  let high := UInt8.ofNat (data.length / 256)
  mark :: low :: high :: (255 - low) :: (255 - high) :: data

/-- Data as stored blocks. There is at least one, and the last is marked. -/
def storedBlocks (data : List UInt8) : List UInt8 :=
  if data.length ≤ blockSize then storedBlock 1 data
  else storedBlock 0 (data.take blockSize) ++ storedBlocks (data.drop blockSize)
termination_by data.length
decreasing_by simp only [blockSize, List.length_drop] at *; omega

/-- What a stored stream starts with. -/
def streamHeader : List UInt8 := [0x78, 0x01]

/-- Data as a stored stream with its header and checksum. -/
def stream (data : List UInt8) : List UInt8 :=
  streamHeader ++ (storedBlocks data ++ bigEndian32 (checksum data).toNat)

/-- The rows, each behind a byte that says that it is not filtered. -/
def plainRows (rows : List (List UInt8)) : List UInt8 := rows.flatMap (0 :: ·)

/-- What the header says behind the size: the depth and kind of the pixels, and no special
methods. -/
def format : List UInt8 := [8, 6, 0, 0, 0]

/-- The rows of an image as a stream. -/
def imageStream (image : Image) : List UInt8 :=
  stream (plainRows ((List.range image.height).map image.row))

/-- An image as a file. -/
def encode (image : Image) : List UInt8 :=
  signature ++ (chunk headerName (bigEndian32 image.width ++ (bigEndian32 image.height ++ format))
    ++ (chunk dataName (imageStream image) ++ chunk endName []))

/-! ## Reading -/

/-- The pixels of an image as bytes. -/
structure Raster where
  width : Nat
  height : Nat
  rgba : List UInt8
deriving DecidableEq

/-- The number in the first four bytes, and the rest. -/
def readBigEndian32? : List UInt8 → Option (Nat × List UInt8)
  | a :: b :: c :: d :: rest =>
    some (((a.toNat * 256 + b.toNat) * 256 + c.toNat) * 256 + d.toNat, rest)
  | _ => none

/-- Reads a chunk with a given name: its data, and the rest. -/
def readChunk? (name bytes : List UInt8) : Option (List UInt8 × List UInt8) := do
  let (size, rest) ← readBigEndian32? bytes
  let body := rest.take (name.length + size)
  let (sum, rest) ← readBigEndian32? (rest.drop (name.length + size))
  if body.take name.length = name ∧ (check body).toNat = sum then
    some (body.drop name.length, rest)
  else none

/-- Reads stored blocks up to the marked one: their data, and the rest. `fuel` bounds their
number. -/
def readBlocks? : (fuel : Nat) → List UInt8 → Option (List UInt8 × List UInt8)
  | 0, _ => none
  | fuel + 1, mark :: low :: high :: notLow :: notHigh :: rest =>
    let size := high.toNat * 256 + low.toNat
    let data := rest.take size
    if data.length = size ∧ notLow = 255 - low ∧ notHigh = 255 - high then
      if mark = 1 then some (data, rest.drop size)
      else if mark = 0 then do
        let (more, rest) ← readBlocks? fuel (rest.drop size)
        some (data ++ more, rest)
      else none
    else none
  | _ + 1, _ => none

def readStream? (bytes : List UInt8) : Option (List UInt8) := do
  let (data, rest) ← readBlocks? bytes.length (bytes.drop streamHeader.length)
  let (sum, rest) ← readBigEndian32? rest
  if bytes.take streamHeader.length = streamHeader ∧ (checksum data).toNat = sum ∧
    rest = [] then some data
  else none

/-- Reads rows of `width` bytes that are not filtered. -/
def readRows? (width : Nat) : (rows : Nat) → List UInt8 → Option (List UInt8)
  | 0, bytes => if bytes = [] then some [] else none
  | rows + 1, 0 :: rest => do
    let more ← readRows? width rows (rest.drop width)
    if (rest.take width).length = width then some (rest.take width ++ more) else none
  | _ + 1, _ => none

/-- The pixels in a file. -/
def decode? (bytes : List UInt8) : Option Raster := do
  if bytes.take signature.length ≠ signature then none
  let (header, rest) ← readChunk? headerName (bytes.drop signature.length)
  let (data, rest) ← readChunk? dataName rest
  let (_, rest) ← readChunk? endName rest
  let (width, header) ← readBigEndian32? header
  let (height, header) ← readBigEndian32? header
  if header = format ∧ rest = [] then do
    let rgba ← readRows? (width * 4) height (← readStream? data)
    some { width, height, rgba }
  else none

/-! ## What was written reads back -/

/-- The greatest number that four bytes hold, and one more. -/
def wordLimit : Nat := twoPow 32

theorem readBigEndian32?_append {n : Nat} (h : n < wordLimit) (rest : List UInt8) :
    readBigEndian32? (bigEndian32 n ++ rest) = some (n, rest) := by
  have h : n < 4294967296 := h
  simp only [bigEndian32, List.cons_append, List.nil_append, readBigEndian32?, UInt8.toNat_ofNat',
    Option.some.injEq, Prod.mk.injEq, and_true]
  omega

theorem toNat_lt (w : UInt32) : w.toNat < wordLimit := UInt32.toNat_lt w

theorem readChunk?_append {data : List UInt8} (name : List UInt8) (h : data.length < wordLimit)
    (rest : List UInt8) : readChunk? name (chunk name data ++ rest) = some (data, rest) := by
  simp only [readChunk?, chunk, List.append_assoc, readBigEndian32?_append h, Option.bind_eq_bind,
    Option.bind_some]
  have split : (name ++ (data ++ (bigEndian32 (check (name ++ data)).toNat ++ rest))) =
      (name ++ data) ++ (bigEndian32 (check (name ++ data)).toNat ++ rest) := by simp
  have length : name.length + data.length = (name ++ data).length := by simp
  rw [split, length, List.take_left, List.drop_left, readBigEndian32?_append (toNat_lt _)]
  simp

theorem readBlocks?_append (data rest : List UInt8) {fuel : Nat}
    (h : (storedBlocks data).length ≤ fuel) :
    readBlocks? fuel (storedBlocks data ++ rest) = some (data, rest) := by
  induction fuel generalizing data with
  | zero =>
    rw [storedBlocks] at h
    split at h <;> simp [storedBlock] at h
  | succ fuel ih =>
    rw [storedBlocks] at h ⊢
    split at h
    case isTrue small =>
      rw [if_pos small]
      have size : data.length / 256 % 256 * 256 + data.length % 256 = data.length := by
        simp only [blockSize] at small
        omega
      simp [storedBlock, readBlocks?, size]
    case isFalse large =>
      rw [if_neg large]
      have full : (data.take blockSize).length = blockSize := by
        rw [List.length_take]
        omega
      have tail := ih (data.drop blockSize) (by
        simp only [storedBlock, List.length_append, List.length_cons] at h
        omega)
      have size : blockSize / 256 % 2 ^ 8 * 256 + blockSize % 2 ^ 8 =
        (data.take blockSize).length := full.symm
      have unmarked : ¬ (0 : UInt8) = 1 := by decide
      simp only [storedBlock, full, List.cons_append, List.append_assoc, readBlocks?,
        UInt8.toNat_ofNat']
      rw [size, List.take_left, List.drop_left, tail]
      simp [unmarked, List.take_append_drop]

theorem readStream?_stream (data : List UInt8) : readStream? (stream data) = some data := by
  have tail := readBigEndian32?_append (toNat_lt (checksum data)) []
  rw [List.append_nil] at tail
  simp only [stream, readStream?, List.take_left, List.drop_left]
  rw [readBlocks?_append data _ (by simp only [List.length_append]; omega)]
  rw [Option.bind_eq_bind, Option.bind_some]
  dsimp only
  rw [tail, Option.bind_eq_bind, Option.bind_some]
  simp

theorem readRows?_plainRows {width : Nat} (rows : List (List UInt8))
    (h : ∀ row ∈ rows, row.length = width) :
    readRows? width rows.length (plainRows rows) = some rows.flatten := by
  induction rows with
  | nil => rfl
  | cons row rows ih =>
    have size : row.length = width := h row List.mem_cons_self
    have more := ih fun r hr => h r (List.mem_cons_of_mem _ hr)
    simp only [plainRows] at more
    subst size
    simp only [plainRows, List.flatMap_cons, List.length_cons, List.cons_append, readRows?,
      List.drop_left, List.take_left]
    simp [more]

theorem length_of_mem_rows (image : Image) :
    ∀ row ∈ (List.range image.height).map image.row, row.length = image.width * 4 := by
  intro row member
  obtain ⟨y, inside, rfl⟩ := List.mem_map.1 member
  exact image.length_row (List.mem_range.1 inside)

theorem readStream?_imageStream (image : Image) :
    readStream? (imageStream image) = some (plainRows ((List.range image.height).map image.row)) :=
  readStream?_stream _

/-- A file reads back if the numbers in it fit their four bytes. -/
theorem decode?_encode_of_lt {image : Image} (hwidth : image.width < wordLimit)
    (hheight : image.height < wordLimit) (hdata : (imageStream image).length < wordLimit) :
    decode? (encode image) = some ⟨image.width, image.height, image.rgba⟩ := by
  have header :
      (bigEndian32 image.width ++ (bigEndian32 image.height ++ format)).length < wordLimit := by
    simp [bigEndian32, format, wordLimit, twoPow]
  have rows : ∀ row ∈ (List.range image.height).map image.row, row.length = image.width * 4 :=
    length_of_mem_rows image
  have read := readRows?_plainRows _ rows
  have closing : ([] : List UInt8).length < wordLimit := by simp [wordLimit, twoPow]
  have last := readChunk?_append endName closing []
  rw [List.append_nil] at last
  rw [List.length_map, List.length_range] at read
  simp only [decode?, encode, List.take_left, List.drop_left, readChunk?_append headerName header,
    readChunk?_append dataName hdata, last, readBigEndian32?_append hwidth,
    readBigEndian32?_append hheight, readStream?_imageStream, read, Option.bind_eq_bind,
    Option.bind_some]
  rw [← image.flatMap_row, List.flatMap_def]
  simp

/-! ## What can be created fits a file -/

/-- Stored blocks take little more than their data. -/
theorem length_storedBlocks_le (data : List UInt8) :
    64 * (storedBlocks data).length ≤ 65 * data.length + 320 := by
  fun_induction storedBlocks data with
  | case1 data small => simp only [storedBlock, List.length_cons]; omega
  | case2 data large ih =>
    simp only [blockSize] at large ih
    simp only [storedBlock, blockSize, List.length_append, List.length_cons, List.length_take,
      List.length_drop] at ih ⊢
    omega

theorem length_plainRows {width : Nat} (rows : List (List UInt8))
    (h : ∀ row ∈ rows, row.length = width) :
    (plainRows rows).length = rows.length * (width + 1) := by
  induction rows with
  | nil => simp [plainRows]
  | cons row rows ih =>
    have more := ih fun r hr => h r (List.mem_cons_of_mem _ hr)
    simp only [plainRows, List.flatMap_cons, List.length_append, List.length_cons] at more ⊢
    rw [more, h row List.mem_cons_self, Nat.succ_mul]
    omega

/-- The bytes of an image that a file is sure to hold. -/
def byteLimit : Nat := twoPow 31

/-- An image that is not too large reads back from its file. -/
theorem decode?_encode_of_size_le {image : Image} (wide : 0 < image.width)
    (tall : 0 < image.height) (fits : image.size ≤ byteLimit) :
    decode? (encode image) = some ⟨image.width, image.height, image.rgba⟩ := by
  have plain := length_plainRows _ (length_of_mem_rows image)
  rw [List.length_map, List.length_range] at plain
  have blocks := length_storedBlocks_le (plainRows ((List.range image.height).map image.row))
  have limit : byteLimit = 2147483648 := rfl
  have word : wordLimit = 4294967296 := rfl
  have rows : image.height * 1 ≤ image.height * image.width := Nat.mul_le_mul_left _ wide
  have columns : 1 * image.width ≤ image.height * image.width := Nat.mul_le_mul_right _ tall
  rw [Image.size, ← Nat.mul_assoc, limit] at fits
  rw [Nat.mul_add, ← Nat.mul_assoc, Nat.mul_one] at plain
  refine decode?_encode_of_lt (by omega) (by omega) ?_
  change (stream (plainRows ((List.range image.height).map image.row))).length < wordLimit
  simp only [stream, streamHeader, bigEndian32, List.length_cons, List.length_append,
    List.length_nil]
  omega

/-- Every image that can be created with the standard memory reads back from its file. -/
theorem decode?_encode {f : Frame} {scale : Number} {on off : Rgb} {image : Image}
    (h : Image.create? f scale on off = .ok image) :
    decode? (encode image) = some ⟨image.width, image.height, image.rgba⟩ := by
  obtain ⟨wide, tall, fits⟩ := Image.bounds_of_create? h
  exact decode?_encode_of_size_le wide tall fits

end Chip8.Png
