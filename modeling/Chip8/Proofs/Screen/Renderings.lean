import Chip8.Proofs.Image
import Chip8.Proofs.Screen
import Mathlib.Algebra.Order.Floor.Ring
import Mathlib.Data.List.Count
import Mathlib.Data.Rat.Floor

/-!
# One picture

A screen is read pixel by pixel, counted, written as text and enlarged to an image, and each of
these looks at its cells in a way of its own: at the lowest bit, or at whether a cell is zero, with
an index that wraps or does not. On a screen of zeros and ones they show the same picture
(`renderings_agree`).
-/

namespace Chip8

/-! ## Cells -/

namespace Screen

variable {s : Screen} {x y i : Nat}

theorem index_lt (hx : x < screenWidth) (hy : y < screenHeight) :
    y * screenWidth + x < pixelCount := by
  unfold pixelCount screenWidth screenHeight at *
  omega

theorem getD_frame (s : Screen) (inside : i < pixelCount) (other : UInt8) :
    s.frame.getD i other = s.cells[i] := by
  have bound : i < s.frame.size := by rwa [frame, Vector.size_toArray]
  rw [Array.getD_eq_getD_getElem?, Array.getElem?_eq_getElem bound]
  rfl

/-- Within the screen no coordinate wraps. -/
theorem index_eq (hx : x < screenWidth) (hy : y < screenHeight) :
    Frame.index x y = (y * screenWidth + x : Nat) := by
  rw [Frame.index, ← Int.ofNat_tmod, ← Int.ofNat_tmod, Nat.mod_eq_of_lt hx, Nat.mod_eq_of_lt hy]
  rfl

theorem pixel_frame (s : Screen) (hx : x < screenWidth) (hy : y < screenHeight) :
    s.frame.pixel x y = s.frame.getD (y * screenWidth + x) 0 &&& 1 := by
  rw [Frame.pixel, index_eq hx hy, Frame.bit, if_neg (by omega), Int.toNat_natCast]

/-- The lowest bit of a cell says the same as whether it is zero. -/
theorem Binary.pixel_eq_one_iff (binary : s.Binary) (hx : x < screenWidth) (hy : y < screenHeight) :
    s.frame.pixel x y = 1 ↔ s.frame.lit (y * screenWidth + x) = true := by
  rw [pixel_frame s hx hy, Frame.lit, decide_eq_true_iff, getD_frame s (index_lt hx hy)]
  have cell := binary ⟨_, index_lt hx hy⟩
  rw [Fin.getElem_fin] at cell
  rcases cell with dark | lit
  · rw [dark]
    decide
  · rw [lit]
    decide

/-- A frame that lacks no cell is drawn with its own. -/
theorem drawnLit_frame (s : Screen) (inside : i < pixelCount) :
    Picture.drawnLit s.frame i = s.frame.lit i := by
  rw [Picture.drawnLit, Frame.lit, getD_frame s inside, getD_frame s inside]

end Screen

/-! ## Text -/

/-- Rows of one length, one after the other. -/
theorem flatMap_range_map {α : Type} (g : Nat → α) (rows width : Nat) :
    (List.range rows).flatMap (fun y => (List.range width).map fun x => g (y * width + x)) =
      (List.range (rows * width)).map g := by
  induction rows with
  | zero => rw [Nat.zero_mul]; rfl
  | succ rows ih =>
    rw [List.range_succ, List.flatMap_append, ih, List.flatMap_singleton, Nat.succ_mul,
      List.range_add, List.map_append, List.map_map]
    rfl

namespace Frame

variable {f : Frame} {lit dark : Char} {x y : Nat}

theorem toList_rowText (f : Frame) (lit dark : Char) (y : Nat) :
    (f.rowText [lit] [dark] y).toList =
      (List.range screenWidth).map fun x => if f.lit (y * screenWidth + x) then lit else dark := by
  have single (x : Nat) : (if f.lit (y * screenWidth + x) then [lit] else [dark]) =
      [if f.lit (y * screenWidth + x) then lit else dark] := (apply_ite (fun c => [c]) ..).symm
  rw [rowText, String.toList_ofList, List.map_eq_flatMap]
  simp only [single]

theorem length_rows (f : Frame) (lit dark : List Char) :
    (f.rows lit dark).length = screenHeight := by
  rw [rows, List.length_map, List.length_range]

theorem flatMap_rows (f : Frame) (lit dark : Char) :
    (f.rows [lit] [dark]).flatMap String.toList =
      (List.range pixelCount).map fun i => if f.lit i then lit else dark := by
  rw [rows, List.flatMap_map]
  simp only [toList_rowText]
  rw [flatMap_range_map (fun i => if f.lit i then lit else dark), Nat.mul_comm]
  rfl

theorem countLit_eq (f : Frame) : f.countLit = (List.range f.size).countP f.lit := by
  have cells : f.toList = (List.range f.size).map fun i => f.getD i 0 := by
    refine List.ext_getElem (by simp) fun i inside _ => ?_
    rw [Array.length_toList] at inside
    simp [inside]
  rw [countLit, cells, List.countP_map]
  rfl

/-- The marks for lit pixels are counted. -/
theorem count_rows (f : Frame) (whole : f.size = pixelCount) (differ : lit ≠ dark) :
    ((f.rows [lit] [dark]).flatMap String.toList).count lit = f.countLit := by
  rw [flatMap_rows, countLit_eq, whole, List.count, List.countP_map]
  refine List.countP_congr fun i _ => ?_
  rw [Function.comp_apply, beq_iff_eq]
  split
  · next on => exact iff_of_true rfl on
  · next off => exact iff_of_false (Ne.symm differ) off

end Frame

/-! ## All renderings -/

theorem Image.squareSide_finite {scale : Rat} (positive : 1 ≤ ⌊scale⌋) :
    squareSide (.finite scale) = ⌊scale⌋.toNat := by
  change max 1 ⌊scale⌋.toNat = _
  omega

/-- A pixel of the enlarged screen has the colour of the pixel of the screen that it lies in. -/
theorem Screen.Binary.colour_ofFrame {s : Screen} (binary : s.Binary) {k x y : Nat} (on off : Rgb)
    (hx : x < screenWidth * k) (hy : y < screenHeight * k) :
    (Picture.ofFrame s.frame k on off).colour x y =
      if s.frame.pixel (x / k : Nat) (y / k : Nat) = 1 then on else off := by
  have column : x / k < screenWidth := Nat.div_lt_of_lt_mul (by rwa [Nat.mul_comm])
  have line : y / k < screenHeight := Nat.div_lt_of_lt_mul (by rwa [Nat.mul_comm])
  have drawn := drawnLit_frame s (index_lt column line)
  simp only [Picture.ofFrame, drawn, ← binary.pixel_eq_one_iff column line]

/-- A row of the text has a mark for each pixel of a row of the screen. -/
theorem Screen.Binary.exists_row {s : Screen} (binary : s.Binary) (lit dark : Char) {y : Nat}
    (hy : y < screenHeight) :
    ∃ row, (s.frame.rows [lit] [dark])[y]? = some row ∧ row.length = screenWidth ∧
      ∀ x < screenWidth, row.toList[x]? =
        some (if s.frame.pixel (x : Nat) (y : Nat) = 1 then lit else dark) := by
  refine ⟨s.frame.rowText [lit] [dark] y, ?_, ?_, fun x hx => ?_⟩
  · rw [Frame.rows, List.getElem?_map, List.getElem?_range hy]
    rfl
  · rw [← String.length_toList, Frame.toList_rowText, List.length_map, List.length_range]
  · rw [Frame.toList_rowText, List.getElem?_map, List.getElem?_range hx, Option.map_some]
    simp only [binary.pixel_eq_one_iff hx hy]

/-- The image shows the screen enlarged by `k`: its size, four bytes to each pixel in the colour of
the pixel of the screen that it lies in, and no byte besides. -/
structure Image.Shows (image : Image) (f : Frame) (k : Nat) (on off : Rgb) : Prop where
  width : image.width = 64 * k
  height : image.height = 32 * k
  length : image.rgba.length = 64 * k * (32 * k) * 4
  pixel : ∀ x y, x < 64 * k → y < 32 * k →
    (image.rgba.drop ((y * (64 * k) + x) * 4)).take 4 =
      (if f.pixel (x / k : Nat) (y / k : Nat) = 1 then on else off).bytes
  byte : ∀ n < image.rgba.length,
    ∃ x y c, x < 64 * k ∧ y < 32 * k ∧ c < 4 ∧ n = (y * (64 * k) + x) * 4 + c

/-- A screen of zeros and ones is painted, whatever the store held before. -/
theorem Screen.Binary.shows_paint {s : Screen} (binary : s.Binary) (k : Nat) (on off : Rgb)
    (store : Vector UInt8 (Picture.ofFrame s.frame k on off).size) :
    ((Picture.ofFrame s.frame k on off).paint store).Shows s.frame k on off := by
  generalize drawn : Picture.ofFrame s.frame k on off = d at store
  have width : d.width = 64 * k := by rw [← drawn]; rfl
  have height : d.height = 32 * k := by rw [← drawn]; rfl
  have length : (d.paint store).rgba.length = d.size := by rw [d.rgba_paint, d.length_rgba]
  refine ⟨width, height, ?_, fun x y hx hy => ?_, fun n inside => ?_⟩
  · rw [length, Picture.size, width, height, ← Nat.mul_assoc, Nat.mul_comm (32 * k)]
  · rw [d.rgba_paint, ← width, d.pixel_rgba (by rwa [width]) (by rwa [height]), ← drawn,
      binary.colour_ofFrame on off hx hy]
  · rw [← width, ← height]
    exact d.exists_pixel (length ▸ inside)

/-- On a screen of zeros and ones all renderings show the same picture. Enlarged by the whole part
of a scale it is an image whose bytes are all painted, four to a pixel, whatever their store held
before, and it is made whenever there is a store for it; as text it has a mark for each pixel; and
the marks for lit pixels are as many as the lit pixels that are counted. -/
theorem renderings_agree {s : Screen} (binary : s.Binary) {scale : Rat} (positive : 1 ≤ ⌊scale⌋)
    (on off : Rgb) {lit dark : Char} (differ : lit ≠ dark) :
    let k := ⌊scale⌋.toNat
    let rows := s.frame.rows [lit] [dark]
    (∀ stores : Image.Stores,
      (∀ store, stores (64 * k) (32 * k) = .ok store →
        ∃ image, Image.create? s.frame (.finite scale) on off stores = .ok image ∧
          image.Shows s.frame k on off) ∧
      ∀ e, stores (64 * k) (32 * k) = .error e →
        Image.create? s.frame (.finite scale) on off stores = .error e) ∧
    rows.length = 32 ∧
    (∀ y < 32, ∃ row, rows[y]? = some row ∧ row.length = 64 ∧
      ∀ x < 64, row.toList[x]? =
        some (if s.frame.pixel (x : Nat) (y : Nat) = 1 then lit else dark)) ∧
    (rows.flatMap String.toList).count lit = s.frame.countLit := by
  intro k rows
  have side : Image.squareSide (.finite scale) = k := Image.squareSide_finite positive
  refine ⟨fun stores => ?_, Frame.length_rows .., fun y hy => binary.exists_row lit dark hy,
    Frame.count_rows _ (Vector.size_toArray _) differ⟩
  have created : Image.create? s.frame (.finite scale) on off stores =
      (stores (64 * k) (32 * k)).map (Picture.ofFrame s.frame k on off).paint := by
    rw [← side]
    exact Image.create?_eq_map nofun nofun
  rw [created]
  constructor
  · intro store given
    rw [given]
    exact ⟨_, rfl, binary.shows_paint k on off store⟩
  · intro e none
    rw [none]
    rfl

/-- One pixel is lit, in column 3 of row 4. At two and a half it becomes a square of four pixels, in
a store that was full of sevens. -/
theorem renderings_agree_on_one_pixel :
    let s := (Screen.dark.flip 3 4).2
    let scale : Rat := 5 / 2
    let on : Rgb := ⟨200, 100, 0⟩
    let rows := s.frame.rows ['#'] ['.']
    s.Binary ∧ 1 ≤ ⌊scale⌋ ∧ '#' ≠ '.' ∧
    (∃ image, Image.create? s.frame (.finite scale) on .black
        (fun _ _ => .ok (Vector.replicate _ 7)) = .ok image ∧ image.width = 128 ∧
      (image.rgba.drop ((9 * 128 + 7) * 4)).take 4 = [200, 100, 0, 255] ∧
      (image.rgba.drop ((9 * 128 + 8) * 4)).take 4 = [0, 0, 0, 255]) ∧
    (∃ row, rows[4]? = some row ∧ row.toList[3]? = some '#' ∧ row.toList[4]? = some '.') ∧
    (rows.flatMap String.toList).count '#' = 1 := by
  intro s scale on rows
  have binary : s.Binary := Screen.binary_dark.flip 3 4
  have floor : ⌊scale⌋ = 2 := by norm_num [scale]
  have positive : 1 ≤ ⌊scale⌋ := by rw [floor]; decide
  have differ : '#' ≠ '.' := by decide
  obtain ⟨lit, dark, one⟩ :
      s.frame.pixel 3 4 = 1 ∧ s.frame.pixel 4 4 = 0 ∧ s.frame.countLit = 1 := by decide +kernel
  obtain ⟨create, -, text, count⟩ := renderings_agree binary positive on .black differ
  obtain ⟨image, made, shows⟩ := (create fun _ _ => .ok (Vector.replicate _ 7)).1 _ rfl
  rw [floor] at shows
  refine ⟨binary, positive, differ, ⟨image, made, shows.width, ?_, ?_⟩, ?_, count.trans one⟩
  · have inside := shows.pixel 7 9 (by decide) (by decide)
    rw [show s.frame.pixel (7 / Int.toNat 2 : Nat) (9 / Int.toNat 2 : Nat) = 1 from lit] at inside
    exact inside
  · have outside := shows.pixel 8 9 (by decide) (by decide)
    rw [show s.frame.pixel (8 / Int.toNat 2 : Nat) (9 / Int.toNat 2 : Nat) = 0 from dark] at outside
    exact outside
  · obtain ⟨row, found, -, marks⟩ := text 4 (by decide)
    have here := marks 3 (by decide)
    have next := marks 4 (by decide)
    rw [show s.frame.pixel (3 : Nat) (4 : Nat) = 1 from lit] at here
    rw [show s.frame.pixel (4 : Nat) (4 : Nat) = 0 from dark] at next
    exact ⟨row, found, here, next⟩

end Chip8
