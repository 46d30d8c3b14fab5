import Chip8.Image

/-!
# Painting an image

A picture is painted into a store of bytes pixel by pixel, each at its own place. `Fills` says of a
writer that it replaces the bytes from a place on and leaves all others alone. The pixels of a row
fill one stretch of the store and the rows the next ones, so what is painted does not depend on what
the store held before: it is the bytes of the picture (`rgba_paint`).
-/

namespace Chip8.Picture

/-- The writer puts some bytes where as many lay before, from a place on. -/
def Fills {n : Nat} (write : Vector UInt8 n → Vector UInt8 n) (place : Nat) (bytes : List UInt8) :
    Prop :=
  ∀ store before old after, store.toList = before ++ old ++ after → before.length = place →
    old.length = bytes.length → (write store).toList = before ++ bytes ++ after

section Fills

variable {n : Nat}

theorem fills_set (place : Nat) (b : UInt8) :
    Fills (fun store : Vector UInt8 n => store.setIfInBounds place b) place [b] := by
  intro store before old after split start room
  obtain ⟨a, rfl⟩ := List.length_eq_one_iff.1 room
  subst start
  simp [split]

theorem Fills.append {first second : Vector UInt8 n → Vector UInt8 n} {place : Nat}
    {bytes more : List UInt8} (fills : Fills first place bytes)
    (goes : Fills second (place + bytes.length) more) :
    Fills (fun store => second (first store)) place (bytes ++ more) := by
  intro store before old after split start room
  rw [List.length_append] at room
  obtain ⟨front, back, rfl, width⟩ :
      ∃ front back, old = front ++ back ∧ front.length = bytes.length :=
    ⟨_, _, (List.take_append_drop bytes.length old).symm, List.length_take_of_le (by omega)⟩
  rw [List.length_append] at room
  have filled : (first store).toList = before ++ bytes ++ (back ++ after) :=
    fills store before front (back ++ after) (by simp [split]) start width
  have both : (second (first store)).toList = before ++ bytes ++ more ++ after :=
    goes (first store) (before ++ bytes) back after (by simp [filled])
      (by rw [List.length_append, start]) (by omega)
  rw [both, List.append_assoc before]

theorem fills_stamp (place : Nat) (c : Rgb) :
    Fills (stamp place c : Vector UInt8 n → Vector UInt8 n) place c.bytes := by
  have red : Fills (fun store : Vector UInt8 n => store.setIfInBounds place c.red) place [c.red] :=
    fills_set place c.red
  have green := red.append (fills_set _ c.green)
  have blue := green.append (fills_set _ c.blue)
  have alpha := blue.append (fills_set _ 255)
  exact alpha

theorem fills_repeated {write : Nat → Vector UInt8 n → Vector UInt8 n} {place size count : Nat}
    {piece : Nat → List UInt8} (length : ∀ i, (piece i).length = size)
    (fills : ∀ i, Fills (write i) (place + i * size) (piece i)) :
    Fills (repeated write count) place ((List.range count).flatMap piece) := by
  induction count with
  | zero =>
    intro store before old after split start room
    rw [List.length_eq_zero_iff.1 room] at split
    exact split
  | succ count ih =>
    have last := fills count
    rw [← length_flatMap_range piece size length count] at last
    have both := ih.append last
    rw [List.range_succ, List.flatMap_append, List.flatMap_singleton]
    have step : repeated write (count + 1) =
        fun store => write count (repeated write count store) := by
      funext store
      rw [repeated, List.range_succ, List.foldl_append]
      rfl
    rw [step]
    exact both

/-- All rows fill a store from its first byte on. -/
theorem fills_fill (d : Picture) : Fills (d.fill : Vector UInt8 n → Vector UInt8 n) 0 d.rgba := by
  have pixel (y x : Nat) :
      Fills (stamp ((y * d.width + x) * 4) (d.colour x y) : Vector UInt8 n → Vector UInt8 n)
        (y * (d.width * 4) + x * 4) (d.colour x y).bytes := by
    rw [← Nat.mul_assoc, ← Nat.add_mul]
    exact fills_stamp _ _
  have row (y : Nat) :
      Fills (repeated (fun x => stamp ((y * d.width + x) * 4) (d.colour x y)) d.width :
        Vector UInt8 n → Vector UInt8 n) (0 + y * (d.width * 4)) (d.row y) := by
    rw [Nat.zero_add]
    exact fills_repeated (fun _ => rfl) (pixel y)
  exact fills_repeated d.length_row row

end Fills

/-- Whatever a store of the right size held, the bytes of the picture are painted over all of it. -/
theorem rgba_paint (d : Picture) (store : Vector UInt8 d.size) : (d.paint store).rgba = d.rgba := by
  have whole := d.fills_fill store [] store.toList [] (by simp) rfl
    (by rw [Vector.length_toList, length_rgba])
  rwa [List.nil_append, List.append_nil] at whole

/-! ## Pixels and bytes -/

/-- Every byte is one of the four of its pixel. -/
theorem getElem?_rgba (d : Picture) {x y n : Nat} (hx : x < d.width) (hy : y < d.height)
    (hn : n < 4) : d.rgba[(y * d.width + x) * 4 + n]? = (d.colour x y).bytes[n]? := by
  have place : (y * d.width + x) * 4 + n = y * (d.width * 4) + (x * 4 + n) := by
    rw [Nat.add_mul, Nat.mul_assoc, Nat.add_assoc]
  rw [place, rgba, getElem?_flatMap_range _ _ d.length_row hy (by omega), row,
    getElem?_flatMap_range _ 4 (fun _ => rfl) hx hn]

/-- The four bytes of a pixel. -/
theorem pixel_rgba (d : Picture) {x y : Nat} (hx : x < d.width) (hy : y < d.height) :
    (d.rgba.drop ((y * d.width + x) * 4)).take 4 = (d.colour x y).bytes := by
  apply List.ext_getElem?
  intro n
  rw [List.getElem?_take, List.getElem?_drop]
  split
  · next four => exact d.getElem?_rgba hx hy four
  · next past =>
    have outside : (d.colour x y).bytes.length ≤ n := Nat.not_lt.1 past
    exact (List.getElem?_eq_none outside).symm

/-- Every byte belongs to a pixel. -/
theorem exists_pixel (d : Picture) {n : Nat} (inside : n < d.size) :
    ∃ x y c, x < d.width ∧ y < d.height ∧ c < 4 ∧ n = (y * d.width + x) * 4 + c := by
  have pixels : n / 4 < d.width * d.height := by
    rw [size, ← Nat.mul_assoc, Nat.mul_comm d.height] at inside
    omega
  have wide : 0 < d.width := Nat.pos_of_ne_zero fun zero => by simp [zero] at pixels
  refine ⟨n / 4 % d.width, n / 4 / d.width, n % 4, Nat.mod_lt _ wide,
    Nat.div_lt_of_lt_mul pixels, Nat.mod_lt n (by decide), ?_⟩
  rw [Nat.div_add_mod', Nat.div_add_mod']

end Chip8.Picture
