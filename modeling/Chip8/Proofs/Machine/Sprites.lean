import Chip8.Proofs.Processor.Step
import Chip8.Proofs.Screen
import Chip8.Proofs.Screen.Drawing
import Mathlib.Data.List.Count

/-!
# Sprites on the screen

`Sprite.covers` says which pixels a sprite lights, with the arithmetic of a screen that wraps in
both directions. An instruction that draws inverts exactly these pixels and changes nothing else but
the flag (`draw_inverts_sprite`). So what any number of drawings leave on a pixel is told by how
many of their sprites cover it (`pixel_drawnOn`): their order does not matter, and two of the same
sprite cancel each other (`drawings_commute`).
-/

namespace Chip8

open Screen

/-- A sprite in memory, one byte a row, and the place of its top left corner. -/
structure Sprite where
  address : Int
  height : Fin 16
  column : UInt8
  row : UInt8
  fits : height.val = 0 ∨ 0 ≤ address ∧ address + height ≤ 0x1000

namespace Sprite

/-- The pixel in column `px` of row `py` is under a set bit of the sprite. The highest bit of a byte
is the leftmost. -/
def covers (s : Sprite) (memory : Memory) (px : Fin screenWidth) (py : Fin screenHeight) : Bool :=
  let r := ((py : Int) - s.row.toNat) % screenHeight
  let c := ((px : Int) - s.column.toNat) % screenWidth
  decide (r < s.height ∧ c < 8) && (memory.read8 (s.address + r)).toNat.testBit (7 - c).toNat

def rows (s : Sprite) (memory : Memory) : List UInt8 :=
  (List.range s.height).map fun (k : Nat) => memory.read8 (s.address + k)

variable {s : Sprite} {memory : Memory} {px : Fin screenWidth} {py : Fin screenHeight}

theorem length_rows (s : Sprite) (memory : Memory) : (s.rows memory).length = s.height := by
  rw [rows, List.length_map, List.length_range]

theorem getElem?_rows {r : Nat} {b : UInt8} :
    (s.rows memory)[r]? = some b ↔ r < s.height.val ∧ memory.read8 (s.address + r) = b := by
  rw [List.getElem?_eq_some_iff]
  simp [rows]

/-- A coordinate that wraps, and how far it lies behind another one. -/
theorem wraps_iff {size p a k : Nat} (hp : p < size) (hk : k < size) :
    p = (a + k) % size ↔ ((p : Int) - a) % size = k := by
  rw [← Int.natCast_inj, Int.natCast_emod, Int.natCast_add]
  have low : (p : Int) % size = p := Int.emod_eq_of_lt (by omega) (by omega)
  constructor
  · intro same
    have ahead : (a : Int) + k - a = k := by omega
    rw [same, Int.emod_sub_emod, ahead]
    exact Int.emod_eq_of_lt (by omega) (by omega)
  · intro same
    have back : (a : Int) + (p - a) = p := by omega
    rw [← same, Int.add_emod_emod, back, low]

theorem covers_iff : s.covers memory px py = true ↔
    ∃ r c : Nat, r < s.height.val ∧ c < 8 ∧
    (memory.read8 (s.address + r)).toNat.testBit (7 - c) = true ∧
      px.val = (s.column.toNat + c) % screenWidth ∧ py.val = (s.row.toNat + r) % screenHeight := by
  have width : screenWidth = 64 := rfl
  have depth : screenHeight = 32 := rfl
  have height := s.height.isLt
  rw [covers, Bool.and_eq_true, decide_eq_true_iff]
  constructor
  · rintro ⟨⟨inside, left⟩, bit⟩
    -- The row and the column of the sprite that fall on the pixel.
    obtain ⟨r, hr⟩ :=
      Int.eq_ofNat_of_zero_le
        (Int.emod_nonneg ((py : Int) - s.row.toNat) (b := screenHeight) (by omega))
    obtain ⟨c, hc⟩ :=
      Int.eq_ofNat_of_zero_le
        (Int.emod_nonneg ((px : Int) - s.column.toNat) (b := screenWidth) (by omega))
    have place : (7 - (c : Int)).toNat = 7 - c := by omega
    rw [hr] at inside bit
    rw [hc] at left bit
    rw [place] at bit
    exact ⟨r, c, by omega, by omega, bit, (wraps_iff px.isLt (by omega)).2 hc,
      (wraps_iff py.isLt (by omega)).2 hr⟩
  · rintro ⟨r, c, inside, left, bit, column, line⟩
    have place : (7 - (c : Int)).toNat = 7 - c := by omega
    rw [(wraps_iff px.isLt (by omega)).1 column, (wraps_iff py.isLt (by omega)).1 line, place]
    exact ⟨⟨by omega, by omega⟩, bit⟩

theorem underSprite_iff :
    underSprite s.column.toNat s.row.toNat (s.rows memory) px py ↔
      s.covers memory px py = true := by
  rw [covers_iff]
  constructor
  · rintro ⟨r, b, there, line, c, member, bit, column⟩
    obtain ⟨inside, rfl⟩ := getElem?_rows.1 there
    exact ⟨r, c, inside, List.mem_range.1 member, bit, column, line⟩
  · rintro ⟨r, c, inside, left, bit, column, line⟩
    exact ⟨r, _, getElem?_rows.2 ⟨inside, rfl⟩, line, c, List.mem_range.2 left, bit, column⟩

/-- Every set bit of a sprite falls on a pixel. -/
theorem exists_covers_iff :
    (∃ px py, s.covers memory px py = true) ↔ ∃ r : Nat, r < s.height.val ∧
    memory.read8 (s.address + r) ≠ 0 := by
  simp only [covers_iff]
  constructor
  · rintro ⟨px, py, r, c, inside, -, bit, -, -⟩
    refine ⟨r, inside, fun blank => ?_⟩
    rw [blank] at bit
    simp at bit
  · rintro ⟨r, inside, set⟩
    obtain ⟨k, bit⟩ := Nat.exists_testBit_of_ne_zero fun zero => set (UInt8.toNat_inj.1 zero)
    have bound : k < 8 := by
      by_contra beyond
      have small : (memory.read8 (s.address + r)).toNat < 2 ^ k :=
        Nat.lt_of_lt_of_le (memory.read8 (s.address + r)).toNat_lt
          (Nat.pow_le_pow_right (by omega) (by omega : 8 ≤ k))
      rw [Nat.testBit_lt_two_pow small] at bit
      cases bit
    have place : 7 - (7 - k) = k := by omega
    exact ⟨⟨_, Nat.mod_lt _ (by decide)⟩, ⟨_, Nat.mod_lt _ (by decide)⟩, r, 7 - k, inside, by omega,
      place.symm ▸ bit, rfl, rfl⟩

/-- The pixels that a sprite covers. -/
def region (s : Sprite) (memory : Memory) : Region := fun px py => s.covers memory px py = true

end Sprite

/-! ## One drawing -/

theorem Screen.Binary.pixel_cases {s : Screen} (binary : s.Binary) (px : Fin screenWidth)
    (py : Fin screenHeight) :
    s.pixel px py = 0 ∨ s.pixel px py = 1 := binary (cell px py)

theorem Screen.Inverts.pixel_eq {s : Screen} {drawing : Bool × Screen}
    {covers : Fin screenWidth → Fin screenHeight → Bool}
    (inverts : s.Inverts (fun px py => covers px py = true) drawing) (px : Fin screenWidth)
    (py : Fin screenHeight) :
    drawing.2.pixel px py = s.pixel px py ^^^ (if covers px py then 1 else 0) := by
  by_cases inside : covers px py = true
  · rw [if_pos inside, inverts.inside px py inside]
  · rw [if_neg inside, inverts.outside px py inside, UInt8.xor_zero]

variable (d : Dialect) (e : UInt8)

/-- A drawing that stays in memory goes through, and inverts the pixels that its sprite covers. -/
theorem exists_execute_draw (m : Machine) (x y : Reg) (height : Fin 16)
    (fits : height.val = 0 ∨ 0 ≤ m.i ∧ m.i + height ≤ 0x1000) :
    ∃ hit screen, Word.execute d e m (Word.ofNibbles 0xD x y height) =
        (.proceed .advance,
          { m with screen, drawn := true }.setReg flagReg (if hit then 1 else 0)) ∧
      m.screen.Inverts (Sprite.region ⟨m.i, height, m.reg x, m.reg y, fits⟩ m.memory)
        (hit, screen) := by
  let sprite : Sprite := ⟨m.i, height, m.reg x, m.reg y, fits⟩
  have low : (sprite.rows m.memory).length ≤ screenHeight := by
    have := height.isLt
    rw [Sprite.length_rows]
    unfold screenHeight
    omega
  have inverts := inverts_drawSprite m.screen (m.reg x).toNat (m.reg y).toNat low
  refine ⟨_, _, ?_, inverts.congr fun px py => Sprite.underSprite_iff (s := sprite)⟩
  have word : Instr.ofWord? (Word.ofNibbles 0xD x y height) = some (.draw x y height) :=
    Instr.ofWord?_toWord (.draw x y height)
  rw [Word.execute_of_some d e m word, Instr.execute_draw, if_pos (readable_iff.2 fits)]
  rfl

/-- A drawing inverts the pixels under the set bits of its sprite, sets the flag if one of them went
dark, and leaves all else alone. The sprite is placed by the registers as they were before the
drawing, also if one of them is the flag. -/
theorem draw_inverts_sprite {m : Machine} (binary : m.screen.Binary) (x y : Reg) (height : Fin 16)
    (fits : height.val = 0 ∨ 0 ≤ m.i ∧ m.i + height ≤ 0x1000) :
    let sprite : Sprite := ⟨m.i, height, m.reg x, m.reg y, fits⟩
    ∃ screen, ∃ flag : Bool,
      Word.execute d e m (Word.ofNibbles 0xD x y height) =
        (.proceed .advance,
          { m with screen, drawn := true }.setReg flagReg (if flag then 1 else 0)) ∧
      (∀ px py, screen.pixel px py =
        m.screen.pixel px py ^^^ (if sprite.covers m.memory px py then 1 else 0)) ∧
      (flag = true ↔ ∃ px py, m.screen.pixel px py = 1 ∧ screen.pixel px py = 0) := by
  intro sprite
  obtain ⟨hit, screen, drawn, inverts⟩ := exists_execute_draw d e m x y height fits
  refine ⟨screen, hit, drawn, inverts.pixel_eq, inverts.hit.trans ?_⟩
  refine exists₂_congr fun px py => ?_
  constructor
  · rintro ⟨inside, lit⟩
    have one := (binary.pixel_cases px py).resolve_left lit
    have dark := inverts.inside px py inside
    rw [one] at dark
    exact ⟨one, dark⟩
  · rintro ⟨one, dark⟩
    have lit : m.screen.pixel px py ≠ 0 := by
      rw [one]
      decide
    refine ⟨?_, lit⟩
    by_contra outside
    exact lit ((inverts.outside px py outside).symm.trans dark)

/-- A sprite in the last byte of memory, drawn over the corner of the screen, at a column that the
flag register holds. -/
theorem draw_inverts_sprite_at_corner :
    let m : Machine := { Machine.start with
      memory := Memory.blank.write8 0xFFF 0xC3
      i := 0xFFF
      v := (Vector.replicate 16 31).set 15 62
      screen := (Screen.dark.flip 4 31).2 }
    m.screen.Binary ∧ (0 ≤ m.i ∧ m.i + 1 ≤ 0x1000) ∧
    ∃ screen, Word.execute .standard 0 m 0xDF11 =
        (.proceed .advance, { m with screen, drawn := true }.setReg flagReg 1) ∧
      screen.pixel (62 : Fin 64) (31 : Fin 32) = 1 ∧ screen.pixel (4 : Fin 64) (31 : Fin 32) = 0 ∧
      screen.pixel (5 : Fin 64) (31 : Fin 32) = 1 := by
  intro m
  have binary : m.screen.Binary := binary_dark.flip 4 31
  obtain ⟨screen, flag, drawn, pixels, lit⟩ :=
    draw_inverts_sprite .standard 0 binary 15 1 1 (.inr (by decide))
  have was : m.screen.pixel (4 : Fin 64) (31 : Fin 32) = 1 := by decide +kernel
  have gone : screen.pixel (4 : Fin 64) (31 : Fin 32) = 0 := (pixels _ _).trans (by decide +kernel)
  obtain rfl : flag = true := lit.2 ⟨_, _, was, gone⟩
  exact ⟨binary, by decide, screen, drawn, (pixels _ _).trans (by decide +kernel), gone,
    (pixels _ _).trans (by decide +kernel)⟩

/-! ## Many drawings -/

/-- A sprite to be drawn, and the registers that are to hold its place. -/
structure Drawing where
  sprite : Sprite
  x : Reg
  y : Reg
  apart : x = y → sprite.column = sprite.row

namespace Drawing

/-- Sets the index register and the two registers, and draws. -/
def perform (g : Drawing) (m : Machine) : Outcome × Machine :=
  let placed :=
    ({ m with i := g.sprite.address }.setReg g.x g.sprite.column).setReg g.y g.sprite.row
  Word.execute d e placed (Instr.draw g.x g.y g.sprite.height).toWord

theorem exists_perform (g : Drawing) (m : Machine) :
    ∃ hit m', g.perform d e m = (.proceed .advance, m') ∧ m'.memory = m.memory ∧
      m'.reg flagReg = (if hit then 1 else 0) ∧
      m.screen.Inverts (g.sprite.region m.memory) (hit, m'.screen) := by
  let placed :=
    ({ m with i := g.sprite.address }.setReg g.x g.sprite.column).setReg g.y g.sprite.row
  have column : placed.reg g.x = g.sprite.column := by
    by_cases same : g.y = g.x
    · rw [Machine.reg_setReg, if_pos same, g.apart same.symm]
    · rw [Machine.reg_setReg, if_neg same, Machine.reg_setReg_self]
  have row : placed.reg g.y = g.sprite.row := Machine.reg_setReg_self ..
  obtain ⟨hit, screen, drawn, inverts⟩ :=
    exists_execute_draw d e placed g.x g.y g.sprite.height g.sprite.fits
  refine ⟨hit, _, drawn, rfl, Machine.reg_setReg_self .., ?_⟩
  have same :
      (⟨placed.i, g.sprite.height, placed.reg g.x, placed.reg g.y, g.sprite.fits⟩ : Sprite) =
        g.sprite := by
    simp only [column, row]
    rfl
  rw [same] at inverts
  exact inverts

end Drawing

/-- The machine after some drawings. -/
def Machine.drawnOn (m : Machine) (gs : List Drawing) : Machine :=
  gs.foldl (fun m g => (g.perform d e m).2) m

/-- How many of some sprites cover a pixel. -/
def coverage (memory : Memory) (sprites : List Sprite) (px : Fin screenWidth)
    (py : Fin screenHeight) : Nat :=
  sprites.countP fun s => s.covers memory px py

/-- What an even or an odd number of inversions makes of a pixel. -/
def parityBit (n : Nat) : UInt8 := if n % 2 = 1 then 1 else 0

theorem parityBit_add_two (n : Nat) : parityBit (n + 2) = parityBit n := by
  rw [parityBit, parityBit, Nat.add_mod_right]

theorem parityBit_succ (n : Nat) : parityBit (n + 1) = 1 ^^^ parityBit n := by
  rcases Nat.mod_two_eq_zero_or_one n with even | odd
  · rw [parityBit, parityBit, if_pos (by omega), if_neg (by omega)]
    rfl
  · rw [parityBit, parityBit, if_neg (by omega), if_pos odd]
    rfl

section Drawn

variable (m : Machine) (gs : List Drawing) (px : Fin screenWidth) (py : Fin screenHeight)

theorem memory_drawnOn : (m.drawnOn d e gs).memory = m.memory := by
  induction gs generalizing m with
  | nil => rfl
  | cons g gs ih =>
    obtain ⟨hit, m', performed, memory, -⟩ := g.exists_perform d e m
    rw [Machine.drawnOn, List.foldl_cons, performed]
    exact (ih m').trans memory

/-- Whether a pixel is inverted is the parity of the number of sprites that cover it. -/
theorem pixel_drawnOn :
    (m.drawnOn d e gs).screen.pixel px py =
      m.screen.pixel px py ^^^ parityBit (coverage m.memory (gs.map (·.sprite)) px py) := by
  induction gs generalizing m with
  | nil => exact UInt8.xor_zero.symm
  | cons g gs ih =>
    obtain ⟨hit, m', performed, memory, -, inverts⟩ := g.exists_perform d e m
    have rest := ih m'
    rw [memory, inverts.pixel_eq] at rest
    rw [Machine.drawnOn, List.foldl_cons, performed]
    refine rest.trans ?_
    rw [List.map_cons, coverage, coverage, List.countP_cons, UInt8.xor_assoc]
    congr 1
    by_cases inside : g.sprite.covers m.memory px py = true
    · rw [if_pos inside, if_pos inside, parityBit_succ]
    · rw [if_neg inside, if_neg inside, UInt8.zero_xor]
      rfl

theorem Screen.Inverts.binary {s : Screen} {region : Region} {drawing : Bool × Screen}
    (inverts : s.Inverts region drawing) (binary : s.Binary) : drawing.2.Binary := by
  intro k
  obtain ⟨px, py, here⟩ := exists_cell_eq k
  rw [← pixel_of_cell_eq here]
  by_cases inside : region px py
  · rw [inverts.inside px py inside]
    rcases binary.pixel_cases px py with dark | lit
    · exact .inr (by rw [dark]; rfl)
    · exact .inl (by rw [lit]; rfl)
  · rw [inverts.outside px py inside]
    exact binary.pixel_cases px py

theorem binary_drawnOn {m : Machine} (binary : m.screen.Binary) :
    (m.drawnOn d e gs).screen.Binary := by
  induction gs generalizing m with
  | nil => exact binary
  | cons g gs ih =>
    obtain ⟨hit, m', performed, -, -, inverts⟩ := g.exists_perform d e m
    rw [Machine.drawnOn, List.foldl_cons, performed]
    exact ih (inverts.binary binary)

theorem drawnOn_append (later : List Drawing) :
    m.drawnOn d e (gs ++ later) = (m.drawnOn d e gs).drawnOn d e later := List.foldl_append

end Drawn

/-- The screen is told by how many sprites cover each pixel. -/
theorem screen_drawnOn_congr (m : Machine) {gs gs' : List Drawing}
    (same : ∀ px py, parityBit (coverage m.memory (gs.map (·.sprite)) px py) =
      parityBit (coverage m.memory (gs'.map (·.sprite)) px py)) :
    (m.drawnOn d e gs).screen = (m.drawnOn d e gs').screen := by
  refine ext_pixel fun px py => ?_
  rw [pixel_drawnOn, pixel_drawnOn, same]

/-- The flag after a drawing says whether the sprite covers a pixel that was lit. -/
theorem flag_drawnOn_singleton (m : Machine) (g : Drawing) :
    ∃ hit : Bool, (m.drawnOn d e [g]).reg flagReg = (if hit then 1 else 0) ∧
      (hit = true ↔ ∃ px py, g.sprite.covers m.memory px py = true ∧ m.screen.pixel px py ≠ 0) := by
  obtain ⟨hit, m', performed, -, flag, inverts⟩ := g.exists_perform d e m
  have after : m.drawnOn d e [g] = m' := congrArg Prod.snd performed
  exact ⟨hit, after ▸ flag, inverts.hit⟩

/-- A sprite that is drawn again meets what it lit itself. -/
theorem flag_drawnOn_pair {m : Machine} (binary : m.screen.Binary) {g g' : Drawing}
    (same : g'.sprite = g.sprite) :
    (m.drawnOn d e [g, g']).reg flagReg = 1 ↔
      ∃ px py, g.sprite.covers m.memory px py = true ∧ m.screen.pixel px py = 0 := by
  have twice : m.drawnOn d e [g, g'] = (m.drawnOn d e [g]).drawnOn d e [g'] :=
    drawnOn_append d e m [g] [g']
  obtain ⟨hit, flag, met⟩ := flag_drawnOn_singleton d e (m.drawnOn d e [g]) g'
  have set : (m.drawnOn d e [g, g']).reg flagReg = 1 ↔ hit = true := by
    rw [twice, flag]
    cases hit <;> simp
  rw [set, met, memory_drawnOn, same]
  refine exists₂_congr fun px py => and_congr_right fun inside => ?_
  have once : coverage m.memory ([g].map (·.sprite)) px py = 1 :=
    List.countP_singleton.trans (if_pos inside)
  rw [pixel_drawnOn, once]
  rcases binary.pixel_cases px py with dark | lit
  · rw [dark]
    decide
  · rw [lit]
    decide

/-- Any drawings that stay in memory go through, and their order makes no difference to the screen.
Two of the same sprite cancel each other wherever they come. The second of two in a row sets the
flag if the first one lit a pixel; on a dark screen that is if the sprite has a set bit. -/
theorem drawings_commute {m : Machine} (binary : m.screen.Binary) :
    (∀ gs (g : Drawing), (g.perform d e (m.drawnOn d e gs)).1 = .proceed .advance) ∧
    (∀ gs gs', (gs.map Drawing.sprite).Perm (gs'.map Drawing.sprite) →
      (m.drawnOn d e gs).screen = (m.drawnOn d e gs').screen) ∧
    (∀ before between later g g', g'.sprite = g.sprite →
      (m.drawnOn d e (before ++ [g] ++ between ++ [g'] ++ later)).screen =
        (m.drawnOn d e (before ++ between ++ later)).screen) ∧
    (∀ before g g', g'.sprite = g.sprite →
      ((m.drawnOn d e (before ++ [g, g'])).reg flagReg = 1 ↔
        ∃ px py, g.sprite.covers m.memory px py = true ∧
        (m.drawnOn d e before).screen.pixel px py = 0)) ∧
    (m.screen = .dark → ∀ g g', g'.sprite = g.sprite →
      (m.drawnOn d e [g]).reg flagReg = 0 ∧
      ((m.drawnOn d e [g, g']).reg flagReg = 1 ↔
        ∃ r : Nat, r < g.sprite.height.val ∧ m.memory.read8 (g.sprite.address + r) ≠ 0)) := by
  refine ⟨?_, ?_, ?_, ?_, ?_⟩
  · intro gs g
    obtain ⟨hit, m', performed, -⟩ := g.exists_perform d e (m.drawnOn d e gs)
    rw [performed]
  · intro gs gs' perm
    refine screen_drawnOn_congr d e m fun px py => ?_
    rw [coverage, perm.countP_eq]
    rfl
  · intro before between later g g' same
    refine screen_drawnOn_congr d e m fun px py => ?_
    simp only [List.map_append, List.map_cons, List.map_nil, same, coverage, List.countP_append]
    -- Either both of the two cover the pixel or none of them does.
    by_cases inside : g.sprite.covers m.memory px py = true
    · rw [List.countP_singleton, if_pos inside]
      refine (congrArg parityBit ?_).trans (parityBit_add_two _)
      omega
    · rw [List.countP_singleton, if_neg inside]
      rfl
  · intro before g g' same
    rw [drawnOn_append, flag_drawnOn_pair d e (binary_drawnOn d e before binary) same,
      memory_drawnOn]
  · intro dark g g' same
    refine ⟨?_, ?_⟩
    · obtain ⟨hit, flag, met⟩ := flag_drawnOn_singleton d e m g
      have clear : ¬ hit = true := by
        rw [met]
        rintro ⟨px, py, -, lit⟩
        rw [dark, pixel_dark] at lit
        exact lit rfl
      rw [flag, if_neg clear]
    · rw [flag_drawnOn_pair d e binary same, ← Sprite.exists_covers_iff]
      simp only [dark, pixel_dark, and_true]

/-- Two glyphs, one of them drawn twice over the corner of the screen and the other one placed by
the flag register. -/
theorem drawings_commute_glyphs :
    let zero : Drawing := ⟨⟨0, 5, 62, 30, .inr (by decide)⟩, 0, 1, nofun⟩
    let one : Drawing := ⟨⟨5, 5, 60, 60, .inr (by decide)⟩, 15, 15, fun _ => rfl⟩
    let m := Machine.start
    m.screen.Binary ∧ ([zero, one].map Drawing.sprite).Perm ([one, zero].map Drawing.sprite) ∧
    (m.drawnOn .standard 0 [zero, one]).screen = (m.drawnOn .standard 0 [one, zero]).screen ∧
    (m.drawnOn .standard 0 [zero, one, zero]).screen = (m.drawnOn .standard 0 [one]).screen ∧
    (m.drawnOn .standard 0 [zero]).reg flagReg = 0 ∧
    (m.drawnOn .standard 0 [zero, zero]).reg flagReg = 1 := by
  intro zero one m
  have binary : m.screen.Binary := binary_dark
  have perm : ([zero, one].map Drawing.sprite).Perm ([one, zero].map Drawing.sprite) := .swap ..
  have set : m.memory.read8 (0 + (0 : Nat)) ≠ 0 := by decide +kernel
  obtain ⟨-, order, cancel, -, again⟩ := drawings_commute .standard 0 binary
  obtain ⟨first, second⟩ := again rfl zero zero rfl
  exact ⟨binary, perm, order _ _ perm, cancel [] [one] [] zero zero rfl, first,
    second.2 ⟨0, by decide, set⟩⟩

end Chip8
