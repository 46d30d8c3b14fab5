import Chip8.Screen
import Mathlib.Tactic.Common

/-!
# What a drawing inverts

`Screen.Inverts` is the exact specification of a drawing: it inverts the pixels of a region, leaves
all others alone, and answers whether a pixel of the region was lit before. Drawings on disjoint
regions add up (`Inverts.append`), so that the loops over columns and rows come down to the pixels
that they reach. The columns of a sprite row fall on different pixels, and its rows on different
rows of the screen, as long as there are no more of them than the screen is high
(`inverts_drawSprite`).
-/

namespace Chip8.Screen

/-- The cell of the pixel in column `px` of row `py`. -/
def pixel (s : Screen) (px : Fin screenWidth) (py : Fin screenHeight) : UInt8 := s.cells[cell px py]

theorem cell_eq_cell {x y x' y' : Nat} :
    cell x y = cell x' y' ↔ x % screenWidth = x' % screenWidth ∧
    y % screenHeight = y' % screenHeight := by
  simp only [cell, Fin.mk.injEq, screenWidth, screenHeight]
  omega

theorem exists_cell_eq (k : Fin pixelCount) :
    ∃ (px : Fin screenWidth) (py : Fin screenHeight), cell px py = k := by
  have bound : k.val < 2048 := k.isLt
  refine ⟨⟨k % 64, Nat.mod_lt _ (by decide)⟩, ⟨k / 64, by unfold screenHeight; omega⟩, ?_⟩
  apply Fin.ext
  simp only [cell, screenWidth, screenHeight]
  omega

theorem pixel_of_cell_eq {s : Screen} {k : Fin pixelCount} {px : Fin screenWidth}
    {py : Fin screenHeight} (same : cell px py = k) : s.pixel px py = s.cells[k] := by
  subst same
  rfl

theorem ext_pixel {s t : Screen} (same : ∀ px py, s.pixel px py = t.pixel px py) : s = t := by
  have cells : s.cells = t.cells := by
    apply Vector.ext
    intro k bound
    obtain ⟨px, py, here⟩ := exists_cell_eq ⟨k, bound⟩
    have eq := same px py
    rw [pixel_of_cell_eq here, pixel_of_cell_eq here] at eq
    exact eq
  cases s
  cases t
  exact congrArg Screen.mk cells

@[simp] theorem pixel_dark (px : Fin screenWidth) (py : Fin screenHeight) :
    dark.pixel px py = 0 := by
  simp [pixel, dark]

/-- A set of pixels, by column and row. -/
abbrev Region := Fin screenWidth → Fin screenHeight → Prop

/-- A drawing, which answers whether a pixel was lit and leaves a screen, inverts exactly the pixels
of a region. -/
structure Inverts (s : Screen) (region : Region) (drawing : Bool × Screen) : Prop where
  inside : ∀ px py, region px py → drawing.2.pixel px py = s.pixel px py ^^^ 1
  outside : ∀ px py, ¬ region px py → drawing.2.pixel px py = s.pixel px py
  hit : drawing.1 = true ↔ ∃ px py, region px py ∧ s.pixel px py ≠ 0

namespace Inverts

variable {s : Screen} {region other : Region} {drawing : Bool × Screen}

theorem congr (inverts : s.Inverts region drawing) (same : ∀ px py, region px py ↔ other px py) :
    s.Inverts other drawing := by
  have eq : region = other := funext fun px => funext fun py => propext (same px py)
  exact eq ▸ inverts

theorem nothing (s : Screen) : s.Inverts (fun _ _ => False) (false, s) :=
  ⟨fun _ _ inside => inside.elim, fun _ _ _ => rfl, by simp⟩

/-- Two drawings one after the other, where the second one reaches no pixel that the first one
reached. -/
theorem append {later : Bool × Screen} (first : s.Inverts region drawing)
    (second : drawing.2.Inverts other later) (apart : ∀ px py, region px py → ¬ other px py) :
    s.Inverts (fun px py => region px py ∨ other px py) (drawing.1 || later.1, later.2) := by
  refine ⟨?_, ?_, ?_⟩
  · rintro px py (early | late)
    · rw [second.outside px py (apart px py early), first.inside px py early]
    · rw [second.inside px py late, first.outside px py fun early => apart px py early late]
  · intro px py neither
    rw [not_or] at neither
    rw [second.outside px py neither.2, first.outside px py neither.1]
  · -- The second drawing finds the pixels of its own region as they were at the start.
    have seen : later.1 = true ↔ ∃ px py, other px py ∧ s.pixel px py ≠ 0 := by
      rw [second.hit]
      refine exists₂_congr fun px py => and_congr_right fun late => ?_
      rw [first.outside px py fun early => apart px py early late]
    rw [Bool.or_eq_true, first.hit, seen, ← exists_or]
    refine exists_congr fun px => ?_
    rw [← exists_or]
    exact exists_congr fun py => (or_and_right ..).symm

end Inverts

/-! ## Flipping, rows and sprites -/

theorem inverts_flip (s : Screen) (x y : Nat) :
    s.Inverts (fun px py => px.val = x % screenWidth ∧ py.val = y % screenHeight) (s.flip x y) := by
  have reached (px : Fin screenWidth) (py : Fin screenHeight) :
      cell x y = cell px py ↔ px.val = x % screenWidth ∧ py.val = y % screenHeight := by
    rw [cell_eq_cell, Nat.mod_eq_of_lt px.isLt, Nat.mod_eq_of_lt py.isLt, eq_comm,
      @eq_comm _ (y % _)]
  have after (px : Fin screenWidth) (py : Fin screenHeight) :
      (s.flip x y).2.pixel px py =
        if cell x y = cell px py then s.cells[cell x y] ^^^ 1 else s.pixel px py := by
    simp [flip, pixel, Vector.getElem_set, Fin.ext_iff]
  refine ⟨?_, ?_, ?_⟩
  · intro px py inside
    have same := (reached px py).2 inside
    rw [after, if_pos same, pixel_of_cell_eq same.symm]
  · intro px py outside
    rw [after, if_neg (mt (reached px py).1 outside)]
  · have answer : (s.flip x y).1 = true ↔ s.cells[cell x y] ≠ 0 := by simp [flip]
    rw [answer]
    constructor
    · intro lit
      obtain ⟨px, py, same⟩ := exists_cell_eq (cell x y)
      refine ⟨px, py, (reached px py).1 same.symm, ?_⟩
      rw [pixel_of_cell_eq same]
      exact lit
    · rintro ⟨px, py, inside, lit⟩
      rw [pixel_of_cell_eq ((reached px py).2 inside).symm] at lit
      exact lit

/-- The pixels under the set bits of some columns of a sprite row. -/
def underColumns (x y : Nat) (row : UInt8) (cs : List Nat) : Region := fun px py =>
  py.val = y % screenHeight ∧ ∃ c ∈ cs, row.toNat.testBit (7 - c) = true ∧
    px.val = (x + c) % screenWidth

theorem spriteBit_eq (row : UInt8) (c : Nat) : spriteBit row c = row.toNat.testBit (7 - c) :=
  Nat.testBit_eq_decide_div_mod_eq.symm

theorem inverts_drawColumns (s : Screen) (x y : Nat) (row : UInt8) {cs : List Nat}
    (distinct : cs.Nodup) (narrow : ∀ c ∈ cs, c < screenWidth) :
    s.Inverts (underColumns x y row cs) (s.drawColumns x y row cs) := by
  induction cs generalizing s with
  | nil => exact (Inverts.nothing s).congr fun px py => by simp [underColumns]
  | cons c cs ih =>
    rw [List.nodup_cons] at distinct
    rw [List.forall_mem_cons] at narrow
    rw [drawColumns, spriteBit_eq]
    by_cases set : row.toNat.testBit (7 - c) = true
    · rw [if_pos set]
      have rest := ih (s.flip (x + c) y).2 distinct.2 narrow.2
      refine ((inverts_flip s (x + c) y).append rest ?_).congr fun px py => ?_
      · rintro px py ⟨column, -⟩ ⟨-, c', member, -, again⟩
        have bound := narrow.2 c' member
        have other : c ≠ c' := fun same => distinct.1 (same ▸ member)
        have := narrow.1
        unfold screenWidth at *
        omega
      · constructor
        · rintro (⟨column, line⟩ | ⟨line, c', member, bit, column⟩)
          · exact ⟨line, c, List.mem_cons_self, set, column⟩
          · exact ⟨line, c', List.mem_cons_of_mem c member, bit, column⟩
        · rintro ⟨line, c', member, bit, column⟩
          rcases List.mem_cons.1 member with rfl | later
          · exact .inl ⟨column, line⟩
          · exact .inr ⟨line, c', later, bit, column⟩
    · rw [if_neg set]
      refine (ih s distinct.2 narrow.2).congr fun px py => ?_
      simp [underColumns, set]

/-- The pixels under the set bits of a sprite. -/
def underSprite (x y : Nat) (rows : List UInt8) : Region := fun px py =>
  ∃ r row, rows[r]? = some row ∧ underColumns x (y + r) row (List.range 8) px py

theorem underSprite_cons (x y : Nat) (row : UInt8) (rows : List UInt8) (px : Fin screenWidth)
    (py : Fin screenHeight) :
    underSprite x y (row :: rows) px py ↔
      underColumns x y row (List.range 8) px py ∨ underSprite x (y + 1) rows px py := by
  constructor
  · rintro ⟨r, row', there, under⟩
    cases r with
    | zero =>
      cases there
      exact .inl under
    | succ r =>
      rw [← Nat.succ_add_eq_add_succ] at under
      exact .inr ⟨r, row', there, under⟩
  · rintro (under | ⟨r, row', there, under⟩)
    · exact ⟨0, row, rfl, under⟩
    · rw [Nat.succ_add_eq_add_succ] at under
      exact ⟨r + 1, row', there, under⟩

/-- A sprite no higher than the screen inverts the pixels under its set bits. -/
theorem inverts_drawSprite (s : Screen) (x y : Nat) {rows : List UInt8}
    (low : rows.length ≤ screenHeight) :
    s.Inverts (underSprite x y rows) (s.drawSprite x y rows) := by
  induction rows generalizing s y with
  | nil => exact (Inverts.nothing s).congr fun px py => by simp [underSprite]
  | cons row rows ih =>
    rw [List.length_cons] at low
    have first : s.Inverts _ (s.drawColumns x y row (List.range 8)) :=
      inverts_drawColumns s x y row List.nodup_range fun c member => by
        rw [List.mem_range] at member
        unfold screenWidth
        omega
    have rest := ih (s.drawColumns x y row (List.range 8)).2 (y + 1) (by omega)
    refine (first.append rest ?_).congr fun px py => (underSprite_cons x y row rows px py).symm
    rintro px py ⟨line, -⟩ ⟨r, row', there, line', -⟩
    have bound : r < rows.length := (List.getElem?_eq_some_iff.1 there).1
    unfold screenHeight at *
    omega

end Chip8.Screen
