import Chip8.Counter
import Chip8.Keypad
import Mathlib.Algebra.Order.Field.Power
import Mathlib.Algebra.Order.Floor.Ring
import Mathlib.Data.Rat.Floor
import Mathlib.Data.Rat.Lemmas
import Mathlib.Tactic.NormNum
import Mathlib.Tactic.Positivity
import Mathlib.Tactic.Ring

/-!
# Numbers that count

Numbers from outside are compared with the counters of the machine. Rounding a sum does not take it
below a whole number that it had reached, as long as counting is exact
(`natCast_le_roundSignificant`), and does not change the sums that are whole themselves
(`roundSignificant_natCast`).
-/

namespace Chip8

/-! ## Rounding -/

theorem le_nearestEven {z : Int} {q : Rat} (le : z ≤ q) : z ≤ nearestEven q := by
  have below : z ≤ q.floor := Int.le_floor.2 le
  unfold nearestEven
  dsimp only
  split_ifs <;> omega

theorem nearestEven_intCast (z : Int) : nearestEven z = z := by
  unfold nearestEven
  simp

theorem scaled_one (e : Int) : scaled 1 e = 2 ^ e := by
  unfold scaled
  rcases Int.eq_nat_or_neg e with ⟨n, rfl | rfl⟩
  · simp [twoPow]
  · rcases Nat.eq_zero_or_pos n with rfl | pos
    · rfl
    · rw [if_neg (by omega), Rat.mkRat_eq_div]
      simp [twoPow]

/-- The weight of the last of the 53 bits to which a number is kept. -/
def lastBit (q : Rat) : Rat := 2 ^ ((q.floor.toNat.log2 : Int) - 52)

theorem lastBit_pos (q : Rat) : 0 < lastBit q := by
  unfold lastBit
  positivity

theorem roundSignificant_of_one_le {q : Rat} (one : 1 ≤ q) :
    roundSignificant q = nearestEven (q / lastBit q) * lastBit q := by
  rw [roundSignificant, if_neg (not_lt.2 one), scaled_one]
  rfl

theorem two_pow_log2 (q : Rat) : ((2 ^ q.floor.toNat.log2 : Nat) : Rat) = 2 ^ 52 * lastBit q := by
  rw [lastBit, zpow_sub₀ two_ne_zero, zpow_natCast]
  push_cast
  exact (mul_div_cancel₀ _ (by positivity)).symm

/-- The numbers that need no more than the first 53 bits. -/
theorem exists_eq_mul_lastBit {n : Nat} {q : Rat}
    (short : q.floor.toNat.log2 ≤ 52 ∨ n = 2 ^ q.floor.toNat.log2) :
    ∃ z : Int, (n : Rat) = z * lastBit q := by
  rcases short with low | whole
  · obtain ⟨k, rest⟩ := Nat.exists_eq_add_of_le low
    have weight : (q.floor.toNat.log2 : Int) - 52 = -(k : Int) := by omega
    refine ⟨n * 2 ^ k, ?_⟩
    rw [lastBit, weight, zpow_neg, zpow_natCast]
    push_cast
    rw [mul_assoc, mul_inv_cancel₀ (by positivity), mul_one]
  · refine ⟨2 ^ 52, ?_⟩
    rw [whole, two_pow_log2]
    norm_cast

theorem mul_lastBit_le_roundSignificant {z : Int} {q : Rat} (one : 1 ≤ q) (le : z * lastBit q ≤ q) :
    z * lastBit q ≤ roundSignificant q := by
  have quotient : (z : Rat) ≤ q / lastBit q := (le_div_iff₀ (lastBit_pos q)).2 le
  have rounded : (z : Rat) ≤ nearestEven (q / lastBit q) := Int.cast_le.2 (le_nearestEven quotient)
  rw [roundSignificant_of_one_le one]
  exact mul_le_mul_of_nonneg_right rounded (lastBit_pos q).le

theorem two_pow_log2_le {q : Rat} (one : 1 ≤ q) : ((2 ^ q.floor.toNat.log2 : Nat) : Rat) ≤ q := by
  have floor : 1 ≤ q.floor := Int.le_floor.2 (by exact_mod_cast one)
  calc ((2 ^ q.floor.toNat.log2 : Nat) : Rat)
      ≤ (q.floor.toNat : Nat) := Nat.cast_le.2 (Nat.log2_self_le (by omega))
    _ = (q.floor : Int) := by rw [← Int.cast_natCast, Int.toNat_of_nonneg (by omega)]
    _ ≤ q := Int.floor_le q

theorem natCast_le_roundSignificant {n : Nat} {q : Rat} (pos : 1 ≤ n)
    (exact : n ≤ Counter.exactLimit) (le : n ≤ q) :
    n ≤ roundSignificant q := by
  have one : 1 ≤ q := le_trans (by exact_mod_cast pos) le
  by_cases low : q.floor.toNat.log2 ≤ 52
  · obtain ⟨z, units⟩ := exists_eq_mul_lastBit (n := n) (.inl low)
    rw [units] at le ⊢
    exact mul_lastBit_le_roundSignificant one le
  · -- The number is past the limit, and so is the power of two below it.
    have reached := two_pow_log2_le one
    obtain ⟨z, units⟩ := exists_eq_mul_lastBit (q := q) (.inr rfl)
    have limit : n ≤ 2 ^ q.floor.toNat.log2 :=
      calc n ≤ 2 ^ 53 := exact
        _ ≤ 2 ^ q.floor.toNat.log2 := Nat.pow_le_pow_right (by decide) (by omega)
    rw [units] at reached
    calc (n : Rat) ≤ (2 ^ q.floor.toNat.log2 : Nat) := Nat.cast_le.2 limit
      _ = z * lastBit q := units
      _ ≤ roundSignificant q := mul_lastBit_le_roundSignificant one reached

theorem toNat_floor_natCast (n : Nat) : (n : Rat).floor.toNat = n := by
  change (⌊(n : Rat)⌋).toNat = n
  rw [Int.floor_natCast, Int.toNat_natCast]

theorem roundSignificant_natCast {n : Nat} (exact : n ≤ Counter.exactLimit) :
    roundSignificant n = n := by
  rcases Nat.eq_zero_or_pos n with rfl | pos
  · rfl
  have short : n.log2 ≤ 52 ∨ n = 2 ^ n.log2 := by
    rcases Nat.lt_or_eq_of_le exact with below | last
    · exact .inl (Nat.le_of_lt_succ ((Nat.log2_lt (by omega)).2 below))
    · right
      rw [last]
      rfl
  obtain ⟨z, units⟩ := exists_eq_mul_lastBit (q := n) (by rw [toNat_floor_natCast]; exact short)
  rw [roundSignificant_of_one_le (by exact_mod_cast pos)]
  have quotient : (n : Rat) / lastBit n = z := (div_eq_iff (lastBit_pos _).ne').2 units
  rw [quotient, nearestEven_intCast, ← units]

namespace Number

variable {a b : Nat} {n : Number}

/-! ## Comparisons -/

@[simp] theorem ofNat_inj : ofNat a = ofNat b ↔ a = b := by simp [ofNat]

@[simp] theorem ofNat_lt_ofNat : (ofNat a).lt (ofNat b) = decide (a < b) := by simp [ofNat, lt]

@[simp] theorem ofNat_le_ofNat : (ofNat a).le (ofNat b) = decide (a ≤ b) := by simp [ofNat, le]

theorem le_ofNat_of_le (early : n.le (ofNat a) = true) (le : a ≤ b) : n.le (ofNat b) = true := by
  cases n with
  | finite q => exact decide_eq_true ((of_decide_eq_true early).trans (Nat.cast_le.2 le))
  | infinite => exact early
  | nan => cases early

theorem ofNat_lt_iff (known : n ≠ nan) : (ofNat a).lt n = true ↔ ¬ n.le (ofNat a) = true := by
  cases n with
  | finite q => simp [ofNat, lt, le]
  | infinite => simp [ofNat, lt, le]
  | nan => exact absurd rfl known

theorem max_ofNat : (ofNat a).max (ofNat b) = ofNat (Max.max a b) := by
  change (if (ofNat a).lt (ofNat b) = true then ofNat b else ofNat a) = _
  rcases Nat.lt_or_ge a b with less | most
  · rw [if_pos (by simp [less]), Nat.max_eq_right less.le]
  · rw [if_neg (by simp [most]), Nat.max_eq_left most]

theorem one_max_cases (known : n ≠ nan) :
    (∃ q : Rat, 1 ≤ q ∧ (ofNat 1).max n = finite q) ∨ (ofNat 1).max n = infinite false := by
  cases n with
  | finite q =>
    by_cases more : 1 < q
    · exact .inl ⟨q, more.le, if_pos (decide_eq_true more)⟩
    · exact .inl ⟨1, le_rfl, if_neg fun less => more (of_decide_eq_true less)⟩
  | infinite negative =>
    cases negative with
    | true => exact .inl ⟨1, le_rfl, rfl⟩
    | false => exact .inr rfl
  | nan => exact absurd rfl known

/-! ## Whole numbers and keys -/

theorem toInt?_eq_some_iff {n : Number} {k : Int} : n.toInt? = some k ↔ n = .ofInt k := by
  cases n with
  | finite q =>
    simp only [toInt?, ofInt, finite.injEq]
    constructor
    · intro whole
      split at whole
      · next one =>
        cases whole
        exact ((Rat.den_eq_one_iff q).1 one).symm
      · cases whole
    · rintro rfl
      rfl
  | _ => exact iff_of_false nofun nofun

theorem key?_eq_some_iff {n : Number} {key : Key} : n.key? = some key ↔ n = .ofNat key := by
  constructor
  · intro named
    unfold key? at named
    split at named
    · next k whole =>
      split at named
      · next inside =>
        cases named
        have same : ((k.toNat : Int) : Rat) = k := congrArg _ (Int.toNat_of_nonneg inside.1)
        rw [toInt?_eq_some_iff.1 whole, ofInt, ofNat, ← same]
        rfl
      · cases named
    · cases named
  · rintro rfl
    revert key
    decide

end Number

end Chip8
