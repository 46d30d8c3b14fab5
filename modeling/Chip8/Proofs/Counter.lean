import Chip8.Proofs.Number
import Mathlib.Tactic.Linarith

/-!
# Sums of counters

Past the limit of exact counting a sum is rounded. It stays a whole number that is not negative if
its parts are not (`Counter.exists_natCast_eq_add`), and it is off by at most one part in `2 ^ 53`
(`Counter.abs_add_natCast_sub_le`).
-/

namespace Chip8

/-! ## Rounding to 53 bits -/

theorem abs_nearestEven_sub_le (q : Rat) : |(nearestEven q : Rat) - q| ≤ 1 / 2 := by
  have below := Int.floor_le q
  have above := Int.lt_floor_add_one q
  change ((q.floor : Int) : Rat) ≤ q at below
  change q < ((q.floor : Int) : Rat) + 1 at above
  unfold nearestEven
  dsimp only
  rw [abs_le]
  split_ifs <;> push_cast <;> constructor <;> linarith

/-- Rounding is off by at most one part in `2 ^ 53`. -/
theorem abs_roundSignificant_sub_le {q : Rat} (one : 1 ≤ q) :
    2 ^ 53 * |roundSignificant q - q| ≤ q := by
  have unit := lastBit_pos q
  have error : roundSignificant q - q =
      (nearestEven (q / lastBit q) - q / lastBit q) * lastBit q := by
    rw [roundSignificant_of_one_le one, sub_mul, div_mul_cancel₀ q unit.ne']
  have half : |roundSignificant q - q| ≤ 1 / 2 * lastBit q := by
    rw [error, abs_mul, abs_of_pos unit]
    exact mul_le_mul_of_nonneg_right (abs_nearestEven_sub_le _) unit.le
  calc 2 ^ 53 * |roundSignificant q - q|
      ≤ 2 ^ 53 * (1 / 2 * lastBit q) := mul_le_mul_of_nonneg_left half (by positivity)
    _ = 2 ^ 52 * lastBit q := by ring
    _ = (2 ^ q.floor.toNat.log2 : Nat) := (two_pow_log2 q).symm
    _ ≤ q := two_pow_log2_le one

/-- Past the limit the last of 53 bits weighs a whole number. -/
theorem num_roundSignificant_natCast {n : Nat} (past : Counter.exactLimit < n) :
    ((roundSignificant n).num : Rat) = roundSignificant n := by
  have large : 53 ≤ n.log2 := (Nat.le_log2 (Nat.ne_zero_of_lt past)).2 (Nat.le_of_lt past)
  obtain ⟨k, weight⟩ := Nat.exists_eq_add_of_le large
  have whole : lastBit n = ((2 ^ (k + 1) : Int) : Rat) := by
    have places : ((53 + k : Nat) : Int) - 52 = (k + 1 : Nat) := by omega
    rw [lastBit, toNat_floor_natCast, weight, places, zpow_natCast, Int.cast_pow, Int.cast_ofNat]
  rw [roundSignificant_of_one_le (by exact_mod_cast Nat.one_le_of_lt past), whole, ← Int.cast_mul,
    Rat.num_intCast]

/-! ## Sums -/

namespace Counter

theorem keep_natCast_of_le {n : Nat} (exact : n ≤ exactLimit) : keep n = n := keep_eq exact

theorem keep_natCast_of_lt {n : Nat} (past : exactLimit < n) :
    ((keep n : Int) : Rat) = roundSignificant n := by
  have positive : (n : Int).sign = 1 := Int.sign_eq_one_of_pos (by omega)
  rw [keep, Int.natAbs_natCast, if_neg (Nat.not_le.2 past), positive, one_mul,
    num_roundSignificant_natCast past]

/-- Counters that are not negative have no negative sum. -/
theorem add_natCast_nonneg (c d : Nat) : 0 ≤ add c d := by
  have sum : add c d = keep (c + d : Nat) := rfl
  rw [sum]
  rcases Nat.lt_or_ge exactLimit (c + d) with past | exact
  · have one : ((1 : Nat) : Rat) ≤ roundSignificant (c + d : Nat) :=
      natCast_le_roundSignificant le_rfl (by decide) (Nat.cast_le.2 (Nat.one_le_of_lt past))
    rw [← keep_natCast_of_lt past] at one
    have : ((1 : Int) : Rat) ≤ keep (c + d : Nat) := by exact_mod_cast one
    have := Int.cast_le.1 this
    omega
  · rw [keep_natCast_of_le exact]
    omega

theorem exists_natCast_eq_add (c d : Nat) : ∃ n : Nat, (n : Int) = add c d :=
  ⟨_, Int.toNat_of_nonneg (add_natCast_nonneg c d)⟩

/-- The sum of counters is off by at most one part in `2 ^ 53`. -/
theorem abs_add_natCast_sub_le (c d : Nat) : 2 ^ 53 * |add c d - (c + d)| ≤ c + d := by
  have sum : add c d = keep (c + d : Nat) := rfl
  rw [sum, ← Int.natCast_add]
  rcases Nat.lt_or_ge exactLimit (c + d) with past | exact
  · have close : 2 ^ 53 * |((keep (c + d : Nat) : Int) : Rat) - (c + d : Nat)| ≤ (c + d : Nat) := by
      rw [keep_natCast_of_lt past]
      exact abs_roundSignificant_sub_le (by exact_mod_cast Nat.one_le_of_lt past)
    exact_mod_cast close
  · rw [keep_natCast_of_le exact, sub_self, abs_zero, mul_zero]
    exact Int.natCast_nonneg _

end Counter

end Chip8
