import Chip8.Quantity
import Mathlib.Algebra.Order.Field.Power
import Mathlib.Tactic.NormNum
import Mathlib.Tactic.Ring

/-!
# The bits of a floating-point number

The value that the bits of a floating-point number stand for is the value of the sign, the
significand and the exponent that arithmetic unpacks from them (`ofFloat_eq`). An unpacked number is
canonical, so what arithmetic compares are these values (`lt_ofFloat`): a number is finite and above
zero exactly when its value is (`lt_zero_and_isFinite_iff`), and the larger of two has the larger of
the values (`ofFloat_atLeast`).
-/

namespace Chip8.Number

open Float.Model Float.Model.UnpackedFloat

/-- The exact value of an unpacked floating-point number. -/
def ofUnpacked : UnpackedFloat → Number
  | .infinity s => .infinite (s == .negative)
  | .notANumber => .nan
  | .zero _ => .finite 0
  | .finite .positive m e _ => .finite (scaled m e)
  | .finite .negative m e _ => .finite (-scaled m e)

section

variable (b : BitVec Format.binary64.numBits)

theorem toNat_unpackSign : (unpackSign b).toNat = b.toNat / twoPow 63 % 2 := by
  change (BitVec.extractLsb' 63 1 b).toNat = _
  rw [BitVec.extractLsb'_toNat, Nat.shiftRight_eq_div_pow]
  rfl

theorem toNat_unpackExponent : (unpackExponent b).toNat = b.toNat / twoPow 52 % twoPow 11 := by
  change (BitVec.extractLsb' 52 11 b).toNat = _
  rw [BitVec.extractLsb'_toNat, Nat.shiftRight_eq_div_pow]
  rfl

theorem toNat_unpackMantissa : (unpackMantissa b).toNat = b.toNat % twoPow 52 := by
  change (BitVec.extractLsb' 0 52 b).toNat = _
  rw [BitVec.extractLsb'_toNat, Nat.shiftRight_zero]
  rfl

theorem toNat_implicit (v : BitVec 52) : (1#1 ++ v).toNat = twoPow 52 + v.toNat := by
  rw [BitVec.toNat_append, ← Nat.shiftLeft_add_eq_or_of_lt v.isLt]
  simp [Nat.shiftLeft_eq, twoPow]

theorem scaled_zero (e : Int) : scaled 0 e = 0 := by
  unfold scaled
  split <;> simp

theorem bit_cases (v : BitVec 1) :
    v.toNat = 1 ∧ Sign.ofBitVec v = .negative ∨ v.toNat ≠ 1 ∧ Sign.ofBitVec v = .positive := by
  rcases BitVec.eq_zero_or_eq_one v with rfl | rfl
  · exact .inr ⟨by decide, rfl⟩
  · exact .inl ⟨rfl, rfl⟩

theorem ofUnpacked_infinity (v : BitVec 1) :
    ofUnpacked (.infinity (Sign.ofBitVec v)) = infinite (decide (v.toNat = 1)) := by
  rcases bit_cases v with ⟨one, sign⟩ | ⟨zero, sign⟩
  · rw [sign, decide_eq_true one]
    rfl
  · rw [sign, decide_eq_false zero]
    rfl

theorem ofUnpacked_finite (v : BitVec 1) {m : Nat} {e : Int} (pos : 0 < m) :
    ofUnpacked (.finite (Sign.ofBitVec v) m e pos) =
      finite (if v.toNat = 1 then -scaled m e else scaled m e) := by
  rcases bit_cases v with ⟨one, sign⟩ | ⟨zero, sign⟩
  · rw [sign, if_pos one]
    rfl
  · rw [sign, if_neg zero]
    rfl

theorem ofUnpacked_unpack :
    ofUnpacked (UnpackedFloat.unpack Format.binary64 b) =
      if (unpackExponent b).toNat = 2047 then
        if (unpackMantissa b).toNat = 0 then infinite (decide ((unpackSign b).toNat = 1)) else nan
      else
        let magnitude :=
          if (unpackExponent b).toNat = 0 then scaled (unpackMantissa b).toNat (-1074)
          else scaled (twoPow 52 + (unpackMantissa b).toNat) ((unpackExponent b).toNat - 1075)
        finite (if (unpackSign b).toNat = 1 then -magnitude else magnitude) := by
  have top_iff (v : BitVec 11) : v = -1#11 ↔ v.toNat = 2047 := BitVec.toNat_inj.symm
  have zero_iff {n : Nat} (v : BitVec n) : v = 0#n ↔ v.toNat = 0 := by
    rw [← BitVec.toNat_inj]
    simp
  unfold UnpackedFloat.unpack
  dsimp only
  by_cases last : unpackExponent b = -1#11
  · rw [if_pos last, if_pos ((top_iff _).1 last)]
    by_cases zero : unpackMantissa b = 0#52
    · rw [if_pos zero, if_pos ((zero_iff _).1 zero)]
      exact ofUnpacked_infinity _
    · rw [if_neg zero, if_neg (mt (zero_iff _).2 zero)]
      rfl
  · rw [if_neg last, if_neg (mt (top_iff _).2 last)]
    by_cases low : unpackExponent b = 0#11
    · rw [if_pos low, if_pos ((zero_iff _).1 low)]
      by_cases zero : unpackMantissa b = 0#52
      · rw [dif_pos zero, (zero_iff _).1 zero, scaled_zero]
        change finite 0 = finite (if (unpackSign b).toNat = 1 then -0 else 0)
        rw [neg_zero, ite_self]
      · rw [dif_neg zero, (zero_iff _).1 low]
        exact ofUnpacked_finite _ _
    · have weight : (Format.binary64.exponentBias : Int) + (52 : Nat) = 1075 := by decide
      rw [if_neg low, if_neg (mt (zero_iff _).2 low), ← toNat_implicit, ← weight]
      exact ofUnpacked_finite _ _

end

/-- The value of the bits is the value of what is unpacked from them. -/
theorem ofFloat_eq (x : Float) : ofFloat x = ofUnpacked x.toModel.unpack := by
  rw [Float.Model.unpack, ofUnpacked_unpack, toNat_unpackSign, toNat_unpackExponent,
    toNat_unpackMantissa]
  have bits : x.toBits.toNat = x.toModel.toBits.toBitVec.toNat := rfl
  unfold ofFloat
  simp only [bits, decide_eq_true_eq]

/-! ## Order -/

theorem scaled_eq (m : Nat) (e : Int) : scaled m e = m * (2 : Rat) ^ e := by
  unfold scaled
  split
  · next natural =>
    obtain ⟨n, rfl⟩ := Int.eq_ofNat_of_zero_le natural
    rw [Int.toNat_natCast, zpow_natCast]
    exact_mod_cast rfl
  · next negative =>
    obtain ⟨n, rfl⟩ := Int.exists_eq_neg_ofNat (Int.le_of_not_le negative)
    rw [Rat.mkRat_eq_div, neg_neg, Int.toNat_natCast, zpow_neg, zpow_natCast, div_eq_mul_inv]
    exact_mod_cast rfl

theorem scaled_pos {m : Nat} (pos : 0 < m) (e : Int) : 0 < scaled m e := by
  rw [scaled_eq]
  positivity

/-- A significand and an exponent as they are unpacked: the significand has 53 bits, and fewer at
the least exponent alone. -/
structure Canonical (m : Nat) (e : Int) : Prop where
  fits : m < 2 ^ 53
  least : -1074 ≤ e
  full : e = -1074 ∨ 2 ^ 52 ≤ m

theorem canonical_of_unpack {b : BitVec Format.binary64.numBits} {s : Sign} {m : Nat} {e : Int}
    {pos : 0 < m} (unpacked : UnpackedFloat.unpack Format.binary64 b = .finite s m e pos) :
    Canonical m e := by
  have mantissa : (unpackMantissa b).toNat < 2 ^ 52 := (unpackMantissa b).isLt
  have bias : (Format.binary64.exponentBias : Int) + (52 : Nat) = 1075 := by decide
  unfold UnpackedFloat.unpack at unpacked
  dsimp only at unpacked
  by_cases last : unpackExponent b = -1#11
  · rw [if_pos last] at unpacked
    by_cases zero : unpackMantissa b = 0#52
    · rw [if_pos zero] at unpacked
      cases unpacked
    · rw [if_neg zero] at unpacked
      cases unpacked
  rw [if_neg last] at unpacked
  by_cases low : unpackExponent b = 0#11
  · rw [if_pos low] at unpacked
    by_cases zero : unpackMantissa b = 0#52
    · rw [dif_pos zero] at unpacked
      cases unpacked
    · rw [dif_neg zero] at unpacked
      cases unpacked
      have least : ((unpackExponent b).toNat : Int) - 1075 + 1 = -1074 := by rw [low]; rfl
      rw [← bias] at least
      exact ⟨by omega, least.ge, .inl least⟩
  · rw [if_neg low] at unpacked
    cases unpacked
    have positive : (unpackExponent b).toNat ≠ 0 := fun zero => low (BitVec.toNat_inj.1 zero)
    have implicit := toNat_implicit (unpackMantissa b)
    have top : twoPow 52 = 2 ^ 52 := rfl
    refine ⟨?_, ?_, .inr ?_⟩
    · exact implicit ▸ (by omega)
    · change (-1074 : Int) ≤ (unpackExponent b).toNat - (Format.binary64.exponentBias + (52 : Nat))
      omega
    · exact implicit ▸ (by omega)

/-- Unpacked numbers are ordered by their exponents first. -/
theorem scaled_lt_of_exponent_lt {m m' : Nat} {e e' : Int} (canonical : Canonical m e)
    (canonical' : Canonical m' e') (less : e < e') : scaled m e < scaled m' e' := by
  have large : 2 ^ 52 ≤ m' := canonical'.full.resolve_left (by have := canonical.least; omega)
  rw [scaled_eq, scaled_eq]
  calc (m : Rat) * 2 ^ e
      < 2 ^ 53 * 2 ^ e := by
        gcongr
        exact_mod_cast canonical.fits
    _ = 2 ^ 52 * (2 : Rat) ^ (e + 1) := by
        rw [zpow_add_one₀ two_ne_zero]
        ring
    _ ≤ m' * 2 ^ e' := by
        gcongr
        · exact_mod_cast large
        · norm_num
        · omega

theorem scaled_lt_iff {m m' : Nat} {e e' : Int} (canonical : Canonical m e)
    (canonical' : Canonical m' e') :
    scaled m e < scaled m' e' ↔ (compare e e').then (compare m m') = .lt := by
  rcases lt_trichotomy e e' with less | rfl | greater
  · rw [Int.compare_eq_lt.2 less]
    exact iff_of_true (scaled_lt_of_exponent_lt canonical canonical' less) rfl
  · rw [Int.compare_eq_eq.2 rfl, scaled_eq, scaled_eq, mul_lt_mul_iff_left₀ (by positivity),
      Nat.cast_lt]
    exact Nat.compare_eq_lt.symm
  · rw [Int.compare_eq_gt.2 greater]
    exact iff_of_false (scaled_lt_of_exponent_lt canonical' canonical greater).not_gt nofun

theorem scaled_neg_lt_iff {m m' : Nat} {e e' : Int} (canonical : Canonical m e)
    (canonical' : Canonical m' e') :
    -scaled m e < -scaled m' e' ↔ ((compare e e').then (compare m m')).swap = .lt := by
  rw [neg_lt_neg_iff, scaled_lt_iff canonical' canonical, Ordering.swap_then,
    ← Std.OrientedCmp.eq_swap, ← Std.OrientedCmp.eq_swap]

/-- Arithmetic compares the values. -/
theorem lt_ofUnpacked {u v : UnpackedFloat}
    (left : ∀ s m e pos, u = .finite s m e pos → Canonical m e)
    (right : ∀ s m e pos, v = .finite s m e pos → Canonical m e) :
    u.lt v = (ofUnpacked u).lt (ofUnpacked v) := by
  have decided (o : Ordering) : (some o == some .lt) = decide (o = .lt) := by cases o <;> rfl
  have zeros : decide ((0 : Rat) < 0) = false := decide_eq_false (lt_irrefl 0)
  cases u with
  | notANumber => rfl
  | infinity s => cases s <;> rcases v with ⟨⟨⟩⟩ | _ | _ | ⟨⟨⟩, _, _, _⟩ <;> rfl
  | zero s =>
    rcases v with ⟨⟨⟩⟩ | _ | _ | ⟨⟨⟩, m, e, pos⟩
    · rfl
    · rfl
    · rfl
    · exact zeros.symm
    · exact (decide_eq_false (neg_neg_of_pos (scaled_pos pos e)).not_gt).symm
    · exact (decide_eq_true (scaled_pos pos e)).symm
  | finite s m e pos =>
    have positive := scaled_pos pos e
    have canonical := left s m e pos rfl
    rcases v with ⟨⟨⟩⟩ | _ | _ | ⟨s', m', e', pos'⟩
    · cases s <;> rfl
    · cases s <;> rfl
    · cases s <;> rfl
    · cases s
      · exact (decide_eq_true (neg_neg_of_pos positive)).symm
      · exact (decide_eq_false positive.not_gt).symm
    · have positive' := scaled_pos pos' e'
      have canonical' := right s' m' e' pos' rfl
      cases s <;> cases s'
      · exact (decided _).trans (decide_eq_decide.2 (scaled_neg_lt_iff canonical canonical').symm)
      · exact (decide_eq_true ((neg_neg_of_pos positive).trans positive')).symm
      · exact (decide_eq_false ((neg_neg_of_pos positive').trans positive).not_gt).symm
      · exact (decided _).trans (decide_eq_decide.2 (scaled_lt_iff canonical canonical').symm)

/-- Floating-point numbers are compared by their values. -/
theorem lt_ofFloat (x y : Float) : Quantity.lt x y = (ofFloat x).lt (ofFloat y) := by
  have compared : Quantity.lt x y = UnpackedFloat.lt x.toModel.unpack y.toModel.unpack :=
    (@Bool.decide_eq_true _ _).trans (@Bool.decide_eq_true _ _)
  rw [compared, ofFloat_eq, ofFloat_eq]
  exact lt_ofUnpacked (fun _ _ _ _ => canonical_of_unpack) fun _ _ _ _ => canonical_of_unpack

/-- A floating-point number is finite if its value is a rational. -/
theorem isFinite_iff (x : Float) : x.isFinite = true ↔ ∃ q, ofFloat x = .finite q := by
  have finite : x.isFinite = x.toModel.unpack.isFinite := rfl
  rw [finite, ofFloat_eq]
  cases x.toModel.unpack with
  | notANumber => exact iff_of_false Bool.false_ne_true nofun
  | infinity s => exact iff_of_false Bool.false_ne_true nofun
  | zero s => exact iff_of_true rfl ⟨_, rfl⟩
  | finite s m e pos => cases s <;> exact iff_of_true rfl ⟨_, rfl⟩

/-- A floating-point number is finite and above zero exactly when its value is a positive
rational. -/
theorem lt_zero_and_isFinite_iff (x : Float) :
    (Quantity.lt (Quantity.ofNat 0) x && x.isFinite) = true ↔
      ∃ q, ofFloat x = .finite q ∧ 0 < q := by
  have zero : ofFloat (Quantity.ofNat 0) = .finite 0 := by rw [ofFloat_eq]; rfl
  rw [Bool.and_eq_true, isFinite_iff, lt_ofFloat, zero]
  constructor
  · rintro ⟨less, q, value⟩
    rw [value] at less
    exact ⟨q, value, of_decide_eq_true less⟩
  · rintro ⟨q, value, positive⟩
    exact ⟨by rw [value]; exact decide_eq_true positive, q, value⟩

/-- The larger of a number and a bound has the larger of the values. -/
theorem ofFloat_atLeast {low x : Float} {p q : Rat} (bound : ofFloat low = .finite p)
    (value : ofFloat x = .finite q) : ofFloat (Quantity.atLeast low x) = .finite (Max.max p q) := by
  have less : Quantity.lt x low = decide (q < p) := by
    rw [lt_ofFloat, bound, value]
    rfl
  unfold Quantity.atLeast
  rw [less]
  by_cases below : q < p
  · rw [if_pos (decide_eq_true below), bound, max_eq_left below.le]
  · rw [if_neg (mt of_decide_eq_true below), value, max_eq_right (not_lt.1 below)]

end Chip8.Number
