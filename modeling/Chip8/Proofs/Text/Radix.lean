import Chip8.Text.Numeral
import Chip8.Text.Radix
import Mathlib.Algebra.Ring.Nat
import Mathlib.Data.List.Basic
import Mathlib.Data.List.Induction

/-!
# Reading digits back

Hexadecimal digits of either case are read back as the number that they were written for, whatever
the width (`ofDigitsIn?_hexUpper`, `ofDigitsIn?_hexLower`). So a number is determined by its text. A
number that the width has room for takes exactly the width (`length_hexUpper`). Padded digits are
the numeral of their number, and no other digits are (`hexadecimal_iff`).
-/

namespace Chip8.Text

/-! ## Digits -/

theorem mem_toDigits {base n : Nat} (valid : 1 < base) {c : Char}
    (digit : c ∈ Nat.toDigits base n) :
    ∃ d < base, c = Nat.digitChar d := by
  induction n using Nat.strongRecOn with
  | _ n ih =>
    rw [Nat.toDigits_eq_if valid] at digit
    split at digit
    · next small => exact ⟨n, small, List.mem_singleton.1 digit⟩
    · next large =>
      rcases List.mem_append.1 digit with higher | last
      · exact ih (n / base) (Nat.div_lt_self (by omega) valid) higher
      · exact ⟨n % base, Nat.mod_lt n (by omega), List.mem_singleton.1 last⟩

theorem digitValue_toUpper_digitChar {d : Nat} (small : d < 16) :
    digitValue (Nat.digitChar d).toUpper = some d := by
  have all : ∀ d : Fin 16, digitValue (Nat.digitChar d).toUpper = some d.val := by decide
  exact all ⟨d, small⟩

/-- Reads digits in a base behind a number that was read already. -/
def readDigits (base : Nat) (value : Nat) (cs : List Char) : Option Nat :=
  cs.foldlM (fun value c => do
    let d ← digitValue c
    if d < base then some (base * value + d) else none) value

theorem ofDigitsIn?_eq {base : Nat} {cs : List Char} (nonempty : cs ≠ []) :
    ofDigitsIn? base cs = readDigits base 0 cs := by
  cases cs with
  | nil => exact absurd rfl nonempty
  | cons c cs => rfl

theorem readDigits_append (base value : Nat) (cs rest : List Char) :
    readDigits base value (cs ++ rest) = (readDigits base value cs).bind fun value =>
      readDigits base value rest := by
  rw [readDigits, List.foldlM_append]
  rfl

theorem readDigits_singleton {base d : Nat} {c : Char} (digit : digitValue c = some d)
    (small : d < base) (value : Nat) :
    readDigits base value [c] = some (base * value + d) := by
  simp [readDigits, digit, small]

/-- Zeros in front do not count. -/
theorem readDigits_replicate_zero {base : Nat} (valid : 0 < base) (width : Nat) :
    readDigits base 0 (List.replicate width '0') = some 0 := by
  induction width with
  | zero => rfl
  | succ width ih =>
    have zero : readDigits base 0 ['0'] = some (base * 0 + 0) := readDigits_singleton rfl valid 0
    rw [List.replicate_succ, ← List.singleton_append, readDigits_append, zero]
    exact ih

/-- Digits are read back however they are written, if each of them is. -/
theorem readDigits_map_toDigits {write : Char → Char}
    (written : ∀ d < 16, digitValue (write (Nat.digitChar d)) = some d) (n : Nat) :
    readDigits 16 0 ((Nat.toDigits 16 n).map write) = some n := by
  induction n using Nat.strongRecOn with
  | _ n ih =>
    rw [Nat.toDigits_eq_if (by decide)]
    split
    · next small =>
      rw [List.map_singleton, readDigits_singleton (written n small) small, Nat.mul_zero,
        Nat.zero_add]
    · next large =>
      have last : n % 16 < 16 := Nat.mod_lt n (by decide)
      rw [List.map_append, List.map_singleton, readDigits_append, ih (n / 16) (by omega),
        Option.bind_some, readDigits_singleton (written _ last) last, Nat.div_add_mod]

/-! ## Texts -/

theorem hexInt_natCast (n : Nat) : hexInt n = Nat.toDigits 16 n := if_neg (by omega)

theorem toList_hexUpper (width n : Nat) :
    (hexUpper width n).toList = List.leftpad width '0' ((Nat.toDigits 16 n).map Char.toUpper) := by
  rw [hexUpper, String.toList_ofList, hexInt_natCast]

/-- Padded digits are read back however they are written, if each of them is. -/
theorem ofDigitsIn?_leftpad {write : Char → Char}
    (written : ∀ d < 16, digitValue (write (Nat.digitChar d)) = some d) (width n : Nat) :
    ofDigitsIn? 16 (List.leftpad width '0' ((Nat.toDigits 16 n).map write)) = some n := by
  have digits : (Nat.toDigits 16 n).map write ≠ [] := by
    rw [Ne, List.map_eq_nil_iff]
    exact Nat.toDigits_ne_nil
  rw [List.leftpad, ofDigitsIn?_eq (List.append_ne_nil_of_right_ne_nil _ digits), readDigits_append,
    readDigits_replicate_zero (by decide)]
  exact readDigits_map_toDigits written n

/-- Upper-case hexadecimal text is read back. -/
theorem ofDigitsIn?_hexUpper (width n : Nat) :
    ofDigitsIn? 16 (hexUpper width n).toList = some n := by
  rw [toList_hexUpper, ofDigitsIn?_leftpad fun d small => digitValue_toUpper_digitChar small]

theorem length_hexUpper {width n : Nat} (room : 0 < width) (fits : n < 16 ^ width) :
    (hexUpper width n).toList.length = width := by
  rw [toList_hexUpper, List.length_leftpad, List.length_map]
  exact Nat.max_eq_left ((Nat.length_toDigits_le_iff (by decide) room).2 fits)

/-- A character of upper-case hexadecimal text is one of sixteen. -/
theorem mem_hexUpper {width n : Nat} {c : Char} (digit : c ∈ (hexUpper width n).toList) :
    ∃ d < 16, c = (Nat.digitChar d).toUpper := by
  rw [toList_hexUpper, List.leftpad, List.mem_append, List.mem_map] at digit
  rcases digit with zero | ⟨c', digit, rfl⟩
  · exact ⟨0, by decide, List.eq_of_mem_replicate zero⟩
  · obtain ⟨d, small, rfl⟩ := mem_toDigits (by decide) digit
    exact ⟨d, small, rfl⟩

/-! ## Hexadecimal numerals -/

def upperDigits : List Char :=
  ['0', '1', '2', '3', '4', '5', '6', '7', '8', '9', 'A', 'B', 'C', 'D', 'E', 'F']

/-- The numeral of a number in base sixteen: capital digits that write the number, at least so many
as the width asks for, and no zero in front that the width does not ask for. -/
structure Hexadecimal (width n : Nat) (cs : List Char) : Prop where
  digits : ∀ c ∈ cs, c ∈ upperDigits
  value : ofDigitsIn? 16 cs = some n
  wide : width ≤ cs.length
  short : width < cs.length → cs.head? ≠ some '0'

theorem mem_upperDigits {c : Char} : c ∈ upperDigits ↔ ∃ d < 16, c = (Nat.digitChar d).toUpper := by
  have written : upperDigits = (List.range 16).map fun d => (Nat.digitChar d).toUpper := by decide
  rw [written, List.mem_map]
  constructor
  · rintro ⟨d, small, rfl⟩
    exact ⟨d, List.mem_range.1 small, rfl⟩
  · rintro ⟨d, small, rfl⟩
    exact ⟨d, List.mem_range.2 small, rfl⟩

theorem head?_toDigits {n : Nat} (pos : 0 < n) :
    ((Nat.toDigits 16 n).map Char.toUpper).head? ≠ some '0' := by
  induction n using Nat.strongRecOn with
  | _ n ih =>
    rw [Nat.toDigits_eq_if (by decide)]
    split
    · next small =>
      have all : ∀ d : Fin 16, 0 < d.val → (Nat.digitChar d).toUpper ≠ '0' := by decide
      exact fun zero => all ⟨n, small⟩ pos (Option.some.inj zero)
    · next large =>
      have nonempty : (Nat.toDigits 16 (n / 16)).map Char.toUpper ≠ [] :=
        mt List.map_eq_nil_iff.1 Nat.toDigits_ne_nil
      rw [List.map_append, List.head?_append_of_ne_nil _ nonempty]
      exact ih (n / 16) (by omega) (by omega)

theorem toDigits_append_digit {m d : Nat} (pos : 0 < m) (small : d < 16) :
    Nat.toDigits 16 (16 * m + d) = Nat.toDigits 16 m ++ [Nat.digitChar d] := by
  have higher : (16 * m + d) / 16 = m := by omega
  have last : (16 * m + d) % 16 = d := by omega
  rw [Nat.toDigits_eq_if (by decide), if_neg (by omega), higher, last]

/-- One digit more is one place more. -/
theorem leftpad_append_digit (k m : Nat) {d : Nat} (small : d < 16) :
    List.leftpad (k + 2) '0' ((Nat.toDigits 16 (16 * m + d)).map Char.toUpper) =
      List.leftpad (k + 1) '0' ((Nat.toDigits 16 m).map Char.toUpper) ++
        [(Nat.digitChar d).toUpper] := by
  rcases Nat.eq_zero_or_pos m with rfl | pos
  · rw [Nat.mul_zero, Nat.zero_add, Nat.toDigits_of_lt_base small, Nat.toDigits_zero]
    exact congrArg (· ++ [(Nat.digitChar d).toUpper]) List.replicate_succ'
  · rw [toDigits_append_digit pos small, List.map_append, List.leftpad, List.leftpad,
      List.length_append, ← List.append_assoc]
    simp

/-- Digits are those of their value, behind zeros. -/
theorem eq_leftpad_of_readDigits {cs : List Char} (digits : ∀ c ∈ cs, c ∈ upperDigits)
    (nonempty : cs ≠ []) {n : Nat} (value : readDigits 16 0 cs = some n) :
    cs = List.leftpad cs.length '0' ((Nat.toDigits 16 n).map Char.toUpper) := by
  induction cs using List.reverseRecOn generalizing n with
  | nil => exact absurd rfl nonempty
  | append_singleton cs c ih =>
    obtain ⟨d, small, rfl⟩ := mem_upperDigits.1 (digits c List.mem_concat_self)
    rw [readDigits_append] at value
    obtain ⟨m, higher, last⟩ := Option.bind_eq_some_iff.1 value
    rw [readDigits_singleton (digitValue_toUpper_digitChar small) small] at last
    cases last
    cases cs with
    | nil =>
      -- One digit is the numeral of its value, zero as well.
      cases higher
      rw [Nat.mul_zero, Nat.zero_add, Nat.toDigits_of_lt_base small]
      rfl
    | cons c' cs =>
      have before :=
        ih (fun c member => digits c (List.mem_append_left _ member))
          (List.cons_ne_nil c' cs) higher
      rw [List.length_append, List.length_cons, List.length_singleton,
        leftpad_append_digit _ _ small, ← List.length_cons, ← before]

theorem leftpad_eq_self {width : Nat} {cs : List Char} (full : width ≤ cs.length) :
    List.leftpad width '0' cs = cs := by
  rw [List.leftpad, Nat.sub_eq_zero_of_le full]
  rfl

theorem head?_leftpad {width : Nat} {cs : List Char} (room : cs.length < width) :
    (List.leftpad width '0' cs).head? = some '0' := by
  obtain ⟨zeros, missing⟩ : ∃ zeros, width - cs.length = zeros + 1 :=
    ⟨width - cs.length - 1, by omega⟩
  rw [List.leftpad, missing]
  rfl

/-- Padded text is the numeral of its number, and the only one. -/
theorem hexadecimal_iff {width n : Nat} (pos : 0 < width) {cs : List Char} :
    Hexadecimal width n cs ↔ cs = (hexUpper width n).toList := by
  rw [toList_hexUpper]
  constructor
  · intro h
    have nonempty : cs ≠ [] := List.ne_nil_of_length_pos (Nat.lt_of_lt_of_le pos h.wide)
    have padded := eq_leftpad_of_readDigits h.digits nonempty (ofDigitsIn?_eq nonempty ▸ h.value)
    generalize (Nat.toDigits 16 n).map Char.toUpper = ds at padded ⊢
    rcases Nat.lt_or_ge ds.length cs.length with more | all
    · have first : cs.head? = some '0' := padded ▸ head?_leftpad more
      have exact : cs.length = width :=
        Nat.le_antisymm (Nat.not_lt.1 fun long => h.short long first) h.wide
      rwa [exact] at padded
    · rw [leftpad_eq_self all] at padded
      rw [← padded, leftpad_eq_self h.wide]
  · rintro rfl
    rw [← toList_hexUpper]
    refine ⟨fun c digit => mem_upperDigits.2 (mem_hexUpper digit), ofDigitsIn?_hexUpper width n, ?_,
      fun long => ?_⟩
    · rw [toList_hexUpper, List.length_leftpad]
      exact Nat.le_max_left ..
    · rw [toList_hexUpper, List.length_leftpad] at long
      have full : width < ((Nat.toDigits 16 n).map Char.toUpper).length := by omega
      rw [toList_hexUpper, leftpad_eq_self (Nat.le_of_lt full)]
      refine head?_toDigits (Nat.pos_of_ne_zero ?_)
      rintro rfl
      exact absurd full (Nat.not_lt.2 pos)

end Chip8.Text
