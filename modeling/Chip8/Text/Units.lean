/-!
# Sixteen-bit units

Texts that go to other systems are measured, ordered and cut by sixteen-bit units: a character below
`0x10000` is one unit, any other one a pair. A text that is cut inside a pair keeps half of it. No
character is half of a pair, so a character for private use stands for a half that has lost its
partner (`half`), and one of those characters that occurs in its own right is held as the two halves
of its pair (`held`). So every row of units is some text. Main statements: what a character is held
as has its units (`flatMap_held`), a cut keeps the first units, as many as it is asked for
(`flatMap_takeUnits`), and a half that is added to a text is its next unit (`flatMap_addHalf`).
-/

namespace Chip8.Text

/-- Is a unit half of a pair? The halves are one block of `0x800` numbers. -/
def isHalf (unit : Nat) : Bool := unit / 0x800 = 0x1B

/-- The character that stands for half of a pair without its partner. -/
def half (unit : Nat) : Char := Char.ofNat (0x100000 + unit)

/-- The half of a pair that a character stands for. -/
def half? (c : Char) : Option Nat :=
  if c.toNat / 0x800 = 0x21B then some (0xD800 + c.toNat % 0x800) else none

/-- The sixteen-bit units of the character with a number. -/
def numberUnits (n : Nat) : List Nat :=
  if n < 0x10000 then [n] else [0xD800 + (n - 0x10000) / 0x400, 0xDC00 + (n - 0x10000) % 0x400]

/-- The sixteen-bit units of a character, or the half of a pair that it stands for. -/
def charUnits (c : Char) : List Nat :=
  match half? c with
  | some unit => [unit]
  | none => numberUnits c.toNat

/-- The sixteen-bit units of a text. -/
def units (s : String) : List Nat := s.toList.flatMap charUnits

/-- The text of the first units, as many as there are up to `count`. -/
def takeUnits (count : Nat) : List Char → List Char
  | [] => []
  | c :: rest =>
    let size := (charUnits c).length
    if size ≤ count then c :: takeUnits (count - size) rest else ((charUnits c).take count).map half

/-- The character that two halves of a pair make. -/
def pair (first second : Nat) : Char :=
  Char.ofNat (0x10000 + (first - 0xD800) * 0x400 + (second - 0xDC00))

/-- A text, its last character first, with half of a pair behind it. Two halves that make a pair
become their character. -/
def addHalf (text : List Char) (unit : Nat) : List Char :=
  match text with
  | [] => [half unit]
  | c :: rest =>
    match half? c with
    | some first =>
      if charUnits (pair first unit) = [first, unit] then pair first unit :: rest
        else half unit :: text
    | none => half unit :: text

/-- A character as texts hold it. -/
def held (c : Char) : List Char := if (half? c).isSome then (numberUnits c.toNat).map half else [c]

/-- A text from another system as texts are held. -/
def hold (s : String) : String := String.ofList (s.toList.flatMap held)

/-- Do two characters stand for the halves of a pair? -/
def isPair (a b : Char) : Bool :=
  match half? a, half? b with
  | some first, some second => first < 0xDC00 && 0xDC00 ≤ second
  | _, _ => false

/-- A text in groups: two halves that are a pair stand together, any other character stands
alone. -/
def groups : List Char → List (List Char)
  | a :: b :: rest => if isPair a b then [a, b] :: groups rest else [a] :: groups (b :: rest)
  | [a] => [[a]]
  | [] => []

/-- A group, or the replacement character for a half that has no partner. -/
def wholeGroup : List Char → List Char
  | [c] => if (half? c).isSome then ['\ufffd'] else [c]
  | group => group

/-- The character that a group is, or the replacement character for a half that has no partner. -/
def plainGroup : List Char → List Char
  | [a, b] =>
    match half? a, half? b with
    | some first, some second => [pair first second]
    | _, _ => [a, b]
  | group => wholeGroup group

/-- A text with each half that has no partner replaced. -/
def whole (s : String) : String := String.ofList ((groups s.toList).flatMap wholeGroup)

/-- A text as file systems and terminals take it. -/
def plain (s : String) : String := String.ofList ((groups s.toList).flatMap plainGroup)

/-- The bytes that a text takes in a file system if its halves have their partners: four for a pair
of them. -/
def byteSize (s : String) : Nat :=
  s.toList.foldl (fun size c => size + if (half? c).isSome then 2 else c.utf8Size) 0

theorem toNat_ofNat {n : Nat} (h : n.isValidChar) : (Char.ofNat n).toNat = n := by
  rw [Char.ofNat, dif_pos h]
  rfl

theorem half?_half {unit : Nat} (h : isHalf unit = true) : half? (half unit) = some unit := by
  simp only [isHalf, decide_eq_true_eq] at h
  have number : (half unit).toNat = 0x100000 + unit :=
    toNat_ofNat (by simp only [Nat.isValidChar]; omega)
  have block : (0x100000 + unit) / 0x800 = 0x21B := by omega
  have place : 0xD800 + (0x100000 + unit) % 0x800 = unit := by omega
  rw [half?, number, if_pos block, place]

theorem charUnits_half {unit : Nat} (h : isHalf unit = true) : charUnits (half unit) = [unit] := by
  rw [charUnits, half?_half h]

theorem toNat_lt_limit (c : Char) : c.toNat < 0x110000 := by
  have valid : c.toNat.isValidChar := c.valid
  rw [Nat.isValidChar] at valid
  omega

/-- A number above the single units has two halves. -/
theorem numberUnits_eq_pair {n : Nat} (above : ¬ n < 0x10000) (below : n < 0x110000) :
    ∃ first second, numberUnits n = [first, second] ∧ isHalf first = true ∧
    isHalf second = true := by
  unfold numberUnits
  rw [if_neg above]
  refine ⟨_, _, rfl, ?_, ?_⟩ <;> simp only [isHalf, decide_eq_true_eq] <;> omega

/-- A character is one unit, or a pair of two halves. -/
theorem charUnits_cases (c : Char) :
    (∃ unit, charUnits c = [unit]) ∨
      ∃ first second, charUnits c = [first, second] ∧ isHalf first = true ∧
      isHalf second = true := by
  unfold charUnits
  split
  case h_1 => exact .inl ⟨_, rfl⟩
  case h_2 =>
    by_cases single : c.toNat < 0x10000
    · exact .inl ⟨c.toNat, by unfold numberUnits; rw [if_pos single]⟩
    · exact .inr (numberUnits_eq_pair single (toNat_lt_limit c))

/-- What a character is held as has the character's units. -/
theorem flatMap_held (c : Char) : (held c).flatMap charUnits = numberUnits c.toNat := by
  unfold held
  cases standsFor : half? c with
  | none => simp [charUnits, standsFor]
  | some unit =>
    have above : ¬ c.toNat < 0x10000 := by
      unfold half? at standsFor
      split at standsFor
      case isTrue block => omega
      case isFalse => cases standsFor
    obtain ⟨first, second, units, hfirst, hsecond⟩ := numberUnits_eq_pair above (toNat_lt_limit c)
    simp [units, charUnits_half hfirst, charUnits_half hsecond]

theorem flatten_groups (s : List Char) : (groups s).flatten = s := by
  fun_induction groups s with
  | case1 a b rest _ ih => simp [ih]
  | case2 a b rest _ ih => simp [ih]
  | case3 a => rfl
  | case4 => rfl

/-- A cut keeps the first units, as many as it is asked for. -/
theorem flatMap_takeUnits (count : Nat) (s : List Char) :
    (takeUnits count s).flatMap charUnits = (s.flatMap charUnits).take count := by
  induction s generalizing count with
  | nil => simp [takeUnits]
  | cons c rest ih =>
    simp only [takeUnits, List.flatMap_cons, List.take_append]
    split
    case isTrue fits => rw [List.flatMap_cons, ih, List.take_of_length_le fits]
    case isFalse cut =>
      have none : count - (charUnits c).length = 0 := by omega
      rw [none, List.take_zero, List.append_nil]
      obtain ⟨unit, one⟩ | ⟨first, second, pair, hfirst, _⟩ := charUnits_cases c
      · rw [one] at cut ⊢
        have zero : count = 0 := by simpa using cut
        simp [zero]
      · rw [pair] at cut ⊢
        match count, cut with
        | 0, _ => simp
        | 1, _ => simp [charUnits_half hfirst]
        | count + 2, cut => simp at cut

/-- A half that is added is the next unit of the text. -/
theorem flatMap_addHalf (text : List Char) {unit : Nat} (h : isHalf unit = true) :
    (addHalf text unit).reverse.flatMap charUnits = text.reverse.flatMap charUnits ++ [unit] := by
  cases text with
  | nil => simp [addHalf, charUnits_half h]
  | cons c rest =>
    cases standsFor : half? c with
    | none => simp [addHalf, standsFor, charUnits_half h]
    | some first =>
      have same : charUnits c = [first] := by simp [charUnits, standsFor]
      by_cases paired : charUnits (pair first unit) = [first, unit]
      · simp [addHalf, standsFor, paired, same]
      · simp [addHalf, standsFor, paired, charUnits_half h]

end Chip8.Text
