import Chip8.Keypad.Script
import Chip8.Proofs.Keypad
import Chip8.Proofs.Text.Blank
import Chip8.Proofs.Text.Radix

/-!
# Reading key scripts

`Writes` is the grammar of an entry: a number, a colon and one hexadecimal digit, and for a hold
another colon and another number. Scripts of such entries are read, entry by entry, and no others;
of another script the first entry that is not of this form is reported. `Renders` puts entries
between commas, with blanks around them and empty entries among them, and every such script is read
as the entries that it was made of (`scripts_read`). Their events are accepted by the keypad.
-/

namespace Chip8

/-! ## Events -/

theorem twoPow_le_twoPow {m n : Nat} (le : m ≤ n) : twoPow m ≤ twoPow n :=
  Nat.pow_le_pow_right Nat.two_pos le

theorem Number.nearest_of_lt {n : Nat} (exact : n < 2 ^ 53) : nearest n = ofNat n := by
  have rounded : roundSignificant n = n := roundSignificant_natCast (Nat.le_of_lt exact)
  have limit : n < twoPow 1024 := Nat.lt_of_lt_of_le exact (twoPow_le_twoPow (m := 53) (by decide))
  have small : (n : Rat) < twoPow 1024 := Nat.cast_lt.2 limit
  unfold nearest
  rw [rounded]
  exact if_pos small

namespace KeyScriptEntry

/-- The press that an entry asks for. -/
def press (e : KeyScriptEntry) : Press := ⟨.nearest e.tick, e.key, e.hold.map .nearest⟩

/-- The event of an entry as it is written, without any rounding. -/
def exact (e : KeyScriptEntry) : KeyEvent := ⟨.ofNat e.tick, .ofNat e.key, e.hold.map .ofNat⟩

/-- The numbers of an entry are below `2 ^ 53`. -/
structure Small (e : KeyScriptEntry) : Prop where
  tick : e.tick < 2 ^ 53
  hold : ∀ n ∈ e.hold, n < 2 ^ 53

theorem event_eq_exact {e : KeyScriptEntry} (small : e.Small) : e.event = e.exact := by
  have holds : e.hold.map Number.nearest = e.hold.map Number.ofNat :=
    Option.map_congr fun n member => Number.nearest_of_lt (small.hold n member)
  unfold event exact
  rw [holds, Number.nearest_of_lt small.tick]

/-- The text of an entry: its numbers in decimal, and the key as a hexadecimal digit of the case
asked for. -/
def text (e : KeyScriptEntry) (upper : Bool) : List Char :=
  let digit := Nat.digitChar e.key
  Nat.toDigits 10 e.tick ++ ':' :: (if upper then digit.toUpper else digit) ::
    e.hold.elim [] fun hold => ':' :: Nat.toDigits 10 hold

end KeyScriptEntry

namespace KeyScript

open Text

/-! ## Numbers and keys -/

/-- A non-empty run of decimal digits. -/
structure Numeral (cs : List Char) : Prop where
  nonempty : cs ≠ []
  digits : ∀ c ∈ cs, c.isDigit = true

theorem isNumber_iff {cs : List Char} : isNumber cs = true ↔ Numeral cs := by
  have same : (cs.all Text.isDigit = true) = ∀ c ∈ cs, c.isDigit = true := propext List.all_eq_true
  rw [isNumber, Bool.and_eq_true, Bool.not_eq_true', List.isEmpty_eq_false_iff, same]
  exact ⟨fun ⟨nonempty, digits⟩ => ⟨nonempty, digits⟩, fun ⟨nonempty, digits⟩ => ⟨nonempty, digits⟩⟩

theorem numeral_toDigits (n : Nat) : Numeral (Nat.toDigits 10 n) := by
  refine ⟨Nat.toDigits_ne_nil, fun c member => ?_⟩
  obtain ⟨d, small, rfl⟩ := mem_toDigits (by decide) member
  have all : ∀ d : Fin 10, (Nat.digitChar d).isDigit = true := by decide
  exact all ⟨d, small⟩

/-- A character is the hexadecimal digit of a key, in lower or upper case. -/
def Names (c : Char) (key : Key) : Prop := c = Nat.digitChar key ∨ c = (Nat.digitChar key).toUpper

instance (c : Char) (key : Key) : Decidable (Names c key) := inferInstanceAs (Decidable (_ ∨ _))

theorem toNat_lt_of_digitValue {c : Char} {d : Nat} (value : digitValue c = some d) :
    c.toNat < 128 := by
  have below {last : Char} (ascii : last.toNat < 128) (le : c ≤ last) : c.toNat < 128 :=
    Nat.lt_of_le_of_lt le ascii
  unfold digitValue at value
  split at value
  · next range => exact below (by decide) range.2
  split at value
  · next range => exact below (by decide) range.2
  split at value
  · next range => exact below (by decide) range.2
  · cases value

theorem key?_eq_some_iff {c : Char} {key : Key} : key? c = some key ↔ Names c key := by
  constructor
  · intro named
    have ascii : c.toNat < 128 := by
      unfold key? at named
      split at named
      · next d value => exact toNat_lt_of_digitValue value
      · cases named
    have all : ∀ n < 128, ∀ key, key? (Char.ofNat n) = some key → Names (Char.ofNat n) key := by
      decide +kernel
    have found := all c.toNat ascii key
    rw [Char.ofNat_toNat] at found
    exact found named
  · have all : ∀ key : Key, key? (Nat.digitChar key) = some key ∧
        key? (Nat.digitChar key).toUpper = some key := by
      decide
    rintro (rfl | rfl)
    · exact (all key).1
    · exact (all key).2

/-! ## Entries -/

/-- The ways to write an entry. -/
inductive Writes : KeyScriptEntry → List Char → Prop
  | tap {tick : List Char} {c : Char} {key : Key} (number : Numeral tick) (named : Names c key) :
      Writes ⟨ofDigits tick, key, none⟩ (tick ++ [':', c])
  | held {tick hold : List Char} {c : Char} {key : Key} (number : Numeral tick)
      (named : Names c key)
      (length : Numeral hold) : Writes ⟨ofDigits tick, key, some (ofDigits hold)⟩
        (tick ++ ':' :: c :: ':' :: hold)

theorem ofKeyAndHold?_eq_some_iff {tick : Nat} {rest : List Char} {e : KeyScriptEntry} :
    ofKeyAndHold? tick rest = some e ↔
      (∃ c key, Names c key ∧ rest = [c] ∧ e = ⟨tick, key, none⟩) ∨
      ∃ c key hold, Names c key ∧ Numeral hold ∧ rest = c :: ':' :: hold ∧
      e = ⟨tick, key, some (ofDigits hold)⟩ := by
  constructor
  · intro whole
    cases rest with
    | nil => cases whole
    | cons c rest =>
      obtain ⟨key, named, read⟩ := Option.bind_eq_some_iff.1 whole
      rw [key?_eq_some_iff] at named
      split at read
      · cases read
        exact .inl ⟨c, key, named, rfl, rfl⟩
      · next hold =>
        split at read
        · next number =>
          cases read
          exact .inr ⟨c, key, hold, named, isNumber_iff.1 number, rfl, rfl⟩
        · cases read
      · cases read
  · rintro (⟨c, key, named, rfl, rfl⟩ | ⟨c, key, hold, named, length, rfl, rfl⟩)
    · rw [ofKeyAndHold?, key?_eq_some_iff.2 named]
      rfl
    · rw [ofKeyAndHold?, key?_eq_some_iff.2 named]
      exact if_pos (isNumber_iff.2 length)

/-- An entry is read in two parts: the tick up to the first colon, and the rest behind it. -/
theorem entry?_eq_some_iff_split {cs : List Char} {e : KeyScriptEntry} :
    entry? cs = some e ↔
      ∃ tick rest, cs = tick ++ ':' :: rest ∧ Numeral tick ∧
      ofKeyAndHold? (ofDigits tick) rest = some e := by
  constructor
  · intro read
    have split := List.takeWhile_append_dropWhile (p := (· ≠ ':')) (l := cs)
    have first := List.head?_dropWhile_not (· ≠ ':') cs
    unfold entry? at read
    dsimp only at read
    split at read
    · cases read
    · next c rest behind =>
      rw [behind] at split first
      obtain rfl : c = ':' := by simpa using first
      split at read
      · next number => exact ⟨_, rest, split.symm, isNumber_iff.1 number, read⟩
      · cases read
  · rintro ⟨tick, rest, rfl, number, read⟩
    have digits : ∀ c ∈ tick, decide (c ≠ ':') = true := by
      intro c member
      refine decide_eq_true ?_
      rintro rfl
      exact absurd (number.digits _ member) (by decide)
    unfold entry?
    rw [List.takeWhile_append_of_pos digits, List.dropWhile_append_of_pos digits]
    simp [isNumber_iff.2 number, read]

theorem entry?_eq_some_iff {cs : List Char} {e : KeyScriptEntry} :
    entry? cs = some e ↔ Writes e cs := by
  rw [entry?_eq_some_iff_split]
  constructor
  · rintro ⟨tick, rest, rfl, number, read⟩
    rcases ofKeyAndHold?_eq_some_iff.1 read with
      ⟨c, key, named, rfl, rfl⟩ | ⟨c, key, hold, named, length, rfl, rfl⟩
    · exact .tap number named
    · exact .held number named length
  · intro written
    cases written with
    | @tap tick c key number named =>
      exact ⟨tick, [c], rfl, number, ofKeyAndHold?_eq_some_iff.2 (.inl ⟨c, key, named, rfl, rfl⟩)⟩
    | @held tick hold c key number named length =>
      exact ⟨tick, c :: ':' :: hold, rfl, number,
        ofKeyAndHold?_eq_some_iff.2 (.inr ⟨c, key, hold, named, length, rfl, rfl⟩)⟩

theorem writes_text (e : KeyScriptEntry) (upper : Bool) : Writes e (e.text upper) := by
  obtain ⟨tick, key, hold⟩ := e
  have named : Names (if upper then (Nat.digitChar key).toUpper else Nat.digitChar key) key := by
    cases upper with
    | false => exact .inl rfl
    | true => exact .inr rfl
  have value (n : Nat) : ofDigits (Nat.toDigits 10 n) = n := Nat.ofDigitChars_ten_toDigits
  cases hold with
  | none =>
    have written := Writes.tap (numeral_toDigits tick) named
    rwa [value] at written
  | some hold =>
    have written := Writes.held (numeral_toDigits tick) named (numeral_toDigits hold)
    rwa [value, value] at written

/-! ## Scripts -/

/-- The first of some parts that writes no entry. -/
def FirstBad (parts : List (List Char)) (part : List Char) : Prop :=
  ∃ before after, parts = before ++ part :: after ∧ (∀ p ∈ before, ∃ e, Writes e p) ∧
  ∀ e, ¬ Writes e part

theorem entry?_eq_none_iff {part : List Char} : entry? part = none ↔ ∀ e, ¬ Writes e part := by
  rw [Option.eq_none_iff_forall_ne_some]
  exact forall_congr' fun e => not_congr entry?_eq_some_iff

theorem firstBad_cons_iff {part bad : List Char} {parts : List (List Char)} :
    FirstBad (part :: parts) bad ↔
      (part = bad ∧ ∀ e, ¬ Writes e part) ∨ (∃ e, Writes e part) ∧ FirstBad parts bad := by
  constructor
  · rintro ⟨before, after, split, good, none⟩
    cases before with
    | nil =>
      obtain ⟨rfl, -⟩ := List.cons.inj split
      exact .inl ⟨rfl, none⟩
    | cons first before =>
      obtain ⟨rfl, rest⟩ := List.cons.inj split
      exact .inr ⟨good _ List.mem_cons_self, before, after, rest,
        fun p member => good p (List.mem_cons_of_mem _ member), none⟩
  · rintro (⟨rfl, none⟩ | ⟨written, before, after, rfl, good, none⟩)
    · exact ⟨[], parts, rfl, nofun, none⟩
    · exact ⟨part :: before, after, rfl, List.forall_mem_cons.2 ⟨written, good⟩, none⟩

theorem entries?_cons_of_none {part : List Char} (unread : entry? part = none)
    (parts : List (List Char)) :
    entries? (part :: parts) = .error ⟨part⟩ := by
  rw [entries?, unread]

theorem entries?_cons_of_some {part : List Char} {e : KeyScriptEntry} (read : entry? part = some e)
    (parts : List (List Char)) : entries? (part :: parts) = (entries? parts).map (e :: ·) := by
  rw [entries?, read]
  rfl

theorem entries?_eq_ok_iff {parts : List (List Char)} {es : List KeyScriptEntry} :
    entries? parts = .ok es ↔ List.Forall₂ Writes es parts := by
  induction parts generalizing es with
  | nil =>
    rw [entries?, List.forall₂_nil_right_iff]
    simp [eq_comm]
  | cons part parts ih =>
    rw [List.forall₂_cons_right_iff]
    simp only [← ih, ← entry?_eq_some_iff]
    cases read : entry? part with
    | none => simp [entries?_cons_of_none read]
    | some e =>
      rw [entries?_cons_of_some read]
      cases entries? parts <;> simp [Except.map, eq_comm]

theorem entries?_eq_error_iff {parts : List (List Char)} {err : KeyScriptError} :
    entries? parts = .error err ↔ FirstBad parts err.entry := by
  induction parts with
  | nil =>
    refine iff_of_false nofun fun ⟨before, after, split, _⟩ => ?_
    cases before <;> cases split
  | cons part parts ih =>
    rw [firstBad_cons_iff, ← ih, ← entry?_eq_none_iff]
    simp only [← entry?_eq_some_iff]
    obtain ⟨bad⟩ := err
    cases read : entry? part with
    | none => simp [entries?_cons_of_none read]
    | some e =>
      rw [entries?_cons_of_some read]
      cases entries? parts <;> simp [Except.map]

/-! ## Scripts with blanks and empty entries -/

/-- Fields to stand between commas: one for each entry, in order, with its text in it, and others
without any text. There can be blanks around a text. -/
inductive Renders : List KeyScriptEntry → List (List Char) → Prop
  | nil : Renders [] []
  | empty {es : List KeyScriptEntry} {field : List Char} {fields : List (List Char)}
      (padded : Padded [] field)
      (rest : Renders es fields) : Renders es (field :: fields)
  | entry {e : KeyScriptEntry} {es : List KeyScriptEntry} {field : List Char}
      {fields : List (List Char)} (upper : Bool)
      (padded : Padded (e.text upper) field) (rest : Renders es fields) : Renders (e :: es)
        (field :: fields)

/-- The characters of an entry. -/
theorem visible_of_mem_text {e : KeyScriptEntry} {upper : Bool} {c : Char}
    (member : c ∈ e.text upper) :
    isBlank c = false ∧ c ≠ ',' := by
  have digits : ∀ d : Fin 16, (isBlank (Nat.digitChar d) = false ∧ Nat.digitChar d ≠ ',') ∧
      isBlank (Nat.digitChar d).toUpper = false ∧ (Nat.digitChar d).toUpper ≠ ',' := by decide
  have number {n : Nat} (member : c ∈ Nat.toDigits 10 n) : isBlank c = false ∧ c ≠ ',' := by
    obtain ⟨d, small, rfl⟩ := mem_toDigits (by decide) member
    exact (digits ⟨d, by omega⟩).1
  obtain ⟨tick, key, hold⟩ := e
  simp only [KeyScriptEntry.text, List.mem_append, List.mem_cons] at member
  rcases member with tick | rfl | rfl | rest
  · exact number tick
  · decide
  · cases upper with
    | false => exact (digits key).1
    | true => exact (digits key).2
  · cases hold with
    | none => cases rest
    | some n =>
      rcases List.mem_cons.1 rest with rfl | hold
      · decide
      · exact number hold

theorem comma_not_mem_of_padded {text field : List Char} (padded : Padded text field)
    (none : ',' ∉ text) : ',' ∉ field := by
  obtain ⟨before, after, rfl, blank⟩ := padded
  have noBlank : ¬ isBlank ',' = true := by decide
  simp only [List.mem_append] at blank ⊢
  rintro ((ahead | inside) | behind)
  · exact noBlank (blank _ (.inl ahead))
  · exact none inside
  · exact noBlank (blank _ (.inr behind))

theorem comma_not_mem_of_renders {es : List KeyScriptEntry} {fields : List (List Char)}
    (renders : Renders es fields) :
    ∀ field ∈ fields, ',' ∉ field := by
  induction renders with
  | nil => exact nofun
  | empty padded _ ih =>
    exact List.forall_mem_cons.2 ⟨comma_not_mem_of_padded padded List.not_mem_nil, ih⟩
  | entry upper padded _ ih =>
    exact List.forall_mem_cons.2
      ⟨comma_not_mem_of_padded padded fun comma => (visible_of_mem_text comma).2 rfl, ih⟩

theorem parts_eq (cs : List Char) : parts cs = ((cs.splitOn ',').map trim).filter (· ≠ []) := rfl

theorem forall₂_writes_of_renders {es : List KeyScriptEntry} {fields : List (List Char)}
    (renders : Renders es fields) :
    List.Forall₂ Writes es ((fields.map trim).filter (· ≠ [])) := by
  induction renders with
  | nil => exact .nil
  | empty padded _ ih =>
    have trimmed := trim_eq_iff.2 ⟨padded, tight_of_forall nofun⟩
    rw [List.map_cons, trimmed, List.filter_cons_of_neg (by simp)]
    exact ih
  | @entry e _ _ _ upper padded _ ih =>
    have trimmed :=
      trim_eq_iff.2 ⟨padded, tight_of_forall fun c member => (visible_of_mem_text member).1⟩
    have nonempty : e.text upper ≠ [] := List.append_ne_nil_of_right_ne_nil _ (List.cons_ne_nil _ _)
    rw [List.map_cons, trimmed, List.filter_cons_of_pos (by simpa using nonempty)]
    exact .cons (writes_text e upper) ih

/-- A script is read as the entries that it was made of. -/
theorem parse?_of_renders {es : List KeyScriptEntry} {fields : List (List Char)}
    (renders : Renders es fields) :
    parse? (List.intercalate [','] fields) = .ok es := by
  rw [parse?, entries?_eq_ok_iff, parts_eq]
  cases fields with
  | nil =>
    cases renders
    exact .nil
  | cons field fields =>
    rw [List.splitOn_intercalate ',' (comma_not_mem_of_renders renders) (List.cons_ne_nil _ _)]
    exact forall₂_writes_of_renders renders

/-- The keypad accepts the events of every script that can be read. -/
theorem create?_of_entries (es : List KeyScriptEntry) (quitAfter : Chip8.Number) :
    Keypad.create? (es.map (·.event)) quitAfter = .ok (.start (es.map (·.press)) quitAfter) := by
  have events : es.map (·.event) = (es.map (·.press)).map (·.event) := by
    rw [List.map_map]
    rfl
  rw [events, Keypad.create?_events]

/-- A script is read exactly if each of its parts is written as an entry, and gives these entries in
order. Of another one the first part that is not written so is reported. A script made of events is
read as just these events, and the keypad accepts them. -/
theorem scripts_read :
    (∀ cs es, parse? cs = .ok es ↔
      List.Forall₂ Writes es (((cs.splitOn ',').map trim).filter (· ≠ []))) ∧
    (∀ cs err, parse? cs = .error err ↔
      FirstBad (((cs.splitOn ',').map trim).filter (· ≠ [])) err.entry) ∧
    (∀ err : KeyScriptError, err.entry <:+: err.message.toList) ∧
    ∀ es fields, (∀ e ∈ es, e.Small) → Renders es fields →
      (parse? (List.intercalate [','] fields)).map (·.map (·.event)) = .ok (es.map (·.exact)) ∧
      ∀ quitAfter, ∃ keypad, Keypad.create? (es.map (·.exact)) quitAfter = .ok keypad ∧
        keypad.script.map (·.event) = es.map (·.exact) := by
  refine ⟨fun cs es => entries?_eq_ok_iff, fun cs err => entries?_eq_error_iff, fun err => ?_, ?_⟩
  · refine ⟨"bad key event \"".toList, "\" (expected tick:key[:hold])".toList, ?_⟩
    simp [KeyScriptError.message]
  · intro es fields small renders
    have events : es.map (·.event) = es.map (·.exact) :=
      List.map_congr_left fun e member => KeyScriptEntry.event_eq_exact (small e member)
    refine ⟨?_, fun quitAfter => ⟨.start (es.map (·.press)) quitAfter, ?_, ?_⟩⟩
    · rw [parse?_of_renders renders, ← events]
      rfl
    · rw [← events, create?_of_entries]
    · rw [← events]
      exact List.map_map

/-- A script with blanks, an empty entry and a key in upper case, and one whose second entry has a
bad key. -/
theorem scripts_read_with_blanks :
    let es : List KeyScriptEntry := [⟨5, 0xB, none⟩, ⟨10, 0xC, some 4⟩]
    (parse? " 5:b,,\t10:C:4 , ".toList).map (·.map (·.event)) = .ok (es.map (·.exact)) ∧
    (∃ keypad, Keypad.create? (es.map (·.exact)) (.infinite false) = .ok keypad ∧
      keypad.script.map (·.event) = es.map (·.exact)) ∧
    parse? "5:b,7:+1,x".toList = .error ⟨"7:+1".toList⟩ := by
  intro es
  obtain ⟨-, refused, -, read⟩ := scripts_read
  have renders : Renders es [" 5:b".toList, [], "\t10:C:4 ".toList, [' ']] :=
    .entry false ⟨[' '], [], rfl, List.all_eq_true.1 (by decide)⟩ <|
    .empty ⟨[], [], rfl, nofun⟩ <|
    .entry true ⟨['\t'], [' '], rfl, List.all_eq_true.1 (by decide)⟩ <|
    .empty ⟨[], [' '], rfl, List.all_eq_true.1 (by decide)⟩ .nil
  have small : ∀ e ∈ es, e.Small :=
    List.forall_mem_cons.2 ⟨⟨by decide, nofun⟩,
      List.forall_mem_cons.2 ⟨⟨by decide, by decide⟩, nofun⟩⟩
  obtain ⟨events, accepted⟩ := read es _ small renders
  have first : Writes ⟨5, 0xB, none⟩ "5:b".toList := entry?_eq_some_iff.1 (by decide)
  have second : ∀ e, ¬ Writes e "7:+1".toList := entry?_eq_none_iff.1 (by decide)
  refine ⟨events, accepted _, (refused _ _).2 ⟨["5:b".toList], ["x".toList], by decide, ?_, second⟩⟩
  exact List.forall_mem_singleton.2 ⟨_, first⟩

end KeyScript

end Chip8
