import Chip8.Proofs.Number.Bits
import Chip8.Settings
import Mathlib.Algebra.Order.Floor.Ring
import Mathlib.Data.Rat.Floor
import Mathlib.Tactic.Common

/-!
# The layers of the settings

The command line is laid over the environment and the environment over the standard settings. Each
setting is the first in that order that is usable (`Taken`, `Layered`). What is no usable rate, yet
not blank, is refused wherever it stands, even when the other layer has a good one, and the first
that is refused is the one that the error names (`resolve_reads`).
-/

namespace Chip8.Settings

open Text

/-! ## What the texts say -/

/-- The value of a text where a number is wanted. -/
def number (s : String) : Number := ((numeral? s.toList).map Number.ofFloat).getD .nan

/-- A rate is a finite number above zero. -/
def IsRate (n : Number) : Prop := ∃ q, n = .finite q ∧ 0 < q

def NotBlank (s : String) : Prop := trim s.toList ≠ []

/-- A text that is there, is not blank, and is not a rate. -/
def Refused (raw : Option String) : Prop := ∃ s, raw = some s ∧ NotBlank s ∧ ¬ IsRate (number s)

/-- The word in a text, blanks and case aside. Only ASCII letters change their case: no other
character is the upper case of a letter of the words below. -/
def word (s : String) : String := String.ofList ((trim s.toList).map Char.toLower)

/-- The words for a flag. -/
def words : Bool → List String
  | true => ["1", "true", "yes", "on"]
  | false => ["0", "false", "no", "off"]

/-- The words for a fault mode. -/
def modeWord : FaultMode → String
  | .halt => "halt"
  | .throw => "throw"

/-! ## Layers -/

/-- The value of a setting is read from the first of its texts that is usable, and is the standard
one if none is. -/
inductive Taken {β : Type} (Usable : String → Prop) (Reads : String → β → Prop) (standard : β) :
    List (Option String) → β → Prop
  | standard : Taken Usable Reads standard [] standard
  | read {s : String} {value : β} {below : List (Option String)} (usable : Usable s)
      (reads : Reads s value) :
      Taken Usable Reads standard (some s :: below) value
  | passed {raw : Option String} {value : β} {below : List (Option String)}
      (unusable : ∀ s, raw = some s → ¬ Usable s)
      (taken : Taken Usable Reads standard below value) :
          Taken Usable Reads standard (raw :: below) value

/-- Every setting is taken from the command line, else from the environment, else it is the standard
one. -/
structure Layered (env : String → Option String) (options : Options) (s : Settings Float) :
    Prop where
  instructionHz : Taken NotBlank (fun raw x => numeral? raw.toList = some x) 600
    [options.get? "ips", env "CHIP8_IPS"] s.instructionHz
  timerHz : Taken NotBlank (fun raw x => numeral? raw.toList = some x) 60
    [options.get? "timerHz", env "CHIP8_TIMER_HZ"] s.timerHz
  addIndexSetsFlag : Taken (fun raw => word raw ∈ words true ++ words false)
    (fun raw b => word raw ∈ words b) false
    [options.get? "addiVf", env "CHIP8_ADDI_VF"] s.dialect.addIndexSetsFlag
  traceEvery : Taken (fun raw => ∃ q, number raw = .finite q)
    (fun raw every => ∃ q, number raw = .finite q ∧ (every : Int) = max 0 ⌊q⌋) 0
    [options.get? "trace", env "CHIP8_TRACE"] s.traceEvery
  faultMode : Taken (fun raw => raw = "halt" ∨
    raw = "throw") (fun raw mode => raw = modeWord mode) .halt
    [options.get? "onFault", env "CHIP8_ON_FAULT"] s.faultMode

/-- The texts that rates are read from, in the order in which they are read. -/
def rateTexts (env : String → Option String) (options : Options) : List (String × Option String) :=
  [("CHIP8_IPS", env "CHIP8_IPS"), ("CHIP8_TIMER_HZ", env "CHIP8_TIMER_HZ"),
    ("ips", options.get? "ips"), ("timerHz", options.get? "timerHz")]

/-- The error names the first text that is refused. -/
def FirstRefused (texts : List (String × Option String)) (e : SettingsError) : Prop :=
  ∃ before after, texts = before ++ (e.name, some e.raw) :: after ∧ Refused (some e.raw) ∧
    ∀ text ∈ before, ¬ Refused text.2

theorem firstRefused_nil (e : SettingsError) : ¬ FirstRefused [] e := by
  rintro ⟨before, after, split, -⟩
  cases before <;> cases split

theorem firstRefused_cons_iff {name : String} {raw : Option String}
    {rest : List (String × Option String)} {e : SettingsError} :
    FirstRefused ((name, raw) :: rest) e ↔
      Refused raw ∧ name = e.name ∧ raw = some e.raw ∨ ¬ Refused raw ∧ FirstRefused rest e := by
  constructor
  · rintro ⟨before, after, split, refused, kept⟩
    cases before with
    | nil =>
      cases split
      exact .inl ⟨refused, rfl, rfl⟩
    | cons text before =>
      cases split
      exact .inr ⟨kept _ List.mem_cons_self, before, after, rfl, refused,
        fun t member => kept t (.tail _ member)⟩
  · rintro (⟨refused, rfl, rfl⟩ | ⟨fine, before, after, rfl, refused, kept⟩)
    · exact ⟨[], rest, rfl, refused, fun _ member => nomatch member⟩
    · refine ⟨(name, raw) :: before, after, rfl, refused, fun text member => ?_⟩
      rcases List.mem_cons.1 member with rfl | member
      · exact fine
      · exact kept text member

theorem FirstRefused.unique {texts : List (String × Option String)} {e e' : SettingsError}
    (first : FirstRefused texts e) (first' : FirstRefused texts e') : e = e' := by
  induction texts with
  | nil => exact absurd first (firstRefused_nil e)
  | cons text rest ih =>
    obtain ⟨name, raw⟩ := text
    rcases firstRefused_cons_iff.1 first with ⟨refused, rfl, rfl⟩ | ⟨fine, later⟩
    · rcases firstRefused_cons_iff.1 first' with ⟨-, named, given⟩ | ⟨fine, -⟩
      · cases e
        cases e'
        cases named
        cases given
        rfl
      · exact absurd refused fine
    · rcases firstRefused_cons_iff.1 first' with ⟨refused, -, -⟩ | ⟨-, later'⟩
      · exact absurd refused fine
      · exact ih later later'

theorem FirstRefused.append_right {texts : List (String × Option String)} {e : SettingsError}
    (first : FirstRefused texts e) (more : List (String × Option String)) :
    FirstRefused (texts ++ more) e := by
  obtain ⟨before, after, rfl, refused, fine⟩ := first
  exact ⟨before, after ++ more, by rw [List.append_assoc, List.cons_append], refused, fine⟩

theorem FirstRefused.append_left {texts more : List (String × Option String)} {e : SettingsError}
    (fine : ∀ text ∈ texts, ¬ Refused text.2) (first : FirstRefused more e) :
    FirstRefused (texts ++ more) e := by
  obtain ⟨before, after, rfl, refused, kept⟩ := first
  refine ⟨texts ++ before, after, (List.append_assoc ..).symm, refused, fun text member => ?_⟩
  rcases List.mem_append.1 member with early | late
  · exact fine text early
  · exact kept text late

/-! ## One layer -/

/-- A setting after one layer: what is read from the text if that is usable, else what it was
before. -/
def Over {β : Type} (Usable : String → Prop) (Reads : String → β → Prop) (raw : Option String)
    (base value : β) : Prop :=
  (∃ s, raw = some s ∧ Usable s ∧ Reads s value) ∨ (∀ s, raw = some s → ¬ Usable s) ∧ value = base

theorem taken_of_over {β : Type} {Usable : String → Prop} {Reads : String → β → Prop}
    {standard base value : β} {option environment : Option String}
    (first : Over Usable Reads environment standard base)
    (second : Over Usable Reads option base value) :
    Taken Usable Reads standard [option, environment] value := by
  rcases second with ⟨s, rfl, usable, reads⟩ | ⟨unusable, rfl⟩
  · exact .read usable reads
  refine .passed unusable ?_
  rcases first with ⟨s, rfl, usable, reads⟩ | ⟨unusable, rfl⟩
  · exact .read usable reads
  · exact .passed unusable .standard

theorem isRate_iff (x : Float) : isRate x = true ↔ IsRate (.ofFloat x) :=
  Number.lt_zero_and_isFinite_iff x

theorem rate_of_refused {raw : Option String} (refused : Refused raw) (name : String)
    (base : Float) :
    ∃ s, raw = some s ∧ rate name raw base = .error ⟨name, s⟩ := by
  obtain ⟨s, rfl, notBlank, bad⟩ := refused
  refine ⟨s, rfl, ?_⟩
  unfold rate
  rw [number] at bad
  dsimp only
  rw [if_neg notBlank]
  cases read : numeral? s.toList with
  | none => rfl
  | some x =>
    rw [read] at bad
    dsimp only
    rw [if_neg (mt (isRate_iff x).1 bad)]

theorem rate_of_not_refused {raw : Option String} (fine : ¬ Refused raw) (name : String)
    {base : Float} (good : isRate base = true) :
    ∃ x, rate name raw base = .ok x ∧ isRate x = true ∧
      Over NotBlank (fun raw x => numeral? raw.toList = some x) raw base x := by
  cases raw with
  | none => exact ⟨base, rfl, good, .inr ⟨fun _ given => (nomatch given), rfl⟩⟩
  | some s =>
    by_cases blank : trim s.toList = []
    · refine ⟨base, ?_, good, .inr ⟨fun t given notBlank => ?_, rfl⟩⟩
      · unfold rate
        dsimp only
        rw [if_pos blank]
      · cases given
        exact notBlank blank
    · have isRate_number : IsRate (number s) := by
        by_contra bad
        exact fine ⟨s, rfl, blank, bad⟩
      unfold rate
      dsimp only
      rw [if_neg blank]
      cases read : numeral? s.toList with
      | none =>
        obtain ⟨q, value, -⟩ := isRate_number
        rw [number, read] at value
        cases value
      | some x =>
        rw [number, read] at isRate_number
        have good := (isRate_iff x).2 isRate_number
        dsimp only
        exact ⟨x, if_pos good, good, .inl ⟨s, rfl, blank, read⟩⟩

theorem any_toList_iff (ws : List String) (s : String) :
    ws.any (·.toList = (trim s.toList).map Char.toLower) = true ↔ word s ∈ ws := by
  have same (w : String) : w.toList = (trim s.toList).map Char.toLower ↔ w = word s := by
    rw [word, ← String.toList_inj, String.toList_ofList]
  simp only [List.any_eq_true, decide_eq_true_eq, same, exists_eq_right]

theorem not_mem_words_false {w : String} (yes : w ∈ words true) : w ∉ words false := by
  revert w
  decide

theorem flag?_eq_some_iff {s : String} {b : Bool} : flag? s.toList = some b ↔ word s ∈ words b := by
  unfold flag?
  dsimp only
  simp only [any_toList_iff]
  change (if word s ∈ words true then some true else if word s ∈ words false then some false
    else none) = _ ↔ _
  by_cases yes : word s ∈ words true
  · rw [if_pos yes]
    have no := not_mem_words_false yes
    cases b <;> simp [yes, no]
  · rw [if_neg yes]
    by_cases no : word s ∈ words false <;> cases b <;> simp [yes, no]

theorem over_flag (raw : Option String) (base : Bool) :
    Over (fun raw => word raw ∈ words true ++ words false)
      (fun raw b => word raw ∈ words b) raw base
      (flag raw base) := by
  cases raw with
  | none => exact .inr ⟨fun _ given => (nomatch given), rfl⟩
  | some s =>
    change Over _ _ _ _ ((flag? s.toList).getD base)
    cases read : flag? s.toList with
    | none =>
      refine .inr ⟨fun t given known => ?_, rfl⟩
      cases given
      rcases List.mem_append.1 known with yes | no
      · rw [flag?_eq_some_iff.2 yes] at read
        cases read
      · rw [flag?_eq_some_iff.2 no] at read
        cases read
    | some b =>
      have member := flag?_eq_some_iff.1 read
      refine .inl ⟨s, rfl, ?_, member⟩
      cases b with
      | true => exact List.mem_append_left _ member
      | false => exact List.mem_append_right _ member

theorem finite?_eq_some_iff {s : String} {q : Rat} : finite? s = some q ↔ number s = .finite q := by
  unfold finite? number
  cases (numeral? s.toList).map Number.ofFloat with
  | none => simp
  | some n => cases n <;> simp

theorem over_trace (raw : Option String) (base : Nat) :
    Over (fun raw => ∃ q, number raw = .finite q)
      (fun raw every => ∃ q, number raw = .finite q ∧
        (every : Int) = max 0 ⌊q⌋) raw base (trace raw base) := by
  cases raw with
  | none => exact .inr ⟨fun _ given => (nomatch given), rfl⟩
  | some s =>
    unfold trace
    rw [Option.bind_some]
    cases read : finite? s with
    | none =>
      refine .inr ⟨fun t given usable => ?_, rfl⟩
      cases given
      obtain ⟨q, value⟩ := usable
      rw [finite?_eq_some_iff.2 value] at read
      cases read
    | some q =>
      have value := finite?_eq_some_iff.1 read
      refine .inl ⟨s, rfl, ⟨q, value⟩, q, value, ?_⟩
      rw [max_comm]
      exact Int.toNat_eq_max _

theorem over_mode (raw : Option String) (base : FaultMode) :
    Over (fun raw => raw = "halt" ∨ raw = "throw")
      (fun raw mode => raw = modeWord mode) raw base (mode raw base) := by
  unfold mode
  split
  · exact .inl ⟨_, rfl, .inl rfl, rfl⟩
  · exact .inl ⟨_, rfl, .inr rfl, rfl⟩
  · next other₁ other₂ =>
    refine .inr ⟨fun s given known => ?_, rfl⟩
    rcases known with rfl | rfl
    · exact other₁ given
    · exact other₂ given

/-- Settings after one layer of texts over `base`. -/
structure LaidOver (names : Names) (value : String → Option String) (base s : Settings Float) :
    Prop where
  instructionHz : Over NotBlank (fun raw x => numeral? raw.toList = some x)
    (value names.instructionHz)
    base.instructionHz s.instructionHz
  timerHz : Over NotBlank (fun raw x => numeral? raw.toList = some x)
    (value names.timerHz) base.timerHz s.timerHz
  addIndexSetsFlag : Over (fun raw => word raw ∈ words true ++ words false)
    (fun raw b => word raw ∈ words b)
    (value names.addIndexSetsFlag) base.dialect.addIndexSetsFlag s.dialect.addIndexSetsFlag
  traceEvery : Over (fun raw => ∃ q, number raw = .finite q)
    (fun raw every => ∃ q, number raw = .finite q ∧ (every : Int) = max 0 ⌊q⌋)
      (value names.traceEvery)
    base.traceEvery s.traceEvery
  faultMode : Over (fun raw => raw = "halt" ∨ raw = "throw") (fun raw mode => raw = modeWord mode)
    (value names.faultMode) base.faultMode s.faultMode

/-- Both rates of the settings are rates. -/
def Rated (s : Settings Float) : Prop := isRate s.instructionHz = true ∧ isRate s.timerHz = true

/-- The rates that a layer gives, in the order in which they are read. -/
def Names.rateTexts (names : Names) (value : String → Option String) :
    List (String × Option String) :=
  [(names.instructionHz, value names.instructionHz), (names.timerHz, value names.timerHz)]

theorem layer_cases {base : Settings Float} (rated : Rated base) (names : Names)
    (value : String → Option String) :
    (∃ e, layer base names value = .error e ∧ FirstRefused (names.rateTexts value) e) ∨
      ∃ s, layer base names value = .ok s ∧ (∀ text ∈ names.rateTexts value, ¬ Refused text.2) ∧
        LaidOver names value base s ∧ Rated s := by
  unfold layer Names.rateTexts
  by_cases first : Refused (value names.instructionHz)
  · obtain ⟨s, given, error⟩ := rate_of_refused first names.instructionHz base.instructionHz
    rw [error]
    exact .inl ⟨_, rfl, firstRefused_cons_iff.2 (.inl ⟨first, rfl, given⟩)⟩
  obtain ⟨x, ok, good, laid⟩ := rate_of_not_refused first names.instructionHz rated.1
  rw [ok]
  by_cases second : Refused (value names.timerHz)
  · obtain ⟨s, given, error⟩ := rate_of_refused second names.timerHz base.timerHz
    rw [error]
    refine .inl ⟨_, rfl, firstRefused_cons_iff.2 (.inr ⟨first, ?_⟩)⟩
    exact firstRefused_cons_iff.2 (.inl ⟨second, rfl, given⟩)
  obtain ⟨y, ok', good', laid'⟩ := rate_of_not_refused second names.timerHz rated.2
  rw [ok']
  refine .inr ⟨_, rfl, ?_, ⟨laid, laid', over_flag _ _, over_trace _ _, over_mode _ _⟩, good, good'⟩
  rintro text (_ | ⟨_, _ | ⟨_, none⟩⟩)
  · exact first
  · exact second
  · cases none

/-! ## Both layers -/

theorem rated_standard : Rated standard := ⟨by decide, by decide⟩

theorem rateTexts_eq (env : String → Option String) (options : Options) :
    rateTexts env options = environmentNames.rateTexts env ++ optionNames.rateTexts options.get? :=
  rfl

theorem layered_of_laidOver {env : String → Option String} {options : Options}
    {base s : Settings Float} (first : LaidOver environmentNames env standard base)
    (second : LaidOver optionNames options.get? base s) :
    Layered env options s where
  instructionHz := taken_of_over first.instructionHz second.instructionHz
  timerHz := taken_of_over first.timerHz second.timerHz
  addIndexSetsFlag := taken_of_over first.addIndexSetsFlag second.addIndexSetsFlag
  traceEvery := taken_of_over first.traceEvery second.traceEvery
  faultMode := taken_of_over first.faultMode second.faultMode

theorem resolve_cases (env : String → Option String) (options : Options) :
    (∃ e, resolve env options = .error e ∧ FirstRefused (rateTexts env options) e) ∨
      ∃ s, resolve env options = .ok s ∧ (∀ text ∈ rateTexts env options, ¬ Refused text.2) ∧
        Layered env options s ∧ Rated s := by
  unfold resolve ofVariables withOptions
  rw [rateTexts_eq]
  rcases layer_cases rated_standard environmentNames env with
    ⟨e, error, first⟩ | ⟨base, ok, fine, laid, rated⟩
  · rw [error]
    exact .inl ⟨e, rfl, first.append_right _⟩
  rw [ok]
  change (∃ e, layer base optionNames options.get? = .error e ∧ _) ∨
    ∃ s, layer base optionNames options.get? = .ok s ∧ _
  rcases layer_cases rated optionNames options.get? with
    ⟨e, error, first⟩ | ⟨s, ok', fine', laid', rated'⟩
  · exact .inl ⟨e, error, first.append_left fine⟩
  · refine .inr ⟨s, ok', fun text member => ?_, layered_of_laidOver laid laid', rated'⟩
    rcases List.mem_append.1 member with early | late
    · exact fine text early
    · exact fine' text late

end Chip8.Settings
