import Chip8.Text.Blank
import Mathlib.Data.List.DropRight

/-!
# Blanks around a text

To trim a text takes away the blanks around it and nothing else (`trim_eq_iff`): what is left has no
blank at either end.
-/

namespace Chip8.Text

/-- A field is a text with blanks around it. -/
def Padded (text field : List Char) : Prop :=
  ∃ before after, field = before ++ text ++ after ∧ ∀ c ∈ before ++ after, isBlank c = true

/-- A text has no blank at either end. -/
structure Tight (text : List Char) : Prop where
  first : ∀ c, text.head? = some c → isBlank c = false
  last : ∀ c, text.getLast? = some c → isBlank c = false

variable {text field : List Char}

theorem tight_of_forall (none : ∀ c ∈ text, isBlank c = false) : Tight text :=
  ⟨fun c first => none c (List.mem_of_head? first),
    fun c last => none c (List.mem_of_getLast? last)⟩

theorem trim_eq (cs : List Char) : trim cs = (cs.dropWhile isBlank).rdropWhile isBlank := rfl

theorem Tight.rdropWhile_append (tight : Tight text) {after : List Char}
    (blank : ∀ c ∈ after, isBlank c = true) :
    (text ++ after).rdropWhile isBlank = text := by
  have behind : ∀ c ∈ after.reverse, isBlank c = true :=
    fun c member => blank c (List.mem_reverse.1 member)
  have kept : text.rdropWhile isBlank = text := by
    refine List.rdropWhile_eq_self_iff.2 fun nonempty => ?_
    rw [tight.last _ (List.getLast?_eq_some_getLast nonempty)]
    exact Bool.false_ne_true
  rw [List.rdropWhile, List.reverse_append, List.dropWhile_append_of_pos behind]
  exact kept

theorem trim_of_padded (tight : Tight text) (padded : Padded text field) : trim field = text := by
  obtain ⟨before, after, rfl, blank⟩ := padded
  have ahead : ∀ c ∈ before, isBlank c = true :=
    fun c member => blank c (List.mem_append_left _ member)
  have behind : ∀ c ∈ after, isBlank c = true :=
    fun c member => blank c (List.mem_append_right _ member)
  rw [trim_eq, List.append_assoc, List.dropWhile_append_of_pos ahead]
  cases text with
  | nil =>
    rw [List.rdropWhile_eq_nil_iff]
    exact fun c member => behind c ((List.dropWhile_suffix _).subset member)
  | cons c cs =>
    have first : ¬ isBlank c = true := by
      rw [tight.first c rfl]
      exact Bool.false_ne_true
    rw [List.cons_append, List.dropWhile_cons_of_neg first, ← List.cons_append]
    exact tight.rdropWhile_append behind

theorem padded_trim (field : List Char) : Padded (trim field) field := by
  refine ⟨field.takeWhile isBlank, (field.dropWhile isBlank).rtakeWhile isBlank, ?_,
    fun c member => ?_⟩
  · rw [trim_eq, List.append_assoc, List.rdropWhile_append_rtakeWhile,
      List.takeWhile_append_dropWhile]
  · rcases List.mem_append.1 member with ahead | behind
    · exact List.mem_takeWhile_imp ahead
    · exact List.mem_rtakeWhile_imp behind

theorem tight_trim (field : List Char) : Tight (trim field) := by
  constructor
  · intro c first
    obtain ⟨rest, split⟩ := List.rdropWhile_prefix isBlank (field.dropWhile isBlank)
    have dropped := List.head?_dropWhile_not isBlank field
    rw [← split, List.head?_append, ← trim_eq, first] at dropped
    exact dropped
  · intro c last
    have nonempty : trim field ≠ [] := by
      intro empty
      rw [empty] at last
      cases last
    have kept := List.rdropWhile_last_not isBlank (field.dropWhile isBlank) nonempty
    rw [List.getLast?_eq_some_getLast nonempty] at last
    cases last
    exact Bool.eq_false_iff.2 kept

/-- To trim is to take away the blanks around a text. -/
theorem trim_eq_iff : trim field = text ↔ Padded text field ∧ Tight text := by
  constructor
  · rintro rfl
    exact ⟨padded_trim field, tight_trim field⟩
  · rintro ⟨padded, tight⟩
    exact trim_of_padded tight padded

end Chip8.Text
