import Chip8.Proofs.Processor.Unknowns
import Chip8.Proofs.Session.Account
import Chip8.Proofs.Session.Journal

/-!
# Warnings

A session warns of each unknown word that a step met, right after the step, and of nothing else.
`notices` keeps the steps on unknown words and the warnings of a journal. They come in pairs
(`Warned`): every part of a tick adds neither, or both.
-/

namespace Chip8

namespace Event

/-- A step on an unknown word, or a warning. -/
def isNotice : Event → Bool
  | stepped result => result.unknown?.isSome
  | logged level _ => level = .warn
  | _ => false

/-- The address and the word, if it is a step on an unknown word. -/
def unknown? (e : Event) : Option (Int × UInt16) := e.step?.bind StepResult.unknown?

theorem unknown?_of_not_isNotice {e : Event} (other : e.isNotice = false) : e.unknown? = none := by
  cases e with
  | stepped result => exact Option.isNone_iff_eq_none.1 (Option.isSome_eq_false_iff.1 other)
  | _ => rfl

end Event

namespace Play

variable {σ α : Type} {p : Play σ α}

def notices (p : Play σ α) : List Event := p.journal.toList.filter Event.isNotice

/-- The addresses and words of the steps on unknown words. -/
def unknownSteps (p : Play σ α) : List (Int × UInt16) := p.journal.toList.filterMap Event.unknown?

/-- A step on an unknown word and its warning. -/
def warned (met : Int × UInt16) : List Event :=
  [.stepped (.unknown met.1 met.2), .logged .warn (unknownWarning met.1 met.2)]

/-- There is one warning for each step on an unknown word, right behind it. -/
def Warned (p : Play σ α) : Prop := p.notices = p.unknownSteps.flatMap warned

theorem notices_note (p : Play σ α) (e : Event) :
    (p.note e).notices = p.notices ++ [e].filter Event.isNotice := by
  rw [notices, note, Array.toList_push, List.filter_append]
  rfl

theorem unknownSteps_note (p : Play σ α) (e : Event) :
    (p.note e).unknownSteps = p.unknownSteps ++ e.unknown?.toList := by
  rw [unknownSteps, note, Array.toList_push, List.filterMap_append]
  cases met : e.unknown? <;> simp [met, unknownSteps]

namespace Warned

/-- What is written into the journal beside steps on unknown words and warnings does not count. -/
theorem note (inPairs : p.Warned) {e : Event} (other : e.isNotice = false) : (p.note e).Warned := by
  have none := Event.unknown?_of_not_isNotice other
  rw [Warned, notices_note, unknownSteps_note, none,
    List.filter_cons_of_neg (ne_true_of_eq_false other)]
  rw [List.filter_nil, Option.toList_none, List.append_nil, List.append_nil]
  exact inPairs

/-- A step on an unknown word and its warning, one after the other. -/
theorem note_unknown (inPairs : p.Warned) (a : Int) (w : UInt16) :
    ((p.note (.stepped (.unknown a w))).note (.logged .warn (unknownWarning a w))).Warned := by
  have step : [Event.stepped (.unknown a w)].filter Event.isNotice = [.stepped (.unknown a w)] :=
    rfl
  have told : [Event.logged .warn (unknownWarning a w)].filter Event.isNotice =
    [.logged .warn (unknownWarning a w)] := rfl
  rw [Warned, notices_note, notices_note, unknownSteps_note, unknownSteps_note, inPairs, step, told]
  simp [Event.unknown?, Event.step?, StepResult.unknown?, warned]

theorem logErrors (inPairs : p.Warned) (lines : List String) :
    (lines.foldl (fun p line => p.log .error line) p).Warned := by
  induction lines generalizing p with
  | nil => exact inPairs
  | cons line lines ih => exact ih (inPairs.note rfl)

/-- What is no step and no line of the log is no notice. -/
theorem aboutBooks : AboutBooks (Warned (σ := σ) (α := α)) where
  congr inPairs same := by
    rw [Warned, notices, unknownSteps, same.journal]
    exact inPairs
  note {_ e} unbooked inPairs := by
    refine inPairs.note ?_
    cases e with
    | stepped | logged => cases unbooked
    | _ => rfl

theorem book (inPairs : p.Warned) (result : StepResult) :
    ((p.note (.stepped result)).book result).2.Warned := by
  cases result with
  | executed a w =>
    have counted : (p.note (.stepped (.executed a w))).countInstruction.Warned := inPairs.note rfl
    simp only [Play.book]
    split
    · exact counted.note rfl
    · exact counted
  | awaitingKey a w x => exact inPairs.note rfl
  | unknown a w => exact inPairs.note_unknown a w
  | faulted f => exact (aboutBooks.halt (inPairs.note rfl) (.fault f)).logErrors _
  | lost => exact inPairs.note rfl

theorem tick (inPairs : p.Warned) (h : Host σ) (t : Tick) : (p.tick h t).2.Warned :=
  aboutBooks.tick (fun _ result inPairs => inPairs.book result) inPairs h t

theorem restart [Quantity α] (inPairs : p.Warned) : p.restart.Warned := by
  unfold Play.restart
  refine aboutBooks.setTone ?_ false
  exact inPairs

theorem reset [Quantity α] (inPairs : p.Warned) (program : List UInt8) :
    (p.reset program).Warned := by
  unfold Play.reset
  refine restart ?_
  exact inPairs

end Warned

end Play

end Chip8
