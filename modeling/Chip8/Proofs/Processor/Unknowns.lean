import Chip8.Proofs.Processor.Step
import Chip8.Proofs.Tally

/-!
# Words outside the instruction set

A step on a word outside the instruction set passes over the word, counts it and does nothing else
(`step_unknown`). So whatever is done with a processor, its tally is that of the words that its
steps did not know since it was last emptied (`Record.tallied_after`).
-/

namespace Chip8

/-- The address and the word of a step on an unknown word. -/
def StepResult.unknown? : StepResult → Option (Int × UInt16)
  | unknown pc w => some (pc, w)
  | _ => none

/-- The word of a step on an unknown word. -/
def StepResult.unknownWord? (result : StepResult) : Option UInt16 := result.unknown?.map Prod.snd

namespace Processor

variable {c c' : Processor} {result : StepResult} {a : Int} {w : UInt16}

theorem Stepped.unknowns_eq (stepped : c.Stepped result c') :
    c'.unknowns = result.unknownWord?.elim c.unknowns c.unknowns.bump := by
  cases stepped <;> rfl

/-- A step on an unknown word moves the program counter to the next word, and changes nothing else
of the machine. -/
theorem step_unknown {e : UInt8} (unknown : (c.step e).1 = .unknown a w) :
    c.machine.pc = .address a ∧
      c.step e = (.unknown a w,
        { c with
          machine := { c.machine with pc := .address (a + 2) }
          unknowns := c.unknowns.bump w }) := by
  have stepped := c.step_stepped e
  generalize c.step e = step at unknown stepped ⊢
  obtain ⟨result, c'⟩ := step
  dsimp only at unknown stepped
  subst unknown
  cases stepped with
  | unknown fetch =>
    obtain ⟨counter, inside⟩ := ProgramCounter.fetchable?_eq_some_iff.1 fetch
    have range := isFetchable_iff.1 inside
    have next : c.machine.pc.add 2 = .address (a + 2) := by
      rw [counter, ProgramCounter.add_address]
      unfold Counter.exactLimit
      omega
    refine ⟨counter, ?_⟩
    rw [Machine.move, next]

/-- What is done with a processor. -/
inductive Use
  | step (entropy : UInt8)
  /-- Something else changes the machine, such as a key that ends a wait. -/
  | change (machine : Machine)
  /-- The tally is emptied. -/
  | forget

/-- A processor in use, and the results of its steps since its tally was last emptied. -/
structure Record where
  processor : Processor
  results : List StepResult

namespace Record

variable {r : Record}

/-- A new processor. -/
def new (machine : Machine) (dialect : Dialect) : Record := ⟨.new machine dialect, []⟩

def use (r : Record) : Use → Record
  | .step entropy =>
    let step := r.processor.step entropy
    ⟨step.2, r.results ++ [step.1]⟩
  | .change machine => { r with processor := { r.processor with machine } }
  | .forget => ⟨r.processor.forgetUnknowns, []⟩

def after (r : Record) (uses : List Use) : Record := uses.foldl use r

/-- The unknown words, one for each step that met one. -/
def unknownWords (r : Record) : List UInt16 := r.results.filterMap StepResult.unknownWord?

/-- The tally has counted the unknown words of the record. -/
def Tallied (r : Record) : Prop := r.processor.unknowns = Tally.ofList r.unknownWords

theorem unknownWords_step (r : Record) (entropy : UInt8) :
    (r.use (.step entropy)).unknownWords =
      r.unknownWords ++ (r.processor.step entropy).1.unknownWord?.toList := by
  simp only [unknownWords, use, List.filterMap_append]
  cases word : (r.processor.step entropy).1.unknownWord? <;> simp [word]

theorem Tallied.use (tallied : r.Tallied) (use : Use) : (r.use use).Tallied := by
  cases use with
  | step entropy =>
    have counted := (r.processor.step_stepped entropy).unknowns_eq
    rw [Tallied, unknownWords_step]
    change (r.processor.step entropy).2.unknowns = _
    rw [counted, tallied]
    cases (r.processor.step entropy).1.unknownWord? with
    | none => rw [Option.toList_none, List.append_nil, Option.elim_none]
    | some w => rw [Option.toList_some, Tally.ofList_concat, Option.elim_some]
  | change machine => exact tallied
  | forget => rfl

theorem Tallied.after (tallied : r.Tallied) (uses : List Use) : (r.after uses).Tallied := by
  induction uses generalizing r with
  | nil => exact tallied
  | cons use uses ih => exact ih (tallied.use use)

theorem tallied_after (machine : Machine) (dialect : Dialect) (uses : List Use) :
    ((new machine dialect).after uses).Tallied :=
  Tallied.after (r := new machine dialect) rfl uses

/-- The ranking of the tally is a histogram of the unknown words. -/
theorem Tallied.histogram (tallied : r.Tallied) :
    Histogram r.unknownWords r.processor.unknowns.ranking := by
  rw [tallied]
  exact Tally.histogram_ranking _

end Record

end Processor

end Chip8
