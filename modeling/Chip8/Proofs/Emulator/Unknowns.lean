import Chip8.Proofs.Emulator.Requests
import Chip8.Proofs.Session.Warnings

/-!
# Unknown words, counted and told

A processor ranks the unknown words that it met since its tally was last emptied, whatever is done
with it. An emulator warns of each of them as it meets it, whatever is asked of it.
-/

namespace Chip8

open Processor

variable {σ α : Type} [Quantity α]

theorem Emulator.warned_after (h : Host σ) (session : Session α) (host : σ) (program : List UInt8)
    (requests : List (Request α)) :
    ((⟨.new session host, program⟩ : Emulator σ α).after h requests).play.Warned := by
  refine after_induction (I := Play.Warned) ?tick ?clock ?restart ?reset requests rfl rfl
  case tick => exact fun _ t inPairs => inPairs.tick h t
  case clock => exact fun _ _ inPairs => inPairs
  case restart => exact fun _ inPairs => inPairs.restart
  case reset => exact fun _ inPairs => inPairs.reset program

/-- After any steps, changes of the machine and resets of its tally a processor ranks exactly the
unknown words since the last reset: by their counts, and equal counts by their first appearance. A
step on an unknown word does nothing to the machine but move on to the next word. In all that is
asked of an emulator each such step is followed by a warning, and there are no other warnings. -/
theorem unknown_words_ranked (machine : Machine) (dialect : Dialect) (uses : List Use) (h : Host σ)
    (session : Session α) (host : σ) (program : List UInt8) (requests : List (Request α)) :
    let r := (Record.new machine dialect).after uses
    let q := ((⟨.new session host, program⟩ : Emulator σ α).after h requests).play
    Histogram r.unknownWords r.processor.unknowns.ranking ∧
    (∀ e a w, (r.processor.step e).1 = .unknown a w →
      r.processor.machine.pc = .address a ∧
      (r.processor.step e).2.machine = { r.processor.machine with pc := .address (a + 2) }) ∧
    q.notices = q.unknownSteps.flatMap fun (a, w) =>
      [.stepped (.unknown a w), .logged .warn (Play.unknownWarning a w)] := by
  intro r q
  refine ⟨(Record.tallied_after machine dialect uses).histogram, fun e a w unknown => ?_, ?_⟩
  · obtain ⟨counter, step⟩ := step_unknown unknown
    rw [step]
    exact ⟨counter, rfl⟩
  · exact Emulator.warned_after h session host program requests

/-- The word `8008` is met once before the tally is emptied and twice after it, and `5123` once in
between. -/
theorem unknown_words_ranked_after_reset :
    let program := [0x80, 0x08, 0x51, 0x23, 0x80, 0x08, 0x80, 0x08, 0x80, 0x08]
    let r := (Record.new (.startWith program) .standard).after
      [.step 0, .forget, .step 0, .step 0, .step 0]
    let h : Host Unit := ⟨none, none, fun u => (0, u)⟩
    let session : Session Rat :=
      .new (.new (.startWith program) .standard) ⟨600, 60, 0, 0, 0⟩ .halt 0
    let requests : List (Request Rat) :=
      [.call (.tick .instruction), .restart, .call (.tick .instruction)]
    let q := ((⟨.new session (), program⟩ : Emulator Unit Rat).after h requests).play
    r.unknownWords = [0x5123, 0x8008, 0x8008] ∧
    r.processor.unknowns.ranking = [(0x8008, 2), (0x5123, 1)] ∧
    Histogram [0x5123, 0x8008, 0x8008] [((0x8008 : UInt16), 2), (0x5123, 1)] ∧
    (r.processor.step 0).1 = .unknown 0x208 0x8008 ∧
    (r.processor.step 0).2.machine = { r.processor.machine with pc := .address 0x20A } ∧
    q.notices = [.stepped (.unknown 0x200 0x8008), .logged .warn (Play.unknownWarning 0x200 0x8008),
      .stepped (.unknown 0x202 0x5123), .logged .warn (Play.unknownWarning 0x202 0x5123)] := by
  intro program r h session requests q
  obtain ⟨words, entries, unknown, met⟩ :
      r.unknownWords = [0x5123, 0x8008, 0x8008] ∧
      r.processor.unknowns.entries = [(0x5123, 1), (0x8008, 2)] ∧
      (r.processor.step 0).1 = .unknown 0x208 0x8008 ∧
      q.unknownSteps = [(0x200, 0x8008), (0x202, 0x5123)] := by
    decide +kernel
  have ranking : r.processor.unknowns.ranking = [(0x8008, 2), (0x5123, 1)] := by
    simp [Tally.ranking, entries, List.mergeSort, List.MergeSort.Internal.splitInTwo]
  obtain ⟨histogram, moves, notices⟩ := unknown_words_ranked (.startWith program) .standard
    [.step 0, .forget, .step 0, .step 0, .step 0] h session () program requests
  change Histogram r.unknownWords r.processor.unknowns.ranking at histogram
  change q.notices = _ at notices
  rw [words, ranking] at histogram
  rw [met] at notices
  exact ⟨words, ranking, histogram, unknown, (moves 0 _ _ unknown).2, notices⟩

end Chip8
