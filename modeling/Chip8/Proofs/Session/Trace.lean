import Chip8.Proofs.Session.Account
import Chip8.Proofs.Session.Journal
import Mathlib.Data.List.Forall2
import Mathlib.Data.List.Induction
import Mathlib.Data.Nat.Basic
import Mathlib.Data.Rat.Floor

/-!
# The trace

A session counts the words that it carried out, the waits for a key and the unknown words alike. A
line of the trace is due for every instruction whose count is a multiple of the trace interval, but
only a word that was carried out gets one: a wait or an unknown word whose turn it is goes without
(`TraceLaw`). Every part of a tick keeps this law for all that the journal gained since any place
from which the instructions were counted (`Play.Traced`).
-/

namespace Chip8

/-! ## Every so many -/

/-- The elements of a list whose number is a multiple of `n`, counted from one. -/
def everyNth {α : Type} (n : Nat) (l : List α) : List α :=
  (l.zipIdx 1).filterMap fun (a, k) => if n ∣ k then some a else none

theorem everyNth_concat {α : Type} (n : Nat) (l : List α) (a : α) :
    everyNth n (l ++ [a]) = everyNth n l ++ if n ∣ l.length + 1 then [a] else [] := by
  rw [everyNth, List.zipIdx_append, List.filterMap_append, Nat.add_comm 1]
  by_cases due : n ∣ l.length + 1 <;> simp [everyNth, due]

theorem length_everyNth {α : Type} (n : Nat) (l : List α) :
    (everyNth n l).length = l.length / n := by
  induction l using List.reverseRecOn with
  | nil => simp [everyNth]
  | append_singleton l a ih =>
    rw [everyNth_concat, List.length_append, ih, List.length_append, List.length_singleton,
      Nat.succ_div]
    split <;> rfl

/-! ## The law -/

theorem traceInterval_ofNat {n : Nat} (small : n < twoPow 31) : traceInterval (.ofNat n) = n := by
  have floor : (n : Rat).floor = n := by
    change ⌊(n : Rat)⌋ = n
    exact Int.floor_natCast n
  have whole : (Number.ofNat n).truncate = n := by
    rw [Number.ofNat, Number.truncate, if_neg (not_lt.2 n.cast_nonneg), floor]
  have low : (n : Int) % twoPow 32 = n := by
    have word : twoPow 32 = 2 * twoPow 31 := rfl
    exact Int.emod_eq_of_lt (by omega) (by omega)
  simp only [traceInterval, whole, low]
  split <;> omega

namespace StepResult

/-- A word was carried out. -/
def isExecuted : StepResult → Bool
  | executed .. => true
  | _ => false

/-- The result counts as an instruction. -/
def isCounted (result : StepResult) : Bool := result.count = 1

end StepResult

namespace Event

/-- The mark at the start of the lines of the trace. -/
def traceMark : String := "[TRACE]"

/-- The line, if it is one of the trace. -/
def traceLine? : Event → Option String
  | logged _ line => if traceMark.toList.isPrefixOf line.toList then some line else none
  | _ => none

end Event

/-- The results that count as instructions. -/
def countedSteps (events : List Event) : List StepResult :=
  (events.filterMap Event.step?).filter StepResult.isCounted

def traceLines (events : List Event) : List String := events.filterMap Event.traceLine?

/-- The line reports a word that was carried out. -/
def Traces (line : String) (result : StepResult) : Prop :=
  ∃ a w m, result = .executed a w ∧ line = Report.trace a w m

/-- There is a line for each instruction whose turn it is, unless it is a wait or an unknown
word. -/
structure TraceLaw (every executed : Nat) (events : List Event) : Prop where
  count : executed = (countedSteps events).length
  lines : List.Forall₂ Traces (traceLines events)
    ((everyNth every (countedSteps events)).filter StepResult.isExecuted)

theorem countedSteps_append (events more : List Event) :
    countedSteps (events ++ more) = countedSteps events ++ countedSteps more := by
  rw [countedSteps, List.filterMap_append, List.filter_append]
  rfl

theorem traceLines_append (events more : List Event) :
    traceLines (events ++ more) = traceLines events ++ traceLines more := List.filterMap_append

theorem Report.exists_trace_eq (a : Int) (w : UInt16) (m : Machine) :
    ∃ text, Report.trace a w m = "[TRACE] " ++ text := by
  unfold Report.trace
  simp only [String.append_assoc]
  exact ⟨_, rfl⟩

theorem Event.traceLine?_trace (level : Level) (a : Int) (w : UInt16) (m : Machine) :
    (logged level (Report.trace a w m)).traceLine? = some (Report.trace a w m) := by
  obtain ⟨text, trace⟩ := Report.exists_trace_eq a w m
  have marked : traceMark.toList.isPrefixOf ("[TRACE] " ++ text).toList = true := by
    simp [traceMark, List.isPrefixOf]
  rw [trace, traceLine?, if_pos marked]

/-- Warnings and errors have a mark of their own. -/
theorem Event.traceLine?_message (level : Level) (text : String) :
    (logged level ("[chip8] " ++ text)).traceLine? = none := by
  have unmarked : traceMark.toList.isPrefixOf ("[chip8] " ++ text).toList = false := by
    simp [traceMark, List.isPrefixOf]
  rw [traceLine?, unmarked, if_neg Bool.false_ne_true]

theorem Event.traceLine?_warning (a : Int) (w : UInt16) :
    (logged .warn (Play.unknownWarning a w)).traceLine? = none := by
  have mark : "[chip8] unknown opcode " = "[chip8] " ++ "unknown opcode " := rfl
  unfold Play.unknownWarning
  simp only [mark, String.append_assoc]
  exact traceLine?_message ..

namespace TraceLaw

variable {every executed : Nat} {events more : List Event} {result : StepResult}

theorem nil (every : Nat) : TraceLaw every 0 [] := ⟨rfl, .nil⟩

theorem idle (law : TraceLaw every executed events) (uncounted : countedSteps more = [])
    (untraced : traceLines more = []) : TraceLaw every executed (events ++ more) := by
  obtain ⟨count, lines⟩ := law
  constructor
  · rw [countedSteps_append, uncounted, List.append_nil]
    exact count
  · rw [countedSteps_append, traceLines_append, uncounted, untraced, List.append_nil,
      List.append_nil]
    exact lines

/-- One instruction more, with the lines that are due for it. -/
theorem counted (law : TraceLaw every executed events) (one : countedSteps more = [result])
    (told : List.Forall₂ Traces (traceLines more)
      ((if every ∣ executed + 1 then [result] else []).filter StepResult.isExecuted)) :
    TraceLaw every (executed + 1) (events ++ more) := by
  obtain ⟨count, lines⟩ := law
  constructor
  · rw [countedSteps_append, one, List.length_append, ← count]
    rfl
  · rw [countedSteps_append, traceLines_append, one, everyNth_concat, ← count, List.filter_append]
    exact List.rel_append lines told

end TraceLaw

/-! ## Ticks -/

namespace Play

variable {σ α : Type} {p : Play σ α} {start : Nat}

/-- What the journal gained since it had a given length. -/
def since (start : Nat) (p : Play σ α) : List Event := p.journal.toList.drop start

/-- The law holds of all that the journal gained since the instructions were counted from zero. -/
structure Traced (start : Nat) (p : Play σ α) : Prop where
  began : start ≤ p.journal.size
  law : TraceLaw p.session.traceEvery p.session.executed (p.since start)

theorem since_append {q : Play σ α} {more : List Event} (began : start ≤ p.journal.size)
    (journal : q.journal.toList = p.journal.toList ++ more) :
    start ≤ q.journal.size ∧ q.since start = p.since start ++ more := by
  rw [← Array.length_toList] at began ⊢
  rw [since, journal, List.length_append, List.drop_append_of_le_length began]
  exact ⟨by omega, rfl⟩

/-- The session logs a line when the number of the instruction is a multiple of the interval. -/
theorem tracesNow_iff {s : Session α} (counted : 0 < s.executed) :
    tracesNow s = true ↔ s.traceEvery ∣ s.executed := by
  rw [tracesNow, Bool.and_eq_true, decide_eq_true_iff, decide_eq_true_iff,
    ← Nat.dvd_iff_mod_eq_zero]
  exact and_iff_right_of_imp fun divides => Nat.pos_of_dvd_of_pos divides counted

namespace Traced

theorem begin (unused : p.session.executed = 0) : p.Traced p.journal.size := by
  refine ⟨Nat.le_refl _, ?_⟩
  rw [since, ← Array.length_toList, List.drop_length, unused]
  exact .nil _

theorem note (traced : p.Traced start) {e : Event} (uncounted : countedSteps [e] = [])
    (untraced : e.traceLine? = none) :
    (p.note e).Traced start := by
  obtain ⟨began, law⟩ := traced
  obtain ⟨began, gained⟩ := since_append (q := p.note e) began Array.toList_push
  refine ⟨began, ?_⟩
  rw [gained]
  exact law.idle uncounted (List.filterMap_cons_none untraced)

theorem logErrors (traced : p.Traced start) (lines : List String) :
    ((lines.map ("[chip8] " ++ ·)).foldl (fun p line => p.log .error line) p).Traced start := by
  induction lines generalizing p with
  | nil => exact traced
  | cons line lines ih => exact ih (traced.note rfl (Event.traceLine?_message .error line))

theorem aboutBooks (start : Nat) : AboutBooks (Traced (σ := σ) (α := α) start) where
  congr traced same := by
    obtain ⟨began, law⟩ := traced
    rw [← same.journal] at began
    rw [since, ← same.journal, ← same.executed, ← same.traceEvery] at law
    exact ⟨began, law⟩
  note {_ e} unbooked traced := by
    cases e with
    | stepped | logged => cases unbooked
    | _ => exact traced.note rfl rfl

theorem count (traced : p.Traced start) {result : StepResult} (counts : result.isCounted = true)
    (other : p.session.traceEvery ∣ p.session.executed + 1 → result.isExecuted = false) :
    (p.note (.stepped result)).countInstruction.Traced start := by
  obtain ⟨began, law⟩ := traced
  obtain ⟨began, gained⟩ :=
    since_append (q := (p.note (.stepped result)).countInstruction) began Array.toList_push
  refine ⟨began, ?_⟩
  rw [gained]
  refine law.counted (List.filter_cons_of_pos counts) ?_
  split
  · next due =>
    rw [List.filter_cons_of_neg (ne_true_of_eq_false (other due))]
    exact .nil
  · exact .nil

/-- A word that was carried out when it was its turn, and its line. -/
theorem countAndLog (traced : p.Traced start) {a : Int} {w : UInt16}
    (due : p.session.traceEvery ∣ p.session.executed + 1) (m : Machine) :
    ((p.note (.stepped (.executed a w))).countInstruction.log .info (Report.trace a w m)).Traced
      start := by
  obtain ⟨began, law⟩ := traced
  obtain ⟨began, gained⟩ := since_append
    (q := (p.note (.stepped (.executed a w))).countInstruction.log .info (Report.trace a w m)) began
    (by simp [log, Play.note, countInstruction]; rfl)
  have told :
      List.Forall₂ Traces
        (traceLines [.stepped (.executed a w), .logged .info (Report.trace a w m)])
      ((if p.session.traceEvery ∣ p.session.executed + 1 then [.executed a w] else []).filter
          StepResult.isExecuted) := by
    rw [if_pos due, traceLines, List.filterMap_cons_none rfl,
      List.filterMap_cons_some (Event.traceLine?_trace ..)]
    exact .cons ⟨a, w, m, rfl, rfl⟩ .nil
  refine ⟨began, ?_⟩
  rw [gained]
  exact law.counted rfl told

theorem book (traced : p.Traced start) (result : StepResult) :
    ((p.note (.stepped result)).book result).2.Traced start := by
  cases result with
  | executed a w =>
    have due :=
      tracesNow_iff (s := (p.note (.stepped (.executed a w))).countInstruction.session)
        (Nat.succ_pos _)
    simp only [Play.book]
    split
    · next turn => exact traced.countAndLog (due.1 turn) _
    · next other => exact traced.count rfl fun turn => absurd (due.2 turn) other
  | awaitingKey a w x =>
    exact (aboutBooks start).congr (traced.count rfl fun _ => rfl) ⟨rfl, rfl, rfl⟩
  | unknown a w => exact (traced.count rfl fun _ => rfl).note rfl (Event.traceLine?_warning a w)
  | faulted f => exact ((aboutBooks start).halt (traced.note rfl rfl) (.fault f)).logErrors _
  | lost => exact traced.note rfl rfl

theorem tick (traced : p.Traced start) (h : Host σ) (t : Tick) : (p.tick h t).2.Traced start :=
  (aboutBooks start).tick (fun _ result traced => traced.book result) traced h t

end Traced

end Play

end Chip8
