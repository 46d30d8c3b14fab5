import Chip8.Proofs.Clock.Delivery
import Mathlib.Data.Rat.Floor
import Mathlib.Tactic.Linarith
import Mathlib.Tactic.Positivity
import Mathlib.Tactic.FieldSimp

/-!
# The order of ticks

Ticks of a schedule are numbered from the start of the clock, so a stamp, a kind of tick with a
number, has an ideal time: its number divided by the rate. `Stamp.Before` orders stamps by their
times, an instruction tick before a timer tick of the same time. What one call hands out comes in
this order (`Replayed.pairwise_before`), since the next tick is before all that are due
(`before_of_next`).
-/

namespace Chip8

/-- The tick of a kind with a number, counted from one. -/
structure Stamp where
  tick : Tick
  number : Nat
deriving DecidableEq

namespace Stamp

/-- When the tick is to happen, in seconds since the start. -/
def time (rate : Tick → Rat) (s : Stamp) : Rat := s.number / rate s.tick

/-- Is the first tick to happen first? -/
def Before (rate : Tick → Rat) (a b : Stamp) : Prop :=
  a.time rate < b.time rate ∨ a.time rate = b.time rate ∧ a.tick = .instruction ∧ b.tick = .timer

variable {rate : Tick → Rat} {a b c : Stamp}

theorem Before.trans (h : Before rate a b) (h' : Before rate b c) : Before rate a c := by
  rcases h with h | ⟨h, ha, hb⟩
  · rcases h' with h' | ⟨h', -, -⟩
    · exact .inl (h.trans h')
    · exact .inl (h' ▸ h)
  · rcases h' with h' | ⟨-, hb', -⟩
    · exact .inl (h ▸ h')
    · cases hb.symm.trans hb'

theorem Before.irrefl : ¬ Before rate a a := by
  rintro (h | ⟨-, ha, hb⟩)
  · exact lt_irrefl _ h
  · cases ha.symm.trans hb

theorem Before.asymm (h : Before rate a b) : ¬ Before rate b a := fun h' => irrefl (h.trans h')

variable (pos : ∀ tick, 0 < rate tick)
include pos

theorem before_iff_of_tick_eq {tick : Tick} {m n : Nat} :
    Before rate ⟨tick, m⟩ ⟨tick, n⟩ ↔ m < n := by
  have times : time rate ⟨tick, m⟩ < time rate ⟨tick, n⟩ ↔ m < n := by
    unfold time
    rw [div_lt_div_iff_of_pos_right (pos tick), Nat.cast_lt]
  constructor
  · rintro (h | ⟨-, ha, hb⟩)
    · exact times.1 h
    · cases ha.symm.trans hb
  · exact fun h => .inl (times.2 h)

/-- A tick that is before one of a schedule is before all later ones of it. -/
theorem Before.of_le {tick : Tick} {m n : Nat} (h : Before rate a ⟨tick, m⟩) (le : m ≤ n) :
    Before rate a ⟨tick, n⟩ := by
  rcases Nat.lt_or_eq_of_le le with lt | rfl
  · exact h.trans ((before_iff_of_tick_eq pos).2 lt)
  · exact h

/-- All earlier ticks of its schedule are before what a tick is before. -/
theorem Before.of_ge {tick : Tick} {m n : Nat} (h : Before rate ⟨tick, n⟩ b) (le : m ≤ n) :
    Before rate ⟨tick, m⟩ b := by
  rcases Nat.lt_or_eq_of_le le with lt | rfl
  · exact ((before_iff_of_tick_eq pos).2 lt).trans h
  · exact h

theorem instruction_before_timer_iff {i j : Nat} :
    Before rate ⟨.instruction, i⟩ ⟨.timer, j⟩ ↔ i * rate .timer ≤ j * rate .instruction := by
  have le : Before rate ⟨.instruction, i⟩ ⟨.timer, j⟩ ↔
      time rate ⟨.instruction, i⟩ ≤ time rate ⟨.timer, j⟩ := by
    rw [le_iff_lt_or_eq]
    exact or_congr_right (and_iff_left ⟨rfl, rfl⟩)
  rw [le]
  exact div_le_div_iff₀ (pos .instruction) (pos .timer)

theorem timer_before_instruction_iff {i j : Nat} :
    Before rate ⟨.timer, j⟩ ⟨.instruction, i⟩ ↔ j * rate .instruction < i * rate .timer := by
  have lt : Before rate ⟨.timer, j⟩ ⟨.instruction, i⟩ ↔
      time rate ⟨.timer, j⟩ < time rate ⟨.instruction, i⟩ :=
    or_iff_left fun h => nomatch h.2.1
  rw [lt]
  exact div_lt_div_iff₀ (pos .timer) (pos .instruction)

end Stamp

/-! ## The stamps of a list of ticks -/

/-- The stamps of ticks that follow the given earlier ones. -/
def stamps (earlier : List Tick) : List Tick → List Stamp
  | [] => []
  | tick :: rest => ⟨tick, earlier.count tick + 1⟩ :: stamps (earlier ++ [tick]) rest

theorem stamps_append (earlier ticks rest : List Tick) :
    stamps earlier (ticks ++ rest) = stamps earlier ticks ++ stamps (earlier ++ ticks) rest := by
  induction ticks generalizing earlier with
  | nil => rw [List.append_nil]; rfl
  | cons tick ticks ih =>
    rw [List.cons_append, stamps, stamps, ih, List.append_assoc]
    rfl

theorem mem_stamps {earlier ticks : List Tick} {t : Tick} {n : Nat} :
    ⟨t, n⟩ ∈ stamps earlier ticks ↔ earlier.count t < n ∧ n ≤ earlier.count t + ticks.count t := by
  induction ticks generalizing earlier with
  | nil => simp [stamps]
  | cons tick ticks ih =>
    rw [stamps, List.mem_cons, ih, List.count_append, List.count_singleton, List.count_cons,
      Stamp.mk.injEq]
    simp only [beq_iff_eq]
    by_cases same : tick = t
    · subst same
      simp only [if_pos, true_and]
      omega
    · simp only [if_neg same, Ne.symm same, false_and, false_or]
      omega

/-! ## The order within a call -/

namespace Clock

variable {c c' : Clock Rat} {dues : Tick → Nat} {ds : List Delivery}

/-- The next tick comes before the next one of the other schedule, if that is due too. -/
theorem before_of_next (pos : ∀ tick, 0 < c.rate tick) {tick other : Tick}
    (next : c.nextOf dues = some tick) (due : c.issued other < dues other) (hne : tick ≠ other) :
    Stamp.Before c.rate ⟨tick, c.issued tick + 1⟩ ⟨other, c.issued other + 1⟩ := by
  have here := issued_lt_of_some next
  cases tick <;> cases other
  · contradiction
  · rw [Stamp.instruction_before_timer_iff pos]
    simp only [issued] at here due
    simp only [nextOf, next?, if_pos here, if_pos due, Option.some.injEq, ite_eq_left_iff,
      reduceCtorEq, imp_false, Bool.not_eq_true, Bool.not_eq_false] at next
    exact of_decide_eq_true next
  · rw [Stamp.timer_before_instruction_iff pos]
    simp only [issued] at here due
    simp only [nextOf, next?, if_pos here, if_pos due, Option.some.injEq, ite_eq_right_iff,
      reduceCtorEq, imp_false, Bool.not_eq_true] at next
    exact not_le.1 (of_decide_eq_false next)
  · contradiction

/-- The ticks of a call come in order, whatever was handed out before. -/
theorem Replayed.pairwise_before (pos : ∀ tick, 0 < c.rate tick) (h : Replayed dues c ds c')
    {earlier : List Tick} (counts : ∀ tick, c.issued tick = earlier.count tick)
    (start : ∀ tick, c.issued tick ≤ dues tick) :
    (stamps earlier (ticksOf ds)).Pairwise (Stamp.Before c.rate) := by
  induction h generalizing earlier with
  | done => exact .nil
  | stopped => exact List.pairwise_singleton _ _
  | @more c c' tick rest next replayed ih =>
    have counted (other : Tick) : (c.issue tick).issued other =
        (earlier ++ [tick]).count other := by
      rw [issued_issue, counts, List.count_append, List.count_singleton]
      simp only [beq_iff_eq]
    have bounded (other : Tick) : (c.issue tick).issued other ≤ dues other :=
      Replayed.issued_le (.stopped next) (start other)
    rw [ticksOf_cons, stamps, List.pairwise_cons]
    constructor
    · rintro ⟨other, number⟩ later
      rw [mem_stamps, ← counted, ← replayed.issued_eq, issued_issue] at later
      have last := replayed.issued_le (bounded other)
      rw [← counts]
      by_cases same : tick = other
      · subst same
        exact (Stamp.before_iff_of_tick_eq pos).2 (by simpa using later.1)
      · simp only [if_neg same] at later
        exact (before_of_next pos next (by omega) same).of_le pos (by omega)
    · rw [← rate_issue c tick] at pos ⊢
      exact ih pos counted bounded

end Clock

end Chip8
