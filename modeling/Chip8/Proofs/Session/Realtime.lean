import Chip8.Proofs.Clock.Ticks
import Chip8.Proofs.Session.FaultModes
import Chip8.Proofs.Session.Pacing
import Chip8.Session.Realtime

/-!
# No slice runs ahead of the clock

Over exact arithmetic, a run against the wall clock lets pass in each slice what went by between two
readings, up to the cap (`Watch.fed`). `Watch.done` are the plays after so many slices. The run ends
at the first of them that has stopped, or with the first slice that is cut short, and takes no
notice of any reading after that. The time that has passed for the session is never more than went
by on the clock, so its clock has issued no tick that is not due (`follows_clock`).
-/

namespace Chip8

/-! ## The clock of a session in one advance -/

namespace Clock

/-- A clock that has issued no more than is due, after no more than so much time. -/
structure Behind (rate : Tick → Rat) (time : Rat) (c : Clock Rat) : Prop where
  rate_eq : c.rate = rate
  nonneg : 0 ≤ c.elapsed
  elapsed : c.elapsed ≤ time
  issued : ∀ tick, c.issued tick ≤ due c.elapsed (rate tick)

/-- A clock that has issued all that is due after so much time. -/
structure InTime (rate : Tick → Rat) (time : Rat) (c : Clock Rat) : Prop where
  rate_eq : c.rate = rate
  elapsed : c.elapsed = time
  issued : ∀ tick, c.issued tick = due time (rate tick)

theorem Fresh.inTime {c : Clock Rat} (fresh : c.Fresh) : c.InTime c.rate 0 where
  rate_eq := rfl
  elapsed := fresh.elapsed
  issued tick := by
    have floor := due_eq_floor le_rfl (fresh.pos tick)
    norm_num at floor
    rw [fresh.issued]
    exact floor.symm

variable {rate : Tick → Rat} {time : Rat} {c : Clock Rat}

theorem InTime.behind (inTime : c.InTime rate time) (nonneg : 0 ≤ time) : c.Behind rate time where
  rate_eq := inTime.rate_eq
  nonneg := inTime.elapsed ▸ nonneg
  elapsed := inTime.elapsed.le
  issued tick := by
    rw [inTime.elapsed]
    exact (inTime.issued tick).le

theorem Behind.issued_le_floor (pos : ∀ tick, 0 < rate tick) (behind : c.Behind rate time)
    (tick : Tick) :
    (c.issued tick : Int) ≤ ⌊time * rate tick / 1000 + 1 / 1000000⌋ := by
  rw [← due_eq_floor (behind.nonneg.trans behind.elapsed) (pos tick)]
  exact_mod_cast (behind.issued tick).trans (due_mono (pos tick) behind.elapsed)

theorem Behind.mono (behind : c.Behind rate time) {later : Rat} (le : time ≤ later) :
    c.Behind rate later :=
  ⟨behind.rate_eq, behind.nonneg, behind.elapsed.trans le, behind.issued⟩

end Clock

namespace Play

variable {σ : Type} {h : Host σ} {p : Play σ Rat} {rate : Tick → Rat} {time ms : Rat}

theorem advance_of_zero (h : Host σ) (p : Play σ Rat) : p.advance h 0 = (none, p) := by
  by_cases halted : p.session.isHalted = true
  · exact advance_of_halted halted 0
  · have still : p.session.clock.advance 0 (receive h) (none, p) = (p.session.clock, none, p) :=
      if_neg (by decide)
    rw [advance_of_alive halted, still]

/-- However an advance ends, the clock of the session does not get ahead of the time. -/
theorem behind_advance (pos : ∀ tick, 0 < rate tick) (behind : p.session.clock.Behind rate time)
    (nonneg : 0 ≤ ms) :
    (p.advance h ms).2.session.clock.Behind rate (time + ms) := by
  rcases nonneg.eq_or_lt with rfl | positive
  · rw [advance_of_zero, add_zero]
    exact behind
  by_cases halted : p.session.isHalted = true
  · rw [advance_of_halted halted]
    exact behind.mono (by linarith)
  obtain ⟨ds, s, clock, advanced, replayed, -, -⟩ :=
    exists_replayed_of_alive (h := h) halted (decide_eq_true positive)
  rw [advanced]
  have elapsed : clock.elapsed = p.session.clock.elapsed + ms := replayed.elapsed_eq
  have rates : clock.rate = rate := replayed.rate_eq.trans behind.rate_eq
  refine ⟨rates, ?_, ?_, fun tick => ?_⟩
  · linarith [behind.nonneg]
  · linarith [behind.elapsed]
  · rw [elapsed, ← behind.rate_eq]
    refine replayed.issued_le ?_
    have later : p.session.clock.elapsed ≤ p.session.clock.elapsed + ms := by linarith
    have start := (behind.issued tick).trans (Clock.due_mono (pos tick) later)
    rw [← behind.rate_eq] at start
    exact start

/-- An advance that goes through issues all that has come due. -/
theorem inTime_advance (pos : ∀ tick, 0 < rate tick) (inTime : p.session.clock.InTime rate time)
    (nonneg : 0 ≤ ms) (past : 0 ≤ time) (uncut : (p.advance h ms).1 = none)
    (alive : ¬ (p.advance h ms).2.session.isHalted = true) :
    (p.advance h ms).2.session.clock.InTime rate (time + ms) := by
  have behind := behind_advance (h := h) pos (inTime.behind past) nonneg
  rcases nonneg.eq_or_lt with rfl | positive
  · rw [advance_of_zero, add_zero]
    exact inTime
  obtain ⟨ds, -, on, replayed⟩ := exists_replayed_of_uncut (decide_eq_true positive) uncut alive
  have elapsed : (p.advance h ms).2.session.clock.elapsed = time + ms := by
    rw [replayed.elapsed_eq, ← inTime.elapsed]
  refine ⟨behind.rate_eq, elapsed, fun tick => Nat.le_antisymm ?_ ?_⟩
  · rw [← elapsed]
    exact behind.issued tick
  · have all := replayed.due_le_issued on tick
    dsimp only at all
    rw [inTime.elapsed] at all
    rw [← inTime.rate_eq]
    exact all

end Play

/-! ## Slices -/

namespace Realtime

/-- A run against a clock: the host and what it does in a pause, the pause and the cap that are
asked for, and the readings of the clock. -/
structure Watch (σ : Type) where
  host : Host σ
  sleep : Rat → σ → σ
  sliceMs : Option Rat
  catchUpMs : Option Rat
  reading : Nat → Rat

namespace Watch

variable {σ : Type} (w : Watch σ) (p : Play σ Rat)

/-- The run when the clock gives a reading at the start and so many after it. -/
def run (count : Nat) : RealtimeEnd × Play σ Rat :=
  Realtime.run w.host (w.sleep (pause w.sliceMs)) (cap w.catchUpMs)
    ((List.range (count + 1)).map w.reading) p

/-- The pause before a reading. -/
def rest : Rat := max 0 (w.sliceMs.getD 1)

/-- The most that a slice catches up on. -/
def most : Rat := max 1 (w.catchUpMs.getD 250)

/-- The time that passes in a slice. -/
def fed (k : Nat) : Rat := min (w.reading (k + 1) - w.reading k) w.most

def slept : Play σ Rat := { p with host := w.sleep w.rest p.host }

/-- A slice: a pause, and the time that went by until the next reading. -/
def sliced (k : Nat) : Option Interruption × Play σ Rat := (w.slept p).advance w.host (w.fed k)

/-- The play after so many slices. -/
def done : Nat → Play σ Rat
  | 0 => p
  | k + 1 => (w.sliced (done k) k).2

/-- So many slices go through, each begun by a session that has not stopped. -/
def Runs (n : Nat) : Prop :=
  ∀ k < n, ¬ (w.done p k).session.isHalted = true ∧ (w.sliced (w.done p k) k).1 = none

variable {w p}

theorem atLeast_eq_max (low x : Rat) : Quantity.atLeast low x = max low x := by
  change (if decide (x < low) = true then low else x) = _
  simp only [decide_eq_true_eq]
  split
  · next below => exact (max_eq_left below.le).symm
  · next reached => exact (max_eq_right (not_lt.1 reached)).symm

theorem pause_eq : pause w.sliceMs = w.rest := by
  rw [pause, atLeast_eq_max]
  rfl

theorem cap_eq : cap w.catchUpMs = w.most := by
  rw [cap, atLeast_eq_max]
  rfl

theorem most_pos : 0 < w.most := lt_of_lt_of_le one_pos (le_max_left _ _)

theorem within_eq_min {most x : Rat} (pos : 0 < most) (nonneg : 0 ≤ x) :
    Quantity.within most x = min x most := by
  change (if decide (most < x) = true then most
    else if (decide (x ≤ most) && decide (0 < x)) = true then x else 0) = _
  simp only [Bool.and_eq_true, decide_eq_true_eq]
  split_ifs with above inside
  · exact (min_eq_right above.le).symm
  · exact (min_eq_left inside.1).symm
  · have none : x = 0 := by
      by_contra some
      exact inside ⟨not_lt.1 above, lt_of_le_of_ne nonneg (Ne.symm some)⟩
    rw [none, min_eq_left pos.le]

theorem span_eq (ordered : Monotone w.reading) (k : Nat) :
    span (cap w.catchUpMs) (w.reading k) (w.reading (k + 1)) = w.fed k := by
  rw [span, cap_eq, within_eq_min most_pos (sub_nonneg.2 (ordered (Nat.le_succ k)))]
  rfl

theorem fed_nonneg (ordered : Monotone w.reading) (k : Nat) : 0 ≤ w.fed k :=
  le_min (sub_nonneg.2 (ordered (Nat.le_succ k))) most_pos.le

theorem fed_le (k : Nat) : w.fed k ≤ w.reading (k + 1) - w.reading k := min_le_left _ _

/-! ## How a run ends -/

/-- What is left of a run after so many slices. -/
def left (w : Watch σ) (k count : Nat) (p : Play σ Rat) : RealtimeEnd × Play σ Rat :=
  slices w.host (w.sleep (pause w.sliceMs)) (cap w.catchUpMs) (w.reading k)
    ((List.range' (k + 1) count).map w.reading) p

theorem run_eq_left (count : Nat) : w.run p count = w.left 0 count p := by
  unfold run left
  rw [List.range_eq_range', List.range'_succ, List.map_cons]
  rfl

theorem left_of_halted {k count : Nat} {reason : HaltReason}
    (halted : p.session.status = .halted reason) :
    w.left k count p = (.halted reason, p) := by
  unfold left slices
  rw [Session.haltReason?_eq_some_iff.2 halted]

theorem left_of_alive (alive : ¬ p.session.isHalted = true) (k : Nat) :
    w.left k 0 p = (.outOfReadings, w.slept p) := by
  unfold left slices
  rw [Session.haltReason?_of_alive alive, pause_eq]
  rfl

theorem left_succ_of_alive (ordered : Monotone w.reading) (alive : ¬ p.session.isHalted = true)
    (k count : Nat) :
    w.left k (count + 1) p =
      match w.sliced p k with
      | (some i, q) => (.thrown i, q)
      | (none, q) => w.left (k + 1) count q := by
  have sliced : slice w.host (cap w.catchUpMs) (w.reading k) (w.reading (k + 1)) (w.slept p) =
      w.sliced p k := by
    rw [slice, span_eq ordered]
    rfl
  unfold left
  rw [List.range'_succ, List.map_cons, slices, Session.haltReason?_of_alive alive, ← sliced,
    pause_eq, slept]
  dsimp only
  rcases slice w.host _ _ _ _ with ⟨_ | i, q⟩ <;> rfl

/-- While the slices go through, the run goes on with the play after them. -/
theorem run_eq_left_of_runs (ordered : Monotone w.reading) {n : Nat} (runs : w.Runs p n)
    (count : Nat) :
    w.run p (n + count) = w.left n count (w.done p n) := by
  induction n generalizing count with
  | zero =>
    rw [Nat.zero_add]
    exact run_eq_left count
  | succ n ih =>
    obtain ⟨alive, uncut⟩ := runs n (Nat.lt_succ_self n)
    have earlier : w.Runs p n := fun k lt => runs k (lt.trans (Nat.lt_succ_self n))
    have through : w.sliced (w.done p n) n = (none, w.done p (n + 1)) := Prod.ext uncut rfl
    rw [Nat.succ_add_eq_add_succ, ih earlier, left_succ_of_alive ordered alive, through]

theorem run_of_halted (ordered : Monotone w.reading) {n : Nat} {reason : HaltReason}
    (runs : w.Runs p n) (halted : (w.done p n).session.status = .halted reason) {count : Nat}
    (le : n ≤ count) :
    w.run p count = (.halted reason, w.done p n) := by
  obtain ⟨more, rfl⟩ := Nat.exists_eq_add_of_le le
  rw [run_eq_left_of_runs ordered runs, left_of_halted halted]

theorem run_of_thrown (ordered : Monotone w.reading) {n : Nat} {i : Interruption}
    (runs : w.Runs p n) (alive : ¬ (w.done p n).session.isHalted = true)
    (cut : (w.sliced (w.done p n) n).1 = some i) {count : Nat} (lt : n < count) :
    w.run p count = (.thrown i, w.done p (n + 1)) := by
  obtain ⟨more, rfl⟩ := Nat.exists_eq_add_of_lt lt
  have thrown : w.sliced (w.done p n) n = (some i, w.done p (n + 1)) := Prod.ext cut rfl
  rw [Nat.add_assoc, run_eq_left_of_runs ordered runs, left_succ_of_alive ordered alive, thrown]

theorem run_of_runs (ordered : Monotone w.reading) {n : Nat} (runs : w.Runs p n)
    (alive : ¬ (w.done p n).session.isHalted = true) :
    w.run p n = (.outOfReadings, w.slept (w.done p n)) := by
  have all := run_eq_left_of_runs ordered runs 0
  rw [Nat.add_zero, left_of_alive alive] at all
  exact all

/-- A run has stopped, was cut short, or goes on. -/
theorem runs_cases (w : Watch σ) (p : Play σ Rat) (count : Nat) :
    (∃ n ≤ count, w.Runs p n ∧ ∃ reason, (w.done p n).session.status = .halted reason) ∨
      (∃ n < count, w.Runs p n ∧ ¬ (w.done p n).session.isHalted = true ∧
        ∃ i, (w.sliced (w.done p n) n).1 = some i) ∨
      w.Runs p count ∧ ¬ (w.done p count).session.isHalted = true := by
  induction count with
  | zero =>
    have none : w.Runs p 0 := fun k lt => absurd lt (Nat.not_lt_zero k)
    by_cases halted : (w.done p 0).session.isHalted = true
    · exact .inl ⟨0, le_rfl, none, Session.isHalted_iff.1 halted⟩
    · exact .inr (.inr ⟨none, halted⟩)
  | succ count ih =>
    rcases ih with ⟨n, le, stopped⟩ | ⟨n, lt, cut⟩ | ⟨runs, alive⟩
    · exact .inl ⟨n, le.trans (Nat.le_succ count), stopped⟩
    · exact .inr (.inl ⟨n, lt.trans (Nat.lt_succ_self count), cut⟩)
    cases uncut : (w.sliced (w.done p count) count).1 with
    | some i => exact .inr (.inl ⟨count, Nat.lt_succ_self count, runs, alive, i, uncut⟩)
    | none =>
      have longer : w.Runs p (count + 1) := fun k lt => by
        rcases Nat.lt_succ_iff_lt_or_eq.1 lt with lt | rfl
        · exact runs k lt
        · exact ⟨alive, uncut⟩
      by_cases halted : (w.done p (count + 1)).session.isHalted = true
      · exact .inl ⟨count + 1, le_rfl, longer, Session.isHalted_iff.1 halted⟩
      · exact .inr (.inr ⟨longer, halted⟩)

/-- A session that has not stopped after some slices had not stopped before, and none of them was
cut short, unless its program counter was lost. -/
theorem runs_of_alive {n : Nat} (alive : ¬ (w.done p n).session.isHalted = true)
    (kept : ∀ k < n, (w.sliced (w.done p k) k).1 ≠ some .lost) : w.Runs p n := by
  induction n with
  | zero => exact fun k lt => absurd lt (Nat.not_lt_zero k)
  | succ n ih =>
    have last := Nat.lt_succ_self n
    have begun : ¬ (w.slept (w.done p n)).session.isHalted = true := fun halted => by
      rw [done, sliced, Play.advance_of_halted halted] at alive
      exact alive halted
    have uncut : (w.sliced (w.done p n) n).1 = none := by
      obtain ⟨f, stopped, -⟩ | ⟨-, none⟩ | ⟨-, -, lost⟩ := Play.told_advance w.host begun (w.fed n)
      · exact absurd (Session.isHalted_iff.2 ⟨_, stopped⟩) alive
      · exact none
      · exact absurd lost (kept n last)
    intro k lt
    rcases Nat.lt_succ_iff_lt_or_eq.1 lt with lt | rfl
    · exact ih begun (fun k lt => kept k (lt.trans last)) k lt
    · exact ⟨begun, uncut⟩

/-! ## The clock in a run -/

theorem behind_done (fresh : p.session.clock.Fresh) (ordered : Monotone w.reading) (n : Nat) :
    (w.done p n).session.clock.Behind p.session.clock.rate (w.reading n - w.reading 0) := by
  induction n with
  | zero =>
    rw [sub_self]
    exact fresh.inTime.behind le_rfl
  | succ n ih =>
    have later :=
      Play.behind_advance (p := w.slept (w.done p n))
        (h := w.host) fresh.pos ih (fed_nonneg ordered n)
    exact later.mono (by linarith [w.fed_le n])

theorem inTime_done (fresh : p.session.clock.Fresh) (ordered : Monotone w.reading) {n : Nat}
    (runs : w.Runs p n) (alive : ¬ (w.done p n).session.isHalted = true)
    (caught : ∀ k < n, w.reading (k + 1) - w.reading k ≤ w.most) :
    (w.done p n).session.clock.InTime p.session.clock.rate (w.reading n - w.reading 0) := by
  induction n with
  | zero =>
    rw [sub_self]
    exact fresh.inTime
  | succ n ih =>
    have last := Nat.lt_succ_self n
    obtain ⟨begun, uncut⟩ := runs n last
    have before :=
      ih (fun k lt => runs k (lt.trans last)) begun fun k lt => caught k (lt.trans last)
    have whole : w.fed n = w.reading (n + 1) - w.reading n := min_eq_left (caught n last)
    have past : 0 ≤ w.reading n - w.reading 0 := sub_nonneg.2 (ordered (Nat.zero_le n))
    have later :=
      Play.inTime_advance (p := w.slept (w.done p n)) fresh.pos before (fed_nonneg ordered n) past
        uncut
      alive
    have time : w.reading n - w.reading 0 + w.fed n = w.reading (n + 1) - w.reading 0 := by linarith
    rwa [time] at later

/-- A run against a clock whose readings do not go back lets pass in each slice what went by since
the reading before, up to the cap. It ends where the session has stopped, with the reason, and with
a slice that is cut short, and then later readings make no difference. No tick is issued before it
is due by the clock; and none is missing as long as the session has not stopped and no slice was
longer than the cap. -/
theorem follows_clock {σ : Type} {w : Watch σ} {p : Play σ Rat} (fresh : p.session.clock.Fresh)
    (ordered : Monotone w.reading) :
    (∀ n reason, w.Runs p n → (w.done p n).session.status = .halted reason →
        ∀ count, n ≤ count → w.run p count = (.halted reason, w.done p n)) ∧
      (∀ n i, w.Runs p n → ¬ (w.done p n).session.isHalted = true →
        (w.sliced (w.done p n) n).1 = some i →
        ∀ count, n < count → w.run p count = (.thrown i, w.done p (n + 1))) ∧
      (∀ n, w.Runs p n → ¬ (w.done p n).session.isHalted = true →
        w.run p n = (.outOfReadings, w.slept (w.done p n))) ∧
      (∀ count, (∃ n ≤ count, w.Runs p n ∧ ∃ reason, (w.done p n).session.status = .halted reason) ∨
        (∃ n < count, w.Runs p n ∧ ¬ (w.done p n).session.isHalted = true ∧
          ∃ i, (w.sliced (w.done p n) n).1 = some i) ∨
        w.Runs p count ∧ ¬ (w.done p count).session.isHalted = true) ∧
      ∀ n tick,
        ((w.done p n).session.clock.issued tick : Int) ≤
          ⌊(w.reading n - w.reading 0) * p.session.clock.rate tick / 1000 + 1 / 1000000⌋ ∧
        (¬ (w.done p n).session.isHalted = true →
          (∀ k < n, (w.sliced (w.done p k) k).1 ≠ some .lost) →
          (∀ k < n, w.reading (k + 1) - w.reading k ≤ w.most) →
          ((w.done p n).session.clock.issued tick : Int) =
            ⌊(w.reading n - w.reading 0) * p.session.clock.rate tick / 1000 + 1 / 1000000⌋) := by
  refine ⟨fun n reason runs halted count le => run_of_halted ordered runs halted le,
    fun n i runs alive cut count lt => run_of_thrown ordered runs alive cut lt,
    fun n runs alive => run_of_runs ordered runs alive, runs_cases w p,
    fun n tick => ⟨?_, fun alive kept caught => ?_⟩⟩
  · exact (behind_done fresh ordered n).issued_le_floor fresh.pos tick
  · have past : 0 ≤ w.reading n - w.reading 0 := sub_nonneg.2 (ordered (Nat.zero_le n))
    have inTime := inTime_done fresh ordered (runs_of_alive alive kept) alive caught
    rw [inTime.issued, Clock.due_eq_floor past (fresh.pos tick)]

/-- A host that counts pauses and polls, and quits at the third poll: the run ends in its second
slice, after two pauses. -/
theorem follows_clock_until_quit :
    let poll (s : Nat × Nat) : Poll × Nat × Nat := (⟨default, [], s.2 == 2⟩, s.1, s.2 + 1)
    let w : Watch (Nat × Nat) :=
      { host := ⟨some poll, none, fun s => (0, s)⟩, sleep := fun _ s => (s.1 + 1, s.2),
        sliceMs := none
        catchUpMs := some 5, reading := fun k => 4 * k }
    ∃ clock, Clock.create? (600 : Rat) 60 = .ok clock ∧
      let p := Play.new (Session.new (.new (.startWith [0x12, 0x00]) .standard) clock .throw 0)
        (0, 0)
      (w.done p 1).session.clock.issued .instruction = 2 ∧ (w.done p 2).host = (2, 3) ∧
      ∀ count, 2 ≤ count → w.run p count = (.halted .userQuit, w.done p 2) := by
  intro poll w
  refine ⟨_, Clock.create?_of_pos (by norm_num) (by norm_num), ?_⟩
  intro p
  have fresh : p.session.clock.Fresh :=
    Clock.fresh_of_create? (Clock.create?_of_pos (by norm_num) (by norm_num))
  have ordered : Monotone w.reading := fun j k le => by
    have cast : (j : Rat) ≤ k := by exact_mod_cast le
    change 4 * (j : Rat) ≤ 4 * k
    linarith
  obtain ⟨halts, -, -, -, counts⟩ := follows_clock fresh ordered
  have runs : w.Runs p 2 := by
    intro k lt
    obtain rfl | rfl : k = 0 ∨ k = 1 := by omega
    · decide +kernel
    · decide +kernel
  have kept : ∀ k < 1, (w.sliced (w.done p k) k).1 ≠ some .lost := fun k lt => by
    rw [(runs k (by omega)).2]
    exact nofun
  have first := (counts 1 .instruction).2 (runs 1 (by decide)).1 kept fun k lt => by
    obtain rfl : k = 0 := by omega
    norm_num [w, most]
  refine ⟨?_, by decide +kernel, halts 2 .userQuit runs (by decide +kernel)⟩
  have due : ⌊(w.reading 1 - w.reading 0) * p.session.clock.rate .instruction / 1000 +
      1 / 1000000⌋ = 2 := by
    have rate : p.session.clock.rate .instruction = 600 := rfl
    rw [rate, Int.floor_eq_iff]
    norm_num [w]
  rw [due] at first
  exact_mod_cast first

end Watch

end Realtime

end Chip8
