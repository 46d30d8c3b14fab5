import Chip8.Proofs.Clock.Order
import Mathlib.Tactic.NormNum

/-!
# No tick is lost

Over exact arithmetic, a clock has handed out as many ticks of a schedule as are due for the time
that has passed, and never more, however the time was sliced and whatever was stopped on the way.
`Run.Consistent` is what every call keeps: the clock counts what it handed out, and no count is
ahead of the time.
-/

namespace Chip8.Clock

variable {σ : Type}

/-- The time that passes in some calls. Spans that are not positive do not count. -/
def passed (slices : List (Slice Rat σ)) : Rat := ((slices.map (·.span)).filter (0 < ·)).sum

theorem passed_append (slices rest : List (Slice Rat σ)) :
    passed (slices ++ rest) = passed slices + passed rest := by
  simp only [passed, List.map_append, List.filter_append, List.sum_append]

theorem passed_nonneg (slices : List (Slice Rat σ)) : 0 ≤ passed slices := by
  apply List.sum_nonneg
  intro span member
  exact le_of_lt (by simpa using (List.mem_filter.1 member).2)

theorem passed_singleton_of_pos {slice : Slice Rat σ} (pos : 0 < slice.span) :
    passed [slice] = slice.span := by
  simp [passed, pos]

theorem passed_singleton_of_not_pos {slice : Slice Rat σ} (none : ¬ 0 < slice.span) :
    passed [slice] = 0 := by
  simp [passed, none]

/-! ## Ticks that are due -/

theorem due_eq_floor {elapsed hz : Rat} (time : 0 ≤ elapsed) (rate : 0 < hz) :
    (due elapsed hz : Int) = ⌊elapsed * hz / 1000 + 1 / 1000000⌋ := by
  have nonneg : 0 ≤ elapsed * hz / 1000 + 1 / 1000000 := by positivity
  have floor : due elapsed hz = ⌊elapsed * hz / 1000 + 1 / 1000000⌋.toNat := rfl
  rw [floor, Int.toNat_of_nonneg (Int.floor_nonneg.2 nonneg)]

theorem due_mono {hz elapsed elapsed' : Rat} (rate : 0 < hz) (le : elapsed ≤ elapsed') :
    due elapsed hz ≤ due elapsed' hz := by
  have more : elapsed * hz / 1000 + 1 / 1000000 ≤ elapsed' * hz / 1000 + 1 / 1000000 := by gcongr
  exact Int.toNat_le_toNat (Int.floor_le_floor more)

/-! ## Runs -/

theorem create?_of_pos {instructionHz timerHz : Rat} (hi : 0 < instructionHz) (ht : 0 < timerHz) :
    create? instructionHz timerHz =
      .ok { instructionHz, timerHz, elapsed := Quantity.ofNat 0,
            instructionTicks := 0, timerTicks := 0 } := by
  refine if_pos ?_
  rw [Bool.and_eq_true]
  exact ⟨decide_eq_true hi, decide_eq_true ht⟩

/-- What holds of a run throughout, when so much time has passed. -/
structure Run.Consistent (rate : Tick → Rat) (time : Rat) (x : Run Rat σ) : Prop where
  rate_eq : x.clock.rate = rate
  elapsed : x.clock.elapsed = time
  counts : ∀ tick, x.clock.issued tick = x.ticks.count tick
  bounded : ∀ tick, x.clock.issued tick ≤ due time (rate tick)

namespace Run.Consistent

variable {rate : Tick → Rat} {time : Rat} {x : Run Rat σ} {slice : Slice Rat σ}

/-- The ticks of a call are in order, and a call that is not stopped hands out all that is due. -/
theorem pass_of_pos (pos : ∀ tick, 0 < rate tick) (h : x.Consistent rate time)
    (span : 0 < slice.span) :
    (x.pass slice).Consistent rate (time + slice.span) ∧
      ∃ ds, (x.pass slice).deliveries = x.deliveries ++ ds ∧
        (stamps x.ticks (ticksOf ds)).Pairwise (Stamp.Before rate) ∧
        ((∀ d ∈ ds, d.more = true) →
          ∀ tick, (x.pass slice).ticks.count tick = due (time + slice.span) (rate tick)) := by
  obtain ⟨ds, log, replayed, -⟩ := Run.pass_of_pos x slice (decide_eq_true span)
  have dues : x.dues slice = fun tick => due (time + slice.span) (rate tick) := by
    funext tick
    rw [← h.rate_eq, ← h.elapsed]
    rfl
  have start (tick : Tick) : (x.later slice).issued tick ≤ x.dues slice tick := by
    rw [dues]
    exact (h.bounded tick).trans (due_mono (pos tick) (by linarith))
  have same : (x.later slice).rate = rate := h.rate_eq
  have counts (tick : Tick) : (x.pass slice).clock.issued tick =
      (x.pass slice).ticks.count tick := by
    rw [replayed.issued_eq, Run.ticks, log, ticksOf_append, List.count_append]
    exact congrArg (· + _) (h.counts tick)
  have bounded (tick : Tick) : (x.pass slice).clock.issued tick ≤ due (time + slice.span)
      (rate tick) := by
    have le := replayed.issued_le (start tick)
    rwa [dues] at le
  refine ⟨⟨replayed.rate_eq.trans h.rate_eq, ?_, counts, bounded⟩, ds, log, ?_, ?_⟩
  · rw [replayed.elapsed_eq, ← h.elapsed]
    rfl
  · rw [← same] at pos ⊢
    exact replayed.pairwise_before pos h.counts start
  · intro on tick
    have all := replayed.due_le_issued on tick
    rw [dues] at all
    rw [← counts]
    exact Nat.le_antisymm (bounded tick) all

theorem pass (pos : ∀ tick, 0 < rate tick) (h : x.Consistent rate time) (slice : Slice Rat σ) :
    (x.pass slice).Consistent rate (time + passed [slice]) := by
  by_cases span : 0 < slice.span
  · rw [passed_singleton_of_pos span]
    exact (h.pass_of_pos pos span).1
  · rw [Run.pass_of_not_pos x slice (by simpa [Quantity.lt, Quantity.ofNat] using span),
      passed_singleton_of_not_pos span, add_zero]
    exact h

theorem pairwise_before (pos : ∀ tick, 0 < rate tick) (h : x.Consistent rate time)
    (slice : Slice Rat σ) :
    ∃ ds, (x.pass slice).deliveries = x.deliveries ++ ds ∧
      (stamps x.ticks (ticksOf ds)).Pairwise (Stamp.Before rate) := by
  by_cases span : 0 < slice.span
  · obtain ⟨-, ds, log, ordered, -⟩ := h.pass_of_pos pos span
    exact ⟨ds, log, ordered⟩
  · refine ⟨[], ?_, .nil⟩
    rw [pass_of_not_pos x slice (by simpa [Quantity.lt, Quantity.ofNat] using span),
      List.append_nil]

theorem count_le (h : x.Consistent rate time) (tick : Tick) :
    x.ticks.count tick ≤ due time (rate tick) :=
  h.counts tick ▸ h.bounded tick

end Run.Consistent

/-- A clock that has handed out nothing, at time zero. -/
structure Fresh (c : Clock Rat) : Prop where
  pos : ∀ tick, 0 < c.rate tick
  elapsed : c.elapsed = 0
  issued : ∀ tick, c.issued tick = 0

theorem fresh_of_create? {instructionHz timerHz : Rat} {c : Clock Rat}
    (created : create? instructionHz timerHz = .ok c) : c.Fresh := by
  unfold create? at created
  split at created
  · next positive =>
    rw [Bool.and_eq_true] at positive
    cases created
    refine ⟨?_, Nat.cast_zero, ?_⟩
    · rintro (_ | _)
      · exact of_decide_eq_true positive.1
      · exact of_decide_eq_true positive.2
    · rintro (_ | _) <;> rfl
  · cases created

theorem Fresh.consistent {c : Clock Rat} (h : c.Fresh) (s : σ) (slices : List (Slice Rat σ)) :
    (c.after s slices).Consistent c.rate (passed slices) := by
  induction slices using List.reverseRecOn with
  | nil => exact ⟨rfl, h.elapsed, h.issued, fun tick => by simp [h.issued, after]⟩
  | append_singleton slices last ih =>
    rw [after_append, passed_append]
    exact ih.pass h.pos last

/-- The last call let time pass, and its receiver did not stop it. -/
def Unstopped (c : Clock Rat) (s : σ) (slices : List (Slice Rat σ)) : Prop :=
  ∃ earlier last ds, slices = earlier ++ [last] ∧ 0 < last.span ∧
    (c.after s slices).deliveries = (c.after s earlier).deliveries ++ ds ∧ ∀ d ∈ ds, d.more = true

theorem unstopped_of_steady (c : Clock Rat) (s : σ) (earlier : List (Slice Rat σ))
    {last : Slice Rat σ} (span : 0 < last.span) (steady : last.Steady) :
    c.Unstopped s (earlier ++ [last]) := by
  obtain ⟨ds, log, -, more⟩ := Run.pass_of_pos (c.after s earlier) last (decide_eq_true span)
  exact ⟨earlier, last, ds, rfl, span, by rw [after_append, log], more steady⟩

theorem Fresh.count_of_unstopped {c : Clock Rat} (h : c.Fresh) {s : σ} {slices : List (Slice Rat σ)}
    (on : c.Unstopped s slices) (tick : Tick) :
    (c.after s slices).ticks.count tick = due (passed slices) (c.rate tick) := by
  obtain ⟨earlier, last, ds, rfl, span, log, more⟩ := on
  obtain ⟨-, ds', log', -, all⟩ := (h.consistent s earlier).pass_of_pos h.pos span
  rw [after_append] at log ⊢
  rw [passed_append, passed_singleton_of_pos span]
  obtain rfl : ds' = ds := List.append_cancel_left (log'.symm.trans log)
  exact all more tick

theorem Fresh.count_le_floor {c : Clock Rat} (h : c.Fresh) (s : σ) (slices : List (Slice Rat σ))
    (tick : Tick) :
    ((c.after s slices).ticks.count tick : Int) ≤ ⌊passed slices * c.rate tick / 1000 +
      1 / 1000000⌋ := by
  rw [← due_eq_floor (passed_nonneg slices) (h.pos tick)]
  exact Int.ofNat_le.2 ((h.consistent s slices).count_le tick)

theorem Fresh.count_eq_floor {c : Clock Rat} (h : c.Fresh) {s : σ} {slices : List (Slice Rat σ)}
    (on : c.Unstopped s slices) (tick : Tick) :
    ((c.after s slices).ticks.count tick : Int) =
      ⌊passed slices * c.rate tick / 1000 + 1 / 1000000⌋ := by
  rw [h.count_of_unstopped on, due_eq_floor (passed_nonneg slices) (h.pos tick)]

/-- For all positive rates there is a clock such that, whatever spans it is given and wherever its
receivers stop it, the ticks of each call come in order; no more of either kind have been handed out
than are due for the time passed, and just as many after a call that let time pass and was not
stopped. So two clocks with one rate in common have then handed out as many ticks of that schedule,
if as much time has passed for both. -/
theorem ticks_after {instructionHz timerHz : Rat} (hi : 0 < instructionHz) (ht : 0 < timerHz) :
    ∃ c, create? instructionHz timerHz = .ok c ∧
      c.rate .instruction = instructionHz ∧ c.rate .timer = timerHz ∧
      (∀ {σ : Type} (s : σ) (earlier : List (Slice Rat σ)) (last : Slice Rat σ),
        let before := c.after s earlier
        let now := c.after s (earlier ++ [last])
        (now.clock, now.receivers) = before.clock.advance last.span last.receive before.receivers ∧
        ∃ ds, now.deliveries = before.deliveries ++ ds ∧
          (stamps before.ticks (ticksOf ds)).Pairwise (Stamp.Before c.rate)) ∧
      (∀ {σ : Type} (s : σ) (slices : List (Slice Rat σ)) (tick : Tick),
        let due := ⌊passed slices * c.rate tick / 1000 + 1 / 1000000⌋
        ((c.after s slices).ticks.count tick : Int) ≤ due ∧
        (c.Unstopped s slices → ((c.after s slices).ticks.count tick : Int) = due)) ∧
      (∀ {instructionHz' timerHz' : Rat} {c' : Clock Rat},
        create? instructionHz' timerHz' = .ok c' →
        ∀ {σ σ' : Type} {s : σ} {s' : σ'} {slices : List (Slice Rat σ)}
          {slices' : List (Slice Rat σ')}, c.Unstopped s slices → c'.Unstopped s' slices' →
            passed slices = passed slices' →
          ∀ tick, c.rate tick = c'.rate tick →
            (c.after s slices).ticks.count tick = (c'.after s' slices').ticks.count tick) := by
  obtain ⟨c, created, hi', ht'⟩ : ∃ c, create? instructionHz timerHz = .ok c ∧
      c.rate .instruction = instructionHz ∧ c.rate .timer = timerHz :=
        ⟨_, create?_of_pos hi ht, rfl, rfl⟩
  have fresh : c.Fresh := fresh_of_create? created
  refine ⟨c, created, hi', ht', ?_, ?_, ?_⟩
  · intro σ s earlier last before now
    have passes : now = before.pass last := after_append ..
    rw [passes]
    exact ⟨Run.pass_eq_advance before last,
      (fresh.consistent s earlier).pairwise_before fresh.pos last⟩
  · intro σ s slices tick due
    exact ⟨fresh.count_le_floor s slices tick, fun on => fresh.count_eq_floor on tick⟩
  · intro instructionHz' timerHz' c' created' σ σ' s s' slices slices' on on' same tick rates
    have fresh' : c'.Fresh := fresh_of_create? created'
    rw [fresh.count_of_unstopped on, fresh'.count_of_unstopped on', same, rates]

/-- A call that is stopped at its third tick, and a call that is not stopped. -/
theorem ticks_after_stop :
    let slices : List (Slice Rat Nat) :=
      [⟨50 / 3, fun _ n => (n < 2, n + 1)⟩, ⟨50 / 3, fun _ n => (true, n)⟩]
    ∃ c, create? (600 : Rat) 60 = .ok c ∧
      (c.after 0 (slices.take 1)).ticks = [.instruction, .instruction, .instruction] ∧
      (c.after 0 slices).ticks.count .instruction = 20 ∧
      (c.after 0 slices).ticks.count .timer = 2 := by
  intro slices
  obtain ⟨c, created, hi, ht, -, counts, -⟩ :=
    ticks_after (by norm_num : (0 : Rat) < 600) (by norm_num : (0 : Rat) < 60)
  have on : c.Unstopped 0 slices :=
    c.unstopped_of_steady 0 (slices.take 1) (by norm_num : (0 : Rat) < 50 / 3) fun _ _ => rfl
  have time : passed slices = 100 / 3 := by norm_num [passed, slices]
  refine ⟨c, created, ?_, ?_, ?_⟩
  · cases created
    decide +kernel
  · have count := (counts 0 slices .instruction).2 on
    rw [time, hi] at count
    norm_num at count
    exact_mod_cast count
  · have count := (counts 0 slices .timer).2 on
    rw [time, ht] at count
    norm_num at count
    exact_mod_cast count

end Chip8.Clock
