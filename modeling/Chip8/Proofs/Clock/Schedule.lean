import Chip8.Proofs.Clock.Ticks

/-!
# The schedule of a whole run

`schedule` merges the ticks of both kinds, earliest first. A clock that is never stopped follows it
within each call, but not always from one call to the next. A tick is handed out up to a millionth
of its own period early, so that a timer tick may be due while an instruction tick of the same time
is not yet; a call that ends just then hands out the timer tick first (`order_depends_on_slices`).
`order_after` says that nothing else can go wrong: the run follows the schedule exactly when at the
end of each call the ticks handed out are before the ticks to come.
-/

namespace Chip8

/-! ## Merging -/

/-- The first so many ticks of either kind, earliest first; an instruction tick goes before a timer
tick of the same time. -/
def schedule (rate : Tick → Rat) (counts : Tick → Nat) : List Stamp :=
  let first (tick : Tick) : List Stamp := (List.range (counts tick)).map fun k => ⟨tick, k + 1⟩
  List.merge (first .instruction) (first .timer) fun i t => i.time rate ≤ t.time rate

namespace Stamp

variable {rate : Tick → Rat}

theorem pairwise_merge {is ts : List Stamp} (hi : is.Pairwise (Before rate))
    (ht : ts.Pairwise (Before rate)) (instructions : ∀ s ∈ is, s.tick = .instruction)
    (timers : ∀ s ∈ ts, s.tick = .timer) :
    (List.merge is ts fun i t => decide (i.time rate ≤ t.time rate)).Pairwise (Before rate) := by
  induction is generalizing ts with
  | nil => rwa [List.nil_merge]
  | cons i is ih =>
    obtain ⟨afterI, hi⟩ := List.pairwise_cons.1 hi
    have isInstruction := (List.forall_mem_cons.1 instructions).1
    have rest := (List.forall_mem_cons.1 instructions).2
    induction ts with
    | nil => simpa using ⟨afterI, hi⟩
    | cons t ts iht =>
      obtain ⟨afterT, ht'⟩ := List.pairwise_cons.1 ht
      have isTimer := (List.forall_mem_cons.1 timers).1
      rw [List.cons_merge_cons]
      split
      · next le =>
        have le := of_decide_eq_true le
        have first : Before rate i t := by
          rcases lt_or_eq_of_le le with lt | eq
          · exact .inl lt
          · exact .inr ⟨eq, isInstruction, isTimer⟩
        refine List.pairwise_cons.2 ⟨fun s hs => ?_, ih hi ht rest timers⟩
        rcases List.mem_merge.1 hs with hs | hs
        · exact afterI s hs
        · rcases List.mem_cons.1 hs with rfl | hs
          · exact first
          · exact first.trans (afterT s hs)
      · next gt =>
        have first : Before rate t i := .inl (by simpa using gt)
        refine List.pairwise_cons.2 ⟨fun s hs => ?_, iht ht' (List.forall_mem_cons.1 timers).2⟩
        rcases List.mem_merge.1 hs with hs | hs
        · rcases List.mem_cons.1 hs with rfl | hs
          · exact first
          · exact first.trans (afterI s hs)
        · exact afterT s hs

/-- Lists in order with the same stamps are equal. -/
theorem eq_of_pairwise_before {as bs : List Stamp} (ha : as.Pairwise (Before rate))
    (hb : bs.Pairwise (Before rate)) (same : ∀ s, s ∈ as ↔ s ∈ bs) : as = bs := by
  have nodup {l : List Stamp} (h : l.Pairwise (Before rate)) : l.Nodup :=
    h.imp fun {a b} (before : Before rate a b) (eq : a = b) => Before.irrefl (eq ▸ before)
  have perm : as.Perm bs := (List.perm_ext_iff_of_nodup (nodup ha) (nodup hb)).2 same
  exact perm.eq_of_pairwise (fun a b _ _ h h' => absurd h' h.asymm) ha hb

end Stamp

section Schedule

variable {rate : Tick → Rat} {counts : Tick → Nat}

theorem mem_schedule {tick : Tick} {number : Nat} :
    ⟨tick, number⟩ ∈ schedule rate counts ↔ 0 < number ∧ number ≤ counts tick := by
  simp only [schedule, List.mem_merge, List.mem_map, List.mem_range, Stamp.mk.injEq]
  constructor
  · rintro (⟨k, lt, rfl, rfl⟩ | ⟨k, lt, rfl, rfl⟩) <;> exact ⟨by omega, by omega⟩
  · rintro ⟨pos, le⟩
    cases tick
    · exact .inl ⟨number - 1, by omega, rfl, by omega⟩
    · exact .inr ⟨number - 1, by omega, rfl, by omega⟩

theorem pairwise_schedule (pos : ∀ tick, 0 < rate tick) :
    (schedule rate counts).Pairwise (Stamp.Before rate) := by
  have first (tick : Tick) :
      ((List.range (counts tick)).map fun k => (⟨tick, k + 1⟩ : Stamp)).Pairwise
        (Stamp.Before rate) := by
    rw [List.pairwise_map]
    refine List.pairwise_lt_range.imp fun lt => (Stamp.before_iff_of_tick_eq pos).2 ?_
    omega
  refine Stamp.pairwise_merge (first .instruction) (first .timer) ?_ ?_ <;> simp

theorem ticks_eq_of_stamps_eq {ticks ticks' : List Tick} (eq : stamps [] ticks = stamps [] ticks') :
    ticks = ticks' := by
  have kinds (earlier ticks : List Tick) : (stamps earlier ticks).map (·.tick) = ticks := by
    induction ticks generalizing earlier with
    | nil => rfl
    | cons tick ticks ih => rw [stamps, List.map_cons, ih]
  rw [← kinds [] ticks, eq, kinds]

/-- Ticks that come in order are the schedule. -/
theorem stamps_eq_schedule_iff (pos : ∀ tick, 0 < rate tick) {ticks : List Tick}
    (all : ∀ tick, ticks.count tick = counts tick) :
    stamps [] ticks = schedule rate counts ↔ (stamps [] ticks).Pairwise (Stamp.Before rate) := by
  constructor
  · intro eq
    rw [eq]
    exact pairwise_schedule pos
  · intro ordered
    refine Stamp.eq_of_pairwise_before ordered (pairwise_schedule pos) ?_
    rintro ⟨tick, number⟩
    rw [mem_stamps, mem_schedule, all, List.count_nil, Nat.zero_add]

end Schedule

/-! ## Runs -/

namespace Clock

variable {σ : Type}

/-- Calls that let time pass and never stop the clock. -/
def Steady (slices : List (Slice Rat σ)) : Prop := ∀ slice ∈ slices, 0 < slice.span ∧ slice.Steady

/-- How many ticks are due once the time of some calls has passed. -/
def dueAfter (c : Clock Rat) (slices : List (Slice Rat σ)) (tick : Tick) : Nat :=
  due (passed slices) (c.rate tick)

/-- When so many ticks were handed out, and so many are to be handed out in all, do those handed out
come before the others? The last of each kind and the next of each kind tell. -/
def Settled (rate : Tick → Rat) (now final : Tick → Nat) : Prop :=
  ∀ tick other, 0 < now tick → now other < final other →
    Stamp.Before rate ⟨tick, now tick⟩ ⟨other, now other + 1⟩

/-- The run follows the schedule up to the end of each of the calls. -/
def InOrder (c : Clock Rat) (slices : List (Slice Rat σ)) : Prop :=
  ∀ first rest, slices = first ++ rest → Settled c.rate (c.dueAfter first) (c.dueAfter slices)

theorem Steady.of_append {slices rest : List (Slice Rat σ)} (h : Steady (slices ++ rest)) :
    Steady slices :=
  fun slice member => h slice (List.mem_append_left rest member)

theorem exists_ticks_append (c : Clock Rat) (s : σ) (first rest : List (Slice Rat σ)) :
    ∃ ticks, (c.after s (first ++ rest)).ticks = (c.after s first).ticks ++ ticks := by
  induction rest using List.reverseRecOn with
  | nil => exact ⟨[], by rw [List.append_nil, List.append_nil]⟩
  | append_singleton rest last ih =>
    obtain ⟨ticks, eq⟩ := ih
    rw [← List.append_assoc, after_append]
    by_cases span : 0 < last.span
    · obtain ⟨ds, log, -⟩ := Run.pass_of_pos (c.after s (first ++ rest)) last (decide_eq_true span)
      refine ⟨ticks ++ ticksOf ds, ?_⟩
      rw [Run.ticks, log, ticksOf_append, ← List.append_assoc, ← eq]
      rfl
    · rw [Run.pass_of_not_pos _ last (by simpa [Quantity.lt, Quantity.ofNat] using span)]
      exact ⟨ticks, eq⟩

namespace Fresh

variable {c : Clock Rat} (h : c.Fresh) {s : σ} {slices : List (Slice Rat σ)}
include h

theorem dueAfter_nil (tick : Tick) : c.dueAfter ([] : List (Slice Rat σ)) tick = 0 := by
  have none := h.count_le_floor () [] tick
  have floor := due_eq_floor (passed_nonneg ([] : List (Slice Rat σ))) (h.pos tick)
  have zero : ⌊passed ([] : List (Slice Rat σ)) * c.rate tick / 1000 + 1 / 1000000⌋ = 0 := by
    norm_num [passed]
  rw [zero] at floor
  exact_mod_cast floor

theorem dueAfter_mono (first rest : List (Slice Rat σ)) (tick : Tick) :
    c.dueAfter first tick ≤ c.dueAfter (first ++ rest) tick := by
  refine due_mono (h.pos tick) ?_
  rw [passed_append]
  linarith [passed_nonneg rest]

/-- A clock that is never stopped has handed out all that is due. -/
theorem count_of_steady (steady : Steady slices) (tick : Tick) :
    (c.after s slices).ticks.count tick = c.dueAfter slices tick := by
  cases slices using List.reverseRecOn with
  | nil => rw [h.dueAfter_nil]; rfl
  | append_singleton slices last =>
    obtain ⟨span, on⟩ := steady last (List.mem_append_right slices (List.mem_singleton_self last))
    exact h.count_of_unstopped (c.unstopped_of_steady s slices span on) tick

theorem pairwise_of_inOrder (steady : Steady slices) (inOrder : c.InOrder slices) :
    (stamps [] (c.after s slices).ticks).Pairwise (Stamp.Before c.rate) := by
  induction slices using List.reverseRecOn with
  | nil => exact .nil
  | append_singleton slices last ih =>
    have before : c.InOrder slices := by
      intro first rest eq tick other some more
      refine inOrder first (rest ++ [last]) (by rw [eq, List.append_assoc]) tick other some ?_
      exact more.trans_le (h.dueAfter_mono slices [last] other)
    have total (tick : Tick) := h.count_of_steady (s := s) steady tick
    have counted (tick : Tick) := h.count_of_steady (s := s) steady.of_append tick
    obtain ⟨ds, log, ordered⟩ := (h.consistent s slices).pairwise_before h.pos last
    have ticks : (c.after s (slices ++ [last])).ticks = (c.after s slices).ticks ++ ticksOf ds := by
      rw [after_append, Run.ticks, log, ticksOf_append]
      rfl
    simp only [ticks, List.count_append] at total
    rw [ticks, stamps_append, List.pairwise_append]
    refine ⟨ih steady.of_append before, ordered, ?_⟩
    -- What was handed out before is before the next tick of its kind, and so before all that
    -- follow.
    rintro ⟨tick, m⟩ earlier ⟨other, n⟩ later
    rw [mem_stamps, List.count_nil, counted] at earlier
    rw [List.nil_append, mem_stamps, counted] at later
    have settled :=
      inOrder slices [last] rfl tick other (by omega) (by rw [← total, counted]; omega)
    exact (settled.of_le h.pos (by omega)).of_ge h.pos (by omega)

theorem inOrder_of_pairwise (steady : Steady slices)
    (ordered : (stamps [] (c.after s slices).ticks).Pairwise (Stamp.Before c.rate)) :
    c.InOrder slices := by
  rintro first rest rfl tick other some more
  obtain ⟨later, ticks⟩ := exists_ticks_append c s first rest
  have counted (tick : Tick) := h.count_of_steady (s := s) steady.of_append tick
  have total := h.count_of_steady (s := s) steady other
  rw [ticks, List.count_append, counted] at total
  rw [ticks, stamps_append, List.pairwise_append] at ordered
  refine ordered.2.2 _ (mem_stamps.2 ?_) _ (mem_stamps.2 ?_)
  · rw [counted, List.count_nil]
    omega
  · rw [List.nil_append, counted]
    omega

theorem stamps_eq_schedule_iff_inOrder (steady : Steady slices) :
    stamps [] (c.after s slices).ticks = schedule c.rate (c.dueAfter slices) ↔
      c.InOrder slices := by
  rw [stamps_eq_schedule_iff h.pos (h.count_of_steady steady)]
  exact ⟨h.inOrder_of_pairwise steady, h.pairwise_of_inOrder steady⟩

/-- Where no tick was handed out early, all ticks handed out are before those to come. -/
theorem settled_of_punctual {first : List (Slice Rat σ)} (final : Tick → Nat)
    (punctual : ∀ tick, ⌊passed first * c.rate tick / 1000 + 1 / 1000000⌋ =
      ⌊passed first * c.rate tick / 1000⌋) :
    Settled c.rate (c.dueAfter first) final := by
  intro tick other _ _
  have floor (tick : Tick) : (c.dueAfter first tick : Int) = ⌊passed first * c.rate tick / 1000⌋ :=
    (due_eq_floor (passed_nonneg first) (h.pos tick)).trans (punctual tick)
  have reached : (c.dueAfter first tick : Rat) ≤ passed first * c.rate tick / 1000 := by
    have le := Int.floor_le (passed first * c.rate tick / 1000)
    rw [← floor] at le
    exact_mod_cast le
  have ahead : passed first * c.rate other / 1000 < (c.dueAfter first other : Rat) + 1 := by
    have lt := Int.lt_floor_add_one (passed first * c.rate other / 1000)
    rw [← floor] at lt
    exact_mod_cast lt
  left
  calc (c.dueAfter first tick : Rat) / c.rate tick
      ≤ passed first * c.rate tick / 1000 / c.rate tick := by
        gcongr
        exact (h.pos tick).le
    _ = passed first / 1000 := by
        have := (h.pos tick).ne'
        field_simp
    _ = passed first * c.rate other / 1000 / c.rate other := by
        have := (h.pos other).ne'
        field_simp
    _ < ((c.dueAfter first other + 1 : Nat) : Rat) / c.rate other := by
        push_cast
        exact div_lt_div_of_pos_right ahead (h.pos other)

end Fresh

/-- For all positive rates, a clock that is never stopped follows the schedule over a whole run
exactly if at the end of each call all ticks that were handed out come before all that are to come.
So it does when no call ends while a tick has been handed out early, and then the sequence of ticks
does not depend on how the time was sliced. -/
theorem order_after {instructionHz timerHz : Rat} (hi : 0 < instructionHz) (ht : 0 < timerHz) :
    ∃ c, create? instructionHz timerHz = .ok c ∧
      c.rate .instruction = instructionHz ∧ c.rate .timer = timerHz ∧
      (∀ {σ : Type} (s : σ) (slices : List (Slice Rat σ)), Steady slices →
        (stamps [] (c.after s slices).ticks = schedule c.rate (c.dueAfter slices) ↔
          c.InOrder slices)) ∧
      (∀ {σ σ' : Type} (s : σ) (s' : σ') (slices : List (Slice Rat σ))
        (slices' : List (Slice Rat σ')), Steady slices → Steady slices' →
          passed slices = passed slices' → c.InOrder slices → c.InOrder slices' →
          (c.after s slices).ticks = (c.after s' slices').ticks) ∧
      (∀ {σ : Type} (slices : List (Slice Rat σ)),
        (∀ first rest, slices = first ++ rest → rest ≠ [] → ∀ tick,
          ⌊passed first * c.rate tick / 1000 + 1 / 1000000⌋ = ⌊passed first * c.rate tick / 1000⌋) →
        c.InOrder slices) := by
  obtain ⟨c, created, hi', ht'⟩ : ∃ c, create? instructionHz timerHz = .ok c ∧
      c.rate .instruction = instructionHz ∧ c.rate .timer = timerHz :=
        ⟨_, create?_of_pos hi ht, rfl, rfl⟩
  have fresh : c.Fresh := fresh_of_create? created
  refine ⟨c, created, hi', ht', ?_, ?_, ?_⟩
  · intro σ s slices steady
    exact fresh.stamps_eq_schedule_iff_inOrder steady
  · intro σ σ' s s' slices slices' steady steady' same inOrder inOrder'
    have total : c.dueAfter slices = c.dueAfter slices' := by
      funext tick
      rw [dueAfter, dueAfter, same]
    have first := (fresh.stamps_eq_schedule_iff_inOrder steady (s := s)).2 inOrder
    have second := (fresh.stamps_eq_schedule_iff_inOrder steady' (s := s')).2 inOrder'
    rw [← total] at second
    exact ticks_eq_of_stamps_eq (first.trans second.symm)
  · intro σ slices punctual first rest eq
    rcases rest.eq_nil_or_concat with rfl | ⟨_, _, rfl⟩
    · rw [eq, List.append_nil]
      exact fun _ other _ more => absurd more (Nat.lt_irrefl _)
    · exact fresh.settled_of_punctual _ (punctual first _ eq (by simp))

/-- Two calls of ten milliseconds, and one of twenty. -/
theorem order_after_halves :
    let steady (span : Rat) : Slice Rat Unit := ⟨span, fun _ u => (true, u)⟩
    ∃ c, create? (600 : Rat) 60 = .ok c ∧
      (c.after () [steady 10, steady 10]).ticks = (c.after () [steady 20]).ticks ∧
      (c.after () [steady 20]).ticks = List.replicate 10 .instruction ++
        [.timer, .instruction, .instruction] := by
  intro steady
  obtain ⟨c, created, hi, ht, -, same, punctual⟩ :=
    order_after (by norm_num : (0 : Rat) < 600) (by norm_num : (0 : Rat) < 60)
  have halves : c.InOrder [steady 10, steady 10] := by
    refine punctual _ ?_
    rintro (_ | ⟨one, _ | ⟨two, first⟩⟩) rest eq more tick
    · cases tick <;> norm_num [passed, hi, ht]
    · cases eq
      cases tick <;> norm_num [passed, hi, ht, steady]
    · simp only [List.cons_append, List.cons.injEq, List.nil_eq, List.append_eq_nil_iff] at eq
      exact absurd eq.2.2.2 more
  have whole : c.InOrder [steady 20] := by
    refine punctual _ ?_
    rintro (_ | ⟨one, first⟩) rest eq more tick
    · cases tick <;> norm_num [passed, hi, ht]
    · simp only [List.cons_append, List.cons.injEq, List.nil_eq, List.append_eq_nil_iff] at eq
      exact absurd eq.2.2 more
  refine ⟨c, created, same () () _ _ ?_ ?_ ?_ halves whole, ?_⟩
  · simp [Steady, Slice.Steady, steady]
  · simp [Steady, Slice.Steady, steady]
  · norm_num [passed, steady]
  · cases created
    decide +kernel

/-- A call that ends when the first timer tick has been handed out early and the tenth instruction
tick, which has the same time, has not: together with the rest of the time it gives another sequence
than one call does. -/
theorem order_depends_on_slices :
    let steady (span : Rat) : Slice Rat Unit := ⟨span, fun _ u => (true, u)⟩
    let early : Rat := 546133 / 32768
    ∃ c, create? (600 : Rat) 60 = .ok c ∧
      Steady [steady early, steady (17 - early)] ∧ Steady [steady 17] ∧
      passed [steady early, steady (17 - early)] = passed [steady 17] ∧
      (c.after () [steady early, steady (17 - early)]).ticks =
        List.replicate 9 .instruction ++ [.timer, .instruction] ∧
      (c.after () [steady 17]).ticks = List.replicate 10 .instruction ++ [.timer] := by
  intro steady early
  obtain ⟨c, created⟩ : ∃ c, create? (600 : Rat) 60 = .ok c :=
    ⟨_, create?_of_pos (by norm_num) (by norm_num)⟩
  refine ⟨c, created, ?_, ?_, ?_, ?_, ?_⟩
  · norm_num [Steady, Slice.Steady, steady, early]
  · norm_num [Steady, Slice.Steady, steady]
  · norm_num [passed, steady, early]
  · cases created
    decide +kernel
  · cases created
    decide +kernel

end Clock

end Chip8
