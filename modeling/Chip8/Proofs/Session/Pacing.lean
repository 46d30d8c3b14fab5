import Chip8.Proofs.Clock.Ticks
import Chip8.Proofs.Session.FaultModes

/-!
# Frame by frame

A frame is one period of the timers. Over exact arithmetic a session that is given frame after frame
does not drift: after so many frames it has been given as many timer ticks, and the instruction
ticks that are due for them (`frames_paced`). If the rate of instructions is a multiple of the
timers' rate, all frames are alike, and the timer tick closes each of them. Both follow from where
the clock stands at the end of a frame, `Clock.atFrame`.
-/

namespace Chip8

namespace Clock

/-- A clock at the end of a frame, when all that was due was handed out. -/
def atFrame (instructionHz timerHz : Rat) (k : Nat) : Clock Rat where
  instructionHz
  timerHz
  elapsed := k * period timerHz
  instructionTicks := due (k * period timerHz) instructionHz
  timerTicks := k

section AtFrame

variable {instructionHz timerHz : Rat} (hi : 0 < instructionHz) (ht : 0 < timerHz)

theorem period_eq : period timerHz = 1000 / timerHz := rfl

/-- At a whole number of ticks the tolerance brings no other tick forward. -/
theorem floor_natCast_early (n : Nat) : ⌊(n : Rat) + 1 / 1000000⌋ = n := by
  rw [Int.floor_natCast_add]
  norm_num

include ht

theorem due_frames {hz : Rat} (pos : 0 < hz) (k : Nat) :
    (due (k * period timerHz) hz : Int) = ⌊k * hz / timerHz + 1 / 1000000⌋ := by
  have time : 0 ≤ (k : Rat) * period timerHz := by
    rw [period_eq]
    positivity
  have elapsed : (k : Rat) * period timerHz * hz / 1000 = k * hz / timerHz := by
    rw [period_eq]
    field_simp
  rw [due_eq_floor time pos, elapsed]

theorem due_frames_of_multiple {hz : Rat} (pos : 0 < hz) {n : Nat} (multiple : hz = n * timerHz)
    (k : Nat) :
    due (k * period timerHz) hz = k * n := by
  have floor := due_frames ht pos k
  have whole : (k : Rat) * hz / timerHz = (k * n : Nat) := by
    rw [multiple]
    push_cast
    field_simp
  rw [whole, floor_natCast_early] at floor
  exact_mod_cast floor

theorem due_timer_frames (k : Nat) : due (k * period timerHz) timerHz = k := by
  rw [due_frames_of_multiple ht ht (n := 1) (by norm_num), Nat.mul_one]

theorem due_no_frames {hz : Rat} (pos : 0 < hz) : due ((0 : Nat) * period timerHz) hz = 0 := by
  have floor := due_frames ht pos 0
  have early : ⌊((0 : Nat) : Rat) * hz / timerHz + 1 / 1000000⌋ = 0 := by norm_num
  rw [early] at floor
  exact_mod_cast floor

include hi

theorem create?_eq_atFrame :
    create? instructionHz timerHz = .ok (atFrame instructionHz timerHz 0) := by
  have start : ((0 : Nat) : Rat) * period timerHz = 0 := by norm_num
  rw [create?_of_pos hi ht, atFrame, due_no_frames ht hi, start]
  rfl

/-- A frame that hands out all that is due ends where the next one begins. -/
theorem eq_atFrame_of_replayed {k : Nat} {c' : Clock Rat} {ds : List Delivery} :
    let c := atFrame instructionHz timerHz k
    let later := { c with elapsed := c.elapsed + c.timerPeriod }
    Replayed (fun t => due later.elapsed (later.rate t)) later ds c' → (∀ d ∈ ds, d.more = true) →
      c' = atFrame instructionHz timerHz (k + 1) := by
  intro c later replayed on
  have elapsed : later.elapsed = (k + 1 : Nat) * period timerHz := by
    change (k : Rat) * period timerHz + period timerHz = _
    push_cast
    ring
  have rates := replayed.rate_eq
  have time := replayed.elapsed_eq.trans elapsed
  have pos : 0 ≤ period timerHz := by
    rw [period_eq]
    positivity
  have more : (k : Rat) * period timerHz ≤ (k + 1 : Nat) * period timerHz := by
    push_cast
    linarith
  have start (t : Tick) : later.issued t ≤ due later.elapsed (later.rate t) := by
    rw [elapsed]
    cases t with
    | instruction => exact due_mono hi more
    | timer =>
      change k ≤ due ((k + 1 : Nat) * period timerHz) timerHz
      rw [due_timer_frames ht]
      exact Nat.le_succ k
  have counts (t : Tick) : c'.issued t = due ((k + 1 : Nat) * period timerHz) (later.rate t) := by
    rw [← elapsed]
    exact Nat.le_antisymm (replayed.issued_le (start t)) (replayed.due_le_issued on t)
  have instructions := counts .instruction
  have timers := (counts .timer).trans (due_timer_frames ht _)
  have hz := congrFun rates .instruction
  have hz' := congrFun rates .timer
  cases c'
  simp only [rate, issued] at hz hz' time instructions timers
  rw [hz, hz', time, instructions, timers]
  rfl

end AtFrame

/-- Where one timer tick is due, and all the instruction ticks that are due come no later, it is the
last to come. -/
theorem Replayed.ticks_eq {dues : Tick → Nat} {c c' : Clock Rat} {ds : List Delivery}
    (replayed : Replayed dues c ds c') (on : ∀ d ∈ ds, d.more = true) {n : Nat}
    (instructions : dues .instruction = c.instructionTicks + n)
    (timers : dues .timer = c.timerTicks + 1) (rate : 0 < c.timerHz)
    (first : dues .instruction * c.timerHz ≤ dues .timer * c.instructionHz) :
    ticksOf ds = List.replicate n .instruction ++ [.timer] := by
  induction replayed generalizing n with
  | done next =>
    have all : dues .timer ≤ _ := due_le_issued_of_none next .timer
    simp only [issued] at all
    omega
  | stopped => cases on _ (List.mem_singleton_self _)
  | @more c c' tick rest next replayed ih =>
    have restOn : ∀ d ∈ rest, d.more = true := fun d member => on d (List.mem_cons_of_mem _ member)
    have timerDue : c.timerTicks < dues .timer := by omega
    cases n with
    | zero =>
      have none : ¬ c.instructionTicks < dues .instruction := by omega
      rw [nextOf, next?, if_neg none, if_pos timerDue] at next
      cases next
      -- Nothing is due any more.
      cases replayed with
      | done => rfl
      | @stopped _ tick next | @more _ _ tick _ next =>
        have due := issued_lt_of_some next
        cases tick <;> simp only [issued, issue] at due <;> omega
    | succ n =>
      have instructionDue : c.instructionTicks < dues .instruction := by omega
      have leads : c.instructionFirst = true := by
        refine decide_eq_true ?_
        calc ((c.instructionTicks + 1 : Nat) : Rat) * c.timerHz
            ≤ dues .instruction * c.timerHz := by gcongr; omega
          _ ≤ dues .timer * c.instructionHz := first
          _ = ((c.timerTicks + 1 : Nat) : Rat) * c.instructionHz := by rw [timers]
      rw [nextOf, next?, if_pos instructionDue, if_pos timerDue, leads, if_pos rfl] at next
      cases next
      rw [ticksOf_cons, ih restOn (n := n) ?_ timers rate first]
      · rfl
      · change dues .instruction = c.instructionTicks + 1 + n
        omega

end Clock

namespace Play

variable {σ α : Type} {h : Host σ} {p : Play σ α}

/-! ## Frames that go through -/

/-- An advance that goes through has not stopped its clock. -/
theorem more_of_answered {s s' : Option Interruption × Play σ α} {ds : List Delivery} [Quantity α]
    {dues : Tick → Nat} {c c' : Clock α} (replayed : Clock.Replayed dues c ds c')
    (answered : Clock.Answered (receive h) s ds s') (uncut : s'.1 = none)
    (alive : ¬ s'.2.session.isHalted = true) :
    ∀ d ∈ ds, d.more = true := by
  induction replayed generalizing s with
  | done => exact nofun
  | stopped =>
    cases answered with
    | received answer rest =>
      cases rest
      have stops := congrArg Prod.fst answer
      have last := congrArg Prod.snd answer
      simp only [receive] at stops last
      rw [last, uncut] at stops
      simp [alive] at stops
  | more _ _ ih =>
    cases answered with
    | received _ answered => exact List.forall_mem_cons.2 ⟨rfl, ih answered⟩

variable [Quantity α]

theorem exists_replayed_of_uncut {ms : α} (pos : Quantity.lt (Quantity.ofNat 0) ms = true)
    (uncut : (p.advance h ms).1 = none) (alive : ¬ (p.advance h ms).2.session.isHalted = true) :
    let c := p.session.clock
    let later := { c with elapsed := c.elapsed + ms }
    ∃ ds, ticksOf ds = p.ticksWithin h ms ∧ (∀ d ∈ ds, d.more = true) ∧
      Clock.Replayed (fun t => Clock.due later.elapsed (later.rate t)) later ds
        (p.advance h ms).2.session.clock := by
  intro c later
  have begun : ¬ p.session.isHalted = true := by
    intro halted
    rw [advance_of_halted halted] at alive
    exact alive halted
  obtain ⟨ds, s, clock, advanced, replayed, answered, ticks⟩ :=
    exists_replayed_of_alive (h := h) begun pos
  rw [advanced] at uncut alive ⊢
  exact ⟨ds, ticks, more_of_answered replayed answered uncut alive, replayed⟩

/-! ## Runs of frames -/

/-- The play after so many frames. -/
def frames (h : Host σ) (p : Play σ α) : Nat → Play σ α
  | 0 => p
  | k + 1 => ((p.frames h k).runFrame h).2

/-- The ticks that a session is given in a frame, the frames being numbered from zero. -/
def frameTicks (h : Host σ) (p : Play σ α) (k : Nat) : List Tick :=
  (p.frames h k).ticksWithin h (p.frames h k).session.clock.timerPeriod

/-- The ticks that a session is given in the first so many frames. -/
def framesTicks (h : Host σ) (p : Play σ α) (k : Nat) : List Tick :=
  (List.range k).flatMap (p.frameTicks h)

theorem issued_frames (h : Host σ) (p : Play σ α) (k : Nat) (t : Tick) :
    (p.frames h k).session.clock.issued t =
      p.session.clock.issued t + (p.framesTicks h k).count t := by
  induction k with
  | zero => rfl
  | succ k ih =>
    have counted :=
      (advance_eq_afterTicks (h := h) (p.frames h k) (p.frames h k).session.clock.timerPeriod).2 t
    rw [framesTicks, List.range_succ, List.flatMap_append, List.count_append, ← Nat.add_assoc,
      ← framesTicks, ← ih, List.flatMap_singleton]
    exact counted

theorem alive_of_frames {j k : Nat} (le : j ≤ k)
    (alive : ¬ (p.frames h k).session.isHalted = true) :
    ¬ (p.frames h j).session.isHalted = true := by
  induction k with
  | zero =>
    rw [Nat.le_zero.1 le]
    exact alive
  | succ k ih =>
    rcases Nat.le_succ_iff.1 le with before | last
    · refine ih before fun halted => alive ?_
      rw [frames, runFrame, advance_of_halted halted]
      exact halted
    · rw [last]
      exact alive

theorem soundAt_frames (sound : SoundAt p.session.core) (h : Host σ) (k : Nat) :
    SoundAt (p.frames h k).session.core := by
  induction k with
  | zero => exact sound
  | succ k ih =>
    exact after_keeps (h := h) SoundAt.change [.advance (p.frames h k).session.clock.timerPeriod] ih

/-- No frame of a sound session is cut short, unless the session stops in it. -/
theorem uncut_of_sound (sound : SoundAt p.session.core) {k : Nat}
    (alive : ¬ (p.frames h k).session.isHalted = true) {j : Nat} (lt : j < k) :
    ((p.frames h j).runFrame h).1 = none := by
  have next : ¬ ((p.frames h j).runFrame h).2.session.isHalted = true :=
    alive_of_frames (j := j + 1) lt alive
  have told :=
    told_advance h (alive_of_frames (Nat.le_of_lt lt) alive)
      (p.frames h j).session.clock.timerPeriod
  cases told with
  | faulted f stopped => exact absurd (Session.isHalted_iff.2 ⟨_, stopped⟩) next
  | nothing _ told => exact told
  | lost _ empty =>
    obtain ⟨a, counter, -, -⟩ := (soundAt_frames sound h (j + 1)).machine.counter
    cases counter.symm.trans empty

section Paced

variable {instructionHz timerHz : Rat} (hi : 0 < instructionHz) (ht : 0 < timerHz) {p : Play σ Rat}

include ht in
theorem exists_replayed_of_frame {k : Nat}
    (clock : p.session.clock = Clock.atFrame instructionHz timerHz k)
    (uncut : (p.runFrame h).1 = none) (alive : ¬ (p.runFrame h).2.session.isHalted = true) :
    let c := Clock.atFrame instructionHz timerHz k
    let later := { c with elapsed := c.elapsed + c.timerPeriod }
    ∃ ds, ticksOf ds = p.ticksWithin h p.session.clock.timerPeriod ∧ (∀ d ∈ ds, d.more = true) ∧
      Clock.Replayed (fun t => Clock.due later.elapsed (later.rate t)) later ds
        (p.runFrame h).2.session.clock := by
  have span : (0 : Rat) < p.session.clock.timerPeriod := by
    rw [clock]
    change 0 < Clock.period timerHz
    rw [Clock.period_eq]
    positivity
  have replayed := exists_replayed_of_uncut (decide_eq_true span) uncut alive
  rw [← clock]
  exact replayed

include hi ht

theorem clock_frames (start : p.session.clock = Clock.atFrame instructionHz timerHz 0) {k : Nat}
    (alive : ¬ (p.frames h k).session.isHalted = true)
    (uncut : ∀ j < k, ((p.frames h j).runFrame h).1 = none) :
    (p.frames h k).session.clock = Clock.atFrame instructionHz timerHz k := by
  induction k with
  | zero => exact start
  | succ k ih =>
    have before :=
      ih (alive_of_frames (Nat.le_succ k) alive) fun j lt => uncut j (Nat.lt_succ_of_lt lt)
    obtain ⟨ds, -, on, replayed⟩ :=
      exists_replayed_of_frame ht before (uncut k (Nat.lt_succ_self k)) alive
    exact Clock.eq_atFrame_of_replayed hi ht replayed on

/-- Where the rate of instructions is a multiple of the timers' rate, no frame differs from the
others. -/
theorem ticksWithin_of_multiple {k n : Nat}
    (clock : p.session.clock = Clock.atFrame instructionHz timerHz k)
    (multiple : instructionHz = n * timerHz) (uncut : (p.runFrame h).1 = none)
    (alive : ¬ (p.runFrame h).2.session.isHalted = true) :
    p.ticksWithin h p.session.clock.timerPeriod = List.replicate n .instruction ++ [.timer] := by
  obtain ⟨ds, same, on, replayed⟩ := exists_replayed_of_frame ht clock uncut alive
  have elapsed : (k : Rat) * Clock.period timerHz + Clock.period timerHz =
      (k + 1 : Nat) * Clock.period timerHz := by
    push_cast
    ring
  have instructions (k : Nat) : Clock.due (k * Clock.period timerHz) instructionHz = k * n :=
    Clock.due_frames_of_multiple ht hi multiple k
  rw [← same]
  refine replayed.ticks_eq on (n := n) ?_ ?_ ht ?_
  · change Clock.due (k * Clock.period timerHz + Clock.period timerHz) instructionHz =
      Clock.due (k * Clock.period timerHz) instructionHz + n
    rw [elapsed, instructions, instructions, Nat.succ_mul]
  · change Clock.due (k * Clock.period timerHz + Clock.period timerHz) timerHz = k + 1
    rw [elapsed, Clock.due_timer_frames ht]
  · change (Clock.due (k * Clock.period timerHz + Clock.period timerHz)
      instructionHz : Rat) * timerHz ≤
      Clock.due (k * Clock.period timerHz + Clock.period timerHz) timerHz * instructionHz
    rw [elapsed, instructions, Clock.due_timer_frames ht, multiple]
    push_cast
    exact le_of_eq (mul_assoc _ _ _)

/-- Frame after frame from the start: the ticks that a session is given are one timer tick for each
frame, and the instruction ticks that are due. None of the frames may be cut short; with a sound
machine none is, in a session that has not stopped. -/
theorem frames_paced : ∃ clock, Clock.create? instructionHz timerHz = .ok clock ∧
    ∀ {σ : Type} (h : Host σ) (processor : Processor) (faultMode : FaultMode) (traceEvery : Nat)
    (host : σ),
      let p := Play.new (Session.new processor clock faultMode traceEvery) host
      (∀ k, p.frames h (k + 1) =
        let r := (p.frames h k).afterTicks h (p.frameTicks h k)
        { r with session := { r.session with clock := (p.frames h (k + 1)).session.clock } }) ∧
      ∀ k, ¬ (p.frames h k).session.isHalted = true →
        processor.machine.Sound ∨ (∀ j < k, ((p.frames h j).runFrame h).1 = none) →
        (p.framesTicks h k).count .timer = k ∧
        ((p.framesTicks h k).count .instruction : Int) =
          ⌊k * instructionHz / timerHz + 1 / 1000000⌋ ∧
        ∀ n : Nat, instructionHz = n * timerHz →
          ∀ j < k, p.frameTicks h j = List.replicate n .instruction ++ [.timer] := by
  refine ⟨_, Clock.create?_eq_atFrame hi ht, fun h processor faultMode traceEvery host => ?_⟩
  intro p
  refine ⟨fun k => (advance_eq_afterTicks (h := h) (p.frames h k) _).1, fun k alive whole => ?_⟩
  have uncut : ∀ j < k, ((p.frames h j).runFrame h).1 = none := by
    rcases whole with sound | uncut
    · have start : SoundAt p.session.core := { machine := sound, waiting := nofun }
      exact fun j lt => uncut_of_sound start alive lt
    · exact uncut
  have clock {j : Nat} (le : j ≤ k) : (p.frames h j).session.clock =
      Clock.atFrame instructionHz timerHz j :=
    clock_frames hi ht rfl (alive_of_frames le alive) fun i lt => uncut i (Nat.lt_of_lt_of_le lt le)
  have counted (t : Tick) : (Clock.atFrame instructionHz timerHz k).issued t =
      (Clock.atFrame instructionHz timerHz 0).issued t + (p.framesTicks h k).count t :=
    clock (Nat.le_refl k) ▸ issued_frames h p k t
  refine ⟨?_, ?_, fun n multiple j lt => ?_⟩
  · exact ((counted .timer).trans (Nat.zero_add _)).symm
  · have instructions := counted .instruction
    simp only [Clock.atFrame, Clock.issued, Clock.due_no_frames ht hi, Nat.zero_add] at instructions
    rw [← instructions]
    exact Clock.due_frames ht hi k
  · have next : ¬ (p.frames h (j + 1)).session.isHalted = true := alive_of_frames lt alive
    exact ticksWithin_of_multiple hi ht (clock (Nat.le_of_lt lt)) multiple (uncut j lt) next

end Paced

/-- Three frames of a program that jumps to itself. -/
theorem frames_paced_in_a_loop :
    let h : Host Unit := ⟨none, none, fun u => (0, u)⟩
    ∃ clock, Clock.create? (120 : Rat) 60 = .ok clock ∧
      let p := Play.new (Session.new (.new (.startWith [0x12, 0x00]) .standard) clock .throw 0) ()
      (p.frames h 3).session.isHalted = false ∧ (p.framesTicks h 3).count .timer = 3 ∧
      (p.framesTicks h 3).count .instruction = 6 ∧
      ∀ j < 3, p.frameTicks h j = List.replicate 2 .instruction ++ [.timer] := by
  intro h
  obtain ⟨clock, created, paced⟩ := @frames_paced 120 60 (by norm_num) (by norm_num)
  refine ⟨clock, created, ?_⟩
  intro p
  have alive : (p.frames h 3).session.isHalted = false := by
    cases created
    decide +kernel
  obtain ⟨timers, instructions, frame⟩ :=
    (paced h (.new (.startWith [0x12, 0x00]) .standard) .throw 0 ()).2 3
      (by rw [alive]; exact Bool.false_ne_true)
      (.inl (Machine.Sound.startWith _))
  refine ⟨alive, timers, ?_, frame 2 (by norm_num)⟩
  norm_num at instructions
  exact_mod_cast instructions

end Play

end Chip8
