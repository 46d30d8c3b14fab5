import Chip8.Proofs.Clock.Delivery
import Chip8.Proofs.Session.Calls

/-!
# Advances as ticks

While time passes a session is given ticks by its clock, and it takes no more of them once it has
stopped or a tick was cut short. `ticksWithin` lists those that it is given. After an advance the
session is where these ticks leave it, apart from the clock.
-/

namespace Chip8

/-- Every call of a clock hands out what is due, and nothing is due if no time passes. -/
theorem Clock.exists_replayed_advance {α σ : Type} [Quantity α] (c : Clock α) (slice : Slice α σ)
    (s : List Delivery × σ) :
    ∃ dues start ds, Replayed dues start ds (c.advance slice.span (recording slice.receive) s).1 ∧
      start.issued = c.issued ∧ (c.advance slice.span (recording slice.receive) s).2.1 = s.1 ++ ds ∧
      Answered slice.receive s.2 ds (c.advance slice.span (recording slice.receive) s).2.2 := by
  unfold advance
  split
  · let later := { c with elapsed := c.elapsed + slice.span }
    obtain ⟨ds, replayed, log, answered⟩ :=
      exists_replayed slice.receive (fun t => due later.elapsed (later.rate t)) later s
    exact ⟨_, later, ds, replayed, funext fun t => by cases t <;> rfl, log, answered⟩
  · refine ⟨fun _ => 0, c, [], .done ?_, rfl, (List.append_nil _).symm, .done _⟩
    unfold nextOf next?
    rw [if_neg (Nat.not_lt_zero _), if_neg (Nat.not_lt_zero _)]

namespace Play

variable {σ α : Type} {h : Host σ} {p : Play σ α}

def afterTicks (h : Host σ) (p : Play σ α) (ticks : List Tick) : Play σ α :=
  ticks.foldl (fun p t => (p.tick h t).2) p

/-- The plays after each of some ticks. -/
def along (h : Host σ) : Play σ α → List Tick → List (Play σ α)
  | _, [] => []
  | p, t :: ticks => (p.tick h t).2 :: along h (p.tick h t).2 ticks

@[simp] theorem afterTicks_nil (p : Play σ α) : p.afterTicks h [] = p := rfl

@[simp] theorem afterTicks_cons (p : Play σ α) (t : Tick) (ticks : List Tick) :
    p.afterTicks h (t :: ticks) = (p.tick h t).2.afterTicks h ticks := rfl

theorem afterTicks_append (p : Play σ α) (ticks rest : List Tick) :
    p.afterTicks h (ticks ++ rest) = (p.afterTicks h ticks).afterTicks h rest := List.foldl_append

theorem after_map_tick [Quantity α] (p : Play σ α) (ticks : List Tick) :
    p.after h (ticks.map .tick) = p.afterTicks h ticks := List.foldl_map

/-! ## One advance -/

/-- What an advance does with a tick of its clock. -/
def receive (h : Host σ) (t : Tick) (s : Option Interruption × Play σ α) :
    Bool × Option Interruption × Play σ α :=
  ((s.2.tick h t).1.isNone && !(s.2.tick h t).2.session.isHalted, s.2.tick h t)

theorem eq_afterTicks_of_answered {s s' : Option Interruption × Play σ α} {ds : List Delivery}
    (answered : Clock.Answered (receive h) s ds s') : s'.2 = s.2.afterTicks h (ticksOf ds) := by
  induction answered with
  | done => rfl
  | received answer _ ih =>
    cases answer
    exact ih

variable [Quantity α]

theorem alive_of_replayed {dues : Tick → Nat} {c c' : Clock α}
    {s s' : Option Interruption × Play σ α} {ds : List Delivery}
    (replayed : Clock.Replayed dues c ds c') (answered : Clock.Answered (receive h) s ds s')
    (alive : ¬ s.2.session.isHalted = true) {before rest : List Tick} {t : Tick}
    (split : ticksOf ds = before ++ t :: rest) :
    ¬ (s.2.afterTicks h before).session.isHalted = true := by
  induction replayed generalizing s before with
  | done => cases before <;> cases split
  | stopped next =>
    cases before with
    | nil => exact alive
    | cons _ before => cases before <;> cases split
  | @more c c' tick ds next replayed ih =>
    -- The clock was told to go on after its first tick, so the session has not stopped in it.
    cases before with
    | nil => exact alive
    | cons first before =>
      obtain ⟨rfl, later⟩ := List.cons.inj split
      cases answered with
      | @received _ _ _ next _ _ answer answered =>
        have goes : ((s.2.tick h tick).1.isNone && !(s.2.tick h tick).2.session.isHalted) = true :=
          congrArg Prod.fst answer
        have same : s.2.tick h tick = next := congrArg Prod.snd answer
        subst same
        rw [Bool.and_eq_true, Bool.not_eq_true', ← Bool.not_eq_true] at goes
        exact ih answered goes.2 later

theorem advance_of_halted (halted : p.session.isHalted = true) (ms : α) :
    p.advance h ms = (none, p) := if_pos halted

theorem advance_of_alive (alive : ¬ p.session.isHalted = true) (ms : α) :
    p.advance h ms =
      let passed := p.session.clock.advance ms (receive h) (none, p)
      (passed.2.1,
        { passed.2.2 with session := { passed.2.2.session with clock := passed.1 } }) := by
  unfold advance
  exact if_neg alive

/-- The ticks that a session is given while time passes. -/
def ticksWithin (h : Host σ) (p : Play σ α) (ms : α) : List Tick :=
  if p.session.isHalted then []
  else ticksOf (p.session.clock.advance ms (Clock.recording (receive h)) ([], none, p)).2.1

theorem ticksWithin_of_halted (halted : p.session.isHalted = true) (ms : α) :
    p.ticksWithin h ms = [] := if_pos halted

/-- An advance of a session that has not stopped hands out what has come due, until a tick stops the
session or is cut short. -/
theorem exists_replayed_of_alive (alive : ¬ p.session.isHalted = true) {ms : α}
    (pos : Quantity.lt (Quantity.ofNat 0) ms = true) :
    let c := p.session.clock
    let later := { c with elapsed := c.elapsed + ms }
    ∃ ds s clock, p.advance h ms = (s.1, { s.2 with session := { s.2.session with clock } }) ∧
      Clock.Replayed (fun t => Clock.due later.elapsed (later.rate t)) later ds clock ∧
      Clock.Answered (receive h) (none, p) ds s ∧ ticksOf ds = p.ticksWithin h ms := by
  intro c later
  obtain ⟨ds, replayed, log, answered⟩ :=
    Clock.exists_replayed (receive h) (fun t => Clock.due later.elapsed (later.rate t)) later
      ([], none, p)
  have recorded : c.advance ms (Clock.recording (receive h)) ([], none, p) =
      later.replay (Clock.due later.elapsed (later.rate .instruction))
        (Clock.due later.elapsed (later.rate .timer))
        (Clock.recording (receive h)) ([], none, p) := if_pos pos
  obtain ⟨clock, passed⟩ := Clock.advance_recording c ⟨ms, receive h⟩ ([], none, p)
  rw [← recorded] at replayed log answered
  dsimp only at clock passed
  rw [clock] at replayed
  rw [passed] at answered
  refine ⟨ds, _, _, advance_of_alive alive ms, replayed, answered, ?_⟩
  rw [ticksWithin, if_neg alive, log, List.nil_append]

/-- After an advance the session is where the ticks in it leave it, and its clock has counted
them. -/
theorem advance_eq_afterTicks (p : Play σ α) (ms : α) :
    let q := (p.advance h ms).2
    let r := p.afterTicks h (p.ticksWithin h ms)
    q = { r with session := { r.session with clock := q.session.clock } } ∧
      ∀ t, q.session.clock.issued t = p.session.clock.issued t + (p.ticksWithin h ms).count t := by
  unfold advance ticksWithin
  split
  · exact ⟨rfl, fun t => rfl⟩
  · obtain ⟨dues, c, ds, replayed, start, log, answered⟩ :=
      p.session.clock.exists_replayed_advance ⟨ms, receive h⟩ ([], none, p)
    obtain ⟨clock, passed⟩ := Clock.advance_recording p.session.clock ⟨ms, receive h⟩ ([], none, p)
    rw [log, List.nil_append, ← eq_afterTicks_of_answered answered, passed]
    refine ⟨rfl, fun t => ?_⟩
    rw [← start, ← replayed.issued_eq, clock]
    rfl

/-- A session is given no tick once it has stopped, though more may be due. -/
theorem alive_of_ticksWithin {ms : α} {before rest : List Tick} {t : Tick}
    (split : p.ticksWithin h ms = before ++ t :: rest) :
    ¬ (p.afterTicks h before).session.isHalted = true := by
  by_cases halted : p.session.isHalted = true
  · rw [ticksWithin_of_halted halted] at split
    cases before <;> cases split
  · obtain ⟨dues, c, ds, replayed, -, log, answered⟩ :=
      p.session.clock.exists_replayed_advance ⟨ms, receive h⟩ ([], none, p)
    rw [ticksWithin, if_neg halted, log] at split
    exact alive_of_replayed replayed answered halted split

end Play

end Chip8
