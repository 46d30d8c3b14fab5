import Chip8.Clock
import Mathlib.Data.List.Basic

/-!
# What a clock hands out

A clock is called again and again, each time with a span and a receiver. `Clock.Run` is a clock with
the state of its receivers and with everything that it has handed out; noting this down disturbs
neither the clock nor the receivers (`advance_recording`). `Replayed` lists what one call can hand
out when so many ticks of either kind are due, and what is true of any call is proved from it by
induction.
-/

namespace Chip8

/-- A tick as it was handed out, and whether its receiver wanted more. -/
structure Delivery where
  tick : Tick
  more : Bool

def ticksOf (deliveries : List Delivery) : List Tick := deliveries.map (·.tick)

@[simp] theorem ticksOf_nil : ticksOf [] = [] := rfl

@[simp] theorem ticksOf_cons (d : Delivery) (rest : List Delivery) :
    ticksOf (d :: rest) = d.tick :: ticksOf rest := rfl

@[simp] theorem ticksOf_append (ds rest : List Delivery) :
    ticksOf (ds ++ rest) = ticksOf ds ++ ticksOf rest := List.map_append

/-- A call of a clock: a span of time, and the receiver of what has come due. -/
structure Slice (α σ : Type) where
  span : α
  receive : Tick → σ → Bool × σ

/-- A call whose receiver never stops the clock. -/
def Slice.Steady {α σ : Type} (slice : Slice α σ) : Prop :=
  ∀ tick s, (slice.receive tick s).1 = true

namespace Clock

variable {α σ : Type} [Quantity α]

def issued (c : Clock α) : Tick → Nat
  | .instruction => c.instructionTicks
  | .timer => c.timerTicks

def rate (c : Clock α) : Tick → α
  | .instruction => c.instructionHz
  | .timer => c.timerHz

omit [Quantity α] in
theorem issued_issue (c : Clock α) (tick other : Tick) :
    (c.issue tick).issued other = c.issued other + if tick = other then 1 else 0 := by
  cases tick <;> cases other <;> rfl

omit [Quantity α] in
@[simp] theorem rate_issue (c : Clock α) (tick : Tick) : (c.issue tick).rate = c.rate := by
  funext other
  cases tick <;> cases other <;> rfl

omit [Quantity α] in
@[simp] theorem elapsed_issue (c : Clock α) (tick : Tick) : (c.issue tick).elapsed = c.elapsed := by
  cases tick <;> rfl

/-- A clock is at its start when it is made. -/
theorem eq_of_create? {instructionHz timerHz : α} {c : Clock α}
    (created : create? instructionHz timerHz = .ok c) :
    c = ⟨instructionHz, timerHz, Quantity.ofNat 0, 0, 0⟩ := by
  unfold create? at created
  split at created
  · cases created
    rfl
  · cases created

/-- The next tick when so many of either kind are due. -/
abbrev nextOf (c : Clock α) (dues : Tick → Nat) : Option Tick :=
  c.next? (dues .instruction) (dues .timer)

theorem due_le_issued_of_none {c : Clock α} {dues : Tick → Nat} (h : c.nextOf dues = none)
    (tick : Tick) :
    dues tick ≤ c.issued tick := by
  unfold nextOf next? at h
  cases tick <;> simp only [issued] <;> grind

theorem issued_lt_of_some {c : Clock α} {dues : Tick → Nat} {tick : Tick}
    (h : c.nextOf dues = some tick) :
    c.issued tick < dues tick := by
  unfold nextOf next? at h
  cases tick <;> simp only [issued] <;> grind

/-! ## One call -/

/-- A receiver that also notes what it is given. -/
def recording (receive : Tick → σ → Bool × σ) (tick : Tick) (s : List Delivery × σ) :
    Bool × List Delivery × σ :=
  let (more, next) := receive tick s.2
  (more, s.1 ++ [⟨tick, more⟩], next)

theorem replay_of_none {m n : Nat} {c : Clock α} (next : c.next? m n = none)
    (receive : Tick → σ → Bool × σ) (s : σ) : c.replay m n receive s = (c, s) := by
  rw [replay]
  split
  · rfl
  · next other => cases next.symm.trans other

theorem replay_of_some {m n : Nat} {c : Clock α} {tick : Tick} (next : c.next? m n = some tick)
    (receive : Tick → σ → Bool × σ) (s : σ) :
    c.replay m n receive s =
      if (receive tick s).1 then (c.issue tick).replay m n receive (receive tick s).2
      else (c.issue tick, (receive tick s).2) := by
  rw [replay]
  split
  · next other => cases next.symm.trans other
  · next other =>
    cases next.symm.trans other
    split <;> next received => rw [received]; rfl

theorem replay_recording (receive : Tick → σ → Bool × σ) (m n : Nat) (c : Clock α)
    (s : List Delivery × σ) :
    (c.replay m n (recording receive) s).1 = (c.replay m n receive s.2).1 ∧
      (c.replay m n (recording receive) s).2.2 = (c.replay m n receive s.2).2 := by
  fun_induction replay m n (recording receive) c s with
  | case1 c s none =>
    rw [replay_of_none none]
    exact ⟨rfl, rfl⟩
  | case2 c s tick next s' received ih =>
    have inner : receive tick s.2 = (true, s'.2) := by grind [recording]
    rw [replay_of_some next, inner]
    exact ih
  | case3 c s tick next s' received =>
    have inner : receive tick s.2 = (false, s'.2) := by grind [recording]
    rw [replay_of_some next, inner]
    exact ⟨rfl, rfl⟩

/-- To note down what a receiver is given changes nothing for the clock and for the receiver. -/
theorem advance_recording (c : Clock α) (slice : Slice α σ) (s : List Delivery × σ) :
    (c.advance slice.span (recording slice.receive) s).1 =
      (c.advance slice.span slice.receive s.2).1 ∧
      (c.advance slice.span (recording slice.receive) s).2.2 =
        (c.advance slice.span slice.receive s.2).2 := by
  unfold advance
  split
  · exact replay_recording slice.receive _ _ _ s
  · exact ⟨rfl, rfl⟩

/-- What a clock can hand out when so many ticks of either kind are due, and where it is then. -/
inductive Replayed (dues : Tick → Nat) : Clock α → List Delivery → Clock α → Prop
  | done {c : Clock α} (next : c.nextOf dues = none) : Replayed dues c [] c
  | stopped {c : Clock α} {tick : Tick} (next : c.nextOf dues = some tick) :
      Replayed dues c [⟨tick, false⟩] (c.issue tick)
  | more {c c' : Clock α} {tick : Tick} {rest : List Delivery} (next : c.nextOf dues = some tick)
      (replayed : Replayed dues (c.issue tick) rest c') : Replayed dues c (⟨tick, true⟩ :: rest) c'

/-- A receiver takes deliveries one after another, each with its answer to it. -/
inductive Answered (receive : Tick → σ → Bool × σ) : σ → List Delivery → σ → Prop
  | done (s : σ) : Answered receive s [] s
  | received {tick : Tick} {more : Bool} {s s' t : σ} {rest : List Delivery}
      (answer : receive tick s = (more, s'))
      (answered : Answered receive s' rest t) : Answered receive s (⟨tick, more⟩ :: rest) t

omit [Quantity α] in
theorem Answered.exists_receive {receive : Tick → σ → Bool × σ} {s t : σ} {ds : List Delivery}
    (answered : Answered receive s ds t) : ∀ d ∈ ds, ∃ s, d.more = (receive d.tick s).1 := by
  induction answered with
  | done => exact nofun
  | received answer _ ih => exact List.forall_mem_cons.2 ⟨⟨_, (congrArg Prod.fst answer).symm⟩, ih⟩

theorem exists_replayed (receive : Tick → σ → Bool × σ) (dues : Tick → Nat) (c : Clock α)
    (s : List Delivery × σ) :
    ∃ ds, Replayed dues c ds (c.replay (dues .instruction) (dues .timer) (recording receive) s).1 ∧
      (c.replay (dues .instruction) (dues .timer) (recording receive) s).2.1 = s.1 ++ ds ∧
      Answered receive s.2 ds
        (c.replay (dues .instruction) (dues .timer) (recording receive) s).2.2 := by
  fun_induction replay (dues .instruction) (dues .timer) (recording receive) c s with
  | case1 c s none => exact ⟨[], .done none, (List.append_nil _).symm, .done _⟩
  | case2 c s tick next s' received ih =>
    obtain ⟨ds, replayed, log, answered⟩ := ih
    have noted : s'.1 = s.1 ++ [⟨tick, true⟩] := by grind [recording]
    have answer : receive tick s.2 = (true, s'.2) := by grind [recording]
    refine ⟨⟨tick, true⟩ :: ds, .more next replayed, ?_, .received answer answered⟩
    rw [log, noted, List.append_assoc]
    rfl
  | case3 c s tick next s' received =>
    have noted : s'.1 = s.1 ++ [⟨tick, false⟩] := by grind [recording]
    have answer : receive tick s.2 = (false, s'.2) := by grind [recording]
    exact ⟨[⟨tick, false⟩], .stopped next, noted, .received answer (.done _)⟩

namespace Replayed

variable {dues : Tick → Nat} {c c' : Clock α} {ds : List Delivery}

theorem rate_eq (h : Replayed dues c ds c') : c'.rate = c.rate := by
  induction h with
  | done => rfl
  | stopped => exact rate_issue _ _
  | more _ _ ih => rw [ih, rate_issue]

theorem elapsed_eq (h : Replayed dues c ds c') : c'.elapsed = c.elapsed := by
  induction h with
  | done => rfl
  | stopped => exact elapsed_issue _ _
  | more _ _ ih => rw [ih, elapsed_issue]

/-- Every tick that is handed out is counted, and nothing else is. -/
theorem issued_eq (h : Replayed dues c ds c') (tick : Tick) :
    c'.issued tick = c.issued tick + (ticksOf ds).count tick := by
  induction h with
  | done => rfl
  | stopped => simp [issued_issue, List.count_cons]
  | more _ _ ih =>
    rw [ih, issued_issue, ticksOf_cons, List.count_cons]
    simp only [beq_iff_eq]
    omega

theorem issued_le (h : Replayed dues c ds c') {tick : Tick} (start : c.issued tick ≤ dues tick) :
    c'.issued tick ≤ dues tick := by
  have step {c : Clock α} {next : Tick} (due : c.nextOf dues = some next)
      (start : c.issued tick ≤ dues tick) : (c.issue next).issued tick ≤ dues tick := by
    have := issued_lt_of_some due
    rw [issued_issue]
    split
    · next same =>
      subst same
      omega
    · omega
  induction h with
  | done => exact start
  | stopped due => exact step due start
  | more due _ ih => exact ih (step due start)

/-- A call that was not stopped has handed out everything that was due. -/
theorem due_le_issued (h : Replayed dues c ds c') (on : ∀ d ∈ ds, d.more = true) (tick : Tick) :
    dues tick ≤ c'.issued tick := by
  induction h with
  | done none => exact due_le_issued_of_none none tick
  | stopped => cases on _ (List.mem_singleton_self _)
  | more _ _ ih => exact ih fun d hd => on d (List.mem_cons_of_mem _ hd)

end Replayed

/-! ## Many calls -/

/-- A clock, all that it has handed out since its start, and the state of its receivers. -/
structure Run (α σ : Type) where
  clock : Clock α
  deliveries : List Delivery
  receivers : σ

def Run.ticks (x : Run α σ) : List Tick := ticksOf x.deliveries

def Run.pass (x : Run α σ) (slice : Slice α σ) : Run α σ :=
  let (clock, deliveries, receivers) :=
    x.clock.advance slice.span (recording slice.receive) (x.deliveries, x.receivers)
  ⟨clock, deliveries, receivers⟩

/-- The run of a clock through some calls. -/
def after (c : Clock α) (s : σ) (slices : List (Slice α σ)) : Run α σ :=
  slices.foldl Run.pass ⟨c, [], s⟩

theorem after_append (c : Clock α) (s : σ) (slices : List (Slice α σ)) (last : Slice α σ) :
    c.after s (slices ++ [last]) = (c.after s slices).pass last := List.foldl_append

namespace Run

variable (x : Run α σ) (slice : Slice α σ)

/-- A call does what the clock does with the call's own receiver. -/
theorem pass_eq_advance :
    ((x.pass slice).clock, (x.pass slice).receivers) =
      x.clock.advance slice.span slice.receive x.receivers := by
  obtain ⟨clock, receivers⟩ := advance_recording x.clock slice (x.deliveries, x.receivers)
  exact Prod.ext clock receivers

/-- The clock of a run at a later time. -/
def later : Clock α := { x.clock with elapsed := x.clock.elapsed + slice.span }

/-- How many ticks of either kind are due once the span of a call has passed. -/
def dues (tick : Tick) : Nat := due (x.later slice).elapsed ((x.later slice).rate tick)

theorem pass_of_pos (pos : Quantity.lt (Quantity.ofNat 0) slice.span = true) :
    ∃ ds, (x.pass slice).deliveries = x.deliveries ++ ds ∧
      Replayed (x.dues slice) (x.later slice) ds (x.pass slice).clock ∧
      (slice.Steady → ∀ d ∈ ds, d.more = true) := by
  have replayed :=
    exists_replayed slice.receive (x.dues slice) (x.later slice) (x.deliveries, x.receivers)
  have eq : x.clock.advance slice.span (recording slice.receive) (x.deliveries, x.receivers) =
      (x.later slice).replay (x.dues slice .instruction) (x.dues slice .timer)
        (recording slice.receive)
        (x.deliveries, x.receivers) := if_pos pos
  obtain ⟨ds, replayed, log, answered⟩ := replayed
  rw [← eq] at replayed log
  refine ⟨ds, log, replayed, fun steady d hd => ?_⟩
  obtain ⟨s, answer⟩ := answered.exists_receive d hd
  exact answer.trans (steady d.tick s)

theorem pass_of_not_pos (none : ¬ Quantity.lt (Quantity.ofNat 0) slice.span = true) :
    x.pass slice = x := by
  have eq : x.clock.advance slice.span (recording slice.receive) (x.deliveries, x.receivers) =
      (x.clock, x.deliveries, x.receivers) := if_neg none
  unfold pass
  rw [eq]

end Run

end Clock

end Chip8
