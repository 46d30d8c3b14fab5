import Chip8.Proofs.Session.Tick
import Mathlib.Logic.Relation

/-!
# What happens to a session

A caller lets single ticks happen or lets time pass, and goes on also when a call gave it a fault.
`Play.after` is the play after a list of calls. An advance hands out ticks one after another and
moves the clock only at its end, so the plays in the middle of an advance are plays after ticks,
too.

`Change` lists what can happen to the processor and to the status of a session. Every tick is a
chain of changes (`Play.tick_changes`), so what each change keeps, every list of calls keeps
(`Play.after_keeps`).
-/

namespace Chip8

/-! ## Clocks -/

namespace Clock

variable {α σ : Type} [Quantity α] {I J : σ → Prop} (receive : Tick → σ → Bool × σ)

/-- `J` holds as long as the receiver wants more, and what it leaves at any tick satisfies `I`. -/
theorem replay_ends (ends : ∀ s, J s → I s)
    (step : ∀ tick s, J s → I (receive tick s).2 ∧
      ((receive tick s).1 = true → J (receive tick s).2))
    (dueInstructions dueTimers : Nat) (c : Clock α) (s : σ) (hs : J s) :
    I (c.replay dueInstructions dueTimers receive s).2 := by
  fun_induction replay dueInstructions dueTimers receive c s with
  | case1 c s => exact ends s hs
  | case2 c s tick next s' received ih =>
    have stepped := step tick s hs
    rw [received] at stepped
    exact ih (stepped.2 rfl)
  | case3 c s tick next s' received =>
    have stepped := step tick s hs
    rw [received] at stepped
    exact stepped.1

theorem advance_ends (ends : ∀ s, J s → I s)
    (step : ∀ tick s, J s → I (receive tick s).2 ∧
      ((receive tick s).1 = true → J (receive tick s).2))
    (c : Clock α) (ms : α) (s : σ) (hs : J s) : I (c.advance ms receive s).2 := by
  unfold advance
  split
  · exact replay_ends receive ends step _ _ _ _ hs
  · exact ends s hs

/-- What the receiver keeps at each tick, it keeps over all of them. -/
theorem advance_keeps (h : ∀ tick s, I s → I (receive tick s).2) (c : Clock α) (ms : α) (s : σ)
    (hs : I s) :
    I (c.advance ms receive s).2 :=
  advance_ends receive (fun _ hs => hs) (fun tick s hs => ⟨h tick s hs, fun _ => h tick s hs⟩) c ms
    s hs

end Clock

/-! ## Changes -/

/-- Where a session stands after a step. -/
def StepResult.status : StepResult → Status
  | .awaitingKey _ _ x => .awaitingKey x
  | .faulted f => .halted (.fault f)
  | _ => .running

/-- What can happen, one thing after another, to the processor of a session and to its status. -/
inductive Change : Processor × Status → Processor × Status → Prop
  | keys (c : Processor) (s : Status) (keypad : Vector Bool 16) :
      Change (c, s) ({ c with machine := { c.machine with keypad } }, s)
  | step (c : Processor) (e : UInt8) : Change (c, .running) ((c.step e).2, (c.step e).1.status)
  | resume (c : Processor) (x : Reg) (key : Key) :
      Change (c, .awaitingKey x) (c.resume x key, .running)
  | timers (c : Processor) (s : Status) :
      Change (c, s) ({ c with machine := c.machine.tickTimers }, s)
  | shown (c : Processor) (s : Status) :
      Change (c, s) ({ c with machine := { c.machine with drawn := false } }, s)
  | halt (c : Processor) (s : Status) (reason : HaltReason) : Change (c, s) (c, .halted reason)

/-- A chain of changes. -/
abbrev Changes : Processor × Status → Processor × Status → Prop := Relation.ReflTransGen Change

/-- What every change keeps, a chain of them keeps. -/
theorem changes_keep {P : Processor × Status → Prop} (change : ∀ {a b}, Change a b → P a → P b)
    {a b : Processor × Status} (chain : Changes a b) (ha : P a) : P b := by
  induction chain with
  | refl => exact ha
  | tail _ last ih => exact change last ih

/-- The processor of a session and its status. -/
def Session.core {α : Type} (s : Session α) : Processor × Status := (s.processor, s.status)

/-! ## Ticks -/

namespace Play

variable {σ α : Type} (h : Host σ) {p : Play σ α}

@[simp] theorem core_setTone (on : Bool) : (p.setTone on).session.core = p.session.core := by
  rw [session_setTone]
  rfl

theorem halt_changes (reason : HaltReason) :
    Changes p.session.core (p.halt reason).session.core := by
  rw [halt, core_setTone]
  exact .single (.halt _ _ reason)

theorem pollInput_changes : Changes p.session.core (p.pollInput h).2.session.core := by
  unfold pollInput
  split
  · exact .refl
  · exact .single (.keys _ _ _)

@[simp] theorem core_foldl_log (lines : List String) :
    (lines.foldl (fun p line => p.log .error line) p).session.core = p.session.core :=
  congrArg Session.core (session_foldl_log p lines)

/-- A session that is running makes a step of its processor, with some byte of the random source. -/
theorem core_executeStep (running : p.session.status = .running) :
    ∃ e, (p.executeStep h).2.session.core =
      ((p.session.processor.step e).2, (p.session.processor.step e).1.status) := by
  unfold executeStep
  split
  next e host _ =>
  refine ⟨e, ?_⟩
  split
  next result c step =>
  rw [step]
  cases result with
  | executed a w =>
    simp only
    split <;> exact congrArg (c, ·) running
  | awaitingKey => rfl
  | unknown | lost => exact congrArg (c, ·) running
  | faulted f =>
    simp only [core_foldl_log, halt, core_setTone]
    rfl

theorem executeStep_changes (running : p.session.status = .running) :
    Changes p.session.core (p.executeStep h).2.session.core := by
  obtain ⟨e, core⟩ := core_executeStep h running
  rw [core, Session.core, running]
  exact .single (.step _ e)

theorem deliverKey_changes (keyDowns : List Number) :
    Changes p.session.core (p.deliverKey keyDowns).session.core := by
  unfold deliverKey
  split
  · next x key waiting _ =>
    rw [Session.core, waiting]
    exact .single (.resume _ x key)
  · exact .refl

theorem handOver_changes : Changes p.session.core (p.handOver h).2.session.core := by
  unfold handOver
  split
  · exact .refl
  · split
    · exact .single (.shown _ _)
    · exact .refl

theorem settle_changes : Changes p.session.core (p.settle h).session.core := by
  have shown := handOver_changes h (p := p)
  unfold settle
  split
  next quit q hq =>
    rw [hq] at shown
    split
    · exact shown.trans (halt_changes .userQuit)
    · rw [core_setTone]
      exact shown

theorem tick_changes (tick : Tick) : Changes p.session.core (p.tick h tick).2.session.core := by
  let I (q : Play σ α) : Prop := Changes p.session.core q.session.core
  refine tick_induction (I := I) (J := I) ?_ ?_ (fun _ chain => chain) ?_ ?_ ?_ ?_ tick (p := p)
    .refl
  · exact fun _ chain => chain.trans (pollInput_changes h)
  · exact fun _ chain => chain.trans (halt_changes .userQuit)
  · intro q chain running
    have stepped := chain.trans (executeStep_changes h running)
    exact ⟨stepped, fun _ => stepped⟩
  · exact fun _ keyDowns chain => chain.trans (deliverKey_changes keyDowns)
  · exact fun _ chain => chain.trans (settle_changes h)
  · exact fun _ chain => chain.tail (.timers _ _)

end Play

/-! ## Calls -/

/-- What a caller can ask of a session. -/
inductive Call (α : Type)
  | tick (tick : Tick)
  | advance (ms : α)

namespace Play

variable {σ α : Type} [Quantity α]

/-- Does what the caller asks. -/
def perform (h : Host σ) (p : Play σ α) : Call α → Option Interruption × Play σ α
  | .tick tick => p.tick h tick
  | .advance ms => p.advance h ms

/-- The play after some calls, whatever they gave the caller. -/
def after (h : Host σ) (p : Play σ α) (calls : List (Call α)) : Play σ α :=
  calls.foldl (fun p call => (p.perform h call).2) p

variable {h : Host σ} {I : Play σ α → Prop}

theorem after_append (p : Play σ α) (calls rest : List (Call α)) :
    p.after h (calls ++ rest) = (p.after h calls).after h rest := List.foldl_append

/-- What every tick keeps whatever the clock shows, every list of calls keeps. -/
theorem after_induction (tick : ∀ p t, I p → I (p.tick h t).2)
    (clock : ∀ p clock, I p → I { p with session := { p.session with clock } })
    (calls : List (Call α)) {p : Play σ α} (hp : I p) : I (p.after h calls) := by
  induction calls generalizing p with
  | nil => exact hp
  | cons call calls ih =>
    refine ih ?_
    cases call with
    | tick t => exact tick p t hp
    | advance ms =>
      have kept := Clock.advance_keeps (I := fun s : Option Interruption × Play σ α => I s.2)
        (fun t s => ((s.2.tick h t).1.isNone && !(s.2.tick h t).2.session.isHalted, s.2.tick h t))
        (fun t s hs => tick s.2 t hs) p.session.clock ms (none, p) hp
      change I (p.advance h ms).2
      unfold advance
      split
      · exact hp
      · exact clock _ _ kept

/-- What every change keeps, every list of calls keeps. -/
theorem after_keeps {P : Processor × Status → Prop} (change : ∀ {a b}, Change a b → P a → P b)
    (calls : List (Call α)) {p : Play σ α} (hp : P p.session.core) :
    P (p.after h calls).session.core := by
  refine after_induction (I := fun p => P p.session.core) (fun p t hp => ?_)
    (fun _ _ hp => hp) calls hp
  exact changes_keep change (tick_changes h t) hp

end Play

end Chip8
