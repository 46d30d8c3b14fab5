import Chip8.Proofs.Clock.Delivery
import Chip8.Proofs.Session.Calls

/-!
# Two plays side by side

Two plays are related by a relation of their sessions and one of their hosts. If a tick cannot tell
the sessions apart and the hosts answer alike, then whatever is asked of both, the plays stay
related and give their callers the same (`Simulation.perform`, `Simulation.after`).
-/

namespace Chip8

/-- The same answer, and related states behind it. -/
def Paired {β σ τ : Type} (R : σ → τ → Prop) (a : β × σ) (b : β × τ) : Prop := a.1 = b.1 ∧ R a.2 b.2

theorem Paired.exists_eq {β σ τ : Type} {R : σ → τ → Prop} {a : β × σ} {b : β × τ}
    (h : Paired R a b) :
    ∃ answer x y, a = (answer, x) ∧ b = (answer, y) ∧ R x y :=
  ⟨a.1, a.2, b.2, rfl, Prod.ext h.1.symm rfl, h.2⟩

theorem Paired.of_eq {β σ : Type} (f : σ → β × σ) (x y : σ) (same : x = y) :
    Paired Eq (f x) (f y) := by
  subst same
  exact ⟨rfl, rfl⟩

theorem Paired.ite {β σ τ : Type} {R : σ → τ → Prop} {c : Prop} [Decidable c] {a a' : β × σ}
    {b b' : β × τ} (h : Paired R a b) (h' : Paired R a' b') :
    Paired R (if c then a else a') (if c then b else b') := by
  split
  · exact h
  · exact h'

namespace Clock

variable {α σ τ : Type} [Quantity α] {R : σ → τ → Prop} {f : Tick → σ → Bool × σ}
  {g : Tick → τ → Bool × τ}

theorem replay_paired (same : ∀ tick x y, R x y → Paired R (f tick x) (g tick y)) (m n : Nat)
    (c : Clock α) {x : σ} {y : τ} (hxy : R x y) :
    Paired R (c.replay m n f x) (c.replay m n g y) := by
  fun_induction replay m n f c x generalizing y with
  | case1 c x none =>
    rw [replay_of_none none]
    exact ⟨rfl, hxy⟩
  | case2 c x tick next x' received ih =>
    obtain ⟨answer, related⟩ := same tick x y hxy
    rw [received] at answer related
    rw [replay_of_some next, ← answer]
    exact ih related
  | case3 c x tick next x' received =>
    obtain ⟨answer, related⟩ := same tick x y hxy
    rw [received] at answer related
    rw [replay_of_some next, ← answer]
    exact ⟨rfl, related⟩

theorem advance_paired (same : ∀ tick x y, R x y → Paired R (f tick x) (g tick y)) (c : Clock α)
    (ms : α) {x : σ} {y : τ} (hxy : R x y) : Paired R (c.advance ms f x) (c.advance ms g y) := by
  unfold advance
  split
  · exact replay_paired same _ _ _ hxy
  · exact ⟨rfl, hxy⟩

end Clock

/-! ## Sessions -/

/-- A relation of sessions that a tick cannot tell apart: related sessions agree on what decides how
a tick goes on, and what a tick does to them keeps them related. -/
structure Session.Congruence {α : Type} (V : Session α → Session α → Prop) : Prop where
  status : ∀ {s t}, V s t → s.status = t.status
  toneOn : ∀ {s t}, V s t → s.toneOn = t.toneOn
  faultMode : ∀ {s t}, V s t → s.faultMode = t.faultMode
  clock : ∀ {s t}, V s t → s.clock = t.clock
  sounding : ∀ {s t}, V s t → s.machine.sounding = t.machine.sounding
  drawsRandom : ∀ {s t}, V s t → s.processor.drawsRandom = t.processor.drawsRandom
  setStatus : ∀ {s t}, V s t → ∀ status, V { s with status } { t with status }
  setTone : ∀ {s t}, V s t → ∀ toneOn, V { s with toneOn } { t with toneOn }
  setClock : ∀ {s t}, V s t → ∀ clock, V { s with clock } { t with clock }
  count : ∀ {s t}, V s t →
    V { s with executed := s.executed + 1 } { t with executed := t.executed + 1 }
  keys : ∀ {s t}, V s t → ∀ keypad,
    V (s.modifyMachine fun m => { m with keypad }) (t.modifyMachine fun m => { m with keypad })
  time : ∀ {s t}, V s t →
    V (s.modifyMachine Machine.tickTimers) (t.modifyMachine Machine.tickTimers)
  resume : ∀ {s t}, V s t → ∀ x key,
    V { s with processor := s.processor.resume x key }
      { t with processor := t.processor.resume x key }
  step : ∀ {s t}, V s t → ∀ e,
    Paired (fun c d => V { s with processor := c } { t with processor := d }) (s.processor.step e)
      (t.processor.step e)

namespace Play

/-- Plays with related sessions and related hosts. -/
structure Related {σ τ α : Type} (V : Session α → Session α → Prop) (R : σ → τ → Prop)
    (p : Play σ α) (q : Play τ α) :
    Prop where
  session : V p.session q.session
  host : R p.host q.host

/-- Hosts that give the same polls and random bytes, and displays that keep plays related. -/
structure Simulation {σ τ α : Type} (h : Host σ) (k : Host τ) (V : Session α → Session α → Prop)
    (R : σ → τ → Prop) :
    Prop where
  sessions : Session.Congruence V
  poll : Option.Rel (fun f g => ∀ x y, R x y → Paired R (f x) (g y)) h.poll k.poll
  entropy : ∀ x y, R x y → Paired R (h.entropy x) (k.entropy y)
  handOver : ∀ {p q}, Related V R p q → Paired (Related V R) (p.handOver h) (q.handOver k)

namespace Related

variable {σ τ α : Type} {V : Session α → Session α → Prop} {R : σ → τ →
  Prop} {p : Play σ α} {q : Play τ α}

/-! ## What is done without the host -/

/-- What was noted does not matter. -/
theorem note (s : Related V R p q) (e e' : Event) : Related V R (p.note e) (q.note e') :=
  ⟨s.session, s.host⟩

theorem logs (s : Related V R p q) (lines : List String) :
    Related V R (lines.foldl (fun p line => p.log .error line) p)
      (lines.foldl (fun q line => q.log .error line) q) := by
  induction lines generalizing p q with
  | nil => exact s
  | cons line lines ih => exact ih (s.note _ _)

variable (cong : Session.Congruence V)

include cong

theorem isHalted (s : Related V R p q) : p.session.isHalted = q.session.isHalted := by
  rw [Session.isHalted, Session.isHalted, Session.haltReason?, Session.haltReason?,
    cong.status s.session]

theorem setTone (s : Related V R p q) (on : Bool) : Related V R (p.setTone on) (q.setTone on) := by
  unfold Play.setTone
  rw [cong.toneOn s.session]
  split
  · exact s
  · exact ⟨cong.setTone s.session on, s.host⟩

theorem halt (s : Related V R p q) (reason : HaltReason) :
    Related V R (p.halt reason) (q.halt reason) := by
  have stopped : Related V R { p with session := { p.session with status := .halted reason } }
      { q with session := { q.session with status := .halted reason } } :=
    ⟨cong.setStatus s.session (.halted reason), s.host⟩
  exact stopped.setTone cong false

theorem deliverKey (s : Related V R p q) (keyDowns : List Number) :
    Related V R (p.deliverKey keyDowns) (q.deliverKey keyDowns) := by
  unfold Play.deliverKey
  rw [cong.status s.session]
  split
  · next x key _ _ => exact ⟨cong.setStatus (cong.resume s.session x key) .running, s.host⟩
  · exact s

/-- Whether a trace line is logged does not matter. -/
theorem book (s : Related V R p q) (result : StepResult) :
    Paired (Related V R) (p.book result) (q.book result) := by
  have counted : Related V R p.countInstruction q.countInstruction := ⟨cong.count s.session, s.host⟩
  cases result with
  | executed a w =>
    refine ⟨rfl, ?_⟩
    simp only [Play.book]
    split <;> split <;> exact ⟨counted.session, counted.host⟩
  | awaitingKey a w x => exact ⟨rfl, cong.setStatus counted.session (.awaitingKey x), s.host⟩
  | unknown a w => exact ⟨rfl, counted.note _ _⟩
  | faulted f =>
    have halted := (s.halt cong (.fault f)).logs (faultLines f)
    refine ⟨?_, halted⟩
    simp only [Play.book, cong.faultMode halted.session]
  | lost => exact ⟨rfl, s⟩

end Related

namespace Simulation

variable {σ τ α : Type} {h : Host σ} {k : Host τ} {V : Session α → Session α → Prop}
  {R : σ → τ → Prop} {p : Play σ α} {q : Play τ α}

/-! ## What asks the host -/

theorem pollInput (sim : Simulation h k V R) (s : Related V R p q) :
    Paired (Related V R) (p.pollInput h) (q.pollInput k) := by
  have polls := sim.poll
  unfold Play.pollInput
  revert polls
  generalize h.poll = a
  generalize k.poll = b
  rintro (related | _)
  · obtain ⟨answer, host⟩ := related _ _ s.host
    refine ⟨congrArg some answer, ?_, host⟩
    simp only [Play.note, answer]
    exact sim.sessions.keys s.session _
  · exact ⟨rfl, s⟩

theorem drawByte (sim : Simulation h k V R) (s : Related V R p q) :
    Paired R (p.drawByte h) (q.drawByte k) := by
  unfold Play.drawByte
  rw [sim.sessions.drawsRandom s.session]
  exact .ite (sim.entropy _ _ s.host) ⟨rfl, s.host⟩

theorem executeStep (sim : Simulation h k V R) (s : Related V R p q) :
    Paired (Related V R) (p.executeStep h) (q.executeStep k) := by
  obtain ⟨byte, x, y, hp, hq, host⟩ := (sim.drawByte s).exists_eq
  obtain ⟨result, c, d, hc, hd, session⟩ := (sim.sessions.step s.session byte).exists_eq
  have stepped : Related V R (p.stepped c result x) (q.stepped d result y) := ⟨session, host⟩
  rw [executeStep_eq, executeStep_eq, hp, hq]
  dsimp only
  rw [hc, hd]
  exact stepped.book sim.sessions result

/-! ## Ticks -/

theorem settle (sim : Simulation h k V R) (s : Related V R p q) :
    Related V R (p.settle h) (q.settle k) := by
  obtain ⟨quit, p', q', hp, hq, s'⟩ := (sim.handOver s).exists_eq
  unfold Play.settle
  rw [hp, hq]
  dsimp only
  rw [sim.sessions.sounding s'.session, s'.isHalted sim.sessions]
  split
  · exact s'.halt sim.sessions .userQuit
  · exact s'.setTone sim.sessions _

theorem tickInstruction (sim : Simulation h k V R) (s : Related V R p q) :
    Paired (Related V R) (p.tickInstruction h) (q.tickInstruction k) := by
  obtain ⟨poll, p', q', hp, hq, s'⟩ := (sim.pollInput s).exists_eq
  obtain ⟨thrown, p'', q'', hp', hq', s''⟩ := (sim.executeStep s').exists_eq
  unfold Play.tickInstruction
  rw [s.isHalted sim.sessions, hp, hq]
  dsimp only
  rw [sim.sessions.status s'.session, hp', hq']
  split
  · exact ⟨rfl, s⟩
  split
  · exact ⟨rfl, s'.halt sim.sessions .userQuit⟩
  split
  · exact ⟨rfl, sim.settle (s'.deliverKey sim.sessions _)⟩
  cases thrown with
  | some i => exact ⟨rfl, s''⟩
  | none => exact ⟨rfl, sim.settle (s''.deliverKey sim.sessions _)⟩

theorem tickTimer (sim : Simulation h k V R) (s : Related V R p q) :
    Related V R (p.tickTimer h) (q.tickTimer k) := by
  unfold Play.tickTimer
  rw [s.isHalted sim.sessions]
  split
  · exact s
  · exact sim.settle ⟨sim.sessions.time s.session, s.host⟩

theorem tick (sim : Simulation h k V R) (s : Related V R p q) (t : Tick) :
    Paired (Related V R) (p.tick h t) (q.tick k t) := by
  cases t with
  | instruction => exact sim.tickInstruction s
  | timer => exact ⟨rfl, sim.tickTimer s⟩

/-! ## Calls -/

variable [Quantity α]

theorem advance (sim : Simulation h k V R) (s : Related V R p q) (ms : α) :
    Paired (Related V R) (p.advance h ms) (q.advance k ms) := by
  have ticks (t : Tick) (a : Option Interruption × Play σ α) (b : Option Interruption × Play τ α)
      (ab : Paired (Related V R) a b) :
      Paired (Paired (Related V R))
        ((a.2.tick h t).1.isNone && !(a.2.tick h t).2.session.isHalted, a.2.tick h t)
        ((b.2.tick k t).1.isNone && !(b.2.tick k t).2.session.isHalted, b.2.tick k t) := by
    have ticked := sim.tick ab.2 t
    refine ⟨?_, ticked⟩
    simp only [ticked.1, ticked.2.isHalted sim.sessions]
  have passed :=
    Clock.advance_paired ticks q.session.clock ms (x := (none, p)) (y := (none, q)) ⟨rfl, s⟩
  unfold Play.advance
  rw [s.isHalted sim.sessions, sim.sessions.clock s.session]
  split
  · exact ⟨rfl, s⟩
  · refine ⟨passed.2.1, ?_, passed.2.2.host⟩
    have stamped := sim.sessions.setClock passed.2.2.session
    dsimp only
    rw [← passed.1]
    exact stamped _

theorem perform (sim : Simulation h k V R) (s : Related V R p q) (call : Call α) :
    Paired (Related V R) (p.perform h call) (q.perform k call) := by
  cases call with
  | tick t => exact sim.tick s t
  | advance ms => exact sim.advance s ms

theorem after (sim : Simulation h k V R) (s : Related V R p q) (calls : List (Call α)) :
    Related V R (p.after h calls) (q.after k calls) := by
  induction calls generalizing p q with
  | nil => exact s
  | cons call calls ih => exact ih (sim.perform s call).2

end Simulation

end Play

end Chip8
