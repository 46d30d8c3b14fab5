import Chip8.Proofs.Processor.Step
import Chip8.Proofs.Session.Alike
import Chip8.Settings

/-!
# Observers do not disturb

An audience is told what happens in a session: its display is given the frames and does not ask to
quit, its audio output is told the tone, its log takes the lines. What an audience leaves in a
session is the mark that the screen was drawn on and the count of frames; the trace interval is
there for the log alone. A session apart from these three is `unobserved`, and a tick cannot tell
sessions apart that are the same unobserved (`Session.congruence_unobserved`).
-/

namespace Chip8

/-! ## The mark of a drawn screen -/

namespace Machine

/-- The machine without the mark that its screen was drawn on. -/
def undrawn (m : Machine) : Machine := { m with drawn := false }

theorem eq_of_undrawn_eq {m m' : Machine} (same : m.undrawn = m'.undrawn) :
    m' = { m with drawn := m'.drawn } := by
  have all := congrArg (fun n => { n with drawn := m'.drawn }) same
  exact all.symm

theorem undrawn_setSlot (m : Machine) (n : Int) (w : UInt16) :
    m.undrawn.setSlot n w = (m.setSlot n w).undrawn := by
  unfold setSlot
  split <;> rfl

end Machine

def Processor.undrawn (c : Processor) : Processor := { c with machine := c.machine.undrawn }

/-- No instruction looks at the mark. -/
theorem Instr.execute_undrawn (d : Dialect) (e : UInt8) (m : Machine) (i : Instr) :
    Paired (fun a b => a.undrawn = b.undrawn) (i.execute d e m.undrawn) (i.execute d e m) := by
  cases i with
  | ret =>
    rw [execute_ret, execute_ret]
    exact .ite ⟨rfl, rfl⟩ ⟨rfl, rfl⟩
  | call target =>
    have pushed := m.undrawn_setSlot m.sp m.pc.returnWord
    rw [execute_call, execute_call]
    refine .ite ⟨rfl, rfl⟩ (.ite ⟨rfl, rfl⟩ ⟨rfl, ?_⟩)
    exact congrArg (fun (n : Machine) => { n with sp := Counter.add m.sp 1, drawn := false }) pushed
  | draw x y height =>
    rw [execute_draw, execute_draw]
    exact .ite ⟨rfl, rfl⟩ ⟨rfl, rfl⟩
  | addIndex x => cases d with | mk flag => cases flag <;> exact ⟨rfl, rfl⟩
  | storeDigits x =>
    rw [execute_storeDigits, execute_storeDigits]
    exact .ite ⟨rfl, rfl⟩ ⟨rfl, rfl⟩
  | saveRegs x =>
    rw [execute_saveRegs, execute_saveRegs]
    exact .ite ⟨rfl, rfl⟩ ⟨rfl, rfl⟩
  | loadRegs x =>
    rw [execute_loadRegs, execute_loadRegs]
    exact .ite ⟨rfl, rfl⟩ ⟨rfl, rfl⟩
  | _ => exact ⟨rfl, rfl⟩

theorem Word.execute_undrawn (d : Dialect) (e : UInt8) (m : Machine) (w : UInt16) :
    Paired (fun a b => a.undrawn = b.undrawn) (Word.execute d e m.undrawn w)
      (Word.execute d e m w) := by
  cases word : Instr.ofWord? w with
  | none =>
    rw [Word.execute_of_none _ _ _ word, Word.execute_of_none _ _ _ word]
    exact ⟨rfl, rfl⟩
  | some i =>
    rw [Word.execute_of_some _ _ _ word, Word.execute_of_some _ _ _ word]
    exact i.execute_undrawn d e m

namespace Processor

theorem conclude_undrawn (c : Processor) (a : Int) (w : UInt16) (outcome : Outcome) {m m' : Machine}
    (same : m.undrawn = m'.undrawn) :
    Paired (fun a b => a.undrawn = b.undrawn) (c.undrawn.conclude a w (outcome, m))
      (c.conclude a w (outcome, m')) := by
  rw [Machine.eq_of_undrawn_eq same]
  cases outcome with
  | proceed move => cases move <;> exact ⟨rfl, rfl⟩
  | _ => exact ⟨rfl, rfl⟩

theorem step_undrawn (c : Processor) (e : UInt8) :
    Paired (fun a b => a.undrawn = b.undrawn) (c.undrawn.step e) (c.step e) := by
  cases fetch : c.machine.pc.fetchable? with
  | none =>
    rw [step_of_not_fetchable fetch, step_of_not_fetchable (by exact fetch)]
    exact ⟨rfl, rfl⟩
  | some a =>
    obtain ⟨outcome, m, m', undrawn, plain, same⟩ :=
      (Word.execute_undrawn c.dialect e c.machine (c.fetch a)).exists_eq
    rw [step_of_fetchable fetch, step_of_fetchable (by exact fetch), plain]
    exact undrawn ▸ conclude_undrawn c a (c.fetch a) outcome same

/-- Processors that differ in the mark alone make the same step. -/
theorem step_congr {c c' : Processor} (same : c.undrawn = c'.undrawn) (e : UInt8) :
    Paired (fun a b => a.undrawn = b.undrawn) (c.step e) (c'.step e) := by
  have first := c.step_undrawn e
  have second := c'.step_undrawn e
  rw [same] at first
  exact ⟨first.1.symm.trans second.1, first.2.symm.trans second.2⟩

end Processor

/-! ## Sessions apart from what observers leave in them -/

namespace Session

variable {α : Type} {s t : Session α}

/-- A session without the mark, the count of frames and the trace interval. -/
def unobserved (s : Session α) : Session α :=
  { s with processor := s.processor.undrawn, presented := 0, traceEvery := 0 }

theorem exists_eq_of_unobserved_eq (same : s.unobserved = t.unobserved) :
    ∃ drawn presented traceEvery,
      t = { s.modifyMachine fun m => { m with drawn } with presented, traceEvery } := by
  refine ⟨t.machine.drawn, t.presented, t.traceEvery, ?_⟩
  have all := congrArg (fun u : Session α =>
    { u.modifyMachine fun m => { m with drawn := t.machine.drawn } with
      presented := t.presented
      traceEvery := t.traceEvery }) same
  exact all.symm

/-- A tick cannot tell sessions apart that are the same unobserved. -/
theorem congruence_unobserved : Congruence fun s t : Session α => s.unobserved = t.unobserved := by
  constructor
  case step =>
    intro s t same e
    have undrawn : s.processor.undrawn = t.processor.undrawn :=
      congrArg (fun u : Session α => u.processor) same
    have stepped := Processor.step_congr undrawn e
    exact ⟨stepped.1,
      congrArg₂ (fun (u : Session α) processor => { u with processor }) same stepped.2⟩
  all_goals
    intro s t same
    obtain ⟨drawn, presented, traceEvery, rfl⟩ := exists_eq_of_unobserved_eq same
    intros
    rfl

end Session

/-- The host with a display that does not ask to quit, or with none. -/
def Host.shownTo {σ : Type} (h : Host σ) (display : Bool) : Host σ :=
  { h with present := if display then some fun _ s => (false, s) else none }

namespace Play

/-- Plays with the same host, whose sessions are the same apart from what observers leave in
them. -/
abbrev Undisturbed {σ α : Type} : Play σ α → Play σ α → Prop :=
  Related (fun s t => s.unobserved = t.unobserved) Eq

variable {σ α : Type}

/-- Whether there is a display or not, nobody asks to quit, and what a frame leaves in the session
is a mark and a count. -/
theorem undisturbed_handOver (h : Host σ) (display : Bool) (p : Play σ α) :
    (p.handOver (h.shownTo display)).1 = false ∧
    Undisturbed p (p.handOver (h.shownTo display)).2 := by
  cases display with
  | false => exact ⟨rfl, rfl, rfl⟩
  | true =>
    have shows : (h.shownTo true).present = some fun _ s => (false, s) := rfl
    unfold Play.handOver
    rw [shows]
    dsimp only
    split <;> exact ⟨rfl, rfl, rfl⟩

/-- Whoever watches, plays go on undisturbed. -/
theorem simulation_shownTo (h : Host σ) (left right : Bool) :
    Simulation (α := α) (h.shownTo left) (h.shownTo right)
      (fun s t => s.unobserved = t.unobserved) Eq where
  sessions := Session.congruence_unobserved
  poll := (Host.Alike.refl h).poll
  entropy := (Host.Alike.refl h).entropy
  handOver := by
    intro p q same
    obtain ⟨stays, before⟩ := undisturbed_handOver h left p
    obtain ⟨stays', after⟩ := undisturbed_handOver h right q
    refine ⟨stays.trans stays'.symm, ?_, ?_⟩
    · rw [← before.session, ← after.session, same.session]
    · rw [← before.host, ← after.host, same.host]

end Play

/-! ## Audiences -/

/-- Those who are told what happens in a session and never answer. A display and an audio output may
be missing. -/
structure Audience (ρ : Type) where
  display : Option (Screen → ρ → ρ)
  audio : Option (Bool → ρ → ρ)
  log : Level → String → ρ → ρ

/-- An audience takes in an event. -/
def Audience.hear {ρ : Type} (a : Audience ρ) (state : ρ) : Event → ρ
  | .presented screen => a.display.elim state (· screen state)
  | .tone on => a.audio.elim state (· on state)
  | .logged level line => a.log level line state
  | _ => state

/-- A play together with the state of its audience. -/
structure Attended (σ ρ α : Type) where
  play : Play σ α
  audience : ρ

namespace Attended

variable {σ ρ τ α : Type} [Quantity α] {h : Host σ} {a : Audience ρ} {b : Audience τ}

/-- Does what the caller asks, and tells the audience what has happened. -/
def perform (h : Host σ) (a : Audience ρ) (d : Attended σ ρ α) (call : Call α) : Attended σ ρ α :=
  let p := (d.play.perform (h.shownTo a.display.isSome) call).2
  ⟨{ p with journal := #[] }, p.journal.foldl a.hear d.audience⟩

def after (h : Host σ) (a : Audience ρ) (d : Attended σ ρ α) (calls : List (Call α)) :
    Attended σ ρ α :=
  calls.foldl (perform h a) d

theorem play_after {d : Attended σ ρ α} {e : Attended σ τ α} (same : d.play.Undisturbed e.play)
    (calls : List (Call α)) : (d.after h a calls).play.Undisturbed (e.after h b calls).play := by
  induction calls generalizing d e with
  | nil => exact same
  | cons call calls ih =>
    have performed :=
      ((Play.simulation_shownTo h a.display.isSome b.display.isSome).perform same call).2
    exact ih ⟨performed.session, performed.host⟩

/-- Whatever the audiences are and whatever is traced, the same calls make the same of a session,
except for the mark that the screen was drawn on and the count of frames. -/
theorem undisturbed_after {program : List UInt8} {settings : Settings α} {s : Session α}
    (setup : Session.ofProgram? program settings = .ok s) (every : Nat) (h : Host σ) (host : σ)
    (a : Audience ρ) (b : Audience τ) (x : ρ) (y : τ) (calls : List (Call α)) :
    ∃ t, Session.ofProgram? program { settings with traceEvery := every } = .ok t ∧
      let p := (after h a ⟨.new s host, x⟩ calls).play.session
      let q := (after h b ⟨.new t host, y⟩ calls).play.session
      q.status = p.status ∧ q.haltReason? = p.haltReason? ∧ q.clock = p.clock ∧
        q.executed = p.executed ∧
      q.processor.unknowns = p.processor.unknowns ∧
      q.machine = { p.machine with drawn := q.machine.drawn } := by
  obtain ⟨fits, clock, created, rfl⟩ := Session.ofProgram?_eq_ok_iff.1 setup
  refine ⟨_, Session.ofProgram?_eq_ok_iff.2 ⟨fits, clock, created, rfl⟩, ?_⟩
  intro p q
  have start : Play.Undisturbed
      (Play.new (.new (.new (.startWith program) settings.dialect) clock settings.faultMode
        (traceInterval (.ofNat settings.traceEvery))) host)
      (Play.new (.new (.new (.startWith program) settings.dialect) clock settings.faultMode
        (traceInterval (.ofNat every))) host) := ⟨rfl, rfl⟩
  have same := play_after (h := h) (a := a) (b := b) (d := ⟨_, x⟩) (e := ⟨_, y⟩) start calls
  obtain ⟨drawn, presented, traceEvery, session⟩ := Session.exists_eq_of_unobserved_eq same.session
  change q = _ at session
  rw [session]
  exact ⟨rfl, rfl, rfl, rfl, rfl, rfl⟩

/-- A program that draws a line and then sounds, before a display, an audio output and a log of
every instruction, and before nobody. -/
theorem undisturbed_after_drawing :
    let program : List UInt8 := [0xD0, 0x01, 0x60, 0x05, 0xF0, 0x18, 0x12, 0x06]
    let settings : Settings Rat := ⟨600, 60, .standard, 1, .halt⟩
    let h : Host Unit := ⟨none, none, fun u => (0, u)⟩
    let watching : Audience (Nat × List Bool × Nat) :=
      ⟨some fun _ x => (x.1 + 1, x.2), some fun on x => (x.1, x.2.1 ++ [on], x.2.2),
        fun _ _ x => (x.1, x.2.1, x.2.2 + 1)⟩
    let away : Audience Unit := ⟨none, none, fun _ _ u => u⟩
    let calls : List (Call Rat) :=
      [.tick .instruction, .tick .instruction, .tick .instruction, .advance 5]
    ∃ s t, Session.ofProgram? program settings = .ok s ∧
      Session.ofProgram? program { settings with traceEvery := 0 } = .ok t ∧
      let d := after h watching ⟨.new s (), 0, [], 0⟩ calls
      let e := after h away ⟨.new t (), ()⟩ calls
      d.audience = (1, [true], 6) ∧ d.play.session.presented = 1 ∧ e.play.session.presented = 0 ∧
      d.play.session.machine.drawn = false ∧
      e.play.session.machine = { d.play.session.machine with drawn := true } ∧
      e.play.session.clock = d.play.session.clock := by
  intro program settings h watching away calls
  obtain ⟨s, setup⟩ : ∃ s, Session.ofProgram? program settings = .ok s :=
    ⟨_, Session.ofProgram?_eq_ok_iff.2 ⟨by decide, _, rfl, rfl⟩⟩
  obtain ⟨t, again, -, -, clock, -, -, machine⟩ :=
    undisturbed_after setup 0 h () watching away (0, [], 0) () calls
  have told : (after h watching ⟨.new s (), 0, [], 0⟩ calls).audience = (1, [true], 6) ∧
      (after h watching ⟨.new s (), 0, [], 0⟩ calls).play.session.presented = 1 ∧
      (after h watching ⟨.new s (), 0, [], 0⟩ calls).play.session.machine.drawn = false := by
    cases setup
    decide +kernel
  have untold : (after h away ⟨.new t (), ()⟩ calls).play.session.presented = 0 ∧
      (after h away ⟨.new t (), ()⟩ calls).play.session.machine.drawn = true := by
    cases again
    decide +kernel
  rw [untold.2] at machine
  exact ⟨s, t, setup, again, told.1, told.2.1, untold.1, told.2.2, machine, clock⟩

end Attended

end Chip8
