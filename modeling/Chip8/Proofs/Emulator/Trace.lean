import Chip8.Proofs.Emulator.Reset
import Chip8.Proofs.Session.Trace

/-!
# The trace of a run

An emulator counts its instructions from power-on or from when it last began again. From there on
every so many of them were due for a line of the trace, and those that carried out a word got it
(`trace_after`). Where the turn came to a wait for a key or to an unknown word there is no line, nor
is there one for the next instruction instead, so the lines fall behind the count
(`trace_skips_wait`).
-/

namespace Chip8

namespace Emulator

variable {σ α : Type} [Quantity α] {h : Host σ} {bytes : List UInt8} {settings : Settings α}
  {host : σ}
  {e : Emulator σ α} {start : Play σ α}

/-- The plays from which instructions are counted: the one that an emulator starts with, and those
right after it began again. -/
inductive Begun (h : Host σ) (e : Emulator σ α) : Play σ α → Prop
  | on : Begun h e e.play
  | restart (requests : List (Request α)) : Begun h e (e.after h requests).play.restart
  | reset (requests : List (Request α)) : Begun h e (e.after h requests).reset.play

theorem traceEvery_restart (p : Play σ α) :
    p.restart.session.traceEvery = p.session.traceEvery := by
  rw [Play.restart, Play.session_setTone]

theorem traceEvery_reset (p : Play σ α) (program : List UInt8) :
    (p.reset program).session.traceEvery = p.session.traceEvery := traceEvery_restart _

/-- The interval of the trace stays as it was set. -/
theorem traceEvery_after (h : Host σ) (e : Emulator σ α) (requests : List (Request α)) :
    (e.after h requests).play.session.traceEvery = e.play.session.traceEvery := by
  refine after_induction (I := fun p => p.session.traceEvery = e.play.session.traceEvery)
    ?tick ?clock ?restart ?reset requests rfl rfl
  case tick =>
    exact fun p t same => (congrArg Session.traceEvery (Play.renew_tick h e.program p t)).trans same
  case clock => exact fun _ _ same => same
  case restart => exact fun p same => (traceEvery_restart p).trans same
  case reset => exact fun p same => (traceEvery_reset p e.program).trans same

theorem executed_restart (p : Play σ α) : p.restart.session.executed = 0 := by
  rw [Play.restart, Play.session_setTone]

theorem Begun.executed_eq (built : ofProgram? bytes settings host = .ok e)
    (begun : e.Begun h start) :
    start.session.executed = 0 := by
  cases begun with
  | on =>
    obtain ⟨s, set, rfl⟩ := ofProgram?_eq_ok_iff.1 built
    obtain ⟨-, clock, -, rfl⟩ := Session.ofProgram?_eq_ok_iff.1 set
    rfl
  | restart requests => exact executed_restart _
  | reset requests => exact executed_restart _

theorem Begun.traceEvery_eq (built : ofProgram? bytes settings host = .ok e)
    (begun : e.Begun h start) :
    start.session.traceEvery = traceInterval (.ofNat settings.traceEvery) := by
  have set : e.play.session.traceEvery = traceInterval (.ofNat settings.traceEvery) := by
    obtain ⟨s, set, rfl⟩ := ofProgram?_eq_ok_iff.1 built
    obtain ⟨-, clock, -, rfl⟩ := Session.ofProgram?_eq_ok_iff.1 set
    rfl
  rw [← set]
  cases begun with
  | on => rfl
  | restart requests => exact (traceEvery_restart _).trans (traceEvery_after h e requests)
  | reset requests => exact (traceEvery_reset _ _).trans (traceEvery_after h e requests)

/-- From where the instructions are counted, all calls keep to the law of the trace. -/
theorem Begun.traceLaw (built : ofProgram? bytes settings host = .ok e)
    (small : settings.traceEvery < twoPow 31) (begun : e.Begun h start) (calls : List (Call α)) :
    let p := start.after h calls
    TraceLaw settings.traceEvery p.session.executed (p.since start.journal.size) := by
  intro p
  have traced : p.Traced start.journal.size ∧ p.session.traceEvery = settings.traceEvery := by
    refine Play.after_induction (I := fun p => p.Traced start.journal.size ∧
      p.session.traceEvery = settings.traceEvery)
      (fun q t kept => ?_) (fun _ _ kept => ⟨⟨kept.1.began, kept.1.law⟩, kept.2⟩) calls ?_
    · exact ⟨kept.1.tick h t, (congrArg Session.traceEvery (Play.renew_tick h [] q t)).trans kept.2⟩
    · exact ⟨.begin (begun.executed_eq built),
        (begun.traceEvery_eq built).trans (traceInterval_ofNat small)⟩
  rw [← traced.2]
  exact traced.1.law

/-- Of the instructions since an emulator began, every so many were due for a line of the trace, as
many as the interval goes into their number. Those of them that carried out a word got one each, in
order, and there are no other lines. So the number of lines is that quotient exactly if no wait for
a key and no unknown word was due. -/
theorem trace_after (built : ofProgram? bytes settings host = .ok e)
    (small : settings.traceEvery < twoPow 31) (begun : e.Begun h start) (calls : List (Call α)) :
    let p := start.after h calls
    let events := p.since start.journal.size
    let due := everyNth settings.traceEvery (countedSteps events)
    p.session.executed = (countedSteps events).length ∧
    due.length = p.session.executed / settings.traceEvery ∧
    List.Forall₂ Traces (traceLines events) (due.filter StepResult.isExecuted) ∧
    ((traceLines events).length = p.session.executed / settings.traceEvery ↔
      ∀ result ∈ due, result.isExecuted = true) := by
  intro p events due
  obtain ⟨count, lines⟩ := begun.traceLaw built small calls
  have quotient : due.length = p.session.executed / settings.traceEvery := by
    rw [length_everyNth, ← count]
  refine ⟨count, quotient, lines, ?_⟩
  rw [lines.length_eq, ← quotient]
  exact List.length_filter_eq_length_iff

/-- After a reset, of four instructions every second one is due. The second one is carried out and
gets its line; the fourth one is an unknown word and gets none. -/
theorem trace_after_unknown_word :
    let settings : Settings Rat := ⟨600, 60, .standard, 2, .halt⟩
    let h : Host Unit := ⟨none, none, fun u => (0, u)⟩
    let ticks : List (Call Rat) := List.replicate 4 (.tick .instruction)
    settings.traceEvery < twoPow 31 ∧
    ∃ e, ofProgram? [0x60, 0x05, 0x61, 0x06, 0x62, 0x07, 0x51, 0x21] settings () = .ok e ∧
      let start := (e.after h [.call (.tick .instruction)]).reset.play
      e.Begun h start ∧
      let p := start.after h ticks
      let events := p.since start.journal.size
      p.session.executed = 4 ∧ p.session.executed / settings.traceEvery = 2 ∧
      everyNth 2 (countedSteps events) = [.executed 0x202 0x6106, .unknown 0x206 0x5121] ∧
      ∃ m, traceLines events = [Report.trace 0x202 0x6106 m] := by
  intro settings h ticks
  have small : settings.traceEvery < twoPow 31 := by decide
  obtain ⟨e, built⟩ :
      ∃ e, ofProgram? [0x60, 0x05, 0x61, 0x06, 0x62, 0x07, 0x51, 0x21] settings () = .ok e :=
    ⟨_, ofProgram?_eq_ok_iff.2 ⟨_, Session.ofProgram?_eq_ok_iff.2 ⟨by decide, _, rfl, rfl⟩, rfl⟩⟩
  refine ⟨small, e, built, ?_⟩
  intro start
  have begun : e.Begun h start := .reset _
  refine ⟨begun, ?_⟩
  intro p events
  obtain ⟨-, -, lines, -⟩ := trace_after built small begun ticks
  obtain ⟨executed, due⟩ : p.session.executed = 4 ∧
      everyNth 2 (countedSteps events) = [.executed 0x202 0x6106, .unknown 0x206 0x5121] := by
    cases built
    decide +kernel
  have quotient : p.session.executed / settings.traceEvery = 2 := congrArg (· / 2) executed
  refine ⟨executed, quotient, due, ?_⟩
  change List.Forall₂ Traces (traceLines events) ((everyNth 2 (countedSteps events)).filter _)
    at lines
  rw [due] at lines
  obtain ⟨line, rest, ⟨a, w, m, step, rfl⟩, silent, told⟩ := List.forall₂_cons_right_iff.1 lines
  cases step
  rw [List.forall₂_nil_right_iff.1 silent] at told
  exact ⟨m, told⟩

/-- A wait for a key that is the second instruction of two gets no line, although every second
instruction is due. -/
theorem trace_skips_wait :
    let settings : Settings Rat := ⟨600, 60, .standard, 2, .halt⟩
    let h : Host Unit := ⟨none, none, fun u => (0, u)⟩
    ∃ e, ofProgram? [0x60, 0x05, 0xF1, 0x0A] settings () = .ok e ∧
      let p := e.play.after h [.tick .instruction, .tick .instruction]
      let lines := traceLines (p.since e.play.journal.size)
      p.session.executed = 2 ∧ p.session.status = .awaitingKey 1 ∧ lines = [] ∧
      lines.length ≠ p.session.executed / settings.traceEvery := by
  intro settings h
  obtain ⟨e, built⟩ : ∃ e, ofProgram? [0x60, 0x05, 0xF1, 0x0A] settings () = .ok e :=
    ⟨_, ofProgram?_eq_ok_iff.2 ⟨_, Session.ofProgram?_eq_ok_iff.2 ⟨by decide, _, rfl, rfl⟩, rfl⟩⟩
  refine ⟨e, built, ?_⟩
  cases built
  decide +kernel

end Emulator

end Chip8
