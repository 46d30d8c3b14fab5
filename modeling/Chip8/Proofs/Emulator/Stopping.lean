import Chip8.Proofs.Emulator.Requests
import Chip8.Proofs.Session.Advance
import Chip8.Proofs.Session.Signals
import Chip8.Proofs.Session.Watched
import Mathlib.Data.List.Induction

/-!
# Stopping

A tick stops a session in three ways: its step faults, or its poll or its display asks to quit
(`Account.Ticked.stops`). The session then takes no more of the ticks that are due, and whatever is
asked of it afterwards changes nothing. Until then each tick of the clock is met with one poll or
with one countdown, so that the counts of the clock are the counts of these.
-/

namespace Chip8

theorem StepResult.halted_iff {result : StepResult} :
    (∃ reason, result.status = .halted reason) ↔ ∃ f, result = .faulted f := by
  constructor
  · rintro ⟨reason, halted⟩
    cases result with
    | faulted f => exact ⟨f, rfl⟩
    | _ => cases halted
  · rintro ⟨f, rfl⟩
    exact ⟨_, rfl⟩

namespace Account

variable {σ : Type} {h : Host σ} {c c' : Account (σ × List Asked)}

def Faulted (c c' : Account (σ × List Asked)) : Prop := ∃ f, c'.steps = c.steps ++ [.faulted f]

def QuitIn (asked : List Asked) : Prop := ∃ a ∈ asked, a.quits = true

theorem not_quitIn_nil : ¬ QuitIn [] := by
  rintro ⟨a, member, -⟩
  cases member

theorem quitIn_append {asked rest : List Asked} :
    QuitIn (asked ++ rest) ↔ QuitIn asked ∨ QuitIn rest := by
  simp only [QuitIn, List.mem_append, or_and_right, exists_or]

theorem quitIn_singleton {a : Asked} : QuitIn [a] ↔ a.quits = true := by
  simp only [QuitIn, List.mem_singleton, exists_eq_left]

theorem quitIn_poll {poll : Option Poll} :
    QuitIn (poll.map Asked.poll).toList ↔ poll.any (·.quit) = true := by
  cases poll with
  | none => exact iff_of_false not_quitIn_nil Bool.false_ne_true
  | some answer => exact quitIn_singleton

theorem not_faulted_of_eq (same : c'.steps = c.steps) : ¬ Faulted c c' := by
  rintro ⟨f, faulted⟩
  rw [same] at faulted
  cases List.self_eq_append_right.1 faulted

theorem faulted_iff {result : StepResult} (one : c'.steps = c.steps ++ [result]) :
    Faulted c c' ↔ ∃ f, result = .faulted f := by
  unfold Faulted
  rw [one]
  simp only [List.append_cancel_left_eq, List.cons.injEq, and_true]

theorem alive_iff_of_polled {poll : Option Poll} (polled : Polled h.watched c poll c') :
    c'.Alive ↔ c.Alive := by
  cases polled <;> exact Iff.rfl

theorem not_alive_iff {σ : Type} {c : Account σ} :
    ¬ c.Alive ↔ ∃ reason, c.status = .halted reason := by
  unfold Alive
  exact not_forall_not

theorem alive_delivered {σ : Type} (c : Account σ) (key : Option Key) :
    (c.delivered key).Alive ↔ c.Alive := by
  unfold delivered
  split
  · next x waits =>
    cases key with
    | none => exact Iff.rfl
    | some key => exact iff_of_true (alive_of_running rfl) (alive_of_waiting waits)
  · exact Iff.rfl

/-- The display is all that the end of a tick asks, and it alone can stop a session there. -/
theorem Settled.stops (settled : Settled h.watched c c') :
    ∃ asked, c'.host.2 = c.host.2 ++ asked ∧ (¬ c'.Alive ↔ ¬ c.Alive ∨ QuitIn asked) := by
  cases settled with
  | idle => exact ⟨[], (List.append_nil _).symm, (or_iff_left not_quitIn_nil).symm⟩
  | shown displays drawn alive =>
    obtain ⟨present, -, rfl⟩ := Option.map_eq_some_iff.1 displays
    refine ⟨_, rfl, ?_⟩
    rw [quitIn_singleton, or_iff_right (not_not_intro alive), not_alive_iff]
    constructor
    · rintro ⟨reason, halted⟩
      by_contra stays
      exact alive reason ((if_neg stays).symm.trans halted)
    · intro quits
      exact ⟨.userQuit, if_pos quits⟩

/-- A tick stops a session by a fault or by an answer to quit, and in no other way. -/
theorem Ticked.stops {t : Tick} (ticked : c.Ticked h.watched t c') (alive : c.Alive) :
    ∃ asked, c'.host.2 = c.host.2 ++ asked ∧ (¬ c'.Alive ↔ Faulted c c' ∨ QuitIn asked) := by
  cases ticked with
  | stopped halted => exact absurd alive halted
  | timer _ settled =>
    obtain ⟨asked, host, stops⟩ := settled.stops
    refine ⟨asked, host, ?_⟩
    have going : (c.modifyMachine Machine.tickTimers).Alive := alive
    have same : c'.steps = c.steps := settled.steps_eq
    rw [stops, or_iff_right (not_not_intro going), or_iff_right (not_faulted_of_eq same)]
  | @quit poll c₁ _ polled quits =>
    have host := asked_of_polled polled
    exact ⟨_, host, iff_of_true (not_alive_iff.2 ⟨_, rfl⟩) (.inr (quitIn_poll.2 quits))⟩
  | @waited poll c₁ _ x key waits polled stays settled =>
    obtain ⟨asked, host, stops⟩ := settled.stops
    refine ⟨(poll.map Asked.poll).toList ++ asked, ?_, ?_⟩
    · rw [host, host_delivered, asked_of_polled polled, List.append_assoc]
    · have same : c'.steps = c.steps :=
        (settled.steps_eq.trans (steps_delivered _ _)).trans polled.steps_eq
      rw [stops, alive_delivered, alive_iff_of_polled polled, or_iff_right (not_not_intro alive),
        quitIn_append, or_iff_right (mt quitIn_poll.1 stays), or_iff_right (not_faulted_of_eq same)]
  | @stepped poll c₁ _ key running polled stays settled =>
    obtain ⟨asked, host, stops⟩ := settled.stops
    refine ⟨(poll.map Asked.poll).toList ++ asked, ?_, ?_⟩
    · rw [host, host_delivered, asked_stepped, asked_of_polled polled, List.append_assoc]
    · have one : c'.steps = c.steps ++ [(c₁.processor.step (c₁.drawByte h.watched).1).1] := by
        rw [settled.steps_eq, steps_delivered, ← polled.steps_eq]
        rfl
      have faults : ¬ (c₁.stepped (c₁.drawByte h.watched)).Alive ↔ _ :=
        not_alive_iff.trans StepResult.halted_iff
      rw [stops, alive_delivered, faults, faulted_iff one, quitIn_append,
        or_iff_right (mt quitIn_poll.1 stays)]
  | @cut poll c₁ running polled stays cuts =>
    refine ⟨(poll.map Asked.poll).toList, ?_, ?_⟩
    · rw [asked_stepped, asked_of_polled polled]
    · have one : (c₁.stepped (c₁.drawByte h.watched)).steps =
          c.steps ++ [(c₁.processor.step (c₁.drawByte h.watched).1).1] := by
        rw [← polled.steps_eq]
        rfl
      have faults : ¬ (c₁.stepped (c₁.drawByte h.watched)).Alive ↔ _ :=
        not_alive_iff.trans StepResult.halted_iff
      rw [faults, faulted_iff one, or_iff_left (mt quitIn_poll.1 stays)]

/-- The timers count down, and nothing else happens to the machine but that a frame is handed
over. -/
theorem Ticked.machine_timer {σ : Type} {h : Host σ} {c c' : Account σ}
    (ticked : c.Ticked h .timer c') (alive : c.Alive) :
    ∃ drawn, c'.machine = { c.machine.tickTimers with drawn } := by
  cases ticked with
  | stopped halted => exact absurd alive halted
  | timer _ settled =>
    cases settled with
    | idle => exact ⟨_, rfl⟩
    | shown => exact ⟨_, rfl⟩

end Account

/-! ## Plays that have not stopped -/

namespace Play

variable {σ α : Type} {h : Host σ} {p : Play (σ × List Asked) α} {ask : σ → Poll × σ}

theorem stops_tick (alive : ¬ p.session.isHalted = true) (t : Tick) :
    let q := (p.tick h.watched t).2
    ∃ asked, q.host.2 = p.host.2 ++ asked ∧
      (q.session.isHalted = true ↔ (∃ f, q.steps = p.steps ++ [.faulted f]) ∨
        ∃ a ∈ asked, a.quits = true) := by
  intro q
  obtain ⟨asked, host, stops⟩ := (ticked h.watched p t).stops (alive_account_iff.2 alive)
  refine ⟨asked, host, ?_⟩
  rw [alive_account_iff, not_not] at stops
  exact stops

theorem polls_tick (asks : h.poll = some ask) (alive : ¬ p.session.isHalted = true) (t : Tick) :
    (pollsOf (p.tick h.watched t).2.host.2).length =
      (pollsOf p.host.2).length + if t = .instruction then 1 else 0 := by
  rcases (ticked h.watched p t).polls_cases with
    ⟨timer | halted, same⟩ | ⟨instruction, -, poll, c, polled, polls, -⟩
  · subst timer
    exact congrArg List.length same
  · exact absurd (alive_account_iff.2 alive) halted
  · subst instruction
    cases polled with
    | silent absent =>
      rw [Host.watched, asks] at absent
      cases absent
    | asked => exact (congrArg List.length polls).trans List.length_append

/-- While no tick finds the session stopped, each is met with one poll or one countdown. -/
theorem counts_afterTicks (asks : h.poll = some ask) (ticks : List Tick)
    (going : ∀ before t rest, ticks = before ++ t :: rest →
      ¬ (p.afterTicks h.watched before).session.isHalted = true) :
    let q := p.afterTicks h.watched ticks
    (pollsOf q.host.2).length = (pollsOf p.host.2).length + ticks.count .instruction ∧
      q.timed = p.timed + ticks.count .timer := by
  induction ticks using List.reverseRecOn with
  | nil => exact ⟨rfl, rfl⟩
  | append_singleton ticks t ih =>
    obtain ⟨polls, timed⟩ :=
      ih fun before t' rest split => going before t' (rest ++ [t]) (by rw [split]; simp)
    have alive := going ticks t [] rfl
    rw [afterTicks_append, afterTicks_cons, afterTicks_nil]
    refine ⟨?_, ?_⟩
    · rw [polls_tick asks alive, polls, List.count_append, List.count_singleton, Nat.add_assoc]
      simp only [beq_iff_eq]
    · rw [timed_tick _ alive, timed, List.count_append, List.count_singleton, Nat.add_assoc]
      simp only [beq_iff_eq]

/-- The counts of the clock are the counts of the polls and of the countdowns. -/
structure Counted (p : Play (σ × List Asked) α) : Prop where
  polls : (pollsOf p.host.2).length = p.session.clock.instructionTicks
  timed : p.timed = p.session.clock.timerTicks

variable [Quantity α]

theorem Counted.advance (counted : Counted p) (asks : h.poll = some ask) (ms : α) :
    Counted (p.advance h.watched ms).2 := by
  obtain ⟨play, issued⟩ := advance_eq_afterTicks (h := h.watched) p ms
  obtain ⟨polls, timed⟩ := counts_afterTicks asks (p.ticksWithin h.watched ms) fun _ _ _ split =>
    alive_of_ticksWithin split
  have instructions : (p.advance h.watched ms).2.session.clock.instructionTicks = _ :=
    issued .instruction
  have timers : (p.advance h.watched ms).2.session.clock.timerTicks = _ := issued .timer
  refine ⟨?_, ?_⟩
  · rw [instructions, play]
    exact polls.trans (congrArg (· + _) counted.polls)
  · rw [timers, play]
    exact timed.trans (congrArg (· + _) counted.timed)

end Play

/-! ## Requests -/

/-- To let time pass. -/
def Request.lapses {α : Type} : Request α → Bool
  | .call (.advance _) | .frame => true
  | _ => false

/-- To begin again. -/
def Request.begins {α : Type} : Request α → Bool
  | .restart | .reset => true
  | _ => false

namespace Emulator

variable {σ α : Type} [Quantity α] {h : Host σ} {ask : σ → Poll × σ}

/-- A session that has stopped goes on only when it begins again. -/
theorem perform_of_halted {σ : Type} {h : Host σ} {e : Emulator σ α}
    (halted : e.play.session.isHalted = true) {request : Request α}
    (goes : request.begins = false) : e.perform h request = e := by
  have advanced (ms : α) := Play.advance_of_halted (h := h) halted ms
  cases request with
  | call call =>
    cases call with
    | tick t =>
      have ticked : (e.play.tick h t).2 = e.play := by
        cases t with
        | instruction => exact congrArg Prod.snd (if_pos halted)
        | timer => exact if_pos halted
      exact congrArg (fun play => { e with play }) ticked
    | advance ms => exact congrArg (fun answer => { e with play := answer.2 }) (advanced ms)
  | frame => exact congrArg (fun answer => { e with play := answer.2 }) (advanced _)
  | restart | reset => cases goes

theorem after_of_halted {σ : Type} {h : Host σ} {e : Emulator σ α}
    (halted : e.play.session.isHalted = true) (requests : List (Request α))
    (go : ∀ request ∈ requests, request.begins = false) : e.after h requests = e := by
  induction requests with
  | nil => rfl
  | cons request requests ih =>
    obtain ⟨first, rest⟩ := List.forall_mem_cons.1 go
    rw [after, List.foldl_cons, perform_of_halted halted first]
    exact ih rest

theorem counted_after (asks : h.poll = some ask) {e : Emulator (σ × List Asked) α}
    (counted : e.play.Counted) (requests : List (Request α))
    (lapse : ∀ request ∈ requests, request.lapses = true) :
    (e.after h.watched requests).play.Counted := by
  induction requests generalizing e with
  | nil => exact counted
  | cons request requests ih =>
    obtain ⟨first, rest⟩ := List.forall_mem_cons.1 lapse
    refine ih ?_ rest
    cases request with
    | call call =>
      cases call with
      | tick t => cases first
      | advance ms => exact counted.advance asks ms
    | frame => exact counted.advance asks _
    | restart | reset => cases first

/-- A session is driven by its clock alone, from its start. As long as it has not stopped, each tick
that the clock issues is met with one poll or one countdown. It is stopped by a fault or by an
answer to quit; no tick of the same advance follows, and nothing changes ever after. -/
theorem stops_after {instructionHz timerHz : α} {clock : Clock α}
    (created : Clock.create? instructionHz timerHz = .ok clock) (asks : h.poll = some ask)
    (processor : Processor) (mode : FaultMode) (every : Nat) (host : σ) (program : List UInt8)
    (requests : List (Request α)) (lapse : ∀ request ∈ requests, request.lapses = true) :
    let session : Session α := .new processor clock mode every
    let e := after h.watched ⟨.new session (host, []), program⟩ requests
    let p := e.play
    p.session = (after h ⟨.new session host, program⟩ requests).play.session ∧
    (pollsOf p.host.2).length = p.session.clock.instructionTicks ∧
    p.timed = p.session.clock.timerTicks ∧
    (∀ ms,
      let q := (p.advance h.watched ms).2
      let ticks := p.ticksWithin h.watched ms
      q = { p.afterTicks h.watched ticks with
        session := { (p.afterTicks h.watched ticks).session with clock := q.session.clock } } ∧
      (∀ t, q.session.clock.issued t = p.session.clock.issued t + ticks.count t) ∧
      ∀ before t rest, ticks = before ++ t :: rest →
        let r := p.afterTicks h.watched before
        let r' := (r.tick h.watched t).2
        ¬ r.session.isHalted = true ∧
        (pollsOf r'.host.2).length = (pollsOf r.host.2).length +
          (if t = .instruction then 1 else 0) ∧
        r'.timed = r.timed + (if t = .timer then 1 else 0) ∧
        (t = .timer → ∃ drawn, r'.session.machine = { r.session.machine.tickTimers with drawn }) ∧
        (∃ asked, r'.host.2 = r.host.2 ++ asked ∧
          (r'.session.isHalted = true ↔
            (∃ f, r'.steps = r.steps ++ [.faulted f]) ∨ ∃ a ∈ asked, a.quits = true)) ∧
        (r'.session.isHalted = true → rest = [])) ∧
    (p.session.isHalted = true → ∀ later : List (Request α),
      (∀ request ∈ later, request.begins = false) →
      e.after h.watched later = e) := by
  intro session e p
  have inStep : InStep (fun s t => s = t.1) (Emulator.mk (Play.new session host) program)
      (Emulator.mk (Play.new session (host, ([] : List Asked))) program) := ⟨rfl, rfl, rfl⟩
  have counted : p.Counted := by
    obtain rfl := Clock.eq_of_create? created
    exact counted_after asks ⟨rfl, rfl⟩ requests lapse
  refine ⟨(inStep.after h.alike_watched requests).play.session.symm, counted.polls, counted.timed,
    fun ms => ?_, fun halted later go => after_of_halted halted later go⟩
  intro q ticks
  obtain ⟨play, issued⟩ := Play.advance_eq_afterTicks (h := h.watched) p ms
  refine ⟨play, issued, fun before t rest split => ?_⟩
  intro r r'
  have alive : ¬ r.session.isHalted = true := Play.alive_of_ticksWithin split
  refine ⟨alive, Play.polls_tick asks alive t, Play.timed_tick _ alive t, ?_,
    Play.stops_tick alive t, ?_⟩
  · intro timer
    subst timer
    exact (Play.ticked h.watched r .timer).machine_timer (Play.alive_account_iff.2 alive)
  · intro halted
    cases rest with
    | nil => rfl
    | cons t' rest =>
      have next : ¬ (p.afterTicks h.watched (before ++ [t])).session.isHalted = true :=
        Play.alive_of_ticksWithin (split.trans (List.append_cons before t (t' :: rest)))
      rw [Play.afterTicks_append] at next
      exact absurd halted next

/-- The third poll of a frame quits, with seven more instruction ticks and a timer tick due. -/
theorem stops_after_third_poll :
    let clock : Clock Rat := ⟨600, 60, 0, 0, 0⟩
    let ask : Nat → Poll × Nat := fun n => (⟨Vector.replicate 16 false, [], n == 2⟩, n + 1)
    let h : Host Nat := ⟨some ask, none, fun n => (0, n)⟩
    let session : Session Rat := .new (.new (.startWith [0x12, 0x00]) .standard) clock .throw 0
    let frame : List (Request Rat) := [.frame]
    let later : List (Request Rat) := [.call (.tick .timer), .frame, .call (.tick .instruction)]
    let e := after h.watched ⟨.new session (0, []), [0x12, 0x00]⟩ frame
    Clock.create? 600 60 = .ok clock ∧ h.poll = some ask ∧
      (∀ request ∈ frame, request.lapses = true) ∧
    e.play.session.status = .halted .userQuit ∧ (∀ request ∈ later, request.begins = false) ∧
    (pollsOf e.play.host.2).length = e.play.session.clock.instructionTicks ∧
    e.play.session.clock.instructionTicks = 3 ∧ e.play.timed = 0 ∧ e.after h.watched later = e := by
  intro clock ask h session frame later e
  have created : Clock.create? 600 60 = .ok clock := rfl
  have lapse : ∀ request ∈ frame, request.lapses = true := List.forall_mem_singleton.2 rfl
  have status : e.play.session.status = .halted .userQuit := by decide +kernel
  have go : ∀ request ∈ later, request.begins = false := by decide +kernel
  obtain ⟨-, polls, timed, -, final⟩ :=
    stops_after created (h := h) rfl session.processor .throw 0 0 [0x12, 0x00] frame lapse
  exact ⟨created, rfl, lapse, status, go, polls, by decide +kernel, by decide +kernel,
    final (Session.isHalted_iff.2 ⟨_, status⟩) later go⟩

end Emulator

end Chip8
