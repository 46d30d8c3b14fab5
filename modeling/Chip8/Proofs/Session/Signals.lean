import Chip8.Proofs.Processor.Step
import Chip8.Proofs.Session.Account

/-!
# Signals of a session

A session tells its host when the tone changes, and notes down each time that the timers count down.
`signals` keeps these two kinds of events of a journal. A tick changes the tone once at most: a stop
turns it off and nothing comes after (`Silenced`), and everything else but the end of a tick leaves
it alone (`Quiet`). So between ticks the tone is on, as it was last told, exactly if the machine
sounds and the session has not stopped (`InTune`).
-/

namespace Chip8

namespace Event

def isSignal : Event → Bool
  | tone _ | timed => true
  | _ => false

def tone? : Event → Option Bool
  | tone on => some on
  | _ => none

def isTimed : Event → Bool
  | timed => true
  | _ => false

end Event

/-- The change of a signal, if it is one. -/
def edge (was now : Bool) : List Bool := if now = was then [] else [now]

@[simp] theorem edge_self (on : Bool) : edge on on = [] := if_pos rfl

/-- The tone that should be on. -/
def Session.sounds {α : Type} (s : Session α) : Bool := s.machine.sounding && !s.isHalted

theorem Session.sounds_of_halted {α : Type} {s : Session α} (halted : s.isHalted = true) :
    s.sounds = false := by
  rw [sounds, halted, Bool.not_true, Bool.and_false]

namespace Play

variable {σ α : Type} {h : Host σ} {p q : Play σ α}

def signals (p : Play σ α) : List Event := p.journal.toList.filter Event.isSignal

/-- The values of the tone that were told. -/
def tones (p : Play σ α) : List Bool := p.journal.toList.filterMap Event.tone?

/-- How often the timers counted down. -/
def timed (p : Play σ α) : Nat := p.journal.toList.countP Event.isTimed

theorem tones_eq (p : Play σ α) : p.tones = p.signals.filterMap Event.tone? := by
  rw [tones, signals, List.filterMap_filter]
  congr
  funext e
  cases e <;> rfl

theorem timed_eq (p : Play σ α) : p.timed = p.signals.countP Event.isTimed := by
  rw [timed, signals, List.countP_filter]
  congr
  funext e
  cases e <;> rfl

def turn (was now : Bool) : List Event := (edge was now).map .tone

@[simp] theorem turn_self (on : Bool) : turn on on = [] := by rw [turn, edge_self, List.map_nil]

theorem signals_note (p : Play σ α) (e : Event) :
    (p.note e).signals = p.signals ++ [e].filter Event.isSignal := by
  rw [signals, note, Array.toList_push, List.filter_append]
  rfl

theorem signals_note_of_quiet (p : Play σ α) {e : Event} (quiet : e.isSignal = false) :
    (p.note e).signals = p.signals := by
  rw [signals_note, List.filter_cons_of_neg (ne_true_of_eq_false quiet)]
  exact List.append_nil _

theorem signals_setTone (p : Play σ α) (on : Bool) :
    (p.setTone on).signals = p.signals ++ turn p.session.toneOn on := by
  unfold setTone
  split
  · next same =>
    rw [same, turn_self, List.append_nil]
  · next other =>
    rw [signals_note, turn, edge, if_neg (Ne.symm other)]
    rfl

theorem toneOn_setTone (p : Play σ α) (on : Bool) : (p.setTone on).session.toneOn = on :=
  congrArg Session.toneOn (session_setTone p on)

theorem sounds_setTone (p : Play σ α) (on : Bool) :
    (p.setTone on).session.sounds = p.session.sounds := by
  rw [session_setTone]
  rfl

/-! ## The parts of a tick -/

/-- Between two plays nothing was signalled. -/
structure Quiet (p q : Play σ α) : Prop where
  signals : q.signals = p.signals
  toneOn : q.session.toneOn = p.session.toneOn

/-- Between two plays the tone changed once at most. -/
def Turned (p q : Play σ α) : Prop :=
  q.signals = p.signals ++ turn p.session.toneOn q.session.toneOn

/-- The session has stopped, and its tone is off. -/
structure Silenced (p q : Play σ α) : Prop where
  turned : Turned p q
  off : q.session.toneOn = false
  halted : q.session.isHalted = true

theorem Quiet.refl (p : Play σ α) : Quiet p p := ⟨rfl, rfl⟩

theorem Quiet.trans {r : Play σ α} (quiet : Quiet p q) (further : Quiet q r) : Quiet p r :=
  ⟨further.signals.trans quiet.signals, further.toneOn.trans quiet.toneOn⟩

theorem Quiet.turned (quiet : Quiet p q) : Turned p q := by
  rw [Turned, quiet.signals, quiet.toneOn, turn_self, List.append_nil]

theorem Quiet.trans_turned {r : Play σ α} (quiet : Quiet p q) (turned : Turned q r) :
    Turned p r := by
  rw [Turned, turned, quiet.signals, quiet.toneOn]

theorem Turned.trans_quiet {r : Play σ α} (turned : Turned p q) (quiet : Quiet q r) :
    Turned p r := by
  rw [Turned, quiet.signals, quiet.toneOn, turned]

theorem Quiet.trans_silenced {r : Play σ α} (quiet : Quiet p q) (silenced : Silenced q r) :
    Silenced p r :=
  ⟨quiet.trans_turned silenced.turned, silenced.off, silenced.halted⟩

theorem Silenced.trans_quiet {r : Play σ α} (silenced : Silenced p q) (quiet : Quiet q r)
    (halted : r.session.isHalted = true) : Silenced p r :=
  ⟨silenced.turned.trans_quiet quiet, quiet.toneOn.trans silenced.off, halted⟩

theorem quiet_note (p : Play σ α) {e : Event} (quiet : e.isSignal = false) : Quiet p (p.note e) :=
  ⟨signals_note_of_quiet p quiet, rfl⟩

theorem quiet_logs (p : Play σ α) (lines : List String) :
    Quiet p (lines.foldl (fun p line => p.log .error line) p) := by
  induction lines generalizing p with
  | nil => exact .refl p
  | cons line lines ih => exact (quiet_note p rfl).trans (ih _)

theorem turned_setTone (p : Play σ α) (on : Bool) : Turned p (p.setTone on) := by
  rw [Turned, toneOn_setTone, signals_setTone]

theorem silenced_halt (p : Play σ α) (reason : HaltReason) : Silenced p (p.halt reason) := by
  refine ⟨turned_setTone .., toneOn_setTone .., ?_⟩
  rw [session_halt]
  rfl

theorem quiet_pollInput (h : Host σ) (p : Play σ α) : Quiet p (p.pollInput h).2 := by
  unfold pollInput
  split
  · exact .refl p
  · exact ⟨signals_note_of_quiet _ rfl, rfl⟩

theorem quiet_deliverKey (p : Play σ α) (keyDowns : List Number) :
    Quiet p (p.deliverKey keyDowns) := by
  unfold deliverKey
  split <;> exact ⟨rfl, rfl⟩

theorem quiet_handOver (h : Host σ) (p : Play σ α) : Quiet p (p.handOver h).2 := by
  unfold handOver
  split
  · exact .refl p
  · split
    · exact ⟨signals_note_of_quiet _ rfl, rfl⟩
    · exact .refl p

theorem silenced_book_faulted (p : Play σ α) (f : Fault) : Silenced p (p.book (.faulted f)).2 := by
  have silenced := silenced_halt p (.fault f)
  refine silenced.trans_quiet (quiet_logs _ (faultLines f)) ?_
  simp only [book, session_foldl_log]
  exact silenced.halted

/-- A step is quiet, unless it stops the session. -/
theorem executeStep_cases (h : Host σ) (p : Play σ α) :
    Quiet p (p.executeStep h).2 ∧
        ((p.executeStep h).1.isSome = true →
          (p.executeStep h).2.session.sounds = p.session.sounds) ∨
      Silenced p (p.executeStep h).2 := by
  rw [executeStep_eq]
  dsimp only
  have made := p.session.processor.step_stepped (p.drawByte h).1
  generalize p.session.processor.step (p.drawByte h).1 = step at made ⊢
  obtain ⟨result, c⟩ := step
  dsimp only at made ⊢
  have quiet : Quiet p (p.stepped c result (p.drawByte h).2) := ⟨signals_note_of_quiet _ rfl, rfl⟩
  cases result with
  | executed a w =>
    have counted : Quiet p (p.stepped c (.executed a w) (p.drawByte h).2).countInstruction :=
      ⟨quiet.signals, quiet.toneOn⟩
    refine .inl ⟨?_, fun cut => absurd cut Bool.false_ne_true⟩
    simp only [book]
    split
    · exact counted.trans (quiet_note _ rfl)
    · exact counted
  | awaitingKey a w x =>
    exact .inl ⟨⟨quiet.signals, quiet.toneOn⟩, fun cut => absurd cut Bool.false_ne_true⟩
  | unknown a w =>
    have counted : Quiet p (p.stepped c (.unknown a w) (p.drawByte h).2).countInstruction :=
      ⟨quiet.signals, quiet.toneOn⟩
    exact .inl ⟨counted.trans (quiet_note _ rfl), fun cut => absurd cut Bool.false_ne_true⟩
  | faulted f => exact .inr (quiet.trans_silenced (silenced_book_faulted _ f))
  | lost =>
    -- This one is thrown, and the session goes on with the machine that it had.
    refine .inl ⟨quiet, fun _ => ?_⟩
    cases made
    rfl

/-! ## Ticks -/

/-- The tone that was told is the one that should be on. -/
def InTune (p : Play σ α) : Prop := p.session.toneOn = p.session.sounds

theorem Silenced.inTune (silenced : Silenced p q) : InTune q :=
  silenced.off.trans (Session.sounds_of_halted silenced.halted).symm

/-- The end of a tick tells the tone as it is then. -/
theorem turned_settle (h : Host σ) (p : Play σ α) :
    Turned p (p.settle h) ∧ InTune (p.settle h) := by
  have quiet := quiet_handOver h p
  unfold settle
  generalize p.handOver h = answer at quiet ⊢
  obtain ⟨quits, q⟩ := answer
  dsimp only at quiet ⊢
  split
  · have silenced := quiet.trans_silenced (silenced_halt q .userQuit)
    exact ⟨silenced.turned, silenced.inTune⟩
  · refine ⟨quiet.trans_turned (turned_setTone q _), ?_⟩
    rw [InTune, toneOn_setTone, sounds_setTone]
    rfl

/-- Once the session has stopped and the tone is off, there is nothing left to tell. -/
theorem Silenced.settle_eq (silenced : Silenced p q) (h : Host σ) : q.settle h = q := by
  have silent : (q.session.machine.sounding && !q.session.isHalted) = false :=
    Session.sounds_of_halted silenced.halted
  rw [settle, handOver_of_halted silenced.halted]
  dsimp only
  rw [if_neg Bool.false_ne_true, silent]
  exact if_pos silenced.off

theorem Silenced.deliverKey_eq (silenced : Silenced p q) (keyDowns : List Number) :
    q.deliverKey keyDowns = q := by
  obtain ⟨reason, status⟩ := Session.isHalted_iff.1 silenced.halted
  exact deliverKey_of_halted status keyDowns

theorem turned_tickInstruction (h : Host σ) (p : Play σ α) :
    Turned p (p.tickInstruction h).2 ∧ (InTune p → InTune (p.tickInstruction h).2) := by
  let K (q : Play σ α) : Prop := Quiet p q ∧ (InTune p → InTune q)
  let J (q : Play σ α) : Prop := Quiet p q ∨ Silenced p q
  let I (q : Play σ α) : Prop := Turned p q ∧ (InTune p → InTune q)
  have done {q : Play σ α} (silenced : Silenced p q) : I q :=
    ⟨silenced.turned, fun _ => silenced.inTune⟩
  refine tickInstruction_cases (I := I) (J := J)
    (K := K) ?stopped ?poll ?halt ?wait ?step ?key ?settle
  case stopped => exact fun _ => ⟨(Quiet.refl p).turned, id⟩
  case poll =>
    refine fun _ => ⟨quiet_pollInput h p, fun inTune => ?_⟩
    unfold pollInput
    split <;> exact inTune
  case halt => exact fun q ⟨quiet, _⟩ => done (quiet.trans_silenced (silenced_halt q _))
  case wait => exact fun q ⟨quiet, _⟩ => .inl quiet
  -- A step that is cut short is not settled, so here the tone has to be right already.
  case step =>
    intro q ⟨quiet, tune⟩ running
    rcases executeStep_cases h q with ⟨step, sounds⟩ | silenced
    · refine ⟨.inl (quiet.trans step), fun cut => ⟨(quiet.trans step).turned, fun inTune => ?_⟩⟩
      exact (step.toneOn.trans (tune inTune)).trans (sounds cut).symm
    · have silenced := quiet.trans_silenced silenced
      exact ⟨.inr silenced, fun _ => done silenced⟩
  case key =>
    rintro q keyDowns (quiet | silenced)
    · exact .inl (quiet.trans (quiet_deliverKey q keyDowns))
    · rw [silenced.deliverKey_eq]
      exact .inr silenced
  case settle =>
    rintro q (quiet | silenced)
    · obtain ⟨settled, inTune⟩ := turned_settle h q
      exact ⟨quiet.trans_turned settled, fun _ => inTune⟩
    · rw [silenced.settle_eq]
      exact done silenced

theorem signals_tickTimer (h : Host σ) (alive : ¬ p.session.isHalted = true) :
    (p.tickTimer h).signals = p.signals ++ .timed ::
      turn p.session.toneOn (p.tickTimer h).session.toneOn ∧
      InTune (p.tickTimer h) := by
  let q := { p with session := p.session.modifyMachine Machine.tickTimers }.note .timed
  have timed : q.signals = p.signals ++ [.timed] := signals_note _ .timed
  obtain ⟨settled, inTune⟩ := turned_settle h q
  have eq : p.tickTimer h = q.settle h := if_neg alive
  rw [eq, settled, timed, List.append_assoc]
  exact ⟨rfl, inTune⟩

theorem tickTimer_of_halted (halted : p.session.isHalted = true) : p.tickTimer h = p :=
  if_pos halted

theorem tones_append_turn (events : List Event) (silent : events.filterMap Event.tone? = [])
    (signals : q.signals = p.signals ++ (events ++ turn p.session.toneOn q.session.toneOn)) :
    q.tones = p.tones ++ edge p.session.toneOn q.session.toneOn := by
  have told (tones : List Bool) : (tones.map Event.tone).filterMap Event.tone? = tones := by
    rw [List.filterMap_map]
    exact List.filterMap_some
  rw [tones_eq, signals, List.filterMap_append, List.filterMap_append, silent, ← tones_eq, turn,
    told, List.nil_append]

theorem timed_append_turn (events : List Event)
    (signals : q.signals = p.signals ++ (events ++ turn p.session.toneOn q.session.toneOn)) :
    q.timed = p.timed + events.countP Event.isTimed := by
  have untimed (tones : List Bool) : (tones.map Event.tone).countP Event.isTimed = 0 := by
    rw [List.countP_map]
    exact List.countP_eq_zero.2 fun _ _ => Bool.false_ne_true
  rw [timed_eq, signals, List.countP_append, List.countP_append, turn, untimed, ← timed_eq,
    Nat.add_zero]

/-- In a tick the tone is told once at most. -/
theorem tones_tick (h : Host σ) (p : Play σ α) (t : Tick) :
    (p.tick h t).2.tones = p.tones ++ edge p.session.toneOn (p.tick h t).2.session.toneOn := by
  cases t with
  | instruction => exact tones_append_turn [] rfl (turned_tickInstruction h p).1
  | timer =>
    by_cases halted : p.session.isHalted = true
    · rw [tick, tickTimer_of_halted halted, edge_self, List.append_nil]
    · exact tones_append_turn [.timed] rfl (signals_tickTimer h halted).1

theorem InTune.tick (inTune : InTune p) (h : Host σ) (t : Tick) : InTune (p.tick h t).2 := by
  cases t with
  | instruction => exact (turned_tickInstruction h p).2 inTune
  | timer =>
    by_cases halted : p.session.isHalted = true
    · rw [Play.tick, tickTimer_of_halted halted]
      exact inTune
    · exact (signals_tickTimer h halted).2

/-- The timers count down in timer ticks and in no other tick. -/
theorem timed_tick (h : Host σ) (alive : ¬ p.session.isHalted = true) (t : Tick) :
    (p.tick h t).2.timed = p.timed + if t = .timer then 1 else 0 := by
  cases t with
  | instruction => exact timed_append_turn [] (turned_tickInstruction h p).1
  | timer => exact timed_append_turn [.timed] (signals_tickTimer h alive).1

end Play

end Chip8
