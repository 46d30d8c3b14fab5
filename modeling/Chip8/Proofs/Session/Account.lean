import Chip8.Proofs.Session.Calls
import Mathlib.Logic.Basic

/-!
# Accounts of a session

`Account` is what a play has come to, without the clock, the tone and the log. These are told and
never asked, so what a tick makes of the account can be read off the account: `Account.Ticked` lists
all of it, one case for each path through a tick, and `Play.ticked` says that there is nothing else.
-/

namespace Chip8

/-! ## Accounts -/

def Event.step? : Event → Option StepResult
  | .stepped result => some result
  | _ => none

/-- What a play has come to, but for its clock, its tone and its log. -/
structure Account (σ : Type) where
  processor : Processor
  status : Status
  executed : Nat
  presented : Nat
  /-- The results of the steps so far. A word is fetched in each of them and nowhere else. -/
  steps : List StepResult
  host : σ

/-- How many instructions a step counts for. -/
def StepResult.count : StepResult → Nat
  | .executed .. | .awaitingKey .. | .unknown .. => 1
  | _ => 0

/-- The results that may end a tick there and then. -/
def StepResult.cuts : StepResult → Bool
  | .faulted _ | .lost => true
  | _ => false

namespace Account

variable {σ : Type}

def machine (c : Account σ) : Machine := c.processor.machine

def modifyMachine (c : Account σ) (f : Machine → Machine) : Account σ :=
  { c with processor := { c.processor with machine := f c.processor.machine } }

/-- The session has not stopped. -/
def Alive (c : Account σ) : Prop := ∀ reason, c.status ≠ .halted reason

/-- The keys of a poll are taken over. -/
def polled (c : Account σ) (poll : Poll) (host : σ) : Account σ :=
  { c.modifyMachine fun m => { m with keypad := poll.keys } with host }

/-- The byte for the next step, and the state of the host behind it. -/
def drawByte (h : Host σ) (c : Account σ) : UInt8 × σ :=
  if c.processor.drawsRandom then h.entropy c.host else (0, c.host)

/-- A running session makes a step, with a byte and the host behind it. -/
def stepped (c : Account σ) (byte : UInt8 × σ) : Account σ :=
  let step := c.processor.step byte.1
  { processor := step.2
    status := step.1.status
    executed := c.executed + step.1.count
    presented := c.presented
    steps := c.steps ++ [step.1]
    host := byte.2 }

def resumed (c : Account σ) (x : Reg) : Option Key → Account σ
  | some key => { c with processor := c.processor.resume x key, status := .running }
  | none => c

/-- A key ends the wait, if there is a key and the session waits. -/
def delivered (c : Account σ) (key : Option Key) : Account σ :=
  match c.status with
  | .awaitingKey x => c.resumed x key
  | _ => c

/-- The display has taken the screen and answered whether it asks to quit. -/
def shown (c : Account σ) (answer : Bool × σ) : Account σ :=
  { c.modifyMachine fun m => { m with drawn := false } with
    presented := c.presented + 1
    host := answer.2
    status := if answer.1 then .halted .userQuit else c.status }

/-! ## What a tick makes of an account -/

/-- The input has been polled, if there is one. -/
inductive Polled (h : Host σ) (c : Account σ) : Option Poll → Account σ → Prop
  | silent (absent : h.poll = none) : Polled h c none c
  | asked {ask : σ → Poll × σ} (asks : h.poll = some ask) :
      Polled h c (some (ask c.host).1) (c.polled (ask c.host).1 (ask c.host).2)

/-- The end of a tick: the display takes the screen if it was drawn on, unless the session has
stopped. -/
inductive Settled (h : Host σ) (c : Account σ) : Account σ → Prop
  | idle (idle : h.present = none ∨ c.machine.drawn = false ∨ ¬ c.Alive) : Settled h c c
  | shown {present : Screen → σ → Bool × σ} (displays : h.present = some present)
      (drawn : c.machine.drawn = true)
      (alive : c.Alive) : Settled h c (c.shown (present c.machine.screen c.host))

/-- What a tick can make of an account. -/
inductive Ticked (h : Host σ) (c : Account σ) : Tick → Account σ → Prop
  | stopped {t : Tick} (halted : ¬ c.Alive) : Ticked h c t c
  | timer {c' : Account σ} (alive : c.Alive)
      (settled : Settled h (c.modifyMachine Machine.tickTimers) c') :
      Ticked h c .timer c'
  | quit {poll : Option Poll} {c₁ : Account σ} (alive : c.Alive) (polled : Polled h c poll c₁)
      (quits : poll.any (·.quit) = true) :
          Ticked h c .instruction { c₁ with status := .halted .userQuit }
  | waited {poll : Option Poll} {c₁ c' : Account σ} {x : Reg} {key : Option Key}
      (waits : c.status = .awaitingKey x)
      (polled : Polled h c poll c₁) (stays : ¬ poll.any (·.quit) = true)
        (settled : Settled h (c₁.delivered key) c') :
      Ticked h c .instruction c'
  | stepped {poll : Option Poll} {c₁ c' : Account σ} {key : Option Key}
      (running : c.status = .running)
      (polled : Polled h c poll c₁) (stays : ¬ poll.any (·.quit) = true)
      (settled : Settled h ((c₁.stepped (c₁.drawByte h)).delivered key) c') :
          Ticked h c .instruction c'
  | cut {poll : Option Poll} {c₁ : Account σ} (running : c.status = .running)
      (polled : Polled h c poll c₁)
      (stays : ¬ poll.any (·.quit) = true)
        (cuts : (c₁.processor.step (c₁.drawByte h).1).1.cuts = true) :
      Ticked h c .instruction (c₁.stepped (c₁.drawByte h))

/-! What the parts of a tick leave alone. -/

variable {h : Host σ} {c c' : Account σ}

theorem Polled.exists_eq {poll : Option Poll} (polled : Polled h c poll c') :
    ∃ keypad host, c' = { c.modifyMachine fun m => { m with keypad } with host } := by
  cases polled with
  | silent => exact ⟨c.machine.keypad, c.host, rfl⟩
  | asked => exact ⟨_, _, rfl⟩

theorem exists_delivered (c : Account σ) (key : Option Key) :
    ∃ v pc status, c.delivered key = { c.modifyMachine fun m => { m with v, pc } with status } := by
  have same : c = { c.modifyMachine fun m => { m with v := c.machine.v, pc := c.machine.pc } with
    status := c.status } := rfl
  unfold delivered
  split
  · cases key with
    | none => exact ⟨_, _, _, same⟩
    | some key => exact ⟨_, _, _, rfl⟩
  · exact ⟨_, _, _, same⟩

theorem delivered_of_running (running : c.status = .running) (key : Option Key) :
    c.delivered key = c := by
  unfold delivered
  rw [running]

theorem alive_of_running (running : c.status = .running) : c.Alive := by
  intro reason halted
  cases running.symm.trans halted

theorem alive_of_waiting {x : Reg} (waits : c.status = .awaitingKey x) : c.Alive := by
  intro reason halted
  cases waits.symm.trans halted

theorem Settled.eq_of_not_drawn (settled : Settled h c c') (undrawn : c.machine.drawn = false) :
    c' = c := by
  cases settled with
  | idle => rfl
  | shown _ drawn => cases drawn.symm.trans undrawn

theorem Settled.steps_eq (settled : Settled h c c') : c'.steps = c.steps := by
  cases settled <;> rfl

theorem Polled.steps_eq {poll : Option Poll} (polled : Polled h c poll c') :
    c'.steps = c.steps := by
  cases polled <;> rfl

theorem steps_delivered (c : Account σ) (key : Option Key) : (c.delivered key).steps = c.steps := by
  obtain ⟨v, pc, status, delivered⟩ := c.exists_delivered key
  rw [delivered]
  rfl

/-- A tick makes at most one step, in a running session that was polled before. -/
theorem Ticked.steps_cases {t : Tick} (ticked : c.Ticked h t c') :
    c'.steps = c.steps ∨
      t = .instruction ∧ c.status = .running ∧ ∃ poll c₁, Polled h c poll c₁ ∧
        c'.steps = c.steps ++ [(c₁.processor.step (c₁.drawByte h).1).1] ∧
        ((c₁.processor.step (c₁.drawByte h).1).1.cuts = true ∨
          ∃ key, Settled h ((c₁.stepped (c₁.drawByte h)).delivered key) c') := by
  cases ticked with
  | stopped => exact .inl rfl
  | timer alive settled => exact .inl settled.steps_eq
  | quit alive polled => exact .inl polled.steps_eq
  | waited waits polled stays settled =>
    exact .inl ((settled.steps_eq.trans (steps_delivered _ _)).trans polled.steps_eq)
  | @stepped poll c₁ _ key running polled stays settled =>
    refine .inr ⟨rfl, running, poll, c₁, polled, ?_, .inr ⟨key, settled⟩⟩
    rw [settled.steps_eq, steps_delivered, ← polled.steps_eq]
    rfl
  | @cut poll c₁ running polled stays cuts =>
    refine .inr ⟨rfl, running, poll, c₁, polled, ?_, .inl cuts⟩
    rw [← polled.steps_eq]
    rfl

/-- A tick that carries out a word: the input was polled, the step went through, and the tick was
settled. -/
theorem Ticked.exists_of_executed {t : Tick} {a : Int} {w : UInt16} (ticked : c.Ticked h t c')
    (executed : c'.steps = c.steps ++ [.executed a w]) :
    t = .instruction ∧ c.status = .running ∧ ∃ poll c₁, Polled h c poll c₁ ∧
      (c₁.processor.step (c₁.drawByte h).1).1 = .executed a w ∧
      Settled h (c₁.stepped (c₁.drawByte h)) c' := by
  rcases ticked.steps_cases with same | ⟨instruction, running, poll, c₁, polled, one, ends⟩
  · rw [same] at executed
    cases List.self_eq_append_right.1 executed
  have result : (c₁.processor.step (c₁.drawByte h).1).1 = .executed a w :=
    List.singleton_inj.1 (List.append_cancel_left (one.symm.trans executed))
  refine ⟨instruction, running, poll, c₁, polled, result, ?_⟩
  rcases ends with cuts | ⟨key, settled⟩
  · rw [result] at cuts
    cases cuts
  · have goes : (c₁.stepped (c₁.drawByte h)).status = .running := congrArg StepResult.status result
    rwa [delivered_of_running goes] at settled

end Account

/-! ## Accounts of plays -/

namespace Play

variable {σ α : Type} {h : Host σ} {p : Play σ α} {x : Reg}

def steps (p : Play σ α) : List StepResult := p.journal.toList.filterMap Event.step?

def account (p : Play σ α) : Account σ where
  processor := p.session.processor
  status := p.session.status
  executed := p.session.executed
  presented := p.session.presented
  steps := p.steps
  host := p.host

/-- The tick makes a step, which carries out a word. -/
def CarriesOut (h : Host σ) (p : Play σ α) (t : Tick) (w : UInt16) : Prop :=
  ∃ a, (p.tick h t).2.steps = p.steps ++ [.executed a w]

theorem steps_note (p : Play σ α) (e : Event) : (p.note e).steps = p.steps ++ e.step?.toList := by
  unfold steps note
  rw [Array.toList_push, List.filterMap_append]
  cases step : e.step? <;> simp [step]

theorem alive_account_iff : p.account.Alive ↔ ¬ p.session.isHalted = true := by
  rw [Session.isHalted_iff]
  exact not_exists.symm

theorem account_note (p : Play σ α) {e : Event} (unstepped : e.step? = none) :
    (p.note e).account = p.account := by
  have steps := steps_note p e
  rw [unstepped, Option.toList_none, List.append_nil] at steps
  exact congrArg (fun steps => { p.account with steps }) steps

theorem account_setTone (p : Play σ α) (on : Bool) : (p.setTone on).account = p.account := by
  unfold setTone
  split
  · rfl
  · exact account_note _ rfl

theorem account_halt (p : Play σ α) (reason : HaltReason) :
    (p.halt reason).account = { p.account with status := .halted reason } := account_setTone ..

theorem account_logs (p : Play σ α) (lines : List String) :
    (lines.foldl (fun p line => p.log .error line) p).account = p.account := by
  induction lines generalizing p with
  | nil => rfl
  | cons line lines ih => exact (ih _).trans (account_note _ rfl)

theorem account_resumed (p : Play σ α) (waits : p.session.status = .awaitingKey x)
    (keyDowns : List Number) :
    (p.deliverKey keyDowns).account = p.account.resumed x (keyDowns.findSome? Number.key?) := by
  unfold deliverKey
  rw [waits]
  cases keyDowns.findSome? Number.key? <;> rfl

theorem account_deliverKey (p : Play σ α) (keyDowns : List Number) :
    (p.deliverKey keyDowns).account = p.account.delivered (keyDowns.findSome? Number.key?) := by
  have status : p.account.status = p.session.status := rfl
  unfold Account.delivered
  rw [status]
  cases waits : p.session.status with
  | awaitingKey x => exact account_resumed p waits keyDowns
  | running | halted =>
    unfold deliverKey
    rw [waits]

theorem pollInput_of_none (silent : h.poll = none) : p.pollInput h = (none, p) := by
  unfold pollInput
  rw [silent]

theorem pollInput_of_some {ask : σ → Poll × σ} (asks : h.poll = some ask) :
    (p.pollInput h).1 = some (ask p.host).1 ∧
      (p.pollInput h).2.account = p.account.polled (ask p.host).1 (ask p.host).2 := by
  unfold pollInput
  rw [asks]
  exact ⟨rfl, account_note _ rfl⟩

theorem polled_pollInput (h : Host σ) (p : Play σ α) :
    p.account.Polled h (p.pollInput h).1 (p.pollInput h).2.account := by
  cases asks : h.poll with
  | none =>
    rw [pollInput_of_none asks]
    exact .silent asks
  | some ask =>
    obtain ⟨answer, account⟩ := pollInput_of_some (p := p) asks
    rw [answer, account]
    exact .asked asks

theorem account_book (running : p.session.status = .running) (result : StepResult) :
    (p.book result).2.account =
      { p.account with
        status := result.status
        executed := p.session.executed + result.count } := by
  have counted : p.countInstruction.account =
      { p.account with status := .running, executed := p.session.executed + 1 } :=
    congrArg (fun status => { p.account with status, executed := p.session.executed + 1 }) running
  cases result with
  | executed a w =>
    simp only [book]
    split
    · exact (account_note _ rfl).trans counted
    · exact counted
  | awaitingKey a w x => rfl
  | unknown a w => exact (account_note _ rfl).trans counted
  | faulted f => exact (account_logs _ _).trans (account_halt p (.fault f))
  | lost => exact congrArg (fun status => { p.account with status }) running

theorem account_executeStep (running : p.session.status = .running) :
    (p.executeStep h).2.account = p.account.stepped (p.account.drawByte h) := by
  have steps (c : Processor) (result : StepResult) :
      (p.stepped c result (p.drawByte h).2).steps = p.steps ++ [result] :=
        steps_note _ (.stepped result)
  rw [executeStep_eq]
  dsimp only
  rw [account_book (by exact running)]
  unfold account
  rw [steps]
  rfl

theorem cuts_of_executeStep {i : Interruption} (cut : (p.executeStep h).1 = some i) :
    (p.account.processor.step (p.account.drawByte h).1).1.cuts = true := by
  change (p.session.processor.step (p.drawByte h).1).1.cuts = true
  rw [executeStep_eq] at cut
  dsimp only at cut
  generalize (p.session.processor.step (p.drawByte h).1).1 = result at cut ⊢
  cases result with
  | faulted | lost => rfl
  | _ => cases cut

theorem handOver_of_ready {present : Screen → σ → Bool × σ} (displays : h.present = some present)
    (ready : (p.session.machine.drawn && !p.session.isHalted) = true) :
    (p.handOver h).1 = (present p.session.machine.screen p.host).1 ∧
      (p.handOver h).2.account =
        { p.account.shown (present p.session.machine.screen p.host) with status :=
          p.session.status } := by
  unfold handOver
  rw [displays]
  dsimp only
  rw [if_pos ready]
  exact ⟨rfl, account_note _ rfl⟩

theorem settled_settle (h : Host σ) (p : Play σ α) : p.account.Settled h (p.settle h).account := by
  by_cases ready : h.present = none ∨ ¬ (p.session.machine.drawn && !p.session.isHalted) = true
  · have settled : (p.settle h).account = p.account := by
      unfold settle
      rw [handOver_of_not_ready ready]
      exact account_setTone ..
    rw [settled]
    refine .idle (ready.imp_right fun unready => ?_)
    rw [Bool.and_eq_true, not_and_or, Bool.not_eq_true, Bool.not_eq_true', Bool.not_eq_false]
      at unready
    exact unready.imp_right fun halted => mt alive_account_iff.1 (not_not_intro halted)
  · rw [not_or, not_not] at ready
    obtain ⟨present, displays⟩ := Option.ne_none_iff_exists'.1 ready.1
    have alive : p.account.Alive := by
      rw [alive_account_iff, Bool.not_eq_true, ← Bool.not_eq_true']
      exact (Bool.and_eq_true_iff.1 ready.2).2
    obtain ⟨quit, account⟩ := handOver_of_ready displays ready.2
    have settled : (p.settle h).account =
        p.account.shown (present p.session.machine.screen p.host) := by
      unfold settle
      generalize p.handOver h = answer at quit account
      obtain ⟨quits, q⟩ := answer
      dsimp only at quit account ⊢
      subst quit
      split
      · next quits =>
        rw [account_halt, account, Account.shown, if_pos quits]
      · next stays =>
        rw [account_setTone, account, Account.shown, if_neg stays]
        rfl
    rw [settled]
    exact .shown displays (Bool.and_eq_true_iff.1 ready.2).1 alive

/-- Nothing else can become of an account in a tick. -/
theorem ticked (h : Host σ) (p : Play σ α) (t : Tick) :
    p.account.Ticked h t (p.tick h t).2.account := by
  cases t with
  | timer =>
    simp only [tick, tickTimer]
    split
    · next halted => exact .stopped (mt alive_account_iff.1 (not_not_intro halted))
    · next alive =>
      refine .timer (alive_account_iff.2 alive) ?_
      have timed :
          ({ p with session := p.session.modifyMachine Machine.tickTimers }.note .timed).account =
          p.account.modifyMachine Machine.tickTimers := account_note _ rfl
      rw [← timed]
      exact settled_settle h _
  | instruction =>
    have polled := polled_pollInput h p
    have status := status_pollInput h p
    simp only [tick, tickInstruction]
    split
    · next halted => exact .stopped (mt alive_account_iff.1 (not_not_intro halted))
    next alive =>
    generalize p.pollInput h = answer at polled status ⊢
    obtain ⟨poll, q⟩ := answer
    split
    · next quits =>
      rw [account_halt]
      exact .quit (alive_account_iff.2 alive) polled quits
    next stays =>
    split
    · next x waits =>
      have settled := settled_settle h (q.deliverKey (poll.elim [] (·.keyDowns)))
      rw [account_deliverKey] at settled
      exact .waited (status.symm.trans waits) polled stays settled
    next awake =>
    have running : q.session.status = .running :=
      status.trans (status_eq_running alive fun x hx => awake x (status.trans hx))
    have executed := account_executeStep (h := h) running
    have cuts {i : Interruption} := cuts_of_executeStep (h := h) (p := q) (i := i)
    generalize q.executeStep h = answer at executed cuts ⊢
    obtain ⟨thrown, r⟩ := answer
    dsimp only at executed cuts
    cases thrown with
    | some i =>
      dsimp only
      rw [executed]
      exact .cut (status.symm.trans running) polled stays (cuts rfl)
    | none =>
      have settled := settled_settle h (r.deliverKey (poll.elim [] (·.keyDowns)))
      rw [account_deliverKey, executed] at settled
      exact .stepped (status.symm.trans running) polled stays settled

/-- A word is carried out in instruction ticks only, and in none that finds the session stopped. -/
theorem CarriesOut.goes {t : Tick} {w : UInt16} (carries : p.CarriesOut h t w) :
    t = .instruction ∧ ¬ p.session.isHalted = true := by
  obtain ⟨a, executed⟩ := carries
  obtain ⟨instruction, running, -⟩ := (ticked h p t).exists_of_executed executed
  exact ⟨instruction, alive_account_iff.1 (Account.alive_of_running running)⟩

end Play

end Chip8
