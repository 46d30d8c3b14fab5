import Chip8.Proofs.Machine.Devices
import Chip8.Proofs.Session.Watched
import Chip8.Settings

/-!
# Frames that are handed over

A tick gives the display the screen if its step cleared the screen or drew on it, and in no other
case. So between ticks nothing is left to hand over, and the last frame that the display was given
is the screen (`HandedOver`).
-/

namespace Chip8

namespace Account

variable {σ : Type} {h : Host σ} {present : Screen → σ → Bool × σ} {c c' : Account (σ × List Asked)}
  {t : Tick}

/-- The display takes a screen that was drawn on. -/
theorem Settled.frames_eq (settled : Settled h.watched c c') (displays : h.present = some present)
    (drawn : c.machine.drawn = true) (alive : c.Alive) :
    c'.machine = { c.machine with drawn := false } ∧ c'.presented = c.presented + 1 ∧
      ∃ quits, framesOf c'.host.2 = framesOf c.host.2 ++ [(c.machine.screen, quits)] ∧
        (quits = true → c'.status = .halted .userQuit) := by
  cases settled with
  | idle idle =>
    exfalso
    rcases idle with absent | undrawn | stopped
    · rw [Host.watched, displays] at absent
      cases absent
    · cases drawn.symm.trans undrawn
    · exact stopped alive
  | shown displays =>
    obtain ⟨present, -, rfl⟩ := Option.map_eq_some_iff.1 displays
    refine ⟨rfl, rfl, _, framesOf_append _ _, ?_⟩
    intro quits
    exact if_pos quits

/-- A tick that draws gives the display one frame, the screen as the tick leaves it. -/
theorem frames_of_draws (displays : h.present = some present) (ticked : c.Ticked h.watched t c')
    {a : Int} {w : UInt16} (executed : c'.steps = c.steps ++ [.executed a w])
    (draws : Word.Draws w) :
    t = .instruction ∧ c'.machine.drawn = false ∧ c'.presented = c.presented + 1 ∧
      ∃ quits, framesOf c'.host.2 = framesOf c.host.2 ++ [(c'.machine.screen, quits)] ∧
        (quits = true → c'.status = .halted .userQuit) := by
  obtain ⟨instruction, -, poll, c₁, polled, result, settled⟩ := ticked.exists_of_executed executed
  have presented : (c₁.stepped (c₁.drawByte h.watched)).presented = c.presented := by
    obtain ⟨keypad, host, rfl⟩ := polled.exists_eq
    rfl
  have asked := (congrArg framesOf (asked_stepped h c₁)).trans (framesOf_of_polled polled)
  have drawn : (c₁.stepped (c₁.drawByte h.watched)).machine.drawn = true :=
    Processor.drawn_step_of_draws result draws
  have running : (c₁.stepped (c₁.drawByte h.watched)).status = .running :=
    congrArg StepResult.status result
  generalize c₁.stepped (c₁.drawByte h.watched) = c₂ at asked drawn running presented settled
  obtain ⟨machine, count, quits, frames, quit⟩ :=
    settled.frames_eq displays drawn (alive_of_running running)
  rw [machine, ← asked, ← presented]
  exact ⟨instruction, rfl, count, quits, frames, quit⟩

/-- Any other tick gives the display nothing and leaves the screen alone, if no frame was left over
before it. -/
theorem frames_of_not_draws (undrawn : c.machine.drawn = false) (ticked : c.Ticked h.watched t c')
    (blind : ∀ a w, c'.steps = c.steps ++ [.executed a w] → ¬ Word.Draws w) :
    framesOf c'.host.2 = framesOf c.host.2 ∧ c'.machine.drawn = false ∧ c'.presented = c.presented ∧
      c'.machine.screen = c.machine.screen := by
  cases ticked with
  | stopped => exact ⟨rfl, undrawn, rfl, rfl⟩
  | timer alive settled =>
    obtain rfl := settled.eq_of_not_drawn undrawn
    exact ⟨rfl, undrawn, rfl, rfl⟩
  | quit alive polled =>
    have frames := framesOf_of_polled polled
    obtain ⟨keypad, host, rfl⟩ := polled.exists_eq
    exact ⟨frames, undrawn, rfl, rfl⟩
  | @waited poll c₁ _ x key waits polled stays settled =>
    have frames := framesOf_of_polled polled
    obtain ⟨keypad, host, rfl⟩ := polled.exists_eq
    obtain ⟨v, pc, status, delivered⟩ := exists_delivered _ key
    rw [delivered] at settled
    obtain rfl := settled.eq_of_not_drawn undrawn
    exact ⟨frames, undrawn, rfl, rfl⟩
  | @stepped poll c₁ _ key running polled stays settled =>
    -- Only here could the screen change, and a step that carries out another word leaves it alone.
    have frames := (congrArg framesOf (asked_stepped h c₁)).trans (framesOf_of_polled polled)
    obtain ⟨keypad, host, rfl⟩ := polled.exists_eq
    obtain ⟨v, pc, status, delivered⟩ := exists_delivered (stepped _ (drawByte h.watched _)) key
    have kept := Processor.screen_step_of_not_draws fun a w result => blind a w (by
      rw [settled.steps_eq, steps_delivered, ← result]
      rfl)
    rw [delivered] at settled
    obtain rfl := settled.eq_of_not_drawn (kept.2.trans undrawn)
    exact ⟨frames, kept.2.trans undrawn, rfl, kept.1⟩
  | @cut poll c₁ running polled stays cuts =>
    have frames := (congrArg framesOf (asked_stepped h c₁)).trans (framesOf_of_polled polled)
    obtain ⟨keypad, host, rfl⟩ := polled.exists_eq
    have kept := Processor.screen_step_of_not_draws fun a w result => blind a w (by
      rw [← result]
      rfl)
    exact ⟨frames, kept.2.trans undrawn, rfl, kept.1⟩

end Account

namespace Play

variable {σ α : Type} {h : Host σ} {present : Screen → σ → Bool × σ} {p : Play (σ × List Asked) α}
  {t : Tick}

/-- Nothing is left to hand over: of all that was drawn, the display was last given the screen as it
is. -/
structure HandedOver (p : Play (σ × List Asked) α) : Prop where
  drawn : p.session.machine.drawn = false
  screen : p.session.machine.screen = ((framesOf p.host.2).getLast?.map Prod.fst).getD .dark
  count : p.session.presented = (framesOf p.host.2).length

/-- The poll of a tick that carries out a word did not quit. -/
theorem CarriesOut.stays {w : UInt16} {poll : Poll} (carries : p.CarriesOut h.watched t w)
    (polled : pollsOf (p.tick h.watched t).2.host.2 = pollsOf p.host.2 ++ [poll]) :
    poll.quit = false := by
  obtain ⟨instruction, alive⟩ := carries.goes
  obtain ⟨a, executed⟩ := carries
  rcases (ticked h.watched p t).polls_cases with
    ⟨timer | stopped, -⟩ | ⟨-, -, answer, c₁, -, one, quit⟩
  · cases instruction.symm.trans timer
  · exact absurd (alive_account_iff.2 alive) stopped
  · have answered : answer.toList = [poll] := List.append_cancel_left (one.symm.trans polled)
    rw [Option.toList_eq_singleton_iff.1 answered] at quit
    by_contra quits
    have same : (p.tick h.watched t).2.steps = p.steps := (quit ((Bool.not_eq_false _).mp quits)).1
    rw [same] at executed
    cases List.self_eq_append_right.1 executed

theorem frames_of_draws {w : UInt16} (displays : h.present = some present)
    (carries : p.CarriesOut h.watched t w) (draws : Word.Draws w) :
    let q := (p.tick h.watched t).2
    t = .instruction ∧ q.session.machine.drawn = false ∧
      q.session.presented = p.session.presented + 1 ∧
      ∃ quits, framesOf q.host.2 = framesOf p.host.2 ++ [(q.session.machine.screen, quits)] ∧
        (quits = true → q.session.status = .halted .userQuit) := by
  obtain ⟨a, executed⟩ := carries
  exact Account.frames_of_draws displays (ticked h.watched p t) executed draws

theorem frames_of_not_draws (undrawn : p.session.machine.drawn = false)
    (blind : ∀ w, p.CarriesOut h.watched t w → ¬ Word.Draws w) :
    let q := (p.tick h.watched t).2
    framesOf q.host.2 = framesOf p.host.2 ∧ q.session.machine.drawn = false ∧
      q.session.presented = p.session.presented ∧
      q.session.machine.screen = p.session.machine.screen :=
  Account.frames_of_not_draws (c := p.account) undrawn (ticked h.watched p t) fun a w executed =>
    blind w ⟨a, executed⟩

theorem HandedOver.tick (displays : h.present = some present) (handed : p.HandedOver) (t : Tick) :
    (p.tick h.watched t).2.HandedOver := by
  obtain ⟨undrawn, screen, count⟩ := handed
  by_cases draws : ∃ w, p.CarriesOut h.watched t w ∧ Word.Draws w
  · obtain ⟨w, carries, draws⟩ := draws
    obtain ⟨-, drawn, presented, quits, frames, -⟩ := frames_of_draws displays carries draws
    refine ⟨drawn, ?_, ?_⟩
    · rw [frames, List.getLast?_concat]
      rfl
    · rw [frames, List.length_append, presented, count]
      rfl
  · rw [not_exists] at draws
    obtain ⟨frames, drawn, presented, kept⟩ :=
      frames_of_not_draws undrawn fun w carries => not_and.1 (draws w) carries
    refine ⟨drawn, ?_, ?_⟩
    · rw [frames, kept, screen]
    · rw [frames, presented, count]

variable [Quantity α] {program : List UInt8} {settings : Settings α} {s : Session α}

theorem HandedOver.after (displays : h.present = some present) (handed : p.HandedOver)
    (calls : List (Call α)) :
    (p.after h.watched calls).HandedOver :=
  after_induction (fun _ t handed => handed.tick displays t)
    (fun _ _ handed => ⟨handed.drawn, handed.screen, handed.count⟩) calls handed

theorem HandedOver.start (set : Session.ofProgram? program settings = .ok s) (host : σ) :
    (Play.new s (host, ([] : List Asked))).HandedOver := by
  obtain ⟨-, clock, -, rfl⟩ := Session.ofProgram?_eq_ok_iff.1 set
  exact ⟨rfl, rfl, rfl⟩

/-- A display is given the screen once in each tick that carries out a word that draws, and in no
other tick, and nothing that was drawn is left over between ticks. -/
theorem frames_after (set : Session.ofProgram? program settings = .ok s)
    (displays : h.present = some present) (host : σ) (calls : List (Call α)) (t : Tick) :
    let p := (Play.new s (host, [])).after h.watched calls
    let q := (p.tick h.watched t).2
    p.session = ((Play.new s host).after h calls).session ∧
    p.HandedOver ∧
    (∀ w, p.CarriesOut h.watched t w → Word.Draws w →
      t = .instruction ∧ ∃ quits,
        framesOf q.host.2 = framesOf p.host.2 ++ [(q.session.machine.screen, quits)] ∧
        (quits = true → q.session.status = .halted .userQuit)) ∧
    ((∀ w, p.CarriesOut h.watched t w → ¬ Word.Draws w) → framesOf q.host.2 = framesOf p.host.2) ∧
    (t = .timer ∨ p.session.isHalted = true ∨ (∃ f, q.steps = p.steps ++ [.faulted f]) ∨
      (∃ poll, pollsOf q.host.2 = pollsOf p.host.2 ++ [poll] ∧ poll.quit = true) →
        framesOf q.host.2 = framesOf p.host.2) := by
  intro p q
  have handed : p.HandedOver := (HandedOver.start set host).after displays calls
  have idle (blind : ∀ w, p.CarriesOut h.watched t w → ¬ Word.Draws w) :
      framesOf q.host.2 = framesOf p.host.2 :=
    (frames_of_not_draws handed.drawn blind).1
  refine ⟨session_after_watched s h host calls, handed, ?_, idle, ?_⟩
  · intro w carries draws
    obtain ⟨instruction, -, -, frame⟩ := frames_of_draws displays carries draws
    exact ⟨instruction, frame⟩
  · intro stops
    refine idle fun w carries => ?_
    obtain ⟨instruction, alive⟩ := carries.goes
    exfalso
    rcases stops with timer | halted | ⟨f, faulted⟩ | ⟨poll, polled, quits⟩
    · cases timer.symm.trans instruction
    · exact alive halted
    · obtain ⟨a, executed⟩ := carries
      cases List.append_cancel_left (faulted.symm.trans executed)
    · cases (carries.stays polled).symm.trans quits

/-- The screen is cleared and then drawn on, and the display has seen enough at its second frame. -/
theorem frames_after_quit :
    let settings : Settings Rat := ⟨600, 60, .standard, 0, .halt⟩
    let present : Screen → Nat → Bool × Nat := fun _ n => (n == 1, n + 1)
    let h : Host Nat := ⟨none, some present, fun n => (0, n)⟩
    h.present = some present ∧
    ∃ s, Session.ofProgram? [0x00, 0xE0, 0xD0, 0x01] settings = .ok s ∧
      let p := (Play.new s (0, [])).after h.watched [.tick .instruction]
      let q := (p.tick h.watched .instruction).2
      p.HandedOver ∧ p.session.presented = 1 ∧
      p.CarriesOut h.watched .instruction 0xD001 ∧ Word.Draws 0xD001 ∧
      q.session.status = .halted .userQuit ∧ q.session.machine.screen.cells[0] = 1 ∧
      (∃ quits, framesOf q.host.2 = framesOf p.host.2 ++ [(q.session.machine.screen, quits)]) ∧
      framesOf (q.tick h.watched .instruction).2.host.2 = framesOf q.host.2 := by
  intro settings present h
  obtain ⟨s, set⟩ : ∃ s, Session.ofProgram? [0x00, 0xE0, 0xD0, 0x01] settings = .ok s :=
    ⟨_, Session.ofProgram?_eq_ok_iff.2 ⟨by decide, _, rfl, rfl⟩⟩
  refine ⟨rfl, s, set, ?_⟩
  intro p q
  obtain ⟨-, handed, shown, -, -⟩ :=
    frames_after set (h := h) rfl 0 [.tick .instruction] .instruction
  obtain ⟨-, -, -, -, stopped⟩ :=
    frames_after set (h := h) rfl 0 [.tick .instruction, .tick .instruction] .instruction
  have draws : Word.Draws 0xD001 := .inr rfl
  obtain ⟨-, clock, created, rfl⟩ := Session.ofProgram?_eq_ok_iff.1 set
  cases created
  obtain ⟨executed, once, halted, lit⟩ :
      q.steps = p.steps ++ [.executed 0x202 0xD001] ∧ p.session.presented = 1 ∧
      q.session.status = .halted .userQuit ∧
      q.session.machine.screen.cells[0] = 1 := by decide +kernel
  have carries : p.CarriesOut h.watched .instruction 0xD001 := ⟨0x202, executed⟩
  obtain ⟨-, quits, frames, -⟩ := shown 0xD001 carries draws
  have final := stopped (.inr (.inl (Session.isHalted_iff.2 ⟨_, halted⟩)))
  exact ⟨handed, once, carries, draws, halted, lit, ⟨quits, frames⟩, final⟩

end Play

end Chip8
