import Chip8.Proofs.Machine.Devices
import Chip8.Proofs.Session.Account
import Chip8.Proofs.Session.Advance
import Chip8.Settings

/-!
# Countdowns

A timer changes in two ways only: one instruction stores a register in it, and a timer tick takes
one from it until it is zero. So what it shows is the byte that was last stored less the timer ticks
since then, in whatever order the two kinds of ticks come.
-/

namespace Chip8

/-! ## One tick -/

theorem Timer.read_tickTimers (k : Timer) (m : Machine) :
    k.read m.tickTimers = Machine.countDown (k.read m) := by
  cases k <;> rfl

namespace Account

variable {σ : Type} {h : Host σ} {c c' : Account σ} {k : Timer} {t : Tick}

theorem Settled.timer_eq (settled : Settled h c c') : k.read c'.machine = k.read c.machine := by
  cases settled with
  | idle => rfl
  | shown => exact k.read_congr rfl rfl

theorem Polled.timer_eq {poll : Option Poll} (polled : Polled h c poll c') :
    k.read c'.machine = k.read c.machine := by
  obtain ⟨keypad, host, rfl⟩ := polled.exists_eq
  exact k.read_congr rfl rfl

theorem timer_delivered (c : Account σ) (key : Option Key) :
    k.read (c.delivered key).machine = k.read c.machine := by
  obtain ⟨v, pc, status, delivered⟩ := c.exists_delivered key
  rw [delivered]
  exact k.read_congr rfl rfl

/-- A tick that carries out a store leaves the stored byte in the timer. -/
theorem Ticked.timer_of_storesIn (ticked : c.Ticked h t c') {a : Int} {w : UInt16} {x : Reg}
    (executed : c'.steps = c.steps ++ [.executed a w]) (stores : Word.StoresIn k x w) :
    k.read c'.machine = (c.machine.reg x).toNat := by
  obtain ⟨-, -, poll, c₁, polled, result, settled⟩ := ticked.exists_of_executed executed
  have stored : k.read (c₁.stepped (c₁.drawByte h)).machine = (c₁.machine.reg x).toNat :=
    Processor.timer_step_of_storesIn result stores
  have kept : c₁.machine.reg x = c.machine.reg x := by
    obtain ⟨keypad, host, rfl⟩ := polled.exists_eq
    rfl
  rw [settled.timer_eq, stored, kept]

/-- Any other tick leaves the timer alone, but that a timer tick takes one from it. -/
theorem Ticked.timer_of_not_storesIn (ticked : c.Ticked h t c')
    (other : ∀ a w, c'.steps = c.steps ++ [.executed a w] → ∀ x, ¬ Word.StoresIn k x w) :
    (t = .timer ∧ c.Alive → k.read c'.machine = Machine.countDown (k.read c.machine)) ∧
      (¬ (t = .timer ∧ c.Alive) → k.read c'.machine = k.read c.machine) := by
  cases ticked with
  | stopped halted => exact ⟨fun goes => absurd goes.2 halted, fun _ => rfl⟩
  | timer alive settled =>
    have counted := settled.timer_eq (k := k)
    exact ⟨fun _ => counted.trans (k.read_tickTimers _), fun stays => absurd ⟨rfl, alive⟩ stays⟩
  | quit alive polled =>
    have kept := polled.timer_eq (k := k)
    exact ⟨nofun, fun _ => kept⟩
  | waited waits polled stays settled =>
    refine ⟨nofun, fun _ => ?_⟩
    rw [settled.timer_eq, timer_delivered, polled.timer_eq]
  | @stepped poll c₁ _ key running polled stays settled =>
    refine ⟨nofun, fun _ => ?_⟩
    have kept : k.read (c₁.stepped (c₁.drawByte h)).machine = k.read c₁.machine := by
      refine Processor.timer_step_of_not_storesIn fun a w result => other a w ?_
      rw [settled.steps_eq, steps_delivered, ← polled.steps_eq, ← result]
      rfl
    rw [settled.timer_eq, timer_delivered, kept, polled.timer_eq]
  | @cut poll c₁ running polled stays cuts =>
    refine ⟨nofun, fun _ => ?_⟩
    have kept : k.read (c₁.stepped (c₁.drawByte h)).machine = k.read c₁.machine := by
      refine Processor.timer_step_of_not_storesIn fun a w result => other a w ?_
      rw [← polled.steps_eq, ← result]
      rfl
    rw [kept, polled.timer_eq]

end Account

/-! ## Runs -/

namespace Play

variable {σ α : Type} {h : Host σ} {k : Timer} {p : Play σ α}

/-- The tick stores a byte in the timer. -/
def Stores (h : Host σ) (k : Timer) (p : Play σ α) (t : Tick) (b : UInt8) : Prop :=
  ∃ w x, p.CarriesOut h t w ∧ Word.StoresIn k x w ∧ b = p.session.machine.reg x

/-- None of the ticks stores in the timer. -/
def Leaves (h : Host σ) (k : Timer) : Play σ α → List Tick → Prop
  | _, [] => True
  | p, t :: ticks => (∀ b, ¬ p.Stores h k t b) ∧ Leaves h k (p.tick h t).2 ticks

/-- How many timer ticks find the session going. -/
def countdowns (h : Host σ) : Play σ α → List Tick → Nat
  | _, [] => 0
  | p, t :: ticks =>
    (if t = .timer ∧ ¬ p.session.isHalted = true then 1 else 0) + countdowns h (p.tick h t).2 ticks

/-- The byte that some ticks stored last in a timer, zero if there is none, and the countdowns since
then. -/
inductive LastStored (h : Host σ) (k : Timer) (p : Play σ α) (ticks : List Tick) :
    UInt8 → Nat → Prop
  | none (leaves : p.Leaves h k ticks) : LastStored h k p ticks 0 (p.countdowns h ticks)
  | stored {before rest : List Tick} {t : Tick} {b : UInt8} (split : ticks = before ++ t :: rest)
      (stores : (p.afterTicks h before).Stores h k t b)
      (leaves : (p.afterTicks h (before ++ [t])).Leaves h k rest) :
      LastStored h k p ticks b ((p.afterTicks h (before ++ [t])).countdowns h rest)

theorem exists_lastStored (h : Host σ) (k : Timer) (p : Play σ α) (ticks : List Tick) :
    ∃ b n, LastStored h k p ticks b n := by
  induction ticks generalizing p with
  | nil => exact ⟨_, _, .none trivial⟩
  | cons t ticks ih =>
    obtain ⟨b, n, last⟩ := ih (p.tick h t).2
    cases last with
    | none leaves =>
      by_cases stores : ∃ b, p.Stores h k t b
      · obtain ⟨b, stores⟩ := stores
        have split : t :: ticks = [] ++ t :: ticks := rfl
        exact ⟨b, _, .stored split stores leaves⟩
      · exact ⟨_, _, .none ⟨not_exists.1 stores, leaves⟩⟩
    | @stored before rest t' _ split stores leaves =>
      have split : t :: ticks = t :: before ++ t' :: rest := congrArg (t :: ·) split
      exact ⟨b, _, .stored split stores leaves⟩

theorem timer_of_stores {t : Tick} {b : UInt8} (stores : p.Stores h k t b) :
    k.read (p.tick h t).2.session.machine = b.toNat := by
  obtain ⟨w, x, ⟨a, executed⟩, word, rfl⟩ := stores
  exact (ticked h p t).timer_of_storesIn executed word

theorem timer_of_not_stores {t : Tick} (low : 0 ≤ k.read p.session.machine)
    (high : k.read p.session.machine ≤ 0xFF) (leaves : ∀ b, ¬ p.Stores h k t b) :
    k.read (p.tick h t).2.session.machine =
      max 0 (k.read p.session.machine - if t = .timer ∧
        ¬ p.session.isHalted = true then 1 else 0) := by
  obtain ⟨counted, kept⟩ :=
    (ticked h p t).timer_of_not_storesIn (k := k) fun a w executed x stores =>
    leaves _ ⟨w, x, ⟨a, executed⟩, stores, rfl⟩
  split
  · next goes =>
    rw [← Machine.countDown_eq low high]
    exact counted ⟨goes.1, alive_account_iff.2 goes.2⟩
  · next stays =>
    have same : k.read (p.tick h t).2.session.machine = k.read p.session.machine :=
      kept fun goes => stays ⟨goes.1, alive_account_iff.1 goes.2⟩
    omega

/-- While nothing is stored in it, a timer counts down to zero. -/
theorem timer_afterTicks (low : 0 ≤ k.read p.session.machine)
    (high : k.read p.session.machine ≤ 0xFF) (ticks : List Tick) (leaves : p.Leaves h k ticks) :
    k.read (p.afterTicks h ticks).session.machine =
      max 0 (k.read p.session.machine - p.countdowns h ticks) := by
  induction ticks generalizing p with
  | nil =>
    rw [afterTicks_nil, countdowns]
    omega
  | cons t ticks ih =>
    -- What the first tick leaves is in range again, and the others count down from there.
    obtain ⟨first, rest⟩ := leaves
    have ticked := timer_of_not_stores low high first
    rw [afterTicks_cons, countdowns, Int.natCast_add, ih ?_ ?_ rest, ticked]
    · split <;> omega
    · omega
    · split at ticked <;> omega

theorem countdowns_instructions (p : Play σ α) (n : Nat) :
    p.countdowns h (List.replicate n .instruction) = 0 := by
  induction n generalizing p with
  | zero => rfl
  | succ n ih => rw [List.replicate_succ, countdowns, ih, if_neg (fun both => nomatch both.1)]

theorem timer_of_lastStored {ticks : List Tick} {b : UInt8} {n : Nat}
    (start : k.read p.session.machine = 0) (last : LastStored h k p ticks b n) :
    k.read (p.afterTicks h ticks).session.machine = max 0 ((b.toNat : Int) - n) := by
  cases last with
  | none leaves =>
    rw [timer_afterTicks (by omega) (by omega) ticks leaves, start]
    rfl
  | @stored before rest t _ split stores leaves =>
    have byte := b.toNat_lt
    have stored := timer_of_stores stores
    rw [split, List.append_cons, afterTicks_append]
    rw [afterTicks_append, afterTicks_cons, afterTicks_nil] at leaves ⊢
    rw [timer_afterTicks (by omega) (by omega) rest leaves, stored]

variable [Quantity α] {program : List UInt8} {settings : Settings α} {s : Session α}

/-- Whatever the order of the ticks, a timer shows the byte last stored in it less the countdowns
since then, or zero. Waits do not stop a countdown, and instruction ticks have no part in it. -/
theorem timers_after (set : Session.ofProgram? program settings = .ok s) (h : Host σ) (host : σ)
    (ticks : List Tick) (k : Timer) :
    let p : Play σ α := .new s host
    let q := p.afterTicks h ticks
    let shown := k.read q.session.machine
    (∃ b n, LastStored h k p ticks b n) ∧
      (∀ b n, LastStored h k p ticks b n → shown = max 0 ((b.toNat : Int) - n)) ∧
    0 ≤ shown ∧ shown ≤ 0xFF ∧
    (∀ x, q.session.status = .awaitingKey x →
      k.read (q.tick h .timer).2.session.machine = max 0 (shown - 1)) ∧
    ∀ n, q.Leaves h k (.replicate n .instruction) →
      k.read (q.afterTicks h (.replicate n .instruction)).session.machine = shown := by
  intro p q shown
  have start : k.read p.session.machine = 0 := by
    obtain ⟨-, clock, -, rfl⟩ := Session.ofProgram?_eq_ok_iff.1 set
    cases k <;> rfl
  obtain ⟨b, n, last⟩ := exists_lastStored h k p ticks
  have shows : shown = max 0 ((b.toNat : Int) - n) := timer_of_lastStored start last
  have byte := b.toNat_lt
  have low : 0 ≤ shown := by omega
  have high : shown ≤ 0xFF := by omega
  have shows (b : UInt8) (n : Nat) (last : LastStored h k p ticks b n) :
      shown = max 0 ((b.toNat : Int) - n) :=
    timer_of_lastStored start last
  refine ⟨⟨b, n, last⟩, shows, low, high, fun x waits => ?_, fun n leaves => ?_⟩
  · have alive : ¬ q.session.isHalted = true := alive_account_iff.1 (Account.alive_of_waiting waits)
    have leaves (b : UInt8) : ¬ q.Stores h k .timer b := by
      rintro ⟨w, x, carries, -⟩
      cases carries.goes.1
    rw [timer_of_not_stores low high leaves, if_pos ⟨rfl, alive⟩]
  · rw [timer_afterTicks low high _ leaves, countdowns_instructions]
    omega

/-- A delay of five is stored, and a wait for a key begins before it has run off. -/
theorem timers_after_wait :
    let settings : Settings Rat := ⟨600, 60, .standard, 0, .halt⟩
    let h : Host Unit := ⟨none, none, fun u => (0, u)⟩
    let ticks : List Tick := [.instruction, .instruction, .instruction, .timer, .timer]
    ∃ s, Session.ofProgram? [0x60, 0x05, 0xF0, 0x15, 0xF1, 0x0A] settings = .ok s ∧
      let p : Play Unit Rat := .new s ()
      let q := p.afterTicks h ticks
      LastStored h .delay p ticks 5 2 ∧ q.session.machine.dt = 3 ∧
        q.session.status = .awaitingKey 1 ∧
      (q.tick h .timer).2.session.machine.dt = 2 := by
  intro settings h ticks
  obtain ⟨s, set⟩ : ∃ s, Session.ofProgram? [0x60, 0x05, 0xF0, 0x15, 0xF1, 0x0A] settings = .ok s :=
    ⟨_, Session.ofProgram?_eq_ok_iff.2 ⟨by decide, _, rfl, rfl⟩⟩
  refine ⟨s, set, ?_⟩
  intro p q
  obtain ⟨-, shows, -, -, waits, -⟩ := timers_after set h () ticks .delay
  obtain ⟨-, clock, created, rfl⟩ := Session.ofProgram?_eq_ok_iff.1 set
  cases created
  let r := p.afterTicks h [.instruction, .instruction]
  obtain ⟨executed, begun, count, status⟩ :
      r.steps = (p.afterTicks h [.instruction]).steps ++ [.executed 0x202 0xF015] ∧
      (r.tick h .instruction).2.steps = r.steps ++ [.awaitingKey 0x204 0xF10A 1] ∧
      r.countdowns h [.instruction, .timer, .timer] = 2 ∧
      q.session.status = .awaitingKey 1 := by decide +kernel
  have stores : (p.afterTicks h [.instruction]).Stores h .delay .instruction 5 :=
    ⟨0xF015, 0, ⟨0x202, executed⟩, rfl, by decide +kernel⟩
  have wait (b : UInt8) : ¬ r.Stores h .delay .instruction b := by
    rintro ⟨w, x, ⟨a, carried⟩, -⟩
    cases List.append_cancel_left (begun.symm.trans carried)
  have timer (r : Play Unit Rat) (b : UInt8) : ¬ r.Stores h .delay .timer b := by
    rintro ⟨w, x, carries, -⟩
    cases carries.goes.1
  have leaves : r.Leaves h .delay [.instruction, .timer, .timer] :=
    ⟨wait, timer _, timer _, trivial⟩
  have last : LastStored h .delay p ticks 5 (r.countdowns h [.instruction, .timer, .timer]) :=
    .stored rfl stores leaves
  rw [count] at last
  have dt : q.session.machine.dt = 3 := shows 5 2 last
  have later : (q.tick h .timer).2.session.machine.dt = max 0 (q.session.machine.dt - 1) :=
    waits 1 status
  exact ⟨last, dt, status, by rw [later, dt]; rfl⟩

end Play

end Chip8
