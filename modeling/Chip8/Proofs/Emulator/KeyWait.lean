import Chip8.Proofs.Emulator.Frames
import Chip8.Proofs.Number
import Chip8.Proofs.Session.Account
import Chip8.Proofs.Session.Advance
import Mathlib.Data.List.Induction

/-!
# Waiting for a key

A program waits at a word that stores a key. Each tick of a wait changes the account of the session
in one way (`account_tickTimer`, `account_tickInstruction`), and `Play.waited` is what any number of
them come to while no key goes down: the word is carried out once, whatever number of ticks go by,
and only the keypad and the timers move.

A wait draws nothing, and no frame is left over from the ticks before it, so no display can end a
wait.
-/

namespace Chip8

/-! ## Keys -/

/-- None of the numbers names a key. -/
def NoKey (numbers : List Number) : Prop := ∀ n ∈ numbers, ∀ key : Key, n ≠ .ofNat key

instance (numbers : List Number) : Decidable (NoKey numbers) :=
  inferInstanceAs (Decidable (∀ n ∈ numbers, ∀ key : Key, n ≠ .ofNat key))

theorem NoKey.findSome?_eq_none {numbers : List Number} (keyless : NoKey numbers) :
    numbers.findSome? Number.key? = none := by
  refine List.findSome?_eq_none_iff.2 fun n hn =>
    Option.eq_none_iff_forall_ne_some.2 fun key named => ?_
  exact keyless n hn key (Number.key?_eq_some_iff.1 named)

/-- The first number that names a key is the one that counts. -/
theorem NoKey.findSome?_append_cons {before : List Number} (keyless : NoKey before) (key : Key)
    (rest : List Number) : (before ++ .ofNat key :: rest).findSome? Number.key? = some key := by
  rw [List.findSome?_append, keyless.findSome?_eq_none, List.findSome?_cons,
    Number.key?_eq_some_iff.2 rfl]
  rfl

theorem Instr.toNat_toWord_waitKey (x : Reg) : (waitKey x).toWord.toNat = 0xF00A + 0x100 * x := by
  revert x
  decide

/-! ## Accounts -/

namespace Account

variable {σ : Type}

/-- The word is carried out, if it was not before. -/
def begun (c : Account σ) (a : Int) (x : Reg) : Account σ :=
  if c.status = .running then
    { c with
      status := .awaitingKey x
      executed := c.executed + 1
      steps := c.steps ++ [.awaitingKey a (c.processor.fetch a) x] }
  else c

/-- A wait for a key in a register goes on at an address, or begins there with the next instruction
tick. -/
structure AtWait (h : Host σ) (a : Int) (x : Reg) (c : Account σ) : Prop where
  fetch : c.processor.machine.pc.fetchable? = some a
  word : Instr.ofWord? (c.processor.fetch a) = some (.waitKey x)
  shown : h.present = none ∨ c.processor.machine.drawn = false
  status : c.status = .running ∨ c.status = .awaitingKey x

namespace AtWait

variable {h : Host σ} {a : Int} {x : Reg} {c : Account σ}

theorem step (wait : AtWait h a x c) (e : UInt8) :
    c.processor.step e = (.awaitingKey a (c.processor.fetch a) x, c.processor) := by
  rw [Processor.step_of_fetchable wait.fetch, Word.execute_of_some _ _ _ wait.word]
  rfl

theorem drawsRandom (wait : AtWait h a x c) : c.processor.drawsRandom = false := by
  rw [Processor.drawsRandom, wait.fetch, Option.any_some, wait.word]
  rfl

theorem of_modifyMachine (wait : AtWait h a x c) {f : Machine → Machine}
    (memory : ∀ m, (f m).memory = m.memory) (pc : ∀ m, (f m).pc = m.pc)
    (drawn : ∀ m, (f m).drawn = m.drawn) : AtWait h a x (c.modifyMachine f) := by
  obtain ⟨fetch, word, shown, status⟩ := wait
  refine ⟨(congrArg _ (pc _)).trans fetch, ?_, shown.imp_right (drawn _).trans, status⟩
  have same : (c.modifyMachine f).processor.fetch a = c.processor.fetch a :=
    congrArg (Memory.read16 · a) (memory _)
  rw [same]
  exact word

theorem polled (wait : AtWait h a x c) (poll : Poll) (host : σ) :
    AtWait h a x (c.polled poll host) :=
  { wait.of_modifyMachine (f := fun m => { m with keypad := poll.keys }) (fun _ => rfl)
    (fun _ => rfl)
      (fun _ => rfl) with }

theorem begun (wait : AtWait h a x c) : AtWait h a x (c.begun a x) := by
  unfold Account.begun
  split
  · exact { wait with status := .inr rfl }
  · exact wait

end AtWait

end Account

namespace Play

variable {σ α : Type} {h : Host σ} {p q : Play σ α} {a : Int} {x : Reg}

theorem account_settle (shown : Shown h p) : (p.settle h).account = p.account := by
  have settled := settled_settle h p
  generalize (p.settle h).account = c at settled
  cases settled with
  | idle => rfl
  | shown displays drawn =>
    have undrawn := shown.resolve_left (by rw [displays]; exact nofun)
    cases drawn.symm.trans undrawn

/-- The word of a wait is carried out without the host. -/
theorem executeStep_of_atWait (wait : p.account.AtWait h a x)
    (running : p.session.status = .running) :
    (p.executeStep h).1 = none ∧ (p.executeStep h).2.session.status = .awaitingKey x ∧
      (p.executeStep h).2.account = p.account.begun a x := by
  have undrawn : p.drawByte h = (0, p.host) := by
    have never : p.session.processor.drawsRandom = false := wait.drawsRandom
    rw [drawByte, never]
    rfl
  have step : p.session.processor.step 0 = _ := wait.step 0
  have begun : p.account.begun a x = _ := if_pos running
  rw [executeStep_eq, undrawn]
  dsimp only
  rw [step, begun]
  refine ⟨rfl, rfl, ?_⟩
  have steps := steps_note p (.stepped (.awaitingKey a (p.session.processor.fetch a) x))
  exact congrArg (fun steps =>
    { p.account with status := .awaitingKey x, executed := p.session.executed + 1, steps })
    steps

theorem atWait_pollInput (wait : p.account.AtWait h a x) :
    (p.pollInput h).2.account.AtWait h a x := by
  cases asks : h.poll with
  | none =>
    rw [pollInput_of_none asks]
    exact wait
  | some ask =>
    rw [(pollInput_of_some asks).2]
    exact wait.polled _ _

theorem not_isHalted_of_atWait (wait : p.account.AtWait h a x) : ¬ p.session.isHalted = true := by
  rw [Session.isHalted_iff]
  rintro ⟨reason, halted⟩
  rcases wait.status with status | status <;> exact absurd (status.symm.trans halted) nofun

theorem account_tickTimer (wait : p.account.AtWait h a x) :
    (p.tickTimer h).account = p.account.modifyMachine Machine.tickTimers := by
  unfold tickTimer
  rw [if_neg (not_isHalted_of_atWait wait)]
  refine (account_settle ?_).trans (account_note _ rfl)
  exact wait.shown

theorem account_tickInstruction_of_quit (wait : p.account.AtWait h a x)
    (quits : (p.pollInput h).1.any (·.quit) = true) :
    (p.tickInstruction h).2.account =
      { (p.pollInput h).2.account with status := .halted .userQuit } := by
  unfold tickInstruction
  rw [if_neg (not_isHalted_of_atWait wait)]
  split
  next poll q hq =>
  rw [hq] at quits ⊢
  rw [if_pos quits]
  exact account_halt q _

theorem account_tickInstruction (wait : p.account.AtWait h a x)
    (stays : ¬ (p.pollInput h).1.any (·.quit) = true) :
    (p.tickInstruction h).2.account = ((p.pollInput h).2.account.begun a x).resumed x
      (((p.pollInput h).1.elim [] (·.keyDowns)).findSome? Number.key?) := by
  have polled := atWait_pollInput wait
  unfold tickInstruction
  rw [if_neg (not_isHalted_of_atWait wait)]
  split
  next poll q hq =>
  rw [hq] at stays polled ⊢
  rw [if_neg stays]
  dsimp only at polled ⊢
  have delivered (r : Play σ α) (account : r.account = q.account.begun a x)
    (awaits : r.session.status = .awaitingKey x)
      (keyDowns : List Number) : ((r.deliverKey keyDowns).settle h).account =
        (q.account.begun a x).resumed x (keyDowns.findSome? Number.key?) := by
    have shown : Shown h r := (account ▸ polled.begun).shown
    rw [account_settle (shown.deliverKey _), account_resumed r awaits, account]
  split
  · next y awaits =>
    have waits : q.account.status ≠ .running := by
      intro running
      cases awaits.symm.trans running
    have begun : q.account.begun a x = q.account := if_neg waits
    exact delivered q begun.symm (polled.status.resolve_left waits) _
  · next awake =>
    have running : q.session.status = .running := polled.status.resolve_right (awake x)
    obtain ⟨goes, awaits, account⟩ := executeStep_of_atWait polled running
    split
    · next hq' =>
      rw [hq'] at goes
      cases goes
    · next r hq' =>
      rw [hq'] at awaits account
      exact delivered r account awaits _

/-- A tick without a key goes no further than the poll and the word. -/
theorem account_tickInstruction_of_keyless (wait : p.account.AtWait h a x)
    (keyless : ∀ ask, h.poll = some ask → (ask p.host).1.quit = false ∧
      NoKey (ask p.host).1.keyDowns) :
    (p.tickInstruction h).2.account = (p.pollInput h).2.account.begun a x := by
  cases asks : h.poll with
  | none =>
    have silent : p.pollInput h = (none, p) := pollInput_of_none asks
    have ticked := account_tickInstruction wait (by rw [silent]; exact Bool.false_ne_true)
    rw [silent] at ticked ⊢
    exact ticked
  | some ask =>
    obtain ⟨stays, keyless⟩ := keyless ask asks
    have answer := (pollInput_of_some (p := p) asks).1
    have ticked :=
      account_tickInstruction wait
        (by rw [answer, Option.any_some, stays]; exact Bool.false_ne_true)
    rw [answer, Option.elim_some, keyless.findSome?_eq_none] at ticked
    exact ticked

end Play

/-! ## Any number of ticks -/

/-- The polls of a host at so many instruction ticks, and its state behind them. -/
def Host.answers {σ : Type} (h : Host σ) (s : σ) : Nat → List Poll × σ
  | 0 => ([], s)
  | n + 1 =>
    let (polls, s) := h.answers s n
    match h.poll with
    | none => (polls, s)
    | some ask => (polls ++ [(ask s).1], (ask s).2)

theorem Host.answers_of_some {σ : Type} {h : Host σ} {ask : σ → Poll × σ} (asks : h.poll = some ask)
    (s : σ) (n : Nat) :
    h.answers s (n + 1) =
      ((h.answers s n).1 ++ [(ask (h.answers s n).2).1], (ask (h.answers s n).2).2) := by
  rw [answers, asks]

theorem Host.answers_of_none {σ : Type} {h : Host σ} (silent : h.poll = none) (s : σ) (n : Nat) :
    h.answers s (n + 1) = h.answers s n := by
  rw [answers, silent]

theorem Host.forall_answers_succ {σ : Type} {h : Host σ} {s : σ} {n : Nat} {P : Poll → Prop} :
    (∀ poll ∈ (h.answers s (n + 1)).1, P poll) ↔
      (∀ poll ∈ (h.answers s n).1, P poll) ∧
      ∀ ask, h.poll = some ask → P (ask (h.answers s n).2).1 := by
  cases asks : h.poll with
  | none =>
    rw [answers_of_none asks]
    exact ⟨fun all => ⟨all, nofun⟩, And.left⟩
  | some ask =>
    rw [answers_of_some asks]
    simp only [List.forall_mem_append, List.forall_mem_singleton, Option.some.injEq, forall_eq']

namespace Machine

/-- The machine after a wait: it has the keys of the last poll, and its timers have run on. -/
def waited (m : Machine) (polls : List Poll) (periods : Nat) : Machine :=
  { m with
    keypad := (polls.getLast?.map (·.keys)).getD m.keypad
    dt := max 0 (m.dt - periods)
    st := max 0 (m.st - periods) }

theorem waited_zero {m : Machine} (sound : m.Sound) : m.waited [] 0 = m := by
  have dt := sound.delay
  have st := sound.sound
  rw [waited, show max 0 (m.dt - (0 : Nat)) = m.dt by omega,
    show max 0 (m.st - (0 : Nat)) = m.st by omega]
  rfl

theorem tickTimers_waited {m : Machine} (sound : m.Sound) (polls : List Poll) (periods : Nat) :
    (m.waited polls periods).tickTimers = m.waited polls (periods + 1) := by
  have dt := sound.delay
  have st := sound.sound
  simp only [waited, tickTimers]
  rw [countDown_eq (by omega) (by omega), countDown_eq (by omega) (by omega)]
  congr 1 <;> omega

theorem waited_append (m : Machine) (polls : List Poll) (poll : Poll) (periods : Nat) :
    m.waited (polls ++ [poll]) periods = { m.waited polls periods with keypad := poll.keys } := by
  rw [waited, List.getLast?_concat]
  rfl

end Machine

namespace Play

variable {σ α : Type} {h : Host σ} {p q : Play σ α} {a : Int} {x : Reg}

/-- The account of a play that waits for a key from the next instruction tick on, after so many
ticks of either kind without one. -/
def waited (h : Host σ) (a : Int) (x : Reg) (p : Play σ α) (instructions timers : Nat) :
    Account σ where
  processor :=
    { p.session.processor with
      machine := p.session.machine.waited (h.answers p.host instructions).1 timers }
  status := if instructions = 0 then .running else .awaitingKey x
  executed := if instructions = 0 then p.session.executed else p.session.executed + 1
  presented := p.session.presented
  steps := if instructions = 0 then p.steps
    else p.steps ++ [.awaitingKey a (p.session.processor.fetch a) x]
  host := (h.answers p.host instructions).2

theorem waited_zero (sound : p.session.machine.Sound) (running : p.session.status = .running) :
    p.waited h a x 0 0 = p.account := by
  have machine : p.session.processor.machine.waited [] 0 = p.session.processor.machine :=
    Machine.waited_zero sound
  simp only [waited, account, Host.answers, Session.machine, machine, running, if_pos]

theorem waited_timer (sound : p.session.machine.Sound) (n m : Nat) :
    (p.waited h a x n m).modifyMachine Machine.tickTimers = p.waited h a x n (m + 1) := by
  simp only [waited, Account.modifyMachine, Machine.tickTimers_waited sound]

/-- One more poll without a key: the first one begins the wait, and the others leave it as it is. -/
theorem begun_pollInput {n m : Nat} (account : q.account = p.waited h a x n m) :
    (q.pollInput h).2.account.begun a x = p.waited h a x (n + 1) m := by
  cases asks : h.poll with
  | none =>
    rw [pollInput_of_none asks, account]
    conv_rhs => rw [waited, Host.answers_of_none asks]
    cases n with
    | zero => exact if_pos rfl
    | succ n => exact if_neg nofun
  | some ask =>
    have host : q.host = (h.answers p.host n).2 := congrArg Account.host account
    rw [(pollInput_of_some asks).2, account, host]
    conv_rhs => rw [waited, Host.answers_of_some asks, Machine.waited_append]
    cases n with
    | zero => exact if_pos rfl
    | succ n => exact if_neg nofun

theorem atWait_waited (wait : p.account.AtWait h a x) (n m : Nat) :
    (p.waited h a x n m).AtWait h a x := by
  refine { wait with status := ?_ }
  unfold waited
  split
  · exact .inl rfl
  · exact .inr rfl

variable [Quantity α]

theorem after_concat (h : Host σ) (p : Play σ α) (ticks : List Tick) (tick : Tick) :
    p.after h ((ticks ++ [tick]).map .tick) = ((p.after h (ticks.map .tick)).tick h tick).2 := by
  rw [after_map_tick, after_map_tick, afterTicks_append]
  rfl

/-- While no poll quits or brings a key, the wait goes on. -/
theorem account_after (sound : p.session.machine.Sound) (running : p.session.status = .running)
    (wait : p.account.AtWait h a x) (ticks : List Tick)
    (keyless : ∀ poll ∈ (h.answers p.host (ticks.count .instruction)).1, poll.quit = false ∧
      NoKey poll.keyDowns) :
    (p.after h (ticks.map .tick)).account =
      p.waited h a x (ticks.count .instruction) (ticks.count .timer) := by
  induction ticks using List.reverseRecOn with
  | nil => exact (waited_zero sound running).symm
  | append_singleton ticks tick ih =>
    rw [after_concat]
    cases tick with
    | timer =>
      have instructions : (ticks ++ [Tick.timer]).count Tick.instruction =
        ticks.count .instruction := by simp
      have timers : (ticks ++ [Tick.timer]).count Tick.timer = ticks.count .timer + 1 := by simp
      rw [instructions] at keyless ⊢
      rw [timers, ← waited_timer sound, ← ih keyless]
      exact account_tickTimer ((ih keyless).symm ▸ atWait_waited wait _ _)
    | instruction =>
      have instructions : (ticks ++ [Tick.instruction]).count Tick.instruction =
        ticks.count .instruction + 1 := by simp
      have timers : (ticks ++ [Tick.instruction]).count Tick.timer = ticks.count .timer := by simp
      rw [instructions] at keyless ⊢
      obtain ⟨before, last⟩ := Host.forall_answers_succ.1 keyless
      have account := ih before
      have host : (p.after h (ticks.map .tick)).host = _ := congrArg Account.host account
      rw [timers, ← begun_pollInput account]
      exact account_tickInstruction_of_keyless (account ▸ atWait_waited wait _ _) (host ▸ last)

omit [Quantity α] in
/-- A key that is stored moves the program counter to the next word. -/
theorem resumed_waited (fetch : p.session.machine.pc.fetchable? = some a) (n m : Nat) (key : Key) :
    (p.waited h a x (n + 1) m).resumed x (some key) =
      { processor := { p.session.processor with
          machine := { p.session.machine.waited (h.answers p.host (n + 1)).1 m with
            v := (p.session.machine.setReg x (UInt8.ofNat key)).v
            pc := .address (a + 2) } }
        status := .running
        executed := p.session.executed + 1
        presented := p.session.presented
        steps := p.steps ++ [.awaitingKey a (p.session.processor.fetch a) x]
        host := (h.answers p.host (n + 1)).2 } := by
  obtain ⟨counter, fetchable⟩ := ProgramCounter.fetchable?_eq_some_iff.1 fetch
  rw [isFetchable_iff] at fetchable
  have moved : p.session.machine.pc.add 2 = .address (a + 2) := by
    rw [counter]
    exact congrArg _ (Counter.add_word (by omega) (by omega))
  rw [← moved]
  rfl

/-- The whole of a wait for a key. However the ticks come, it goes on while no poll quits or brings
a key; then the next poll ends it, either by quitting or with its first key. -/
theorem keyWait_after (reachable : p.Reachable h) (running : p.session.status = .running)
    (fetch : p.session.machine.pc.fetchable? = some a)
    (word : (p.session.processor.fetch a).toNat = 0xF00A + 0x100 * x) (ticks : List Tick)
    (keyless : ∀ poll ∈ (h.answers p.host (ticks.count .instruction)).1, poll.quit = false ∧
      NoKey poll.keyDowns) :
    let q := p.after h (ticks.map .tick)
    let n := ticks.count .instruction
    let m := ticks.count .timer
    q.account = p.waited h a x n m ∧
    ∀ ask, h.poll = some ask →
      let next := ask q.host
      let r := (q.tick h .instruction).2
      (next.1.quit = true →
        r.account = { q.account.polled next.1 next.2 with status := .halted .userQuit }) ∧
      ∀ before (key : Key) rest, next.1.quit = false → NoKey before →
        next.1.keyDowns = before ++ .ofNat key :: rest →
        r.account =
          { processor := { p.session.processor with
              machine := { p.session.machine.waited (h.answers p.host (n + 1)).1 m with
                v := p.session.machine.v.set x (UInt8.ofNat key)
                pc := .address (a + 2) } }
            status := .running
            executed := p.session.executed + 1
            presented := p.session.presented
            steps := p.steps ++ [.awaitingKey a (p.session.processor.fetch a) x]
            host := next.2 } := by
  intro q n m
  have wait : p.account.AtWait h a x := by
    refine ⟨fetch, Instr.ofWord?_eq_some_iff.2 ?_, reachable.shown, .inl running⟩
    exact UInt16.toNat_inj.1 (word.trans (Instr.toNat_toWord_waitKey x).symm)
  have account : q.account = p.waited h a x n m :=
    account_after reachable.soundAt.machine running wait ticks keyless
  have wait' : q.account.AtWait h a x := account ▸ atWait_waited wait n m
  refine ⟨account, fun ask asks => ?_⟩
  intro next r
  obtain ⟨answer, polled⟩ := pollInput_of_some (p := q) asks
  refine ⟨fun quits => ?_, fun before key rest stays keyless first => ?_⟩
  · rw [← polled]
    exact account_tickInstruction_of_quit wait' (by rw [answer, Option.any_some, quits])
  · have ticked :=
      account_tickInstruction wait'
        (by rw [answer, Option.any_some, stays]; exact Bool.false_ne_true)
    have host : q.host = (h.answers p.host n).2 := congrArg Account.host account
    have next_host : next.2 = (h.answers p.host (n + 1)).2 := by
      rw [Host.answers_of_some asks, ← host]
    rw [answer, Option.elim_some, first, keyless.findSome?_append_cons, begun_pollInput account,
      resumed_waited fetch, ← next_host] at ticked
    exact ticked

/-- Two polls name no key. The third one names two, or quits. -/
theorem keyWait_after_three_polls :
    let settings : Settings Rat := ⟨600, 60, .standard, 0, .halt⟩
    let up : Vector Bool 16 := Vector.replicate 16 false
    let host (last : Poll) : Host Nat :=
      ⟨some fun n => (if n < 2 then ⟨up, [.ofNat 16, .nan], false⟩ else last, n + 1), none,
        fun n => (0, n)⟩
    let ticks : List Tick := [.timer, .instruction, .timer, .instruction]
    ∃ s, Session.ofProgram? [0xF3, 0x0A] settings = .ok s ∧
      let p : Play Nat Rat := .new s 0
      p.session.status = .running ∧ p.session.machine.pc.fetchable? = some 0x200 ∧
      (p.session.processor.fetch 0x200).toNat = 0xF00A + 0x100 * (3 : Reg) ∧
      (let h := host ⟨up, [.ofInt (-1), .ofNat 7, .ofNat 4], false⟩
       let q := p.after h (ticks.map .tick)
       let r := (q.tick h .instruction).2
       p.Reachable h ∧ q.session.status = .awaitingKey 3 ∧ q.session.executed = 1 ∧
       r.session.status = .running ∧ r.session.machine.reg 3 = 7 ∧
       r.session.machine.pc = .address 0x202 ∧
       r.session.executed = 1) ∧
      (let h := host ⟨up, [.ofNat 7], true⟩
       let q := p.after h (ticks.map .tick)
       let r := (q.tick h .instruction).2
       p.Reachable h ∧ r.session.status = .halted .userQuit ∧ r.session.machine.reg 3 = 0 ∧
       r.session.machine.pc = .address 0x200) := by
  intro settings up host ticks
  obtain ⟨s, set⟩ : ∃ s, Session.ofProgram? [0xF3, 0x0A] settings = .ok s :=
    ⟨_, Session.ofProgram?_eq_ok_iff.2 ⟨by decide, _, rfl, rfl⟩⟩
  refine ⟨s, set, ?_⟩
  intro p
  have reachable (h : Host Nat) : p.Reachable h :=
    ⟨_, settings, 0, _, [], Emulator.ofProgram?_eq_ok_iff.2 ⟨s, set, rfl⟩, rfl⟩
  obtain ⟨-, clock, created, rfl⟩ := Session.ofProgram?_eq_ok_iff.1 set
  cases created
  have fetch : p.session.machine.pc.fetchable? = some 0x200 := by decide +kernel
  have word : (p.session.processor.fetch 0x200).toNat = 0xF00A + 0x100 * (3 : Reg) := by
    decide +kernel
  have keyless (last : Poll) (poll : Poll)
    (asked : poll ∈ ((host last).answers p.host (ticks.count .instruction)).1) :
      poll.quit = false ∧ NoKey poll.keyDowns := by
    have silent : poll = ⟨up, [.ofNat 16, .nan], false⟩ := List.eq_of_mem_replicate (n := 2) asked
    rw [silent]
    decide
  refine ⟨rfl, fetch, word, ?_, ?_⟩
  · intro h q r
    obtain ⟨account, next⟩ := keyWait_after (reachable h) rfl fetch word ticks (keyless _)
    have host : q.host = 2 := congrArg Account.host account
    rw [host] at next
    have stored := (next _ rfl).2 [.ofInt (-1)] 7 [.ofNat 4] rfl (by decide) rfl
    exact ⟨reachable h, congrArg Account.status account, congrArg Account.executed account,
      congrArg Account.status stored, congrArg (·.processor.machine.reg 3) stored,
      congrArg (·.processor.machine.pc) stored, congrArg Account.executed stored⟩
  · intro h q r
    obtain ⟨account, next⟩ := keyWait_after (reachable h) rfl fetch word ticks (keyless _)
    have host : q.host = 2 := congrArg Account.host account
    rw [host, account] at next
    have quit := (next _ rfl).1 rfl
    exact ⟨reachable h, congrArg Account.status quit, congrArg (·.processor.machine.reg 3) quit,
      congrArg (·.processor.machine.pc) quit⟩

end Play

end Chip8
