import Chip8.Clock
import Chip8.Keypad
import Chip8.Machine.Report
import Chip8.Processor

/-!
# Sessions

A session runs a processor against a host. At each instruction tick it polls the host's input,
executes one instruction or waits for a key, and hands the screen to the host if it was drawn on; at
each timer tick the timers count down. It tells the host when the tone goes on and off, and stops
for good when the host quits or the machine faults.

`Host` is what a session asks of its host: answers that the session reads. What it only tells the
outside, such as the tone and the log, it writes into a journal, so that no listener can disturb it.
`Play` is a session in progress with the state of its host and the journal so far.
-/

namespace Chip8

inductive HaltReason
  | userQuit
  | fault (fault : Fault)
deriving DecidableEq

/-- Where a session stands. -/
inductive Status
  | running
  /-- Waits for a key, to be stored in a register. -/
  | awaitingKey (x : Reg)
  | halted (reason : HaltReason)
deriving DecidableEq

/-- What a fault does beside stopping the session: nothing more, or the caller gets it too. -/
inductive FaultMode
  | halt
  | throw
deriving DecidableEq

/-- What cuts a tick short and goes to the caller. -/
inductive Interruption
  | fault (fault : Fault)
  /-- The program counter was empty. The session has not stopped. -/
  | lost
deriving DecidableEq

inductive Level
  | info
  | warn
  | error
deriving DecidableEq

/-- One thing that happened in a session. -/
inductive Event
  | polled (poll : Poll)
  | stepped (result : StepResult)
  | timed
  | presented (screen : Screen)
  | tone (on : Bool)
  | logged (level : Level) (line : String)

/-- The host of a session, with a state of its own. -/
structure Host (σ : Type) where
  /-- The input, if there is one. -/
  poll : Option (σ → Poll × σ)
  /-- The display, if there is one. It answers whether it asks to quit. -/
  present : Option (Screen → σ → Bool × σ)
  entropy : σ → UInt8 × σ

structure Session (α : Type) where
  processor : Processor
  clock : Clock α
  status : Status
  /-- The tone as it was last told. -/
  toneOn : Bool
  /-- Instructions counted so far; a wait for a key counts once. -/
  executed : Nat
  /-- Frames handed over so far. -/
  presented : Nat
  faultMode : FaultMode
  /-- A trace line is logged for each instruction whose count is a multiple of this; none for
  zero. -/
  traceEvery : Nat

/-- The trace interval that a number sets: its whole part as a signed 32-bit number, and zero unless
that is positive. -/
def traceInterval (n : Number) : Nat :=
  let whole := n.truncate
  let low := whole % twoPow 32
  if 0 < whole ∧ low < twoPow 31 then low.toNat else 0

namespace Session

variable {α : Type}

def new (processor : Processor) (clock : Clock α) (faultMode : FaultMode) (traceEvery : Nat) :
    Session α where
  processor
  clock
  status := .running
  toneOn := false
  executed := 0
  presented := 0
  faultMode
  traceEvery

def machine (s : Session α) : Machine := s.processor.machine

def modifyMachine (s : Session α) (f : Machine → Machine) : Session α :=
  { s with processor := { s.processor with machine := f s.processor.machine } }

def haltReason? (s : Session α) : Option HaltReason :=
  match s.status with
  | .halted reason => some reason
  | _ => none

def isHalted (s : Session α) : Bool := s.haltReason?.isSome

theorem haltReason?_eq_some_iff {s : Session α} {reason : HaltReason} :
    s.haltReason? = some reason ↔ s.status = .halted reason := by
  unfold haltReason?
  split <;> simp_all

theorem isHalted_iff {s : Session α} : s.isHalted = true ↔ ∃ reason, s.status = .halted reason := by
  simp only [isHalted, Option.isSome_iff_exists, haltReason?_eq_some_iff]

theorem haltReason?_of_alive {s : Session α} (alive : ¬ s.isHalted = true) :
    s.haltReason? = none := by
  rwa [isHalted, Option.not_isSome_iff_eq_none] at alive

end Session

/-- A session in progress. -/
structure Play (σ α : Type) where
  session : Session α
  host : σ
  /-- What happened so far. -/
  journal : Array Event

namespace Play

variable {σ α : Type}

def new (session : Session α) (host : σ) : Play σ α := ⟨session, host, #[]⟩

def note (p : Play σ α) (e : Event) : Play σ α := { p with journal := p.journal.push e }

def log (p : Play σ α) (level : Level) (line : String) : Play σ α := p.note (.logged level line)

/-- Tells the tone, if it changed. -/
def setTone (p : Play σ α) (on : Bool) : Play σ α :=
  if p.session.toneOn = on then p
  else { p with session := { p.session with toneOn := on } }.note (.tone on)

/-- Stops for good. -/
def halt (p : Play σ α) (reason : HaltReason) : Play σ α :=
  { p with session := { p.session with status := .halted reason } }.setTone false

/-- Polls the input, if there is one, and takes over which keys are down. -/
def pollInput (h : Host σ) (p : Play σ α) : Option Poll × Play σ α :=
  match h.poll with
  | none => (none, p)
  | some poll =>
    let (answer, host) := poll p.host
    let session := p.session.modifyMachine fun m => { m with keypad := answer.keys }
    (some answer, { p with session, host }.note (.polled answer))

def countInstruction (p : Play σ α) : Play σ α :=
  { p with session := { p.session with executed := p.session.executed + 1 } }

def unknownWarning (pc : Int) (w : UInt16) : String :=
  "[chip8] unknown opcode " ++ Word.text w ++ " at PC=" ++ Cause.place pc ++ " (" ++ Word.assembly w
    ++ "), skipped"

def faultLines (f : Fault) : List String := (Report.fault f.notice).map ("[chip8] " ++ ·)

/-- Is the instruction just counted one to be traced? -/
def tracesNow (s : Session α) : Bool := 0 < s.traceEvery && s.executed % s.traceEvery = 0

/-- Makes one step of the processor, and books what it did. Answers what goes to the caller. -/
def executeStep (h : Host σ) (p : Play σ α) : Option Interruption × Play σ α :=
  let (entropy, host) := if p.session.processor.drawsRandom then h.entropy p.host else (0, p.host)
  let (result, processor) := p.session.processor.step entropy
  let p : Play σ α := { p with session := { p.session with processor }, host }
  let p := p.note (.stepped result)
  match result with
  | .executed pc w =>
    let p := p.countInstruction
    (none, if tracesNow p.session then p.log .info (Report.trace pc w p.session.machine) else p)
  | .awaitingKey _ _ x =>
    let p := p.countInstruction
    (none, { p with session := { p.session with status := .awaitingKey x } })
  | .unknown pc w => (none, p.countInstruction.log .warn (unknownWarning pc w))
  | .faulted f =>
    let p := (faultLines f).foldl (fun p line => p.log .error line) (p.halt (.fault f))
    (if p.session.faultMode = .throw then some (.fault f) else none, p)
  | .lost => (some .lost, p)

/-- Ends a wait for a key with the first of the numbers that names one. -/
def deliverKey (p : Play σ α) (keyDowns : List Number) : Play σ α :=
  match p.session.status, keyDowns.findSome? Number.key? with
  | .awaitingKey x, some key =>
    { p with session :=
      { p.session with processor := p.session.processor.resume x key, status := .running } }
  | _, _ => p

/-- Hands over the screen, if it was drawn on and there is a display. Answers whether the display
asks to quit. -/
def handOver (h : Host σ) (p : Play σ α) : Bool × Play σ α :=
  match h.present with
  | none => (false, p)
  | some present =>
    if p.session.machine.drawn && !p.session.isHalted then
      let screen := p.session.machine.screen
      let (quit, host) := present screen p.host
      let session := p.session.modifyMachine fun m => { m with drawn := false }
      (quit, { p with session := { session with presented := session.presented + 1 }, host }.note
        (.presented screen))
    else (false, p)

/-- What ends every tick: the frame is handed over and the tone is told. -/
def settle (h : Host σ) (p : Play σ α) : Play σ α :=
  let (quit, p) := p.handOver h
  if quit then p.halt .userQuit
  else p.setTone (p.session.machine.sounding && !p.session.isHalted)

/-- One instruction tick. Answers what goes to the caller. -/
def tickInstruction (h : Host σ) (p : Play σ α) : Option Interruption × Play σ α :=
  if p.session.isHalted then (none, p)
  else
    let (poll, p) := p.pollInput h
    if poll.any (·.quit) then (none, p.halt .userQuit)
    else
      let keyDowns := poll.elim [] (·.keyDowns)
      match p.session.status with
      | .awaitingKey _ => (none, (p.deliverKey keyDowns).settle h)
      | _ =>
        match p.executeStep h with
        | (some i, p) => (some i, p)
        -- A key that went down just before the wait ends it in the same tick.
        | (none, p) => (none, (p.deliverKey keyDowns).settle h)

def tickTimer (h : Host σ) (p : Play σ α) : Play σ α :=
  if p.session.isHalted then p
  else { p with session := p.session.modifyMachine Machine.tickTimers }.note .timed |>.settle h

def tick (h : Host σ) (p : Play σ α) : Tick → Option Interruption × Play σ α
  | .instruction => p.tickInstruction h
  | .timer => (none, p.tickTimer h)

section Time

variable [Quantity α]

/-- Lets time pass, until it is used up, the session has stopped or a tick is cut short. Answers
what goes to the caller. -/
def advance (h : Host σ) (p : Play σ α) (ms : α) : Option Interruption × Play σ α :=
  if p.session.isHalted then (none, p)
  else
    let (clock, thrown, p) := p.session.clock.advance ms
      (fun tick (_, p) =>
        let (thrown, p) := p.tick h tick
        (thrown.isNone && !p.session.isHalted, thrown, p))
      (none, p)
    (thrown, { p with session := { p.session with clock } })

/-- Lets one timer period pass. -/
def runFrame (h : Host σ) (p : Play σ α) : Option Interruption × Play σ α :=
  p.advance h p.session.clock.timerPeriod

/-- Begins again with the machine as it is. -/
def restart (p : Play σ α) : Play σ α :=
  { p with
    session := { p.session with
      processor := p.session.processor.forgetUnknowns
      clock := p.session.clock.reset
      status := .running
      executed := 0
      presented := 0 } }.setTone false

/-- Begins again with the machine as it was switched on with a program. -/
def reset (p : Play σ α) (program : List UInt8) : Play σ α :=
  { p with session := p.session.modifyMachine fun _ => Machine.startWith program }.restart

end Time

end Play

end Chip8
