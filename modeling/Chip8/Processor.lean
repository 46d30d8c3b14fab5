import Chip8.Machine.Exec
import Chip8.Tally

/-!
# The processor

A processor is a machine together with the dialect of its instruction set and a tally of the unknown
words it met. A step fetches the word at the program counter, carries it out and moves the counter.
Words outside the instruction set are tallied and skipped.
-/

namespace Chip8

structure Processor where
  machine : Machine
  dialect : Dialect
  unknowns : Tally UInt16
deriving DecidableEq

inductive StepResult
  | executed (pc : Int) (word : UInt16)
  | awaitingKey (pc : Int) (word : UInt16) (x : Reg)
  | unknown (pc : Int) (word : UInt16)
  | faulted (fault : Fault)
  /-- The program counter was empty: there was no word to fetch, and no address to report. -/
  | lost
deriving DecidableEq

namespace Processor

def new (machine : Machine) (dialect : Dialect) : Processor := ⟨machine, dialect, .empty⟩

def fetch (p : Processor) (pc : Int) : UInt16 := p.machine.memory.read16 pc

/-- The fault that a cause makes of the word and the counter at which it arose, and of the machine
as it is by then. -/
def faultOf (m : Machine) (cause : Cause) (word : UInt16) (pc : ProgramCounter) : Fault where
  cause
  word
  pc
  snapshot := m.snapshot

/-- What a step comes to that carried out the word at an address, given what became of the word. -/
def conclude (p : Processor) (pc : Int) (w : UInt16) : Outcome × Machine → StepResult × Processor
  | (.proceed move, next) => (.executed pc w, { p with machine := next.move move })
  | (.awaitKey x, next) => (.awaitingKey pc w x, { p with machine := next })
  | (.unknown, next) =>
    (.unknown pc w, { p with machine := next.move .advance, unknowns := p.unknowns.bump w })
  | (.fault cause, next) =>
    (.faulted (faultOf next cause w (.address pc)), { p with machine := next })

/-- What a step comes to when nothing can be fetched at the program counter, where a word lies all
the same. -/
def refusal (m : Machine) (w : UInt16) : StepResult :=
  if m.pc = .empty then .lost else .faulted (faultOf m (.fetchOutside m.pc) w m.pc)

/-- One step on a machine whose memory is behind the given bus. -/
def stepOn {f : Type → Type} [Monad f] (bus : Bus f) (p : Processor) (entropy : UInt8) :
    f (StepResult × Processor) :=
  match p.machine.pc.fetchable? with
  | some pc => do
    let w ← bus.readWord p.machine.memory pc
    let result ← Word.executeOn bus p.dialect entropy p.machine w
    pure (p.conclude pc w result)
  | none => do
    let w ← p.machine.pc.wordOn bus p.machine.memory
    pure (refusal p.machine w, p)

/-- One step. `entropy` is the byte that the random source gives if it is asked. -/
def step (p : Processor) (entropy : UInt8) : StepResult × Processor := p.stepOn Bus.wrapping entropy

/-- Will the next step ask the random source? -/
def drawsRandom (p : Processor) : Bool :=
  p.machine.pc.fetchable?.any fun pc => (Instr.ofWord? (p.fetch pc)).any Instr.drawsRandom

/-- Ends a wait for a key: stores the key and moves to the next word. -/
def resume (p : Processor) (x : Reg) (key : Key) : Processor :=
  { p with machine := (p.machine.setReg x (UInt8.ofNat key)).move .advance }

def forgetUnknowns (p : Processor) : Processor := { p with unknowns := .empty }

end Processor

end Chip8
