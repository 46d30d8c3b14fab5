import Chip8.Processor
import Mathlib.Tactic.Common

/-!
# Staying within memory

The wrapping bus hides an address that lies outside memory. `Bus.logged` wraps addresses in the same
way and writes every one of them down, and `Bus.strict` refuses those that it should. A program over
a bus is within bounds (`InBounds`) when the strict bus refuses nothing that it asks for, the logged
bus writes down legal accesses only, and both give what the wrapping bus gives.

Programs within bounds can be put together (`InBounds.pure`, `InBounds.bind`), so that one look at
each instruction is enough: the checks before an access let only legal addresses through
(`Instr.executeOn_inBounds`).
-/

namespace Chip8

/-- An access to memory, by the address that is handed to the bus. -/
inductive Access
  | read (a : Int)
  | write (a : Int)
deriving DecidableEq

/-- Reads must stay in memory, and writes in the program area. -/
def Access.Legal : Access → Prop
  | read a => 0 ≤ a ∧ a ≤ 0xFFF
  | write a => 0x200 ≤ a ∧ a ≤ 0xFFF

namespace Bus

/-- The wrapping bus, with every access written down. -/
def logged : Bus (StateM (List Access)) where
  read m a := fun log => (m.read8 a, log ++ [.read a])
  write m a b := fun log => (m.write8 a b, log ++ [.write a])

/-- Something that is done over a bus, whatever its failures. -/
abbrev Program (α : Type) : Type 1 := ∀ {f : Type → Type} [Monad f], Bus f → f α

/-- The program makes legal accesses only, and does the same on the strict bus as on the wrapping
one. -/
structure InBounds {α : Type} (program : Program α) : Prop where
  strict : program strict = some (program wrapping)
  logged : ∀ log, ∃ accesses,
    program logged log = (program wrapping, log ++ accesses) ∧ ∀ access ∈ accesses, access.Legal

namespace InBounds

variable {α β : Type}

theorem pure (x : α) : InBounds (fun _ => Pure.pure x) where
  strict := rfl
  logged log := ⟨[], by rw [List.append_nil]; rfl, nofun⟩

theorem bind {program : Program α} {next : α → Program β} (first : InBounds program)
    (rest : ∀ x, InBounds (next x)) :
    InBounds (fun bus => program bus >>= fun x => next x bus) where
  strict := by
    rw [first.strict]
    exact (rest _).strict
  logged log := by
    obtain ⟨before, hbefore, legalBefore⟩ := first.logged log
    obtain ⟨after, hafter, legalAfter⟩ := (rest (program wrapping)).logged (log ++ before)
    refine ⟨before ++ after, ?_,
      fun access h => (List.mem_append.1 h).elim (legalBefore _) (legalAfter _)⟩
    -- The rest starts from the log that the first part leaves.
    change next (program Bus.logged log).1 Bus.logged (program Bus.logged log).2 = _
    rw [hbefore, ← List.append_assoc]
    exact hafter

/-! ## Bytes, words and blocks -/

theorem read {a : Int} (m : Memory) (low : 0 ≤ a) (high : a ≤ 0xFFF) :
    InBounds (fun bus => bus.read m a) where
  strict := if_pos (isAddressable_iff.2 ⟨low, high⟩)
  logged log := ⟨[.read a], rfl, by simpa [Access.Legal] using ⟨low, high⟩⟩

theorem write {a : Int} (m : Memory) (b : UInt8) (low : 0x200 ≤ a) (high : a ≤ 0xFFF) :
    InBounds (fun bus => bus.write m a b) where
  strict := if_pos (isWritable_iff.2 ⟨low, high⟩)
  logged log := ⟨[.write a], rfl, by simpa [Access.Legal] using ⟨low, high⟩⟩

theorem readWord {a : Int} (m : Memory) (low : 0 ≤ a) (high : a ≤ 0xFFE) :
    InBounds (fun bus => bus.readWord m a) := by
  have next : Counter.add a 1 = a + 1 := Counter.add_word (by omega) (by omega)
  refine bind (read m low (by omega)) fun _ => bind (read m ?_ ?_) fun _ => pure _
  · omega
  · omega

theorem readBlock {a : Int} {count : Nat} (m : Memory)
    (inside : count = 0 ∨ 0 ≤ a ∧ a + count ≤ 0x1000) :
    InBounds (fun bus => bus.readBlock m a count) := by
  induction count generalizing a with
  | zero => exact pure []
  | succ count ih =>
    refine bind (read m ?_ ?_) fun _ => bind (ih ?_) fun _ => pure _
    · omega
    · omega
    · omega

theorem writeBlock {a : Int} {bytes : List UInt8} (m : Memory) (low : 0x200 ≤ a)
    (high : a + bytes.length ≤ 0x1000) : InBounds (fun bus => bus.writeBlock m a bytes) := by
  induction bytes generalizing m a with
  | nil => exact pure m
  | cons b rest ih =>
    rw [List.length_cons] at high
    refine bind (write m b low ?_) fun m => ih m ?_ ?_
    · omega
    · omega
    · omega

end InBounds

end Bus

/-! ## Instructions -/

open Bus

/-- An instruction makes legal accesses only, on every machine. -/
theorem Instr.executeOn_inBounds (d : Dialect) (e : UInt8) (m : Machine) (i : Instr) :
    InBounds (fun bus => i.executeOn bus d e m) := by
  cases i with
  | ret =>
    simp only [executeOn]
    split
    · exact .pure _
    · exact .pure _
  | call target =>
    simp only [executeOn]
    split
    · exact .pure _
    · split
      · exact .pure _
      · exact .pure _
  | draw x y height =>
    by_cases inside : readable m.i height = true
    · simp only [executeOn, if_pos inside]
      exact .bind (.readBlock m.memory (readable_iff.1 inside)) fun _ => .pure _
    · simp only [executeOn, if_neg inside]
      exact .pure _
  | storeDigits x =>
    by_cases inside : writable m.i 3 = true
    · obtain ⟨low, high⟩ := (writable_iff (by omega)).1 inside
      simp only [executeOn, if_pos inside]
      exact .bind (.writeBlock m.memory low high) fun _ => .pure _
    · simp only [executeOn, if_neg inside]
      exact .pure _
  | saveRegs x =>
    by_cases inside : writable m.i (x + 1) = true
    · obtain ⟨low, high⟩ := (writable_iff (by omega)).1 inside
      have length : (m.v.toList.take (x + 1)).length = x + 1 := by
        simp only [List.length_take, Vector.length_toList]
        omega
      simp only [executeOn, if_pos inside]
      exact .bind (.writeBlock m.memory low (by rw [length]; exact high)) fun _ => .pure _
    · simp only [executeOn, if_neg inside]
      exact .pure _
  | loadRegs x =>
    by_cases inside : readable m.i (x + 1) = true
    · simp only [executeOn, if_pos inside]
      exact .bind (.readBlock m.memory (readable_iff.1 inside)) fun _ => .pure _
    · simp only [executeOn, if_neg inside]
      exact .pure _
  | _ => exact .pure _

theorem Word.executeOn_inBounds (d : Dialect) (e : UInt8) (m : Machine) (w : UInt16) :
    InBounds (fun bus => Word.executeOn bus d e m w) := by
  cases word : Instr.ofWord? w with
  | none =>
    simp only [executeOn, word]
    exact .pure _
  | some i =>
    simp only [executeOn, word]
    exact i.executeOn_inBounds d e m

/-! ## Steps -/

namespace Processor

variable {c : Processor} {a : Int}

/-- A step that can fetch a word makes legal accesses only. -/
theorem stepOn_inBounds (fetch : c.machine.pc.fetchable? = some a) (e : UInt8) :
    InBounds (fun bus => c.stepOn bus e) := by
  have inside := isFetchable_iff.1 (ProgramCounter.fetchable?_eq_some_iff.1 fetch).2
  simp only [stepOn, fetch]
  exact .bind (.readWord _ (by omega) inside.2) fun w =>
    .bind (Word.executeOn_inBounds c.dialect e c.machine w) fun _ => .pure _

/-- The first two accesses of such a step fetch the word. -/
theorem stepOn_logged (fetch : c.machine.pc.fetchable? = some a) (e : UInt8) :
    ∃ accesses, (c.stepOn logged e).run [] = (c.step e, [.read a, .read (a + 1)] ++ accesses) ∧
      ∀ access ∈ accesses, access.Legal := by
  have inside := isFetchable_iff.1 (ProgramCounter.fetchable?_eq_some_iff.1 fetch).2
  have next : Counter.add a 1 = a + 1 := Counter.add_word (by omega) (by omega)
  obtain ⟨accesses, run, legal⟩ :=
    (Word.executeOn_inBounds c.dialect e c.machine (c.fetch a)).logged [.read a, .read (a + 1)]
  refine ⟨accesses, ?_, legal⟩
  have fetched : logged.readWord c.machine.memory a [] =
    (c.fetch a, [.read a, .read (Counter.add a 1)]) := rfl
  rw [next] at fetched
  simp only [step, stepOn, fetch, StateT.run, bind, StateT.bind, fetched, run]
  rfl

end Processor

end Chip8
