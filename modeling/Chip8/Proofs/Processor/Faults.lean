import Chip8.Proofs.Processor.Step
import Mathlib.Tactic.MkIffOfInductiveProp

/-!
# When a step faults

`Machine.Raises` is the exact condition for a fault of a given kind, said of the counters and of the
fields of the fetched word. A faulting step leaves the whole processor as it was, and its fault
reports the state before it.
-/

namespace Chip8

open Instr

/-- When a word that was fetched raises a fault, and of which kind. -/
@[mk_iff]
inductive Word.Raises (m : Machine) (w : UInt16) : Reason → Prop
  | returnOnEmptyStack (word : w = 0x00EE) (empty : m.sp = 0) : Raises m w .stackUnderflow
  | callOnFullStack (word : Word.family w = 0x2) (full : m.sp = 16) : Raises m w .stackOverflow
  | call (word : Word.family w = 0x2) (room : m.sp < 16) (target : (Word.addr w).val = 0xFFF) :
      Raises m w .invalidAddress
  | jump (word : Word.family w = 0x1) (target : (Word.addr w).val = 0xFFF) :
      Raises m w .invalidAddress
  | jumpOffset (word : Word.family w = 0xB)
      (target : 0xFFF ≤ (m.reg offsetReg).toNat + (Word.addr w).val) : Raises m w .invalidAddress
  | draw (word : Word.family w = 0xD) (rows : 0 < (Word.nibble w).val)
      (outside : 0x1000 < m.i + (Word.nibble w).val) : Raises m w .invalidAddress
  | storeDigits (word : Word.family w = 0xF) (low : Word.byte w = 0x33)
      (outside : m.i < 0x200 ∨ 0xFFF < m.i + 2) : Raises m w .invalidAddress
  | saveRegs (word : Word.family w = 0xF) (low : Word.byte w = 0x55)
      (outside : m.i < 0x200 ∨ 0xFFF < m.i + (Word.x w).val) : Raises m w .invalidAddress
  | loadRegs (word : Word.family w = 0xF) (low : Word.byte w = 0x65)
      (outside : 0xFFF < m.i + (Word.x w).val) : Raises m w .invalidAddress

/-- When a step at an address raises a fault, and of which kind. -/
inductive Machine.Raises (m : Machine) (a : Int) : Reason → Prop
  | fetch (outside : a < 0x200 ∨ 0xFFE < a) : Raises m a .invalidAddress
  | word {r : Reason} (inside : 0x200 ≤ a ∧ a ≤ 0xFFE)
      (raises : Word.Raises m (m.memory.read16 a) r) :
      Raises m a r

/-- An outcome is a fault of the given kind. -/
def Outcome.FaultsWith (o : Outcome) (r : Reason) : Prop :=
  ∃ cause, o = .fault cause ∧ cause.reason = r

section
variable {r : Reason} {cause : Cause} {move : Move} {x : Reg}

@[simp] theorem faultsWith_fault : (Outcome.fault cause).FaultsWith r ↔ cause.reason = r := by
  simp [Outcome.FaultsWith]

@[simp] theorem not_faultsWith_proceed : ¬ (Outcome.proceed move).FaultsWith r := by
  simp [Outcome.FaultsWith]

@[simp] theorem not_faultsWith_awaitKey : ¬ (Outcome.awaitKey x).FaultsWith r := by
  simp [Outcome.FaultsWith]

@[simp] theorem not_faultsWith_unknown : ¬ Outcome.unknown.FaultsWith r := by
  simp [Outcome.FaultsWith]

theorem faultsWith_guarded {allowed : Prop} [Decidable allowed] {m next : Machine} :
    (if allowed then (Outcome.proceed move, next) else (.fault cause, m)).1.FaultsWith r ↔
      ¬ allowed ∧ cause.reason = r := by
  split
  · next h => simp [h]
  · next h => simp [h]

theorem faultsWith_jumpTo {target : Int} :
    (jumpTo target).FaultsWith r ↔ 0xFFF ≤ target ∧ r = .invalidAddress := by
  unfold jumpTo
  split
  · next h => simp [h, Cause.reason, eq_comm]
  · next h => simp [h]

end

/-- The words that fault are those of the instructions that fault. -/
theorem Instr.execute_faultsWith_iff {m : Machine} (stack : m.sp ≤ 16) (index : 0 ≤ m.i)
    (d : Dialect) (e : UInt8) (i : Instr) {r : Reason} :
    (i.execute d e m).1.FaultsWith r ↔ Word.Raises m i.toWord r := by
  rw [Word.raises_iff, toWord_eq_ret]
  cases i with
  | ret =>
    rw [execute_ret]
    split
    · next h => simp [toWord, h, Cause.reason, eq_comm]
    · next h => simp [toWord, h]
  | call target =>
    have depth : (stackDepth : Int) = 16 := rfl
    rw [execute_call, depth]
    split
    · have full : m.sp = 16 := by omega
      simp [toWord, full, Cause.reason, eq_comm]
    · next room =>
      have notFull : m.sp ≠ 16 := by omega
      have less : m.sp < 16 := by omega
      have bound := target.isLt
      split
      · have last : target.val = 0xFFF := by omega
        simp [toWord, notFull, less, last, Cause.reason, eq_comm]
      · have notLast : target.val ≠ 0xFFF := by omega
        simp [toWord, notFull, notLast]
  | jump target =>
    have bound := target.isLt
    have last : (0xFFF : Int) ≤ target ↔ target.val = 0xFFF := by omega
    rw [execute_jump, faultsWith_jumpTo, last]
    simp [toWord]
  | jumpOffset base =>
    have cast : (0xFFF : Int) ≤ (m.reg offsetReg).toNat + base ↔
        0xFFF ≤ (m.reg offsetReg).toNat + base.val := by omega
    rw [execute_jumpOffset, faultsWith_jumpTo, cast]
    simp [toWord]
  | draw x y height =>
    have outside : ¬ readable m.i height = true ↔ 0 < height.val ∧ 0x1000 < m.i + height.val := by
      rw [readable_iff]
      omega
    rw [execute_draw, faultsWith_guarded, outside]
    simp [toWord, Cause.reason, eq_comm, and_assoc]
  | storeDigits x =>
    have outside : ¬ writable m.i 3 = true ↔ m.i < 0x200 ∨ 0xFFF < m.i + 2 := by
      rw [writable_iff (by omega)]
      omega
    rw [execute_storeDigits, faultsWith_guarded, outside]
    simp [toWord, Cause.reason, eq_comm]
  | saveRegs x =>
    have outside : ¬ writable m.i (x + 1) = true ↔ m.i < 0x200 ∨ 0xFFF < m.i + x.val := by
      rw [writable_iff (by omega)]
      omega
    rw [execute_saveRegs, faultsWith_guarded, outside]
    simp [toWord, Cause.reason, eq_comm]
  | loadRegs x =>
    have outside : ¬ readable m.i (x + 1) = true ↔ 0xFFF < m.i + x.val := by
      rw [readable_iff]
      omega
    rw [execute_loadRegs, faultsWith_guarded, outside]
    simp [toWord, Cause.reason, eq_comm]
  | clear => exact iff_of_false not_faultsWith_proceed (by simp [toWord])
  | waitKey x => exact iff_of_false not_faultsWith_awaitKey (by simp [toWord])
  | _ => exact iff_of_false not_faultsWith_proceed (by simp [toWord])

/-- A word outside the instruction set raises no fault. -/
theorem Word.not_raises_of_none {m : Machine} {w : UInt16} (h : ofWord? w = none) (r : Reason) :
    ¬ Word.Raises m w r := by
  intro raises
  cases raises with
  | returnOnEmptyStack word => exact absurd h (word ▸ by decide)
  | storeDigits word low | saveRegs word low | loadRegs word low =>
    simp [ofWord?, ofMisc?, word, low] at h
  | callOnFullStack word | call word | jump word | jumpOffset word | draw word =>
    simp [ofWord?, word] at h

theorem Word.execute_faultsWith_iff {m : Machine} (stack : m.sp ≤ 16) (index : 0 ≤ m.i)
    (d : Dialect) (e : UInt8) (w : UInt16) {r : Reason} :
    (Word.execute d e m w).1.FaultsWith r ↔ Word.Raises m w r := by
  cases h : ofWord? w with
  | none =>
    rw [Word.execute_of_none _ _ _ h]
    exact iff_of_false not_faultsWith_unknown (Word.not_raises_of_none h r)
  | some i =>
    rw [Word.execute_of_some _ _ _ h, Instr.execute_faultsWith_iff stack index, toWord_of_ofWord? h]

/-! ## Steps -/

namespace Processor

variable {c c' : Processor} {e : UInt8} {r : Reason}

theorem conclude_faulted_iff {a : Int} {w : UInt16} {result : Outcome × Machine} :
    (∃ f, (c.conclude a w result).1 = .faulted f ∧ f.cause.reason = r) ↔ result.1.FaultsWith r := by
  obtain ⟨outcome, next⟩ := result
  cases outcome <;> simp [conclude, faultOf]

/-- A step faults exactly under the conditions of `Machine.Raises`, and with the reason given
there. -/
theorem step_faulted_iff {a : Int} (counter : c.machine.pc = .address a) (stack : c.machine.sp ≤ 16)
    (index : 0 ≤ c.machine.i) (e : UInt8) (r : Reason) :
    (∃ f, (c.step e).1 = .faulted f ∧ f.cause.reason = r) ↔ c.machine.Raises a r := by
  by_cases inside : 0x200 ≤ a ∧ a ≤ 0xFFE
  · have fetch : c.machine.pc.fetchable? = some a :=
      counter ▸ ProgramCounter.fetchable?_address inside
    rw [step_of_fetchable fetch, conclude_faulted_iff, Word.execute_faultsWith_iff stack index]
    constructor
    · exact .word inside
    · rintro (outside | ⟨-, raises⟩)
      · omega
      · exact raises
  · have fetch : c.machine.pc.fetchable? = none :=
      counter ▸ ProgramCounter.fetchable?_address_eq_none inside
    rw [step_of_not_fetchable fetch, refusal, counter]
    constructor
    · rintro ⟨f, h, rfl⟩
      cases h
      exact .fetch (by omega)
    · rintro (outside | ⟨inside', -⟩)
      · exact ⟨_, rfl, rfl⟩
      · exact absurd inside' inside

/-- On a full stack a call faults for the stack, also when its target is outside memory. -/
theorem step_faulted_call_on_full_stack :
    ∃ f, ((Processor.new { Machine.startWith [0x2F, 0xFF] with sp := 16 } .standard).step 0).1 =
      .faulted f ∧
      f.cause.reason = .stackOverflow := by
  have word : (Machine.startWith [0x2F, 0xFF]).memory.read16 0x200 = 0x2FFF := by decide +kernel
  refine (step_faulted_iff (a := 0x200) rfl (by decide) (by decide) 0 _).2 (.word (by decide) ?_)
  exact .callOnFullStack (word ▸ by decide) rfl

/-- A step that faults leaves the processor as it was. Its fault names the counter, the word that
was fetched there, or zero where no word can be, and the registers, all as they were before the step
and still are. -/
theorem eq_of_step_faulted {f : Fault} (h : c.step e = (.faulted f, c')) :
    c' = c ∧ f.pc = c.machine.pc ∧
    f.word = (match c.machine.pc with
      | .address a => if isAddressable a then c.machine.memory.read16 a else 0
      | _ => 0) ∧
    f.snapshot = c.machine.snapshot ∧ f.snapshot = c'.machine.snapshot := by
  have stepped : Stepped c (.faulted f) c' := by simpa only [h] using step_stepped c e
  cases stepped with
  | @faulted a fetch cause =>
    obtain ⟨counter, fetchable⟩ := ProgramCounter.fetchable?_eq_some_iff.1 fetch
    have addressable : isAddressable a = true := by
      rw [isFetchable_iff] at fetchable
      rw [isAddressable_iff]
      omega
    refine ⟨rfl, counter.symm, ?_, rfl, rfl⟩
    rw [counter]
    exact (if_pos addressable).symm
  | unfetched fetch present =>
    refine ⟨rfl, rfl, ?_, rfl, rfl⟩
    exact rfl

/-- A return on an empty stack is such a step. -/
theorem eq_of_return_on_empty_stack :
    let c := Processor.new (Machine.startWith [0x00, 0xEE]) .standard
    ∃ f, c.step 0 = (.faulted f, c) ∧ f.word = 0x00EE ∧ f.snapshot = c.machine.snapshot := by
  intro c
  have fetched : c.fetch 0x200 = 0x00EE := by decide +kernel
  have h : c.step 0 =
      (.faulted (faultOf c.machine .returnOnEmptyStack 0x00EE (.address 0x200)), c) := by
    rw [step_of_fetchable (a := 0x200) rfl, fetched, Word.execute_of_some _ _ _ (i := .ret) rfl]
    rfl
  obtain ⟨-, -, hword, hsnapshot, -⟩ := eq_of_step_faulted h
  exact ⟨_, h, rfl, hsnapshot⟩

end Processor

end Chip8
