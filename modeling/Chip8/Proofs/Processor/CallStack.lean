import Chip8.Proofs.Machine.Devices
import Chip8.Proofs.Machine.Stack
import Mathlib.Data.List.Infix

/-!
# The call stack over a run of steps

The stack of a machine is an array with a counter. Over a run of steps its used slots are the calls
that are still open, as the words of the steps have it (`openCalls`): a call appends the address
behind it, a return takes the last address away and goes on there, and every other step leaves them
alone.

While a run stays deeper than some call, that call and all below it stay open (`Run.prefix_after`).
So the return that first comes back to the depth of a call goes on behind the call, whatever ran in
between.
-/

namespace Chip8

/-- The word calls a subroutine. -/
def Word.Calls (w : UInt16) : Prop := w.toNat / 0x1000 = 0x2

instance (w : UInt16) : Decidable (Word.Calls w) := inferInstanceAs (Decidable (_ = _))

/-- The open calls after a step, bottom first, each with the address at which it is to go on. -/
def StepResult.track (calls : List Int) : StepResult → List Int
  | .executed pc w =>
    if Word.Calls w then calls ++ [pc + 2] else if w = 0x00EE then calls.dropLast else calls
  | _ => calls

/-- The calls that are still open after some steps. -/
def openCalls (results : List StepResult) : List Int := results.foldl StepResult.track []

theorem openCalls_concat (results : List StepResult) (result : StepResult) :
    openCalls (results ++ [result]) = result.track (openCalls results) :=
  List.foldl_concat ..

namespace StepResult

variable {calls : List Int} {result : StepResult} {pc : Int} {w : UInt16}

theorem track_call (word : Word.Calls w) : (executed pc w).track calls = calls ++ [pc + 2] :=
  if_pos word

theorem track_ret : (executed pc 0x00EE).track calls = calls.dropLast := rfl

theorem track_other (word : ¬ Word.Calls w) (back : w ≠ 0x00EE) :
    (executed pc w).track calls = calls := by
  rw [track, if_neg word, if_neg back]

/-- Only a return makes the open calls fewer. -/
theorem eq_ret_of_length_lt (fewer : (result.track calls).length < calls.length) :
    ∃ pc, result = .executed pc 0x00EE := by
  cases result with
  | executed pc w =>
    by_cases word : Word.Calls w
    · rw [track_call word, List.length_append] at fewer
      omega
    · by_cases back : w = 0x00EE
      · exact ⟨pc, by rw [back]⟩
      · rw [track_other word back] at fewer
        omega
  | _ => exact absurd fewer (Nat.lt_irrefl _)

/-- Calls stay open while there are at least as many of them. -/
theorem prefix_track {opened : List Int} (before : opened <+: calls)
    (deep : opened.length ≤ (result.track calls).length) : opened <+: result.track calls := by
  cases result with
  | executed pc w =>
    by_cases word : Word.Calls w
    · rw [track_call word]
      exact before.trans (List.prefix_append ..)
    · by_cases back : w = 0x00EE
      · subst back
        exact List.prefix_of_prefix_length_le before (List.dropLast_prefix calls) deep
      · rw [track_other word back]
        exact before
  | _ => exact before

end StepResult

/-! ## Instructions -/

namespace Word

variable {w : UInt16} {i : Instr}

theorem calls_iff (word : Instr.ofWord? w = some i) : Calls w ↔ ∃ target, i = .call target := by
  constructor
  · intro calls
    have family : Word.family w = 0x2 := Fin.ext calls
    rw [Instr.ofWord?, family] at word
    cases word
    exact ⟨_, rfl⟩
  · rintro ⟨target, rfl⟩
    have family : Word.family w = 0x2 :=
      (Instr.ofWord?_eq_some_iff.1 word) ▸ family_ofAddr 0x2 target
    exact congrArg Fin.val family

theorem returns_iff (word : Instr.ofWord? w = some i) : w = 0x00EE ↔ i = .ret := by
  rw [Instr.ofWord?_eq_some_iff.1 word]
  exact Instr.toWord_eq_ret

end Word

theorem Instr.stack_execute_of_other (d : Dialect) (e : UInt8) (m : Machine) {i : Instr}
    (call : ∀ target, i ≠ .call target) (back : i ≠ .ret) :
    (i.execute d e m).2.stack = m.stack ∧ (i.execute d e m).2.sp = m.sp := by
  have unwritten {p : Part} (stacked : p = .pointer ∨ ∃ k, p = .slot k) : ¬ i.Writes d m p := by
    cases i with
    | call target => exact absurd rfl (call target)
    | ret => exact absurd rfl back
    | _ => rcases stacked with rfl | ⟨k, rfl⟩ <;> simp [Writes]
  constructor
  · exact Vector.ext fun k bound => agreeAt_execute d e m (unwritten (.inr ⟨⟨k, bound⟩, rfl⟩))
  · exact agreeAt_execute d e m (unwritten (.inl rfl))

/-! ## Machines -/

/-- The used slots of the stack are the open calls. -/
structure Machine.Holds (m : Machine) (calls : List Int) : Prop where
  pointer : m.sp = calls.length
  room : calls.length ≤ stackDepth
  slots : m.usedSlots.map (fun w => (w.toNat : Int)) = calls

namespace Machine.Holds

variable {m m' : Machine} {calls : List Int}

theorem nonneg (holds : m.Holds calls) : 0 ≤ m.sp := by
  rw [holds.pointer]
  omega

theorem congr (holds : m.Holds calls) (stack : m'.stack = m.stack) (sp : m'.sp = m.sp) :
    m'.Holds calls := by
  have slots : m'.usedSlots = m.usedSlots := by rw [usedSlots, usedSlots, stack, sp]
  exact ⟨sp.trans holds.pointer, holds.room, slots ▸ holds.slots⟩

theorem move (holds : m.Holds calls) (move : Move) : (m.move move).Holds calls := by
  cases move <;> exact holds.congr rfl rfl

theorem call (holds : m.Holds calls) {pc : Int} (counter : m.pc = .address pc)
    (fetch : isFetchable pc = true) (room : m.sp < stackDepth) :
    { m.setSlot m.sp m.pc.returnWord with sp := Counter.add m.sp 1 }.Holds (calls ++ [pc + 2]) := by
  have depth : (stackDepth : Int) = 16 := rfl
  have low := holds.nonneg
  have next : Counter.add m.sp 1 = m.sp + 1 := Counter.add_word (by omega) (by omega)
  have pointer := holds.pointer
  rw [isFetchable_iff] at fetch
  have behind : (m.pc.returnWord.toNat : Int) = pc + 2 :=
    counter ▸ ProgramCounter.toNat_returnWord fetch.1 fetch.2
  refine ⟨?_, ?_, ?_⟩
  · simp only [next, List.length_append, List.length_singleton]
    omega
  · simp only [List.length_append, List.length_singleton]
    omega
  · rw [usedSlots_push low room, List.map_append, holds.slots, List.map_singleton, behind]

/-- A return finds the last open call in its slot. -/
theorem ret (holds : m.Holds calls) (used : m.sp ≠ 0) :
    ∃ w, m.slot? (Counter.add m.sp (-1)) = some w ∧ calls = calls.dropLast ++ [(w.toNat : Int)] ∧
      { m with sp := Counter.add m.sp (-1) }.Holds calls.dropLast := by
  have depth : (stackDepth : Int) = 16 := rfl
  have low := holds.nonneg
  have pointer := holds.pointer
  have room := holds.room
  have previous : Counter.add m.sp (-1) = m.sp - 1 := Counter.add_word (by omega) (by omega)
  obtain ⟨w, slot, pop⟩ := exists_usedSlots_pop (m := m) (by omega) (by omega)
  have slots := holds.slots
  rw [pop, List.map_append, List.map_singleton] at slots
  have below : { m with sp := Counter.add m.sp (-1) }.usedSlots.map
    (fun w : UInt16 => (w.toNat : Int)) =
      calls.dropLast := by
    rw [← slots, List.dropLast_concat]
  refine ⟨w, slot, by rw [← below, slots], ?_, ?_, below⟩
  · simp only [previous, List.length_dropLast]
    omega
  · rw [List.length_dropLast]
    omega

end Machine.Holds

/-! ## Steps -/

namespace Processor

variable {c : Processor} {e : UInt8} {calls : List Int} {pc : Int} {w : UInt16}

theorem fetchable_of_executed (executed : (c.step e).1 = .executed pc w) :
    c.machine.pc.fetchable? = some pc := by
  have stepped := c.step_stepped e
  generalize (c.step e).2 = c' at stepped
  rw [executed] at stepped
  cases stepped with
  | executed fetch => exact fetch

/-- A return takes the last open call and goes on there. -/
theorem step_of_ret (holds : c.machine.Holds calls)
    (executed : (c.step e).1 = .executed pc 0x00EE) :
    (∃ target, calls = calls.dropLast ++ [target] ∧ (c.step e).2.machine.pc = .address target) ∧
      (c.step e).2.machine.Holds calls.dropLast := by
  obtain ⟨i, move, m, word, done, machine⟩ := exists_of_executed executed
  obtain rfl : i = .ret := (Word.returns_iff word).1 rfl
  rw [Instr.execute_ret] at done
  split at done
  · cases done
  · next used =>
    obtain ⟨w, slot, last, below⟩ := holds.ret used
    dsimp only at done
    rw [slot] at done
    cases done
    rw [machine]
    exact ⟨⟨w.toNat, last, rfl⟩, below.move _⟩

theorem holds_step_of_call (holds : c.machine.Holds calls)
    (executed : (c.step e).1 = .executed pc w) (called : Word.Calls w) :
    (c.step e).2.machine.Holds (calls ++ [pc + 2]) := by
  obtain ⟨counter, fetch⟩ :=
    ProgramCounter.fetchable?_eq_some_iff.1 (fetchable_of_executed executed)
  obtain ⟨i, move, m, word, done, machine⟩ := exists_of_executed executed
  obtain ⟨target, rfl⟩ := (Word.calls_iff word).1 called
  rw [Instr.execute_call] at done
  split at done
  · cases done
  split at done
  · cases done
  next room _ =>
  cases done
  rw [machine]
  exact (holds.call counter fetch (by omega)).move _

/-- After a step the used slots are the open calls after the step. -/
theorem holds_step (holds : c.machine.Holds calls) (e : UInt8) :
    (c.step e).2.machine.Holds ((c.step e).1.track calls) := by
  by_cases goes : ∃ pc w, (c.step e).1 = .executed pc w
  · obtain ⟨pc, w, executed⟩ := goes
    rw [executed]
    by_cases called : Word.Calls w
    · rw [StepResult.track_call called]
      exact holds_step_of_call holds executed called
    by_cases back : w = 0x00EE
    · subst back
      exact (step_of_ret holds executed).2
    · rw [StepResult.track_other called back]
      obtain ⟨i, move, m, word, done, machine⟩ := exists_of_executed executed
      obtain ⟨stack, sp⟩ := Instr.stack_execute_of_other c.dialect e c.machine
        (fun target same => called ((Word.calls_iff word).2 ⟨target, same⟩))
        (fun same => back ((Word.returns_iff word).2 same))
      rw [done] at stack sp
      rw [machine]
      exact (holds.congr stack sp).move move
  · have same : (c.step e).1.track calls = calls := by
      generalize (c.step e).1 = result at goes
      cases result with
      | executed pc w => exact absurd ⟨pc, w, rfl⟩ goes
      | _ => rfl
    rw [same]
    rcases exists_of_not_executed goes with machine | machine
    · rw [machine]
      exact holds
    · rw [machine]
      exact holds.move _

end Processor

/-! ## Runs -/

namespace Processor

/-- What can be done to a processor from outside: a step, with the keys that are down and the byte
of the random source, or the end of a wait for a key. -/
inductive Act
  | step (keypad : Vector Bool 16) (entropy : UInt8)
  | resume (x : Reg) (key : Key)

/-- A processor in progress, with the results of its steps so far. -/
structure Run where
  processor : Processor
  results : List StepResult

namespace Run

/-- A machine is switched on with a program. -/
def start (program : List UInt8) (dialect : Dialect) : Run :=
  ⟨.new (.startWith program) dialect, []⟩

def machine (r : Run) : Machine := r.processor.machine

def act (r : Run) : Act → Run
  | .step keypad entropy =>
    let held := { r.processor with machine := { r.processor.machine with keypad } }
    ⟨(held.step entropy).2, r.results ++ [(held.step entropy).1]⟩
  | .resume x key => { r with processor := r.processor.resume x key }

def after (r : Run) (acts : List Act) : Run := acts.foldl act r

/-- The act is a step that carries out a word fetched at an address. -/
def Executes (r : Run) (a : Act) (pc : Int) (w : UInt16) : Prop :=
  (r.act a).results = r.results ++ [.executed pc w]

def openCalls (r : Run) : List Int := Chip8.openCalls r.results

variable {r : Run} {a : Act} {pc : Int} {w : UInt16}

theorem openCalls_of_executes (executes : r.Executes a pc w) :
    (r.act a).openCalls = (StepResult.executed pc w).track r.openCalls := by
  rw [openCalls, executes, openCalls_concat]
  rfl

/-- An act leaves the open calls alone, or it is a step that they are tracked through. -/
theorem openCalls_cases (r : Run) (a : Act) :
    (r.act a).openCalls = r.openCalls ∨
      ∃ result, (r.act a).results = r.results ++ [result] ∧
      (r.act a).openCalls = result.track r.openCalls := by
  cases a with
  | step keypad entropy => exact .inr ⟨_, rfl, openCalls_concat ..⟩
  | resume x key => exact .inl rfl

/-! ### The used slots -/

/-- The used slots are the open calls. -/
def Consistent (r : Run) : Prop := r.machine.Holds r.openCalls

theorem consistent_start (program : List UInt8) (dialect : Dialect) :
    (start program dialect).Consistent :=
  ⟨rfl, Nat.zero_le _, rfl⟩

theorem Consistent.act (consistent : r.Consistent) (a : Act) : (r.act a).Consistent := by
  cases a with
  | step keypad entropy =>
    have held : { r.machine with keypad }.Holds r.openCalls := consistent.congr rfl rfl
    rw [Consistent, openCalls, Run.act, openCalls_concat]
    exact holds_step (c := { r.processor with machine := { r.machine with keypad } }) held entropy
  | resume x key =>
    have stored : (r.machine.setReg x (UInt8.ofNat key)).Holds r.openCalls :=
      consistent.congr rfl rfl
    exact stored.move .advance

theorem Consistent.after (consistent : r.Consistent) (acts : List Act) :
    (r.after acts).Consistent := by
  induction acts generalizing r with
  | nil => exact consistent
  | cons a acts ih => exact ih (consistent.act a)

/-- A return goes on at the last open call and closes it. -/
theorem Consistent.exists_of_ret (consistent : r.Consistent) (executes : r.Executes a pc 0x00EE) :
    ∃ target, r.openCalls = (r.act a).openCalls ++ [target] ∧
    (r.act a).machine.pc = .address target := by
  have closed := openCalls_of_executes executes
  rw [StepResult.track_ret] at closed
  rw [closed]
  cases a with
  | step keypad entropy =>
    have held : { r.machine with keypad }.Holds r.openCalls := consistent.congr rfl rfl
    exact (step_of_ret (c := { r.processor with machine := { r.machine with keypad } }) held
      (List.singleton_inj.1 (List.append_cancel_left executes))).1
  | resume x key => cases List.self_eq_append_right.1 executes

/-! ### Matched returns -/

/-- Calls stay open over a run that stays at least as deep. -/
theorem prefix_after {opened : List Int} (acts : List Act) (before : opened <+: r.openCalls)
    (deep : ∀ part, part <+: acts → opened.length ≤ (r.after part).openCalls.length) :
    opened <+: (r.after acts).openCalls := by
  induction acts generalizing r with
  | nil => exact before
  | cons a acts ih =>
    have first : opened.length ≤ (r.act a).openCalls.length :=
      deep [a] (List.prefix_append [a] acts)
    refine ih ?_ fun part early => deep (a :: part) (List.cons_prefix_cons.2 ⟨rfl, early⟩)
    rcases r.openCalls_cases a with same | ⟨result, -, tracked⟩
    · rw [same]
      exact before
    · rw [tracked] at first ⊢
      exact StepResult.prefix_track before first

/-- Only a return comes back to a smaller depth. -/
theorem exists_executes_ret (fewer : (r.act a).openCalls.length < r.openCalls.length) :
    ∃ pc, r.Executes a pc 0x00EE := by
  rcases r.openCalls_cases a with same | ⟨result, made, tracked⟩
  · rw [same] at fewer
    exact absurd fewer (Nat.lt_irrefl _)
  · rw [tracked] at fewer
    obtain ⟨pc, rfl⟩ := StepResult.eq_ret_of_length_lt fewer
    exact ⟨pc, made⟩

/-- The act that first comes back to the depth of a call is a return, and it goes on behind the
call. -/
theorem Consistent.returns (consistent : r.Consistent) {call back : Act} {between : List Act}
    (executes : r.Executes call pc w) (called : Word.Calls w)
    (deeper : ∀ part, part <+: between →
      r.openCalls.length < ((r.act call).after part).openCalls.length)
    (level : ((((r.act call).after between).act back).openCalls).length = r.openCalls.length) :
    (∃ q, ((r.act call).after between).Executes back q 0x00EE) ∧
      (((r.act call).after between).act back).machine.pc = .address (pc + 2) := by
  have opened : (r.act call).openCalls = r.openCalls ++ [pc + 2] :=
    (openCalls_of_executes executes).trans (StepResult.track_call called)
  have length : (r.openCalls ++ [pc + 2]).length = r.openCalls.length + 1 := List.length_append
  have kept : r.openCalls ++ [pc + 2] <+: ((r.act call).after between).openCalls := by
    refine prefix_after between (opened ▸ List.prefix_rfl) fun part early => ?_
    rw [length]
    exact deeper part early
  have inner := (consistent.act call).after between
  have deep := deeper between List.prefix_rfl
  obtain ⟨q, returns⟩ := exists_executes_ret (level.trans_lt deep)
  refine ⟨⟨q, returns⟩, ?_⟩
  obtain ⟨target, last, continues⟩ := inner.exists_of_ret returns
  -- One call was open above the depth of the call, so it is the call itself.
  have exactly : ((r.act call).after between).openCalls = r.openCalls ++ [pc + 2] := by
    refine (kept.eq_of_length ?_).symm
    rw [length, last, List.length_append, level, List.length_singleton]
  rw [exactly] at last
  have same : pc + 2 = target := List.singleton_inj.1 (List.append_inj_right' last rfl)
  rw [continues, same]

/-- From power-on the used slots of the stack are the calls that are still open. A return goes on at
the last of them, and the return that first comes back to the depth of a call goes on behind the
call. -/
theorem calls_after (program : List UInt8) (dialect : Dialect) (acts : List Act) :
    let r := (start program dialect).after acts
    (r.machine.stack.toList.take r.machine.sp.toNat).map (fun w => (w.toNat : Int)) = r.openCalls ∧
    r.machine.sp = r.openCalls.length ∧ r.openCalls.length ≤ 16 ∧
    (∀ a pc, r.Executes a pc 0x00EE →
      ∃ target, r.openCalls = (r.act a).openCalls ++ [target] ∧
      (r.act a).machine.pc = .address target) ∧
    ∀ call pc w between back, r.Executes call pc w → Word.Calls w →
      let inner := (r.act call).after between
      (∀ part, part <+: between → r.machine.sp < ((r.act call).after part).machine.sp) →
      (inner.act back).machine.sp = r.machine.sp →
      (∃ q, inner.Executes back q 0x00EE) ∧ (inner.act back).machine.pc = .address (pc + 2) := by
  intro r
  have consistent : r.Consistent := (consistent_start program dialect).after acts
  refine ⟨?_, consistent.pointer, consistent.room,
    fun a pc executes => consistent.exists_of_ret executes, ?_⟩
  · rw [← Machine.usedSlots_of_nonneg consistent.nonneg]
    exact consistent.slots
  · intro call pc w between back executes called inner deeper level
    have depth (acts : List Act) : ((r.act call).after acts).machine.sp =
        ((r.act call).after acts).openCalls.length :=
      ((consistent.act call).after acts).pointer
    have atCall := consistent.pointer
    have atBack : (inner.act back).machine.sp = (inner.act back).openCalls.length :=
      (((consistent.act call).after between).act back).pointer
    refine consistent.returns executes called (fun part early => ?_) ?_
    · have := deeper part early
      rw [depth part, atCall] at this
      omega
    · change (inner.act back).openCalls.length = _
      omega

/-- A subroutine that calls another one returns behind its call. -/
theorem calls_after_nested_call :
    let program := [0x22, 0x06, 0x12, 0x02, 0x00, 0x00, 0x22, 0x0A, 0x00, 0xEE, 0x00, 0xEE]
    let r := (start program .standard).after []
    let step : Act := .step (Vector.replicate 16 false) 0
    r.Executes step 0x200 0x2206 ∧ Word.Calls 0x2206 ∧
    (r.after [step, step]).openCalls = [0x202, 0x208] ∧
    (∀ part, part <+: [step, step] → r.machine.sp < ((r.act step).after part).machine.sp) ∧
    (((r.act step).after [step, step]).act step).machine.sp = r.machine.sp ∧
    (((r.act step).after [step, step]).act step).machine.pc = .address (0x200 + 2) := by
  intro program r step
  obtain ⟨executes, opened, all, level⟩ :
      (r.act step).results = r.results ++ [.executed 0x200 0x2206] ∧
      (r.after [step, step]).openCalls = [0x202, 0x208] ∧
      (∀ part ∈ [[], [step], [step, step]], r.machine.sp < ((r.act step).after part).machine.sp) ∧
      (((r.act step).after [step, step]).act step).machine.sp = r.machine.sp := by decide +kernel
  have called : Word.Calls 0x2206 := by decide
  have deeper : ∀ part, part <+: [step, step] →
      r.machine.sp < ((r.act step).after part).machine.sp :=
    fun part early => all part ((List.mem_inits _ _).2 early)
  obtain ⟨-, -, -, -, matched⟩ := calls_after program .standard []
  obtain ⟨-, continues⟩ := matched step 0x200 0x2206 [step, step] step executes called deeper level
  exact ⟨executes, called, opened, deeper, level, continues⟩

end Run

end Processor

end Chip8
