import Chip8.Proofs.Machine.Stack
import Chip8.Proofs.Processor.Step
import Mathlib.Data.Fin.Basic

/-!
# Where a step goes on

A step that does not fault moves the program counter once. `Word.next` says where to, by the fields
of the word and by the machine before the step: two words on when the word tests its operands and
finds what it asks for (`Word.Skips`), to the target of a jump, a call or a return, nowhere while it
waits for a key, and to the next word in every other case. Of two words that ask for the opposite of
equal operands (`Word.Opposed`) exactly one skips.
-/

namespace Chip8

/-- The byte is the number of a key that is down. No key has a number above fifteen. -/
def Machine.Pressed (m : Machine) (b : UInt8) : Prop := m.keypad[b.toNat]? = some true

instance (m : Machine) (b : UInt8) : Decidable (m.Pressed b) := inferInstanceAs (Decidable (_ = _))

theorem Machine.keyDown_iff {m : Machine} {b : UInt8} : m.keyDown b = true ↔ m.Pressed b := by
  rw [keyDown, Pressed, Array.getD_eq_getD_getElem?, Vector.getElem?_toArray]
  cases m.keypad[b.toNat]? <;> simp

namespace Word

/-- The word tests its operands, and finds what it asks for. -/
def Skips (m : Machine) (w : UInt16) : Prop :=
  (family w).val = 0x3 ∧ m.reg (x w) = byte w ∨
  (family w).val = 0x4 ∧ m.reg (x w) ≠ byte w ∨
  (family w).val = 0x5 ∧ (nibble w).val = 0 ∧ m.reg (x w) = m.reg (y w) ∨
  (family w).val = 0x9 ∧ (nibble w).val = 0 ∧ m.reg (x w) ≠ m.reg (y w) ∨
  (family w).val = 0xE ∧ byte w = 0x9E ∧ m.Pressed (m.reg (x w)) ∨
  (family w).val = 0xE ∧ byte w = 0xA1 ∧ ¬ m.Pressed (m.reg (x w))

instance (m : Machine) (w : UInt16) : Decidable (Skips m w) := inferInstanceAs (Decidable (_ ∨ _))

/-- Where a word at an address goes on, if it does not fault. -/
def next (m : Machine) (a : Int) (w : UInt16) : Int :=
  if Skips m w then a + 4
  else if (family w).val = 0x1 ∨ (family w).val = 0x2 then (addr w).val
  else if (family w).val = 0xB then (m.reg offsetReg).toNat + (addr w).val
  else if w = 0x00EE then (m.stack[(m.sp - 1).toNat]?.getD 0).toNat
  else if (family w).val = 0xF ∧ byte w = 0x0A then a
  else a + 2

/-- On two machines the words test equal operands, the second one for what the first one refuses. -/
inductive Opposed (m m' : Machine) : UInt16 → UInt16 → Prop
  | byte (b : UInt8) {x x' : Reg} (same : m.reg x = m'.reg x') :
    Opposed m m' (ofByte 0x3 x b) (ofByte 0x4 x' b)
  | registers {x x' y y' : Reg} (first : m.reg x = m'.reg x') (second : m.reg y = m'.reg y') :
      Opposed m m' (ofNibbles 0x5 x y 0) (ofNibbles 0x9 x' y' 0)
  | key {x x' : Reg} (same : m.Pressed (m.reg x) ↔ m'.Pressed (m'.reg x')) :
      Opposed m m' (ofByte 0xE x 0x9E) (ofByte 0xE x' 0xA1)

/-! ## Words -/

section Unknown
variable {w : UInt16} (word : Instr.ofWord? w = none)
include word

theorem not_skips_of_none (m : Machine) : ¬ Skips m w := by
  rintro (⟨f, -⟩ | ⟨f, -⟩ | ⟨f, low, -⟩ | ⟨f, low, -⟩ | ⟨f, low, -⟩ | ⟨f, low, -⟩)
  · simp [Instr.ofWord?, (Fin.ext f : family w = 0x3)] at word
  · simp [Instr.ofWord?, (Fin.ext f : family w = 0x4)] at word
  · simp [Instr.ofWord?, (Fin.ext f : family w = 0x5), (Fin.ext low : nibble w = 0)] at word
  · simp [Instr.ofWord?, (Fin.ext f : family w = 0x9), (Fin.ext low : nibble w = 0)] at word
  · simp [Instr.ofWord?, (Fin.ext f : family w = 0xE), low] at word
  · simp [Instr.ofWord?, (Fin.ext f : family w = 0xE), low] at word

/-- A word that is no instruction goes on to the next word. -/
theorem next_of_none (m : Machine) (a : Int) : next m a w = a + 2 := by
  have jumps : ¬ ((family w).val = 0x1 ∨ (family w).val = 0x2) := by
    rintro (f | f)
    · simp [Instr.ofWord?, (Fin.ext f : family w = 0x1)] at word
    · simp [Instr.ofWord?, (Fin.ext f : family w = 0x2)] at word
  have offset : (family w).val ≠ 0xB := by
    intro f
    simp [Instr.ofWord?, (Fin.ext f : family w = 0xB)] at word
  have back : w ≠ 0x00EE := by
    rintro rfl
    cases word
  have waits : ¬ ((family w).val = 0xF ∧ byte w = 0x0A) := by
    rintro ⟨f, low⟩
    simp [Instr.ofWord?, Instr.ofMisc?, (Fin.ext f : family w = 0xF), low] at word
  rw [next, if_neg (not_skips_of_none word m), if_neg jumps, if_neg offset, if_neg back,
    if_neg waits]

end Unknown

end Word

/-! ## Moving the counter -/

/-- Where a move from an address goes. -/
def Move.target (a : Int) : Move → ProgramCounter
  | advance => .address (a + 2)
  | skip => .address (a + 4)
  | jump target => .address target
  | nowhere => .empty

/-- Where a step goes on by what became of the word at an address. -/
def Outcome.target (a : Int) : Outcome → ProgramCounter
  | proceed move => move.target a
  | awaitKey _ | fault _ => .address a
  | unknown => .address (a + 2)

theorem Machine.pc_move {m : Machine} {a : Int} (counter : m.pc = .address a)
    (inside : 0x200 ≤ a ∧ a ≤ 0xFFE) (move : Move) : (m.move move).pc = move.target a := by
  cases move with
  | advance =>
    have next : Counter.add a 2 = a + 2 := Counter.add_word (by omega) (by omega)
    rw [move, counter, ProgramCounter.add, next]
    rfl
  | skip =>
    have next : Counter.add a 4 = a + 4 := Counter.add_word (by omega) (by omega)
    rw [move, counter, ProgramCounter.add, next]
    rfl
  | jump target => rfl
  | nowhere => rfl

section
variable {a : Int} {cause : Cause} {move : Move}

theorem target_guarded {allowed : Prop} [Decidable allowed] {m next : Machine}
    (goes : ∀ cause',
      (if allowed then (Outcome.proceed move, next) else (.fault cause, m)).1 ≠ .fault cause') :
    (if allowed then (Outcome.proceed move, next) else (.fault cause, m)).1.target a =
      move.target a := by
  split
  · rfl
  · next refused => exact absurd (congrArg Prod.fst (if_neg refused)) (goes cause)

theorem target_jumpTo {target : Int} (goes : ∀ cause, jumpTo target ≠ .fault cause) :
    (jumpTo target).target a = .address target := by
  unfold jumpTo at goes ⊢
  split
  · next outside => exact absurd (if_pos outside) (goes _)
  · rfl

/-- A return within the stack goes on where its last used slot says. -/
theorem returnTo_slot? {m : Machine} (used : 0 < m.sp) (high : m.sp ≤ 16) :
    returnTo (m.slot? (Counter.add m.sp (-1))) =
      .jump (m.stack[(m.sp - 1).toNat]?.getD 0).toNat := by
  have previous : Counter.add m.sp (-1) = m.sp - 1 := Counter.add_word (by omega) (by omega)
  obtain ⟨w, top, -⟩ := Machine.exists_usedSlots_pop used high
  have slot : m.stack[(m.sp - 1).toNat]? = some w := by
    rw [previous, Machine.slot?, if_neg (by omega)] at top
    exact top
  rw [top, slot]
  rfl

end

/-! ## Instructions -/

namespace Instr

variable {d : Dialect} {e : UInt8} {m m' : Machine} {i : Instr} {a : Int} {move : Move}

/-- What an instruction finds that tests its operands. -/
def condition? (m : Machine) : Instr → Option Bool
  | skipIfByte x b => some (m.reg x = b)
  | skipUnlessByte x b => some (m.reg x ≠ b)
  | skipIfSame x y => some (m.reg x = m.reg y)
  | skipUnlessSame x y => some (m.reg x ≠ m.reg y)
  | skipIfKey x => some (m.keyDown (m.reg x))
  | skipUnlessKey x => some !m.keyDown (m.reg x)
  | _ => none

theorem execute_of_condition {b : Bool} (tests : i.condition? m = some b) :
    i.execute d e m = (skipIf b, m) := by
  cases i with
  | skipIfByte | skipUnlessByte | skipIfSame | skipUnlessSame | skipIfKey | skipUnlessKey =>
    cases tests
    rfl
  | _ => cases tests

theorem skips_toWord : Word.Skips m i.toWord ↔ i.condition? m = some true := by
  cases i with
  | skipUnlessKey x =>
    have up : m.keyDown (m.reg x) = false ↔ ¬ m.Pressed (m.reg x) := by
      rw [← Machine.keyDown_iff, Bool.not_eq_true]
    simp [Word.Skips, toWord, condition?, up]
  | _ => simp [Word.Skips, toWord, condition?, Machine.keyDown_iff]

/-- An instruction that does not fault goes on where its word says. -/
theorem target_execute (stack : 0 ≤ m.sp ∧ m.sp ≤ 16)
    (goes : ∀ cause, (i.execute d e m).1 ≠ .fault cause) :
    (i.execute d e m).1.target a = .address (Word.next m a i.toWord) := by
  simp only [Word.next, skips_toWord, toWord_eq_ret]
  -- The six tests are done together: the rest of the instructions never skip a word.
  cases tests : i.condition? m with
  | some found =>
    rw [execute_of_condition tests]
    cases found with
    | true => rfl
    | false =>
      cases i with
      | skipIfByte | skipUnlessByte | skipIfSame | skipUnlessSame | skipIfKey | skipUnlessKey =>
        simp [toWord, skipIf, Outcome.target, Move.target]
      | _ => cases tests
  | none =>
    cases i with
    | ret =>
      rw [execute_ret] at goes ⊢
      split
      · next empty => exact absurd (congrArg Prod.fst (if_pos empty)) (goes _)
      · next used =>
        change (returnTo (m.slot? (Counter.add m.sp (-1)))).target a = _
        rw [returnTo_slot? (by omega) stack.2]
        simp [toWord, Move.target]
    | jump target =>
      rw [execute_jump] at goes ⊢
      rw [target_jumpTo goes]
      simp [toWord]
    | jumpOffset base =>
      rw [execute_jumpOffset] at goes ⊢
      rw [target_jumpTo goes]
      simp [toWord]
    | call target =>
      rw [execute_call] at goes ⊢
      split
      · next full => exact absurd (congrArg Prod.fst (if_pos full)) (goes _)
      · next room =>
        rw [if_neg room] at goes
        split
        · next outside => exact absurd (congrArg Prod.fst (if_pos outside)) (goes _)
        · simp [toWord, Outcome.target, Move.target]
    | draw x y height =>
      rw [execute_draw] at goes ⊢
      rw [target_guarded goes]
      simp [toWord, Move.target]
    | storeDigits x =>
      rw [execute_storeDigits] at goes ⊢
      rw [target_guarded goes]
      simp [toWord, Move.target]
    | saveRegs x =>
      rw [execute_saveRegs] at goes ⊢
      rw [target_guarded goes]
      simp [toWord, Move.target]
    | loadRegs x =>
      rw [execute_loadRegs] at goes ⊢
      rw [target_guarded goes]
      simp [toWord, Move.target]
    | waitKey x =>
      change ProgramCounter.address a = _
      simp [toWord]
    | skipIfByte | skipUnlessByte | skipIfSame | skipUnlessSame | skipIfKey | skipUnlessKey =>
      cases tests
    | _ =>
      change ProgramCounter.address (a + 2) = _
      simp [toWord]

end Instr

namespace Word

variable (d : Dialect) (e : UInt8) {m m' : Machine} {w w' : UInt16}

/-- No word moves the counter while it is carried out. -/
theorem pc_execute (m : Machine) (w : UInt16) : (Word.execute d e m w).2.pc = m.pc := by
  cases word : Instr.ofWord? w with
  | none => rw [execute_of_none d e m word]
  | some i =>
    rw [execute_of_some d e m word]
    rcases i.execute_cases d e m with ⟨cause, h⟩ | ⟨x, h⟩ | ⟨move, next, h, effect⟩
    · rw [h]
    · rw [h]
    · rw [h]
      exact effect.pc_eq

theorem target_execute {a : Int} (stack : 0 ≤ m.sp ∧ m.sp ≤ 16)
    (goes : ∀ cause, (Word.execute d e m w).1 ≠ .fault cause) :
    (Word.execute d e m w).1.target a = .address (next m a w) := by
  cases word : Instr.ofWord? w with
  | none =>
    rw [execute_of_none d e m word, next_of_none word]
    rfl
  | some i =>
    rw [execute_of_some d e m word] at goes ⊢
    rw [Instr.target_execute stack goes, Instr.toWord_of_ofWord? word]

theorem execute_of_condition {i : Instr} {found : Bool} (tests : i.condition? m = some found) :
    execute d e m i.toWord = (skipIf found, m) :=
  (execute_of_some d e m i.ofWord?_toWord).trans (Instr.execute_of_condition tests)

/-- Opposed words test their operands, and find opposite things. -/
theorem Opposed.exists_execute (opposed : Opposed m m' w w') (d' : Dialect) (e' : UInt8) :
    ∃ found, execute d e m w = (skipIf found, m) ∧ execute d' e' m' w' = (skipIf !found, m') := by
  cases opposed with
  | @byte b x x' same =>
    have asks := execute_of_condition d e (m := m) (i := .skipIfByte x b) rfl
    have refuses := execute_of_condition d' e' (m := m') (i := .skipUnlessByte x' b) rfl
    rw [← same, decide_not] at refuses
    exact ⟨_, asks, refuses⟩
  | @registers x x' y y' first second =>
    have asks := execute_of_condition d e (m := m) (i := .skipIfSame x y) rfl
    have refuses := execute_of_condition d' e' (m := m') (i := .skipUnlessSame x' y') rfl
    rw [← first, ← second, decide_not] at refuses
    exact ⟨_, asks, refuses⟩
  | @key x x' same =>
    have down : m'.keyDown (m'.reg x') = m.keyDown (m.reg x) := by
      rw [Bool.eq_iff_iff, Machine.keyDown_iff, Machine.keyDown_iff, same]
    have asks := execute_of_condition d e (m := m) (i := .skipIfKey x) rfl
    have refuses := execute_of_condition d' e' (m := m') (i := .skipUnlessKey x') rfl
    rw [down] at refuses
    exact ⟨_, asks, refuses⟩

end Word

/-! ## Steps -/

namespace Processor

variable {c : Processor} {a : Int}

theorem pc_step (counter : c.machine.pc = .address a) (inside : 0x200 ≤ a ∧ a ≤ 0xFFE) (e : UInt8) :
    (c.step e).2.machine.pc = (Word.execute c.dialect e c.machine (c.fetch a)).1.target a := by
  have kept := Word.pc_execute c.dialect e c.machine (c.fetch a)
  rw [step_of_fetchable (counter ▸ ProgramCounter.fetchable?_address inside)]
  generalize Word.execute c.dialect e c.machine (c.fetch a) = result at kept ⊢
  obtain ⟨outcome, next⟩ := result
  have here : next.pc = .address a := kept.trans counter
  cases outcome with
  | proceed move => exact Machine.pc_move here inside move
  | awaitKey x => exact here
  | fault cause => exact here
  | unknown => exact Machine.pc_move here inside .advance

theorem step_faulted_iff_execute (counter : c.machine.pc = .address a)
    (inside : 0x200 ≤ a ∧ a ≤ 0xFFE) (e : UInt8) :
    (∃ f, (c.step e).1 = .faulted f) ↔
      ∃ cause, (Word.execute c.dialect e c.machine (c.fetch a)).1 = .fault cause := by
  rw [step_of_fetchable (counter ▸ ProgramCounter.fetchable?_address inside)]
  generalize Word.execute c.dialect e c.machine (c.fetch a) = result
  obtain ⟨outcome, next⟩ := result
  cases outcome <;> simp [conclude]

/-- A step moves the counter once: nowhere if it faults, and else to where its word goes on. Of two
steps on words that test equal operands for the opposite, one skips and the other does not. -/
theorem step_moves_counter (counter : c.machine.pc = .address a) (inside : 0x200 ≤ a ∧ a ≤ 0xFFE)
    (stack : 0 ≤ c.machine.sp ∧ c.machine.sp ≤ 16) (e : UInt8) :
    let w := c.fetch a
    let pc := (c.step e).2.machine.pc
    ((∃ f, (c.step e).1 = .faulted f) → pc = .address a) ∧
    ((¬ ∃ f, (c.step e).1 = .faulted f) → pc = .address (Word.next c.machine a w)) ∧
    ∀ (c' : Processor) (a' : Int) (e' : UInt8),
      c'.machine.pc = .address a' → 0x200 ≤ a' ∧ a' ≤ 0xFFE →
      Word.Opposed c.machine c'.machine w (c'.fetch a') →
      pc = .address (a + 4) ∧ (c'.step e').2.machine.pc = .address (a' + 2) ∨
      pc = .address (a + 2) ∧ (c'.step e').2.machine.pc = .address (a' + 4) := by
  intro w pc
  have moves : pc = (Word.execute c.dialect e c.machine w).1.target a := pc_step counter inside e
  -- From here on, only the outcome of the word counts.
  rw [step_faulted_iff_execute counter inside e, moves]
  refine ⟨?_, ?_, ?_⟩
  · rintro ⟨cause, faults⟩
    exact congrArg (Outcome.target a) faults
  · intro goes
    exact Word.target_execute _ _ stack fun cause faults => goes ⟨cause, faults⟩
  · intro c' a' e' counter' inside' opposed
    obtain ⟨found, here, there⟩ := opposed.exists_execute c.dialect e c'.dialect e'
    rw [pc_step counter' inside', here, there]
    cases found with
    | true => exact .inl ⟨rfl, rfl⟩
    | false => exact .inr ⟨rfl, rfl⟩

/-- Key 32 does not exist: the word that asks for it goes on to the next word, and the one that asks
for its absence skips a word. -/
theorem step_moves_counter_without_key :
    let m : Machine :=
  { Machine.startWith [0xE0, 0x9E, 0xE1, 0xA1] with v := Vector.replicate 16 0x20 }
    let c := Processor.new m .standard
    let c' := Processor.new { m with pc := .address 0x202 } .standard
    c.machine.pc = .address 0x200 ∧ c'.machine.pc = .address 0x202 ∧
      (0 ≤ c.machine.sp ∧ c.machine.sp ≤ 16) ∧
    Word.Opposed c.machine c'.machine (c.fetch 0x200) (c'.fetch 0x202) ∧
    (c.step 0).2.machine.pc = .address 0x202 ∧ (c'.step 0).2.machine.pc = .address 0x206 := by
  intro m c c'
  have word : c.fetch 0x200 = Word.ofByte 0xE 0 0x9E := by decide +kernel
  have word' : c'.fetch 0x202 = Word.ofByte 0xE 1 0xA1 := by decide +kernel
  have same : c.machine.Pressed (c.machine.reg 0) ↔ c'.machine.Pressed (c'.machine.reg 1) := by
    decide +kernel
  have opposed : Word.Opposed c.machine c'.machine (c.fetch 0x200) (c'.fetch 0x202) := by
    rw [word, word']
    exact .key same
  have next : Word.next c.machine 0x200 (c.fetch 0x200) = 0x202 := by decide +kernel
  have stack : 0 ≤ c.machine.sp ∧ c.machine.sp ≤ 16 := by decide
  obtain ⟨stays, goesOn, pairs⟩ := step_moves_counter (c := c) (a := 0x200) rfl (by decide) stack 0
  have moves := pairs c' 0x202 0 rfl (by decide) opposed
  refine ⟨rfl, rfl, stack, opposed, ?_⟩
  rcases moves with ⟨here, -⟩ | both
  · by_cases faults : ∃ f, (c.step 0).1 = .faulted f
    · exact absurd (here.symm.trans (stays faults)) (by decide)
    · have there := goesOn faults
      rw [next] at there
      exact absurd (here.symm.trans there) (by decide)
  · exact both

end Processor

end Chip8
