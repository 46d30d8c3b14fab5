import Chip8.Proofs.Machine.Parts
import Chip8.Proofs.Processor.Step

/-!
# Timers and the screen under instructions

Each timer is written by one instruction, and the screen by two. Which they are is read off the word
that was carried out, so that a run can be followed by the words of its steps alone.
-/

namespace Chip8

inductive Timer
  | delay
  | sound
deriving DecidableEq

namespace Timer

def read (m : Machine) : Timer → Int
  | delay => m.dt
  | sound => m.st

/-- The instruction that stores a register in the timer. -/
def store (x : Reg) : Timer → Instr
  | delay => .setDelay x
  | sound => .setSound x

/-- The low byte of the words of that instruction. -/
def selector : Timer → Nat
  | delay => 0x15
  | sound => 0x18

theorem toNat_toWord_store (k : Timer) (x : Reg) :
    (k.store x).toWord.toNat = 0xF000 + 0x100 * x + k.selector := by
  revert x
  cases k <;> decide

theorem read_congr (k : Timer) {m m' : Machine} (delay : m'.dt = m.dt) (sound : m'.st = m.st) :
    k.read m' = k.read m := by
  cases k
  · exact delay
  · exact sound

def part : Timer → Part
  | delay => .delay
  | sound => .sound

theorem read_of_agreeAt {k : Timer} {m m' : Machine} (agree : m'.AgreeAt m k.part) :
    k.read m' = k.read m := by
  cases k <;> exact agree

theorem read_move (k : Timer) (m : Machine) (move : Move) : k.read (m.move move) = k.read m := by
  cases move <;> cases k <;> rfl

end Timer

theorem Machine.screen_move (m : Machine) (move : Move) : (m.move move).screen = m.screen := by
  cases move <;> rfl

theorem Machine.drawn_move (m : Machine) (move : Move) : (m.move move).drawn = m.drawn := by
  cases move <;> rfl

def Instr.draws : Instr → Bool
  | clear | draw .. => true
  | _ => false

/-! ## Words -/

namespace Word

/-- The word stores a register in a timer. -/
def StoresIn (k : Timer) (x : Reg) (w : UInt16) : Prop := w.toNat = 0xF000 + 0x100 * x + k.selector

/-- The word clears the screen or draws a sprite. -/
def Draws (w : UInt16) : Prop := w = 0x00E0 ∨ w.toNat / 0x1000 = 0xD

variable {w : UInt16}

theorem storesIn_iff {k : Timer} {x : Reg} :
    StoresIn k x w ↔ Instr.ofWord? w = some (k.store x) := by
  rw [Instr.ofWord?_eq_some_iff, ← UInt16.toNat_inj, Timer.toNat_toWord_store]
  rfl

theorem exists_of_draws (draws : Draws w) : ∃ i, Instr.ofWord? w = some i ∧ i.draws = true := by
  rcases draws with rfl | family
  · exact ⟨.clear, rfl, rfl⟩
  · have family : Word.family w = 0xD := Fin.ext family
    exact ⟨.draw (x w) (y w) (nibble w), by simp [Instr.ofWord?, family], rfl⟩

theorem draws_iff {i : Instr} (word : Instr.ofWord? w = some i) : Draws w ↔ i.draws = true := by
  constructor
  · intro draws
    obtain ⟨j, read, draws⟩ := exists_of_draws draws
    obtain rfl := Option.some.inj (word.symm.trans read)
    exact draws
  · intro draws
    rw [Instr.ofWord?_eq_some_iff] at word
    cases i with
    | clear => exact .inl word
    | draw x y height =>
      refine .inr ?_
      have family : Word.family w = 0xD := word ▸ family_ofNibbles 0xD x y height
      exact congrArg Fin.val family
    | _ => cases draws

end Word

/-! ## Instructions -/

namespace Instr

variable (d : Dialect) (e : UInt8) (m : Machine) {i : Instr}

theorem timer_execute_store (k : Timer) (x : Reg) :
    k.read ((k.store x).execute d e m).2 = (m.reg x).toNat := by
  cases k <;> rfl

theorem exists_store_of_writes {k : Timer} (writes : i.Writes d m k.part) : ∃ x, i = k.store x := by
  cases i with
  | setDelay x =>
    cases k with
    | delay => exact ⟨x, rfl⟩
    | sound => cases writes
  | setSound x =>
    cases k with
    | delay => cases writes
    | sound => exact ⟨x, rfl⟩
  | _ => cases k <;> simp [Writes, Timer.part] at writes

theorem timer_execute_of_ne {k : Timer} (other : ∀ x, i ≠ k.store x) :
    k.read (i.execute d e m).2 = k.read m := by
  refine Timer.read_of_agreeAt (agreeAt_execute d e m fun writes => ?_)
  obtain ⟨x, stores⟩ := exists_store_of_writes d m writes
  exact other x stores

theorem draws_of_writes {p : Part} (shown : p = .screen ∨ p = .drawn) (writes : i.Writes d m p) :
    i.draws = true := by
  cases i with
  | clear | draw => rfl
  | _ => rcases shown with rfl | rfl <;> simp [Writes] at writes

theorem screen_execute_of_not_draws (blind : i.draws = false) :
    (i.execute d e m).2.screen = m.screen ∧ (i.execute d e m).2.drawn = m.drawn := by
  have unwritten {p : Part} (shown : p = .screen ∨ p = .drawn) : ¬ i.Writes d m p := fun writes =>
    Bool.eq_false_iff.1 blind (draws_of_writes d m shown writes)
  exact ⟨agreeAt_execute d e m (unwritten (.inl rfl)), agreeAt_execute d e m (unwritten (.inr rfl))⟩

/-- An instruction that draws faults, or marks the screen as drawn on. -/
theorem execute_of_draws (draws : i.draws = true) :
    (∃ cause, i.execute d e m = (.fault cause, m)) ∨
      ∃ m', i.execute d e m = (.proceed .advance, m') ∧ m'.drawn = true := by
  cases i with
  | clear => exact .inr ⟨_, rfl, rfl⟩
  | draw x y height =>
    rw [execute_draw]
    split
    · exact .inr ⟨_, rfl, rfl⟩
    · exact .inl ⟨_, rfl⟩
  | _ => cases draws

end Instr

/-! ## Steps -/

namespace Processor

variable {c : Processor} {e : UInt8} {a : Int} {w : UInt16}

/-- A step that goes on has carried out the instruction that its word stands for. -/
theorem exists_of_executed (executed : (c.step e).1 = .executed a w) :
    ∃ i move m, Instr.ofWord? w = some i ∧ i.execute c.dialect e c.machine = (.proceed move, m) ∧
      (c.step e).2.machine = m.move move := by
  cases fetch : c.machine.pc.fetchable? with
  | none =>
    rw [step_of_not_fetchable fetch, refusal] at executed
    split at executed <;> cases executed
  | some b =>
    rw [step_of_fetchable fetch] at executed ⊢
    cases word : Instr.ofWord? (c.fetch b) with
    | none =>
      rw [Word.execute_of_none _ _ _ word] at executed
      cases executed
    | some i =>
      rw [Word.execute_of_some _ _ _ word] at executed ⊢
      rcases done : i.execute c.dialect e c.machine with ⟨outcome, m⟩
      rw [done] at executed
      cases outcome with
      | proceed move =>
        cases executed
        exact ⟨i, move, m, word, done, rfl⟩
      | _ => cases executed

/-- A step that carries out no instruction moves at most the program counter. -/
theorem exists_of_not_executed (idle : ¬ ∃ a w, (c.step e).1 = .executed a w) :
    (c.step e).2.machine = c.machine ∨ (c.step e).2.machine = c.machine.move .advance := by
  have stepped := c.step_stepped e
  generalize (c.step e).1 = result at idle stepped
  generalize (c.step e).2 = c' at stepped ⊢
  cases stepped with
  | executed => exact absurd ⟨_, _, rfl⟩ idle
  | unknown => exact .inr rfl
  | _ => exact .inl rfl

theorem timer_step_of_storesIn {k : Timer} {x : Reg} (executed : (c.step e).1 = .executed a w)
    (stores : Word.StoresIn k x w) : k.read (c.step e).2.machine = (c.machine.reg x).toNat := by
  obtain ⟨i, move, m, word, done, machine⟩ := exists_of_executed executed
  obtain rfl : i = k.store x := Option.some.inj (word.symm.trans (Word.storesIn_iff.1 stores))
  have stored := Instr.timer_execute_store c.dialect e c.machine k x
  rw [done] at stored
  rw [machine, k.read_move]
  exact stored

theorem timer_step_of_not_storesIn {k : Timer}
    (other : ∀ a w, (c.step e).1 = .executed a w → ∀ x, ¬ Word.StoresIn k x w) :
    k.read (c.step e).2.machine = k.read c.machine := by
  rcases Classical.em (∃ a w, (c.step e).1 = .executed a w) with ⟨a, w, executed⟩ | idle
  · obtain ⟨i, move, m, word, done, machine⟩ := exists_of_executed executed
    have kept : k.read (i.execute c.dialect e c.machine).2 = k.read c.machine := by
      refine Instr.timer_execute_of_ne c.dialect e c.machine fun x same => ?_
      exact other a w executed x (Word.storesIn_iff.2 (word.trans (congrArg some same)))
    rw [done] at kept
    rw [machine, k.read_move]
    exact kept
  · rcases exists_of_not_executed idle with machine | machine
    · rw [machine]
    · rw [machine, k.read_move]

theorem drawn_step_of_draws (executed : (c.step e).1 = .executed a w) (draws : Word.Draws w) :
    (c.step e).2.machine.drawn = true := by
  obtain ⟨i, move, m, word, done, machine⟩ := exists_of_executed executed
  rw [machine, Machine.drawn_move]
  rcases i.execute_of_draws c.dialect e c.machine ((Word.draws_iff word).1 draws) with
    ⟨cause, h⟩ | ⟨m', h, drawn⟩
  · rw [h] at done
    cases done
  · rw [h] at done
    cases done
    exact drawn

theorem screen_step_of_not_draws (other : ∀ a w, (c.step e).1 = .executed a w → ¬ Word.Draws w) :
    (c.step e).2.machine.screen = c.machine.screen ∧
    (c.step e).2.machine.drawn = c.machine.drawn := by
  rcases Classical.em (∃ a w, (c.step e).1 = .executed a w) with ⟨a, w, executed⟩ | idle
  · obtain ⟨i, move, m, word, done, machine⟩ := exists_of_executed executed
    have blind : i.draws = false :=
      Bool.eq_false_iff.2 fun draws => other a w executed ((Word.draws_iff word).2 draws)
    have kept := Instr.screen_execute_of_not_draws c.dialect e c.machine blind
    rw [done] at kept
    rw [machine, Machine.screen_move, Machine.drawn_move]
    exact kept
  · rcases exists_of_not_executed idle with machine | machine
    · rw [machine]
      exact ⟨rfl, rfl⟩
    · rw [machine, Machine.screen_move, Machine.drawn_move]
      exact ⟨rfl, rfl⟩

end Processor

end Chip8
