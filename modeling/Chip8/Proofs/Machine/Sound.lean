import Chip8.Proofs.Machine.Stack
import Chip8.Proofs.Processor.Step
import Chip8.Proofs.Screen

/-!
# Machines that a run can come to

`Machine.Sound` bounds the counters of a machine, its used stack slots and its cells; registers are
bytes by their type. The program counter may stand two words past the last one that can be fetched,
since a skip from there moves it by four. A return address lies behind a call, so it is at least
`0x202`. A sound machine stays sound in every step (`Sound.stepped`), and `problems` finds nothing
wrong with it but a counter that ran off the end of memory (`Sound.problems_cases`).
-/

namespace Chip8

/-- What holds of the machine throughout a run. -/
structure Machine.Sound (m : Machine) : Prop where
  delay : 0 ≤ m.dt ∧ m.dt ≤ 0xFF
  sound : 0 ≤ m.st ∧ m.st ≤ 0xFF
  index : 0 ≤ m.i ∧ m.i ≤ 0xFFFF
  pointer : 0 ≤ m.sp ∧ m.sp ≤ stackDepth
  returns : ∀ w ∈ m.usedSlots, 0x202 ≤ w.toNat ∧ w.toNat ≤ 0x1000
  screen : m.screen.Binary
  counter : ∃ a, m.pc = .address a ∧ 0 ≤ a ∧ a ≤ 0x1002

namespace Machine.Sound

variable {m m' : Machine} {move : Move}

theorem startWith (program : List UInt8) : (Machine.startWith program).Sound where
  delay := (by decide : (0 : Int) ≤ 0 ∧ (0 : Int) ≤ 0xFF)
  sound := (by decide : (0 : Int) ≤ 0 ∧ (0 : Int) ≤ 0xFF)
  index := (by decide : (0 : Int) ≤ 0 ∧ (0 : Int) ≤ 0xFFFF)
  pointer := (by decide : (0 : Int) ≤ 0 ∧ (0 : Int) ≤ stackDepth)
  returns := by
    intro w hw
    exact absurd hw (by simp [usedSlots, Machine.startWith, start])
  screen := Screen.binary_dark
  counter := ⟨0x200, rfl, by decide, by decide⟩

/-- An effect keeps a machine sound, with the program counter still where the word was fetched. -/
theorem effect (h : m.Sound) {a : Int} (fetch : m.pc.fetchable? = some a)
    (effect : Effect m move m') :
    m'.Sound := by
  obtain ⟨counter, fetchable⟩ := ProgramCounter.fetchable?_eq_some_iff.1 fetch
  rw [isFetchable_iff] at fetchable
  have depth : (stackDepth : Int) = 16 := rfl
  have pointer := h.pointer
  have pc := effect.pc_eq
  cases effect with
  | registers | skip | jump | store => exact { h with }
  | index i v low high => exact { h with index := ⟨low, high⟩ }
  | delay b =>
    have := b.toNat_lt
    exact { h with delay := ⟨by simp only; omega, by simp only; omega⟩ }
  | sound b =>
    have := b.toNat_lt
    exact { h with sound := ⟨by simp only; omega, by simp only; omega⟩ }
  | clear => exact { h with screen := Screen.binary_dark }
  | draw x y rows v => exact { h with screen := h.screen.drawSprite x y rows }
  | call target _ _ room =>
    have next : Counter.add m.sp 1 = m.sp + 1 := Counter.add_word (by omega) (by omega)
    have push := usedSlots_push pointer.1 room m.pc.returnWord
    have address := ProgramCounter.toNat_returnWord fetchable.1 fetchable.2
    rw [setSlot, if_neg (by omega)] at push ⊢
    refine { h with pointer := ?_, returns := ?_ }
    · simp only [next]
      omega
    · intro w hw
      rw [push, counter] at hw
      rcases List.mem_append.1 hw with hw | hw
      · exact h.returns w hw
      · rw [List.mem_singleton] at hw
        subst hw
        omega
  | ret used =>
    have used : 0 < m.sp := by omega
    obtain ⟨w, -, pop⟩ := exists_usedSlots_pop used h.pointer.2
    have previous : Counter.add m.sp (-1) = m.sp - 1 := Counter.add_word (by omega) (by omega)
    refine { h with pointer := ?_, returns := ?_ }
    · simp only [previous]
      omega
    · intro w hw
      exact h.returns w (by rw [pop]; exact List.mem_append_left _ hw)

/-- The next word may lie up to two words past the last one that can be fetched. -/
theorem lands (h : m.Sound) {a : Int} (fetch : m.pc.fetchable? = some a)
    (effect : Effect m move m') :
    ∃ b, (m'.move move).pc = .address b ∧ 0 ≤ b ∧ b ≤ 0x1002 := by
  obtain ⟨counter, fetchable⟩ := ProgramCounter.fetchable?_eq_some_iff.1 fetch
  rw [isFetchable_iff] at fetchable
  have past (d : Int) (low : 0 ≤ d) (high : d ≤ 4) :
      ∃ b, m.pc.add d = .address b ∧ 0 ≤ b ∧ b ≤ 0x1002 := by
    rw [counter, ProgramCounter.add, Counter.add_word (by omega) (by omega)]
    exact ⟨a + d, rfl, by omega, by omega⟩
  cases effect with
  | skip condition =>
    cases condition
    · exact past 2 (by omega) (by omega)
    · exact past 4 (by omega) (by omega)
  | jump target low high | call target low high => exact ⟨target, rfl, low, by omega⟩
  | ret used =>
    have pointer := h.pointer
    obtain ⟨w, slot, pop⟩ := exists_usedSlots_pop (by omega) pointer.2
    have bounds :=
      h.returns w (by rw [pop]; exact List.mem_append_right _ (List.mem_singleton_self w))
    rw [slot]
    exact ⟨w.toNat, rfl, by omega, by omega⟩
  | _ => exact past 2 (by omega) (by omega)

theorem moved (h : m.Sound) (counter : ∃ a, (m.move move).pc = .address a ∧ 0 ≤ a ∧ a ≤ 0x1002) :
    (m.move move).Sound := by
  cases move <;> exact { h with counter }

/-- A step keeps the machine sound. -/
theorem stepped {c c' : Processor} {result : StepResult} (h : c.machine.Sound)
    (stepped : c.Stepped result c') : c'.machine.Sound := by
  cases stepped with
  | executed fetch effect => exact (h.effect fetch effect).moved (h.lands fetch effect)
  | unknown fetch => exact h.moved (h.lands fetch (.skip false))
  | _ => exact h

/-- Nothing can be wrong with a sound machine but that its program counter ran off the end of
memory. -/
theorem problems_cases (h : m.Sound) :
    m.problems = [] ∨
      ∃ a, m.pc = .address a ∧ 0xFFF ≤ a ∧ a ≤ 0x1002 ∧ m.problems = [.programCounter m.pc] := by
  obtain ⟨a, counter, low, high⟩ := h.counter
  have delay : ¬ (m.dt < 0 ∨ 0xFF < m.dt) := by have := h.delay; omega
  have sound : ¬ (m.st < 0 ∨ 0xFF < m.st) := by have := h.sound; omega
  have pointer : ¬ (m.sp < 0 ∨ stackDepth < m.sp) := by have := h.pointer; omega
  have index : ¬ m.i < 0 := by have := h.index; omega
  have rest : m.problems = if m.pc.isInMemory then [] else [.programCounter m.pc] := by
    simp [problems, delay, sound, pointer, index]
  by_cases inside : m.pc.isInMemory = true
  · exact .inl (by rw [rest, if_pos inside])
  · refine .inr ⟨a, counter, ?_, high, by rw [rest, if_neg inside]⟩
    rw [counter, ProgramCounter.isInMemory, Bool.and_eq_true, isAddressable_iff, isAddressable_iff]
      at inside
    omega

end Machine.Sound

end Chip8
