import Chip8.Proofs.Emulator.Requests

/-!
# Frames left over

Every tick hands over the screen if it was drawn on, before the next tick can begin. Only a display
takes frames, and only while the session has not stopped. A tick that stops the session within its
step, or is cut short there, has drawn nothing. So between ticks no frame is left to hand over, in
any play that an emulator can come to (`Play.Reachable.shown`).
-/

namespace Chip8.Play

variable {σ α : Type} {h : Host σ} {p q : Play σ α}

/-- No frame is left to hand over: there is no display, or nothing was drawn since the last
frame. -/
def Shown (h : Host σ) (p : Play σ α) : Prop := h.present = none ∨ p.session.machine.drawn = false

namespace Shown

theorem congr (shown : Shown h p) (same : q.session.machine.drawn = p.session.machine.drawn) :
    Shown h q :=
  shown.imp_right same.trans

theorem setTone (shown : Shown h p) (on : Bool) : Shown h (p.setTone on) :=
  shown.congr (congrArg (·.machine.drawn) (session_setTone p on))

theorem halt (shown : Shown h p) (reason : HaltReason) : Shown h (p.halt reason) :=
  shown.congr (congrArg (·.machine.drawn) (session_halt p reason))

theorem pollInput (shown : Shown h p) : Shown h (p.pollInput h).2 := by
  refine shown.congr ?_
  unfold Play.pollInput
  split <;> rfl

theorem deliverKey (shown : Shown h p) (keyDowns : List Number) :
    Shown h (p.deliverKey keyDowns) := by
  refine shown.congr ?_
  unfold Play.deliverKey
  split <;> rfl

/-- A key ends a wait and nothing else, so it starts no session that had stopped. -/
theorem deliverKey_of_halted (stopped : p.session.isHalted = true → Shown h p)
    (keyDowns : List Number) (halted : (p.deliverKey keyDowns).session.isHalted = true) :
    Shown h (p.deliverKey keyDowns) := by
  unfold Play.deliverKey at halted ⊢
  split
  · next awaits key =>
    rw [awaits, key] at halted
    cases halted
  · next other =>
    split at halted
    · next awaits key => exact absurd key (other _ _ awaits)
    · exact stopped halted

theorem executeStep (shown : Shown h p) (running : p.session.status = .running) :
    ((p.executeStep h).2.session.isHalted = true → Shown h (p.executeStep h).2) ∧
      ((p.executeStep h).1.isSome = true → Shown h (p.executeStep h).2) := by
  rw [executeStep_eq]
  dsimp only
  have stepped := p.session.processor.step_stepped (p.drawByte h).1
  generalize p.session.processor.step (p.drawByte h).1 = step at stepped ⊢
  obtain ⟨result, c⟩ := step
  dsimp only at stepped ⊢
  have unchanged (same : c.machine = p.session.machine) :
      Shown h ((p.stepped c result (p.drawByte h).2).book result).2 :=
    shown.congr
      (congrArg Machine.drawn ((congrArg Processor.machine (processor_book _ _)).trans same))
  have alive (kept : ((p.stepped c result (p.drawByte h).2).book result).2.session.status =
    p.session.status) :
      ¬ ((p.stepped c result (p.drawByte h).2).book result).2.session.isHalted = true := by
    rw [Session.isHalted_iff, kept, running]
    rintro ⟨reason, halted⟩
    cases halted
  cases stepped with
  | executed =>
    refine ⟨fun halted => absurd halted (alive ?_), fun cut => absurd cut Bool.false_ne_true⟩
    simp only [book]
    split <;> rfl
  | unknown =>
    exact ⟨fun halted => absurd halted (alive rfl), fun cut => absurd cut Bool.false_ne_true⟩
  | awaitingKey | faulted | unfetched | lost =>
    exact ⟨fun _ => unchanged rfl, fun _ => unchanged rfl⟩

/-- The end of a tick leaves no frame, unless the session had stopped before. -/
theorem settle (stopped : p.session.isHalted = true → Shown h p) : Shown h (p.settle h) := by
  have shown : Shown h (p.handOver h).2 := by
    unfold handOver
    split
    · next absent => exact .inl absent
    · split
      · exact .inr rfl
      · next idle =>
        cases drawn : p.session.machine.drawn with
        | false => exact .inr drawn
        | true =>
          rw [drawn, Bool.true_and, Bool.not_eq_true, Bool.not_eq_false'] at idle
          exact stopped idle
  unfold Play.settle
  split
  next quit q hq =>
  rw [hq] at shown
  split
  · exact shown.halt _
  · exact shown.setTone _

/-- Before a tick is settled a frame may be left, but not by a session that has stopped. -/
theorem tick (shown : Shown h p) (t : Tick) : Shown h (p.tick h t).2 :=
  tick_induction (J := fun p => p.session.isHalted = true → Shown h p)
    (fun _ shown => shown.pollInput)
    (fun _ shown => shown.halt _) (fun _ shown _ => shown)
      (fun _ shown running => shown.executeStep running)
    (fun _ keyDowns stopped => deliverKey_of_halted stopped keyDowns)
      (fun _ stopped => settle stopped)
    (fun _ shown _ => shown) t shown

theorem restart [Quantity α] (shown : Shown h p) : Shown h p.restart := by
  refine setTone ?_ false
  exact shown

end Shown

theorem Reachable.shown [Quantity α] (reachable : p.Reachable h) : Shown h p := by
  refine reachable.keeps (fun set host => ?_) (fun _ t shown => shown.tick t)
    (fun _ _ shown => shown)
    (fun _ shown => shown.restart) (fun _ _ _ => Shown.restart (.inr rfl))
  obtain ⟨-, clock, -, rfl⟩ := Session.ofProgram?_eq_ok_iff.1 set
  exact .inr rfl

end Chip8.Play
