import Chip8.Proofs.Session.Simulation

/-!
# Hosts that answer alike

A session knows of its host only what the host answers. Two hosts are alike under a relation of
their states when from related states on they give the same polls, random bytes and display answers.
Plays with the same session against such hosts stay in step: whatever is asked of both, they go
through the same sessions and give their callers the same.
-/

namespace Chip8

/-- Hosts that answer alike from related states on. -/
structure Host.Alike {σ τ : Type} (h : Host σ) (k : Host τ) (R : σ → τ → Prop) : Prop where
  poll : Option.Rel (fun f g => ∀ x y, R x y → Paired R (f x) (g y)) h.poll k.poll
  present : Option.Rel (fun f g => ∀ screen x y, R x y → Paired R (f screen x) (g screen y))
    h.present k.present
  entropy : ∀ x y, R x y → Paired R (h.entropy x) (k.entropy y)

/-- A host answers as it does itself. -/
theorem Host.Alike.refl {σ : Type} (h : Host σ) : h.Alike h Eq := by
  refine ⟨?_, ?_, Paired.of_eq h.entropy⟩
  · cases h.poll with
    | none => exact .none
    | some poll => exact .some (Paired.of_eq poll)
  · cases h.present with
    | none => exact .none
    | some present => exact .some fun screen => Paired.of_eq (present screen)

theorem Session.Congruence.eq {α : Type} : Session.Congruence (Eq (α := Session α)) := by
  constructor
  case step =>
    rintro s _ rfl e
    exact ⟨rfl, rfl⟩
  all_goals
    rintro s _ rfl
    intros
    rfl

namespace Play

/-- Plays with the same session, whose hosts are in related states. -/
structure InStep {σ τ α : Type} (R : σ → τ → Prop) (p : Play σ α) (q : Play τ α) : Prop where
  session : p.session = q.session
  host : R p.host q.host

namespace InStep

variable {σ τ α : Type} {R : σ → τ → Prop} {p : Play σ α} {q : Play τ α} {h : Host σ} {k : Host τ}

theorem related (s : InStep R p q) : Related Eq R p q := ⟨s.session, s.host⟩

theorem of_related (s : Related Eq R p q) : InStep R p q := ⟨s.session, s.host⟩

/-- The session is changed in the same way in both. -/
theorem modify (s : InStep R p q) (f : Session α → Session α) :
    InStep R { p with session := f p.session } { q with session := f q.session } :=
  ⟨congrArg f s.session, s.host⟩

theorem setTone (s : InStep R p q) (on : Bool) : InStep R (p.setTone on) (q.setTone on) :=
  of_related (s.related.setTone .eq on)

/-- A display is given the same screens in both. -/
theorem handOver (alike : h.Alike k R) (s : Related (α := α) Eq R p q) :
    Paired (Related Eq R) (p.handOver h) (q.handOver k) := by
  have shows := alike.present
  unfold Play.handOver
  revert shows
  generalize h.present = a
  generalize k.present = b
  rintro (related | _)
  · simp only [s.session]
    split
    · obtain ⟨answer, host⟩ := related q.session.machine.screen _ _ s.host
      exact ⟨answer, rfl, host⟩
    · exact ⟨rfl, s⟩
  · exact ⟨rfl, s⟩

/-! ## Whole calls -/

theorem simulation (alike : h.Alike k R) : Simulation (α := α) h k Eq R :=
  ⟨.eq, alike.poll, alike.entropy, handOver alike⟩

variable [Quantity α]

theorem perform (alike : h.Alike k R) (s : InStep R p q) (call : Call α) :
    Paired (InStep R) (p.perform h call) (q.perform k call) :=
  ((simulation alike).perform s.related call).imp_right of_related

theorem after (alike : h.Alike k R) (s : InStep R p q) (calls : List (Call α)) :
    InStep R (p.after h calls) (q.after k calls) :=
  of_related ((simulation alike).after s.related calls)

theorem runFrame (alike : h.Alike k R) (s : InStep R p q) :
    Paired (InStep R) (p.runFrame h) (q.runFrame k) := by
  unfold Play.runFrame
  rw [s.session]
  exact ((simulation alike).advance s.related _).imp_right of_related

theorem restart (s : InStep R p q) : InStep R p.restart q.restart :=
  (s.modify fun session => { session with
    processor := session.processor.forgetUnknowns
    clock := session.clock.reset
    status := .running
    executed := 0
    presented := 0 }).setTone false

theorem reset (s : InStep R p q) (program : List UInt8) :
    InStep R (p.reset program) (q.reset program) :=
  (s.modify fun session => session.modifyMachine fun _ => Machine.startWith program).restart

end InStep

end Play

end Chip8
