import Chip8.Proofs.Session.Tick

/-!
# The books of a session

Every part of a tick writes into the journal, but steps and lines of the log are booked where the
processor makes its step. A property is about the books if it looks at nothing else: at the steps
and the log, at the instructions counted, and at which of them are traced (`AboutBooks`). Such a
property is kept by every tick if booking a step keeps it (`AboutBooks.tick`).
-/

namespace Chip8

/-- A step, or a line of the log. -/
def Event.isBooked : Event → Bool
  | stepped _ | logged .. => true
  | _ => false

namespace Play

variable {σ α : Type} {p : Play σ α} {I : Play σ α → Prop}

/-- The journal and the count of instructions are the same. -/
structure SameBooks (p q : Play σ α) : Prop where
  journal : q.journal = p.journal
  executed : q.session.executed = p.session.executed
  traceEvery : q.session.traceEvery = p.session.traceEvery

/-- A property of the steps and the log of a play. -/
structure AboutBooks (I : Play σ α → Prop) : Prop where
  congr {p q : Play σ α} : I p → SameBooks p q → I q
  note {p : Play σ α} {e : Event} : e.isBooked = false → I p → I (p.note e)

namespace AboutBooks

variable (about : AboutBooks I)
include about

theorem setTone (hp : I p) (on : Bool) : I (p.setTone on) := by
  unfold Play.setTone
  split
  · exact hp
  · exact about.note rfl (about.congr hp ⟨rfl, rfl, rfl⟩)

theorem halt (hp : I p) (reason : HaltReason) : I (p.halt reason) := by
  unfold Play.halt
  refine about.setTone ?_ false
  exact about.congr hp ⟨rfl, rfl, rfl⟩

theorem pollInput (hp : I p) (h : Host σ) : I (p.pollInput h).2 := by
  unfold Play.pollInput
  split
  · exact hp
  · exact about.note rfl (about.congr hp ⟨rfl, rfl, rfl⟩)

theorem deliverKey (hp : I p) (keyDowns : List Number) : I (p.deliverKey keyDowns) := by
  unfold Play.deliverKey
  split
  · exact about.congr hp ⟨rfl, rfl, rfl⟩
  · exact hp

theorem handOver (hp : I p) (h : Host σ) : I (p.handOver h).2 := by
  unfold Play.handOver
  split
  · exact hp
  · split
    · exact about.note rfl (about.congr hp ⟨rfl, rfl, rfl⟩)
    · exact hp

theorem settle (hp : I p) (h : Host σ) : I (p.settle h) := by
  have handed := about.handOver hp h
  unfold Play.settle
  generalize p.handOver h = answer at handed ⊢
  obtain ⟨quits, q⟩ := answer
  dsimp only at handed ⊢
  split
  · exact about.halt handed _
  · exact about.setTone handed _

/-- Drawing a byte and making the step do not show in the books. -/
theorem executeStep (book : ∀ p result, I p → I ((p.note (.stepped result)).book result).2)
    (hp : I p) (h : Host σ) :
    I (p.executeStep h).2 := by
  rw [executeStep_eq]
  exact book _ _ (about.congr hp ⟨rfl, rfl, rfl⟩)

theorem tick (book : ∀ p result, I p → I ((p.note (.stepped result)).book result).2) (hp : I p)
    (h : Host σ) (t : Tick) :
    I (p.tick h t).2 := by
  refine tick_induction (I := I) (J := I) ?poll ?halt ?wait ?step ?key ?settle ?time t hp
  case poll => exact fun _ hp => about.pollInput hp h
  case halt => exact fun _ hp => about.halt hp _
  case wait => exact fun _ hp => hp
  case step =>
    exact fun _ hp _ => ⟨about.executeStep book hp h, fun _ => about.executeStep book hp h⟩
  case key => exact fun _ keyDowns hp => about.deliverKey hp keyDowns
  case settle => exact fun _ hp => about.settle hp h
  case time => exact fun _ hp => about.note rfl (about.congr hp ⟨rfl, rfl, rfl⟩)

end AboutBooks

end Play

end Chip8
