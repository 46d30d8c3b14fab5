import Chip8.Proofs.Session.Account
import Chip8.Proofs.Session.Alike

/-!
# Watched hosts

A watched host answers as the host does that it is made of, and keeps what it was asked together
with its answers. So what a session asks of its input and of its display is read off the state of
the host, and does not rest on what the session notes about it.
-/

namespace Chip8

/-- A question to a host, with the answer. -/
inductive Asked
  | poll (answer : Poll)
  | frame (screen : Screen) (quits : Bool)

namespace Asked

/-- The host asked to quit. -/
def quits : Asked → Bool
  | poll answer => answer.quit
  | frame _ quits => quits

def poll? : Asked → Option Poll
  | poll answer => some answer
  | _ => none

def frame? : Asked → Option (Screen × Bool)
  | frame screen quits => some (screen, quits)
  | _ => none

end Asked

def pollsOf (asked : List Asked) : List Poll := asked.filterMap Asked.poll?

/-- The frames that a display was given, each with its answer. -/
def framesOf (asked : List Asked) : List (Screen × Bool) := asked.filterMap Asked.frame?

@[simp] theorem pollsOf_append (asked rest : List Asked) :
    pollsOf (asked ++ rest) = pollsOf asked ++ pollsOf rest := List.filterMap_append

@[simp] theorem framesOf_append (asked rest : List Asked) :
    framesOf (asked ++ rest) = framesOf asked ++ framesOf rest := List.filterMap_append

namespace Host

variable {σ : Type} (h : Host σ)

def watched : Host (σ × List Asked) where
  poll := h.poll.map fun ask s => ((ask s.1).1, (ask s.1).2, s.2 ++ [.poll (ask s.1).1])
  present := h.present.map fun present screen s =>
    ((present screen s.1).1, (present screen s.1).2, s.2 ++ [.frame screen (present screen s.1).1])
  entropy s := ((h.entropy s.1).1, (h.entropy s.1).2, s.2)

/-- To be watched makes no difference to the answers. -/
theorem alike_watched : h.Alike h.watched fun s t => s = t.1 := by
  refine ⟨?_, ?_, ?_⟩
  · unfold watched
    cases h.poll with
    | none => exact .none
    | some ask =>
      refine .some ?_
      rintro _ t rfl
      exact ⟨rfl, rfl⟩
  · unfold watched
    cases h.present with
    | none => exact .none
    | some present =>
      refine .some ?_
      rintro screen _ t rfl
      exact ⟨rfl, rfl⟩
  · rintro _ t rfl
    exact ⟨rfl, rfl⟩

end Host

/-- To be watched changes nothing for the session. -/
theorem Play.session_after_watched {σ α : Type} [Quantity α] (s : Session α) (h : Host σ) (host : σ)
    (calls : List (Call α)) :
    ((Play.new s (host, [])).after h.watched calls).session =
      ((Play.new s host).after h calls).session := by
  have inStep : InStep (fun s t => s = t.1) (Play.new s host)
    (Play.new s (host, ([] : List Asked))) := ⟨rfl, rfl⟩
  exact (inStep.after h.alike_watched calls).session.symm

/-! ## What is asked in a tick -/

namespace Account

variable {σ : Type} {h : Host σ} {c c' : Account (σ × List Asked)} {poll : Option Poll}

theorem asked_of_polled (polled : Polled h.watched c poll c') :
    c'.host.2 = c.host.2 ++ (poll.map Asked.poll).toList := by
  cases polled with
  | silent => exact (List.append_nil _).symm
  | asked asks =>
    obtain ⟨ask, -, rfl⟩ := Option.map_eq_some_iff.1 asks
    rfl

theorem asked_stepped (h : Host σ) (c : Account (σ × List Asked)) :
    (c.stepped (c.drawByte h.watched)).host.2 = c.host.2 := by
  have byte : (c.drawByte h.watched).2.2 = c.host.2 := by
    unfold drawByte
    split <;> rfl
  exact byte

theorem host_delivered {σ : Type} (c : Account σ) (key : Option Key) :
    (c.delivered key).host = c.host := by
  obtain ⟨v, pc, status, delivered⟩ := c.exists_delivered key
  rw [delivered]
  rfl

theorem pollsOf_of_polled (polled : Polled h.watched c poll c') :
    pollsOf c'.host.2 = pollsOf c.host.2 ++ poll.toList := by
  rw [asked_of_polled polled, pollsOf_append]
  cases poll <;> rfl

theorem framesOf_of_polled (polled : Polled h.watched c poll c') :
    framesOf c'.host.2 = framesOf c.host.2 := by
  rw [asked_of_polled polled, framesOf_append]
  cases poll <;> exact List.append_nil _

theorem pollsOf_of_settled (settled : Settled h.watched c c') :
    pollsOf c'.host.2 = pollsOf c.host.2 := by
  cases settled with
  | idle => rfl
  | shown displays =>
    obtain ⟨present, -, rfl⟩ := Option.map_eq_some_iff.1 displays
    exact (pollsOf_append _ _).trans (List.append_nil _)

/-- The input is polled once in each instruction tick that finds the session going, and in no other
tick. -/
theorem Ticked.polls_cases {t : Tick} (ticked : c.Ticked h.watched t c') :
    (t = .timer ∨ ¬ c.Alive) ∧ pollsOf c'.host.2 = pollsOf c.host.2 ∨
      t = .instruction ∧ c.Alive ∧ ∃ poll c₁, Polled h.watched c poll c₁ ∧
        pollsOf c'.host.2 = pollsOf c.host.2 ++ poll.toList ∧
        (poll.any (·.quit) = true → c'.steps = c.steps ∧ c'.status = .halted .userQuit) := by
  cases ticked with
  | stopped halted => exact .inl ⟨.inr halted, rfl⟩
  | timer alive settled =>
    have same : pollsOf c'.host.2 = pollsOf (c.modifyMachine Machine.tickTimers).host.2 :=
      pollsOf_of_settled settled
    exact .inl ⟨.inl rfl, same⟩
  | @quit poll c₁ alive polled quits =>
    have polls := pollsOf_of_polled polled
    have steps := polled.steps_eq
    exact .inr ⟨rfl, alive, poll, c₁, polled, polls, fun _ => ⟨steps, rfl⟩⟩
  | @waited poll c₁ _ x key waits polled stays settled =>
    refine .inr ⟨rfl, alive_of_waiting waits, poll, c₁, polled, ?_, fun quits => absurd quits stays⟩
    rw [pollsOf_of_settled settled, host_delivered, pollsOf_of_polled polled]
  | @stepped poll c₁ _ key running polled stays settled =>
    refine .inr ⟨rfl, alive_of_running running, poll, c₁, polled, ?_,
      fun quits => absurd quits stays⟩
    rw [pollsOf_of_settled settled, host_delivered, asked_stepped, pollsOf_of_polled polled]
  | @cut poll c₁ running polled stays =>
    refine .inr ⟨rfl, alive_of_running running, poll, c₁, polled, ?_,
      fun quits => absurd quits stays⟩
    rw [asked_stepped, pollsOf_of_polled polled]

end Account

end Chip8
