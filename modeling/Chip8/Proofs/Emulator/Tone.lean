import Chip8.Proofs.Emulator.Requests
import Chip8.Proofs.Session.Advance
import Chip8.Proofs.Session.Signals
import Chip8.Tone
import Mathlib.Data.List.Chain

/-!
# The tone over a run

`moments` are the plays after each tick of a run and after each reset. The tones that a run tells
are the changes of the condition under which there is a sound, as these moments show it (`Heard`).
So they alternate, the last one is the condition, and a bell rings once each time that the condition
comes on.
-/

namespace Chip8

/-- The changes of a condition over some moments. -/
def changes (was : Bool) : List Bool → List Bool
  | [] => []
  | now :: rest => edge was now ++ changes now rest

theorem changes_concat (was : Bool) (conditions : List Bool) (now : Bool) :
    changes was (conditions ++ [now]) = changes was conditions ++
      edge (conditions.getLastD was) now := by
  induction conditions generalizing was with
  | nil => exact List.append_nil _
  | cons first rest ih =>
    rw [List.cons_append, changes, changes, ih, List.append_assoc]
    congr 3
    cases rest <;> rfl

/-- Each change is away from what was before. -/
theorem isChain_changes (was : Bool) (conditions : List Bool) :
    (was :: changes was conditions).IsChain (· ≠ ·) := by
  induction conditions generalizing was with
  | nil => exact .singleton was
  | cons now rest ih =>
    by_cases same : now = was
    · subst same
      rw [changes, edge_self, List.nil_append]
      exact ih now
    · rw [changes, edge, if_neg same]
      exact .cons_cons (Ne.symm same) (ih now)

theorem getLastD_changes (was : Bool) (conditions : List Bool) :
    (changes was conditions).getLastD was = conditions.getLastD was := by
  induction conditions using List.reverseRecOn with
  | nil => rfl
  | append_singleton conditions now ih =>
    rw [changes_concat, List.getLastD_concat]
    by_cases same : now = conditions.getLastD was
    · rw [edge, if_pos same, List.append_nil, ih, same]
    · rw [edge, if_neg same, List.getLastD_concat]

namespace Bell

/-- How often the bell rings while it takes some signals. -/
def rings (b : Bell) : List Bool → Nat
  | [] => 0
  | on :: rest => (b.signal on).1.toNat + (b.signal on).2.rings rest

/-- The bell rings once each time that a condition comes on whose changes it is told. -/
theorem rings_changes (was : Bool) (conditions : List Bool) :
    (Bell.mk was).rings (changes was conditions) =
      ((was :: conditions).zip conditions).count (false, true) := by
  induction conditions generalizing was with
  | nil => rfl
  | cons now rest ih =>
    have later := ih now
    cases was <;> cases now <;> simp [changes, edge, rings, signal, later, Nat.add_comm]

end Bell

namespace Play

variable {σ α : Type} {h : Host σ} {p q : Play σ α} {moments : List (Play σ α)}

/-- The conditions for a sound, as some moments show them. -/
def conditions (moments : List (Play σ α)) : List Bool := moments.map (·.session.sounds)

/-- What was told up to a play are the changes that the moments before it show. -/
structure Heard (moments : List (Play σ α)) (p : Play σ α) : Prop where
  tones : p.tones = changes false (conditions moments)
  toneOn : p.session.toneOn = (conditions moments).getLastD false
  inTune : p.InTune
  last : ∀ q ∈ moments, q.tones.getLastD false = q.session.sounds

/-- One more moment, at which the tone was told if it had changed. -/
theorem Heard.next (heard : Heard moments p)
    (told : q.tones = p.tones ++ edge p.session.toneOn q.session.toneOn) (inTune : q.InTune) :
    Heard (moments ++ [q]) q := by
  have more : conditions (moments ++ [q]) = conditions moments ++ [q.session.sounds] :=
    List.map_append
  have tones : q.tones = changes false (conditions (moments ++ [q])) := by
    rw [more, changes_concat, ← heard.tones, ← heard.toneOn, ← inTune, told]
  have last : (conditions (moments ++ [q])).getLastD false = q.session.sounds := by
    rw [more, List.getLastD_concat]
  refine ⟨tones, inTune.trans last.symm, inTune, ?_⟩
  intro r member
  rcases List.mem_append.1 member with before | now
  · exact heard.last r before
  · rw [List.mem_singleton.1 now, tones, getLastD_changes, last]

theorem Heard.setClock (heard : Heard moments p) (clock : Clock α) :
    Heard moments { p with session := { p.session with clock } } :=
  ⟨heard.tones, heard.toneOn, heard.inTune, heard.last⟩

theorem Heard.tick (heard : Heard moments p) (t : Tick) :
    Heard (moments ++ [(p.tick h t).2]) (p.tick h t).2 :=
  heard.next (tones_tick h p t) (heard.inTune.tick h t)

theorem Heard.afterTicks (heard : Heard moments p) (ticks : List Tick) :
    Heard (moments ++ p.along h ticks) (p.afterTicks h ticks) := by
  induction ticks generalizing p moments with
  | nil =>
    rw [along, List.append_nil]
    exact heard
  | cons t ticks ih =>
    rw [along, ← List.singleton_append, ← List.append_assoc]
    exact ih (heard.tick t)

variable [Quantity α]

theorem Heard.advance (heard : Heard moments p) (ms : α) :
    Heard (moments ++ p.along h (p.ticksWithin h ms)) (p.advance h ms).2 := by
  rw [(advance_eq_afterTicks p ms).1]
  exact (heard.afterTicks _).setClock _

theorem Heard.reset (heard : Heard moments p) (program : List UInt8) :
    Heard (moments ++ [p.reset program]) (p.reset program) := by
  refine heard.next (tones_append_turn [] rfl (turned_setTone _ false)) ?_
  rw [InTune, Play.reset, restart, toneOn_setTone, sounds_setTone]
  rfl

end Play

namespace Emulator

variable {σ α : Type} [Quantity α] {h : Host σ}

/-- The plays after each tick that a request brings about, and after a reset. -/
def momentsOf (h : Host σ) (e : Emulator σ α) : Request α → List (Play σ α)
  | .call (.tick t) => [(e.play.tick h t).2]
  | .call (.advance ms) => e.play.along h (e.play.ticksWithin h ms)
  | .frame => e.play.along h (e.play.ticksWithin h e.play.session.clock.timerPeriod)
  | .restart => [e.play.restart]
  | .reset => [e.reset.play]

def moments (h : Host σ) : Emulator σ α → List (Request α) → List (Play σ α)
  | _, [] => []
  | e, request :: requests => momentsOf h e request ++ moments h (e.perform h request) requests

theorem heard_perform {moments : List (Play σ α)} {e : Emulator σ α}
    (heard : Play.Heard moments e.play) {request : Request α} (resets : request ≠ .restart) :
    Play.Heard (moments ++ e.momentsOf h request) (e.perform h request).play := by
  cases request with
  | call call =>
    cases call with
    | tick t => exact heard.tick t
    | advance ms => exact heard.advance ms
  | frame => exact heard.advance _
  | restart => exact absurd rfl resets
  | reset => exact heard.reset e.program

theorem heard_after {moments : List (Play σ α)} {e : Emulator σ α}
    (heard : Play.Heard moments e.play) (requests : List (Request α))
    (resets : ∀ request ∈ requests, request ≠ .restart) :
    Play.Heard (moments ++ e.moments h requests) (e.after h requests).play := by
  induction requests generalizing moments e with
  | nil =>
    rw [Emulator.moments, List.append_nil]
    exact heard
  | cons request requests ih =>
    obtain ⟨first, rest⟩ := List.forall_mem_cons.1 resets
    rw [Emulator.moments, ← List.append_assoc]
    exact ih (heard_perform heard first) rest

theorem heard_ofProgram? {bytes : List UInt8} {settings : Settings α} {host : σ} {e : Emulator σ α}
    (built : ofProgram? bytes settings host = .ok e) : Play.Heard [] e.play := by
  obtain ⟨s, set, rfl⟩ := ofProgram?_eq_ok_iff.1 built
  obtain ⟨-, clock, -, rfl⟩ := Session.ofProgram?_eq_ok_iff.1 set
  exact ⟨rfl, rfl, rfl, fun q member => absurd member List.not_mem_nil⟩

/-- The tones of a run with any resets alternate, beginning with an on. After each tick the last of
them says whether there is a sound, and a bell has rung once each time that a sound set in. -/
theorem tones_after {bytes : List UInt8} {settings : Settings α} {host : σ} {e : Emulator σ α}
    (built : ofProgram? bytes settings host = .ok e) (h : Host σ) (requests : List (Request α))
    (resets : ∀ request ∈ requests, request ≠ .restart) :
    let tones := (e.after h requests).play.tones
    let moments := e.moments h requests
    let sounds := moments.map fun q => decide (0 < q.session.machine.st) && !q.session.isHalted
    tones.IsChain (· ≠ ·) ∧ (∀ first ∈ tones.head?, first = true) ∧
    (∀ q ∈ moments, q.tones.getLastD false =
      (decide (0 < q.session.machine.st) && !q.session.isHalted)) ∧
    Bell.silent.rings tones = ((false :: sounds).zip sounds).count (false, true) := by
  intro tones moments sounds
  obtain ⟨told, -, -, last⟩ := heard_after (h := h) (heard_ofProgram? built) requests resets
  rw [List.nil_append] at told last
  have told : tones = changes false sounds := told
  have chain := isChain_changes false sounds
  rw [← told] at chain
  refine ⟨chain.tail, ?_, last, ?_⟩
  · intro first head
    obtain ⟨rest, split⟩ := List.head?_eq_some_iff.1 head
    rw [split] at chain
    exact Bool.ne_false_iff.1 chain.rel.symm
  · rw [told]
    exact Bell.rings_changes false sounds

/-- The sound sets in twice, with a reset in between. -/
theorem tones_after_reset :
    let settings : Settings Rat := ⟨600, 60, .standard, 0, .throw⟩
    let h : Host Unit := ⟨none, none, fun u => (0, u)⟩
    let requests : List (Request Rat) :=
      [.call (.tick .instruction), .call (.tick .instruction), .reset, .frame]
    (∀ request ∈ requests, request ≠ .restart) ∧
    ∃ e, ofProgram? [0x60, 0x05, 0xF0, 0x18, 0x12, 0x04] settings () = .ok e ∧
      let tones := (e.after h requests).play.tones
      tones = [true, false, true] ∧ tones.IsChain (· ≠ ·) ∧ Bell.silent.rings tones = 2 ∧
      (e.moments h requests).length = 14 ∧
      ∀ q ∈ e.moments h requests,
        q.tones.getLastD false = (decide (0 < q.session.machine.st) && !q.session.isHalted) := by
  intro settings h requests
  have resets : ∀ request ∈ requests, request ≠ .restart := by
    intro request member same
    subst same
    simp [requests] at member
  obtain ⟨e, built⟩ : ∃ e, ofProgram? [0x60, 0x05, 0xF0, 0x18, 0x12, 0x04] settings () = .ok e :=
    ⟨_, ofProgram?_eq_ok_iff.2 ⟨_, Session.ofProgram?_eq_ok_iff.2 ⟨by decide, _, rfl, rfl⟩, rfl⟩⟩
  refine ⟨resets, e, built, ?_⟩
  obtain ⟨alternate, -, last, -⟩ := tones_after built h requests resets
  have told : (e.after h requests).play.tones = [true, false, true] ∧
      (e.moments h requests).length = 14 := by
    cases built
    decide +kernel
  have rung : Bell.silent.rings (e.after h requests).play.tones = 2 := by
    rw [told.1]
    rfl
  exact ⟨told.1, alternate, rung, told.2, last⟩

end Emulator

end Chip8
