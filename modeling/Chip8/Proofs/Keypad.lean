import Chip8.Proofs.Distinct
import Chip8.Proofs.Number
import Mathlib.Tactic.Linarith

/-!
# Following the script

What a poll of a scripted keypad reports is a matter of the script alone. A key is down when the
last press of it, among those that have come, has not run out, and it is reported to go down when it
is pressed and the press before has run out (`poll_follows_script`). A press counts over those
before it even if it ends sooner. `Follows` is what a poll keeps: the releases that are noted and
not yet due are those of the last presses. The end of a press is a sum of numbers, and exact where
it can be counted (`Press.releaseTime_eq_ofNat`).
-/

namespace Chip8

/-! ## Presses -/

namespace Press

/-- The event that asks for a press. -/
def event (p : Press) : KeyEvent := ⟨p.tick, .ofNat p.key, p.hold⟩

theorem press?_event (p : Press) : p.event.press? = .ok p := by
  rw [KeyEvent.press?, event, Number.key?_eq_some_iff.2 rfl]

variable {p : Press} {t : Nat}

theorem releaseTime_cases (start : p.tick = .ofNat t) (known : p.hold ≠ some .nan) :
    (∃ q : Rat, 1 ≤ q ∧ p.releaseTime = .finite (roundSignificant (t + q))) ∨
      p.releaseTime = .infinite false := by
  have hold : p.hold.getD (.ofNat 1) ≠ .nan := by
    cases held : p.hold with
    | none => exact nofun
    | some n => exact fun nan => known (by rw [held, ← nan, Option.getD_some])
  rw [releaseTime, start]
  rcases Number.one_max_cases hold with ⟨q, one, most⟩ | most
  · exact .inl ⟨q, one, by rw [most]; rfl⟩
  · exact .inr (by rw [most]; rfl)

theorem releaseTime_ne_nan (start : p.tick = .ofNat t) (known : p.hold ≠ some .nan) :
    p.releaseTime ≠ .nan := by
  rcases releaseTime_cases start known with ⟨q, -, ends⟩ | ends <;> rw [ends] <;> exact nofun

/-- A press lasts beyond its own poll. Past the limit the sum can be rounded to the tick. -/
theorem lt_releaseTime (start : p.tick = .ofNat t) (known : p.hold ≠ some .nan)
    (exact : t < Counter.exactLimit) :
    (Number.ofNat t).lt p.releaseTime = true := by
  rcases releaseTime_cases start known with ⟨q, one, ends⟩ | ends
  · rw [ends]
    refine decide_eq_true ?_
    have next : ((t + 1 : Nat) : Rat) ≤ roundSignificant (t + q) := by
      refine natCast_le_roundSignificant (Nat.succ_pos t) exact ?_
      push_cast
      linarith
    push_cast at next
    linarith
  · rw [ends]
    rfl

/-- The sum is exact where it is a whole number that can be counted. -/
theorem releaseTime_eq_ofNat {hold : Nat} (start : p.tick = .ofNat t)
    (held : p.hold.getD (.ofNat 1) = .ofNat hold) (exact : t + max 1 hold ≤ Counter.exactLimit) :
    p.releaseTime = .ofNat (t + max 1 hold) := by
  have sum : (t : Rat) + (max 1 hold : Nat) = (t + max 1 hold : Nat) := by push_cast; rfl
  rw [releaseTime, start, held, Number.max_ofNat]
  change Number.finite (roundSignificant ((t : Rat) + (max 1 hold : Nat))) = _
  rw [sum, roundSignificant_natCast exact]
  rfl

end Press

/-- A press of a key that no other press at the same poll follows in the script. -/
def Final (script : List Press) (key : Key) (p : Press) : Prop :=
  ∃ earlier later, script = earlier ++ p :: later ∧ ∀ q ∈ later, q.key = key → q.tick ≠ p.tick

/-- The press of a key that counts at a poll, out of those before it: the one with the greatest
tick, and of several such the last in the script. -/
structure LastBefore (script : List Press) (key : Key) (t : Nat) (p : Press) : Prop where
  key_eq : p.key = key
  before : p.tick.lt (.ofNat t) = true
  greatest : ∀ q ∈ script, q.key = key → q.tick.lt (.ofNat t) = true → q.tick.le p.tick = true
  final : Final script key p

/-- The last press of a key at a poll. -/
def lastAt (script : List Press) (key : Key) (t : Nat) : Option Press :=
  (script.filter (·.tick = .ofNat t)).reverse.find? (·.key = key)

/-- The ticks of a script number its polls. -/
def Numbered (script : List Press) : Prop := ∀ p ∈ script, ∃ n : Nat, p.tick = .ofNat n

section Script

variable {script : List Press} {key : Key} {t : Nat} {p : Press}

theorem Final.mem (final : Final script key p) : p ∈ script := by
  obtain ⟨earlier, later, split, -⟩ := final
  simp [split]

theorem lastAt_eq_none_iff :
    lastAt script key t = none ↔ ∀ q ∈ script, q.key = key → q.tick ≠ .ofNat t := by
  simp only [lastAt, List.find?_eq_none, List.mem_reverse, List.mem_filter, decide_eq_true_eq]
  grind

theorem lastAt_eq_some_iff :
    lastAt script key t = some p ↔ p.key = key ∧ p.tick = .ofNat t ∧ Final script key p := by
  rw [lastAt, ← List.filter_reverse, List.find?_filter, List.find?_eq_some_iff_append]
  simp only [decide_eq_true_eq, Bool.not_eq_true', decide_eq_false_iff_not]
  constructor
  · rintro ⟨⟨tick, key⟩, later, earlier, split, none⟩
    refine ⟨key, tick, earlier.reverse, later.reverse, ?_, fun q member same now => ?_⟩
    · rw [List.reverse_eq_iff] at split
      simp [split]
    · exact none q (List.mem_reverse.1 member) ⟨now.trans tick, same⟩
  · rintro ⟨key, tick, earlier, later, rfl, none⟩
    refine ⟨⟨tick, key⟩, later.reverse, earlier.reverse, by simp, fun q member now => ?_⟩
    exact none q (List.mem_reverse.1 member) now.2 (now.1.trans tick.symm)

theorem Numbered.lt_succ_iff (numbered : Numbered script) (member : p ∈ script) :
    p.tick.lt (.ofNat (t + 1)) = true ↔ p.tick = .ofNat t ∨ p.tick.lt (.ofNat t) = true := by
  obtain ⟨n, tick⟩ := numbered p member
  simp only [tick, Number.ofNat_lt_ofNat, Number.ofNat_inj, decide_eq_true_eq]
  omega

/-- A press at a poll comes after all that were before. -/
theorem lastBefore_succ_iff (numbered : Numbered script) :
    LastBefore script key (t + 1) p ↔
      lastAt script key t = some p ∨ lastAt script key t = none ∧ LastBefore script key t p := by
  rw [lastAt_eq_some_iff, lastAt_eq_none_iff]
  constructor
  · intro ⟨key_eq, soon, greatest, final⟩
    rcases (numbered.lt_succ_iff final.mem).1 soon with now | before
    · exact .inl ⟨key_eq, now, final⟩
    · refine .inr ⟨fun q member same now => ?_, key_eq, before, fun q member same lt => ?_, final⟩
      · have le := greatest q member same ((numbered.lt_succ_iff member).2 (.inl now))
        obtain ⟨n, tick⟩ := numbered p final.mem
        simp only [now, tick, Number.ofNat_le_ofNat, Number.ofNat_lt_ofNat, decide_eq_true_eq]
          at le before
        omega
      · exact greatest q member same ((numbered.lt_succ_iff member).2 (.inr lt))
  · rintro (⟨key_eq, now, final⟩ | ⟨none, key_eq, before, greatest, final⟩)
    · refine ⟨key_eq, (numbered.lt_succ_iff final.mem).2 (.inl now), fun q member same soon => ?_,
        final⟩
      obtain ⟨n, tick⟩ := numbered q member
      simp only [now, tick, Number.ofNat_le_ofNat, Number.ofNat_lt_ofNat, decide_eq_true_eq]
        at soon ⊢
      omega
    · refine ⟨key_eq, (numbered.lt_succ_iff final.mem).2 (.inr before),
        fun q member same soon => ?_, final⟩
      exact greatest q member same
        (((numbered.lt_succ_iff member).1 soon).resolve_left (none q member same))

end Script

/-! ## Keys one by one -/

theorem get_eq_getElem {α : Type} {n : Nat} (v : Vector α n) (i : Fin n) :
    v.get i = getElem v i.val i.isLt := rfl

/-- Is a key down when a keypad is polled? -/
def Poll.isDown (p : Poll) (key : Key) : Bool := p.keys.get key

namespace Keypad

variable {k : Keypad} {p : Press} {ps : List Press} {key : Key}

def isDown (k : Keypad) (key : Key) : Bool := k.pressed.get key

/-- When a key goes up that went down by the script. -/
def upAt? (k : Keypad) (key : Key) : Option Number := k.releases.get key

/-! ## The presses of a poll -/

@[simp] theorem upAt?_apply :
    (k.apply p).upAt? key = if p.key = key then some p.releaseTime else k.upAt? key := by
  simp [upAt?, get_eq_getElem, apply, Vector.getElem_set, Fin.ext_iff]

@[simp] theorem isDown_apply : (k.apply p).isDown key = (k.isDown key || p.key = key) := by
  simp [isDown, get_eq_getElem, apply, press, Vector.getElem_set, Fin.ext_iff, Bool.or_comm]

@[simp] theorem pendingDowns_apply :
    (k.apply p).pendingDowns = if k.isDown p.key then k.pendingDowns
      else k.pendingDowns ++ [p.key] := rfl

theorem upAt?_foldl_apply : (ps.foldl apply k).upAt? key =
    ((ps.reverse.find? (·.key = key)).map (·.releaseTime)).or (k.upAt? key) := by
  induction ps using List.reverseRecOn with
  | nil => rfl
  | append_singleton ps p ih =>
    rw [List.foldl_append, List.reverse_append, List.reverse_singleton, List.singleton_append,
      List.find?_cons, List.foldl_cons, List.foldl_nil, upAt?_apply]
    by_cases same : p.key = key
    · simp [same]
    · simp [same, ih]

theorem isDown_foldl_apply :
    (ps.foldl apply k).isDown key = (k.isDown key || ps.any (·.key = key)) := by
  induction ps generalizing k with
  | nil => rw [List.any_nil, Bool.or_false, List.foldl_nil]
  | cons p ps ih => rw [List.foldl_cons, ih, isDown_apply, List.any_cons, Bool.or_assoc]

theorem pendingDowns_foldl_apply :
    (ps.foldl apply k).pendingDowns =
      k.pendingDowns ++ (ps.map (·.key)).eraseDups.filter fun key => !k.isDown key := by
  induction ps using List.reverseRecOn with
  | nil => exact (List.append_nil _).symm
  | append_singleton ps p ih =>
    rw [List.foldl_append, List.foldl_cons, List.foldl_nil, pendingDowns_apply, isDown_foldl_apply,
      ih, List.map_append, List.map_cons, List.map_nil]
    by_cases old : p.key ∈ ps.map (·.key)
    · rw [eraseDups_concat_of_mem old, if_pos]
      simp_all
    · rw [eraseDups_concat_of_not_mem old, List.filter_append, List.filter_singleton,
        ← List.append_assoc]
      have none : ps.any (·.key = p.key) = false := by simp_all
      rw [none, Bool.or_false]
      cases k.isDown p.key <;> simp

/-! ## Polls -/

/-- A keypad with a script at its start. -/
def start (script : List Press) (quitAfter : Number) : Keypad where
  script
  quitAfter
  pressed := Vector.replicate 16 false
  releases := Vector.replicate 16 none
  pendingDowns := []
  polls := 0
  quitRequested := false

@[simp] theorem isDown_start (script : List Press) (quitAfter : Number) :
    (start script quitAfter).isDown key = false := by
  simp [isDown, get_eq_getElem, start]

@[simp] theorem upAt?_start (script : List Press) (quitAfter : Number) :
    (start script quitAfter).upAt? key = none := by
  simp [upAt?, get_eq_getElem, start]

theorem create?_events (script : List Press) (quitAfter : Number) :
    create? (script.map Press.event) quitAfter = .ok (start script quitAfter) := by
  have presses : (script.map Press.event).mapM KeyEvent.press? = .ok script := by
    induction script with
    | nil => rfl
    | cons p script ih =>
      rw [List.map_cons, List.mapM_cons, Press.press?_event, ih]
      rfl
  rw [create?, presses]
  rfl

/-- The keypad after so many polls. -/
def polled (k : Keypad) : Nat → Keypad
  | 0 => k
  | t + 1 => (k.polled t).poll.2

/-- The keypad at a poll, before the presses of that poll. -/
def released (k : Keypad) (t : Nat) : Keypad := { k.releaseDue t with polls := t + 1 }

@[simp] theorem script_released (k : Keypad) (t : Nat) : (k.released t).script = k.script := by
  simp only [released, releaseDue]

@[simp] theorem polls_released (k : Keypad) (t : Nat) : (k.released t).polls = t + 1 := rfl

@[simp] theorem pendingDowns_released (k : Keypad) (t : Nat) :
    (k.released t).pendingDowns = k.pendingDowns := by
  simp only [released, releaseDue]

theorem isDown_released {t : Nat} :
    (k.released t).isDown key = (k.isDown key && !isDue t (k.upAt? key)) := by
  simp [isDown, upAt?, get_eq_getElem, released, releaseDue]

theorem upAt?_released {t : Nat} :
    (k.released t).upAt? key = if isDue t (k.upAt? key) then none else k.upAt? key := by
  rw [upAt?, released, releaseDue, get_eq_getElem]
  exact Vector.getElem_map _ key.isLt

/-- The keypad as a poll reports it. -/
def shown (k : Keypad) : Keypad :=
  ((k.released k.polls).pressesAt k.polls).foldl apply (k.released k.polls)

theorem poll_eq (k : Keypad) : k.poll =
    (⟨k.shown.pressed, k.shown.pendingDowns.map fun (key : Key) => .ofNat key.val,
      k.shown.quitRequested || k.shown.quitAfter.lt (.ofNat k.shown.polls)⟩,
        { k.shown with pendingDowns := [] }) := by
  unfold poll shown released
  rfl

theorem isDown_poll : k.poll.1.isDown key = k.shown.isDown key := by
  rw [poll_eq]
  rfl

theorem foldl_apply_keeps (ps : List Press) (k : Keypad) :
    (ps.foldl apply k).script = k.script ∧ (ps.foldl apply k).polls = k.polls := by
  induction ps generalizing k with
  | nil => exact ⟨rfl, rfl⟩
  | cons p ps ih => exact ih (k.apply p)

/-- What the script comes to in a keypad after so many polls. -/
structure Follows (script : List Press) (t : Nat) (k : Keypad) : Prop where
  script_eq : k.script = script
  polls_eq : k.polls = t
  reported : k.pendingDowns = []
  pressed (key : Key) : k.isDown key = (k.upAt? key).isSome
  releases (key : Key) (time : Number) : ¬ time.le (.ofNat t) = true →
    (k.upAt? key = some time ↔ ∃ p, LastBefore script key t p ∧ p.releaseTime = time)

theorem follows_start {script : List Press} (numbered : Numbered script) (quitAfter : Number) :
    Follows script 0 (start script quitAfter) where
  script_eq := rfl
  polls_eq := rfl
  reported := rfl
  pressed key := by simp
  releases key time _ := by
    refine iff_of_false (by simp) ?_
    rintro ⟨p, last, -⟩
    obtain ⟨n, tick⟩ := numbered p last.final.mem
    simpa [tick] using last.before

theorem upAt?_released_iff {t : Nat} {time : Number} :
    (k.released t).upAt? key = some time ↔ k.upAt? key = some time ∧
    ¬ time.le (.ofNat t) = true := by
  rw [upAt?_released]
  cases k.upAt? key with
  | none => simp
  | some due =>
    cases early : due.le (.ofNat t) <;> simp [isDue, early] <;> rintro rfl <;> exact early

namespace Follows

variable {script : List Press} {t : Nat} {time : Number} (follows : Follows script t k)

include follows

theorem upAt?_released_iff :
    (k.released t).upAt? key = some time ↔
      ∃ p, LastBefore script key t p ∧ p.releaseTime = time ∧ ¬ time.le (.ofNat t) = true := by
  rw [Keypad.upAt?_released_iff]
  constructor
  · rintro ⟨noted, later⟩
    obtain ⟨p, last, ends⟩ := (follows.releases key time later).1 noted
    exact ⟨p, last, ends, later⟩
  · rintro ⟨p, last, ends, later⟩
    exact ⟨(follows.releases key time later).2 ⟨p, last, ends⟩, later⟩

theorem isDown_released : (k.released t).isDown key = ((k.released t).upAt? key).isSome := by
  rw [Keypad.isDown_released, upAt?_released, follows.pressed key]
  cases k.upAt? key with
  | none => rfl
  | some due => cases isDue t (some due) <;> rfl

/-- A key that is held through a poll. -/
theorem isDown_released_iff :
    (k.released t).isDown key = true ↔
      ∃ p, LastBefore script key t p ∧ ¬ p.releaseTime.le (.ofNat t) = true := by
  rw [follows.isDown_released, Option.isSome_iff_exists]
  simp only [follows.upAt?_released_iff]
  rw [exists_comm]
  simp only [exists_and_left, exists_eq_left']

theorem shown_eq :
    k.shown = (script.filter (·.tick = .ofNat t)).foldl apply (k.released t) := by
  rw [shown, pressesAt, follows.polls_eq, script_released, follows.script_eq]

theorem upAt?_shown_eq :
    k.shown.upAt? key =
      ((lastAt script key t).map (·.releaseTime)).or ((k.released t).upAt? key) := by
  rw [follows.shown_eq, upAt?_foldl_apply, lastAt]

theorem isDown_shown : k.shown.isDown key = (k.shown.upAt? key).isSome := by
  rw [follows.upAt?_shown_eq, follows.shown_eq, isDown_foldl_apply, Option.isSome_or,
    Option.isSome_map, ← follows.isDown_released, lastAt, Bool.or_comm, ← List.any_reverse,
    List.isSome_find?]

/-- A press holds at its own poll, and at a later one if it has not run out. -/
theorem upAt?_shown (numbered : Numbered script) :
    k.shown.upAt? key = some time ↔ ∃ p, LastBefore script key (t + 1) p ∧ p.releaseTime = time ∧
      (p.tick = .ofNat t ∨ ¬ time.le (.ofNat t) = true) := by
  rw [follows.upAt?_shown_eq, Option.or_eq_some_iff, follows.upAt?_released_iff,
    Option.map_eq_some_iff, Option.map_eq_none_iff]
  simp only [lastBefore_succ_iff numbered]
  constructor
  · rintro (⟨p, now, ends⟩ | ⟨none, p, last, ends, later⟩)
    · exact ⟨p, .inl now, ends, .inl (lastAt_eq_some_iff.1 now).2.1⟩
    · exact ⟨p, .inr ⟨none, last⟩, ends, .inr later⟩
  · rintro ⟨p, now | ⟨none, last⟩, ends, holds⟩
    · exact .inl ⟨p, now, ends⟩
    · exact .inr ⟨none, p, last, ends,
        holds.resolve_left (lastAt_eq_none_iff.1 none p last.final.mem last.key_eq)⟩

theorem isDown_poll_iff (numbered : Numbered script) :
    k.poll.1.isDown key = true ↔ ∃ p, LastBefore script key (t + 1) p ∧
      (p.tick = .ofNat t ∨ ¬ p.releaseTime.le (.ofNat t) = true) := by
  rw [isDown_poll, follows.isDown_shown, Option.isSome_iff_exists]
  simp only [follows.upAt?_shown numbered]
  rw [exists_comm]
  simp only [exists_and_left, exists_eq_left']

theorem pendingDowns_shown :
    k.shown.pendingDowns = ((script.filter (·.tick = .ofNat t)).map (·.key)).eraseDups.filter
      fun key => !(k.released t).isDown key := by
  rw [follows.shown_eq, pendingDowns_foldl_apply, pendingDowns_released, follows.reported,
    List.nil_append]

/-- The keys that go down are those that are pressed at the poll and not held through it. -/
theorem keyDowns_poll :
    ∃ downs : List Key, k.poll.1.keyDowns = downs.map (fun key => .ofNat key.val) ∧ downs.Nodup ∧
    downs.Sublist ((script.filter (·.tick = .ofNat t)).map (·.key)).eraseDups ∧
    ∀ key, key ∈ downs ↔ (∃ p ∈ script, p.key = key ∧ p.tick = .ofNat t) ∧
      ∀ p, LastBefore script key t p → p.releaseTime.le (.ofNat t) = true := by
  refine ⟨k.shown.pendingDowns, by rw [poll_eq], ?_, ?_, fun key => ?_⟩
  · rw [follows.pendingDowns_shown]
    exact nodup_eraseDups.filter _
  · rw [follows.pendingDowns_shown]
    exact List.filter_sublist
  · rw [follows.pendingDowns_shown, List.mem_filter, List.mem_eraseDups, List.mem_map,
      Bool.not_eq_true', ← Bool.not_eq_true, follows.isDown_released_iff]
    simp only [List.mem_filter, decide_eq_true_eq, not_exists, not_and, not_not]
    refine and_congr_left' (exists_congr fun p => ?_)
    rw [and_assoc, and_comm (a := p.tick = _)]

theorem poll (numbered : Numbered script) : Follows script (t + 1) k.poll.2 := by
  obtain ⟨same, counted⟩ := foldl_apply_keeps (script.filter (·.tick = .ofNat t)) (k.released t)
  rw [← follows.shown_eq, script_released, follows.script_eq] at same
  rw [← follows.shown_eq, polls_released] at counted
  rw [poll_eq]
  refine ⟨same, counted, rfl, fun key => follows.isDown_shown, fun key time later => ?_⟩
  have held : ¬ time.le (.ofNat t) = true :=
    fun early => later (Number.le_ofNat_of_le early (Nat.le_succ t))
  exact (follows.upAt?_shown numbered).trans (by simp [held])

end Follows

theorem follows_polled {script : List Press} (numbered : Numbered script) (quitAfter : Number)
    (t : Nat) :
    Follows script t ((start script quitAfter).polled t) := by
  induction t with
  | zero => exact follows_start numbered quitAfter
  | succ t ih => exact ih.poll numbered

/-- What a poll reports, from the script alone. As long as the polls can be counted exactly, a press
at the poll itself is one that has not run out; past that its end may be rounded down to the poll. A
press ends as many polls after its tick as it is held, one at least, where that can be counted. -/
theorem poll_follows_script {script : List Press} (numbered : Numbered script)
    (holds : ∀ p ∈ script, p.hold ≠ some .nan) (quitAfter : Number) :
    ∃ k, create? (script.map Press.event) quitAfter = .ok k ∧
      (∀ t, let poll := (k.polled t).poll.1
        (∀ key : Key,
          (poll.isDown key = true ↔ ∃ p, LastBefore script key (t + 1) p ∧
            (p.tick = .ofNat t ∨ (Number.ofNat t).lt p.releaseTime = true)) ∧
          (t < Counter.exactLimit → (poll.isDown key = true ↔ ∃ p, LastBefore script key (t + 1) p ∧
            (Number.ofNat t).lt p.releaseTime = true))) ∧
        ∃ downs : List Key, poll.keyDowns = downs.map (fun key => .ofNat key.val) ∧ downs.Nodup ∧
          downs.Sublist ((script.filter (·.tick = .ofNat t)).map (·.key)).eraseDups ∧
          ∀ key, key ∈ downs ↔ (∃ p ∈ script, p.key = key ∧ p.tick = .ofNat t) ∧
            ∀ p, LastBefore script key t p → p.releaseTime.le (.ofNat t) = true) ∧
      ∀ p ∈ script, ∀ tick hold : Nat, p.tick = .ofNat tick →
        p.hold.getD (.ofNat 1) = .ofNat hold → tick + max 1 hold ≤ Counter.exactLimit →
        p.releaseTime = .ofNat (tick + max 1 hold) := by
  refine ⟨_, create?_events script quitAfter, fun t => ?_,
    fun p _ tick hold start held exact => Press.releaseTime_eq_ofNat start held exact⟩
  have follows := follows_polled numbered quitAfter t
  have keys (key : Key) : ((start script quitAfter).polled t).poll.1.isDown key = true ↔
      ∃ p, LastBefore script key (t + 1) p ∧
      (p.tick = .ofNat t ∨ (Number.ofNat t).lt p.releaseTime = true) := by
    refine (follows.isDown_poll_iff numbered).trans
      (exists_congr fun p => and_congr_right fun last => ?_)
    obtain ⟨n, tick⟩ := numbered p last.final.mem
    rw [Number.ofNat_lt_iff (Press.releaseTime_ne_nan tick (holds p last.final.mem))]
  refine ⟨fun key => ⟨keys key, fun exact => (keys key).trans ?_⟩, follows.keyDowns_poll⟩
  refine exists_congr fun p => and_congr_right fun last => ?_
  exact or_iff_right_of_imp fun now => Press.lt_releaseTime now (holds p last.final.mem) exact

/-- A key that is pressed again while it is held, for a shorter time: it is not reported again, and
it goes up sooner. -/
theorem poll_follows_script_when_pressed_again :
    let script : List Press :=
      [⟨.ofNat 0, 5, some (.ofNat 4)⟩, ⟨.ofNat 2, 5, none⟩, ⟨.ofNat 2, 7, some (.infinite false)⟩]
    ∃ k, create? (script.map Press.event) (.infinite false) = .ok k ∧
      (k.polled 2).poll.1.keyDowns = [.ofNat 7] ∧
      (∃ p, LastBefore script 5 2 p ∧ ¬ p.releaseTime.le (.ofNat 2) = true) ∧
      (k.polled 3).poll.1.isDown 5 = false ∧
      ∀ p, LastBefore script 5 4 p → ¬ (Number.ofNat 3).lt p.releaseTime = true := by
  intro script
  have numbered : Numbered script :=
    List.forall_mem_cons.2 ⟨⟨0, rfl⟩,
      List.forall_mem_cons.2 ⟨⟨2, rfl⟩, List.forall_mem_cons.2 ⟨⟨2, rfl⟩, nofun⟩⟩⟩
  obtain ⟨k, created, follows, -⟩ := poll_follows_script numbered (by decide) (.infinite false)
  have run : (k.polled 2).poll.1.keyDowns = [.ofNat 7] ∧ (k.polled 3).poll.1.isDown 5 = false := by
    cases created
    decide +kernel
  obtain ⟨reported, up⟩ := run
  refine ⟨k, created, reported, ?_, up, fun p last held => ?_⟩
  · obtain ⟨downs, same, -, -, mem⟩ := (follows 2).2
    have silent : (5 : Key) ∉ downs := fun down => by
      have told := List.mem_map_of_mem (f := fun key : Key => Number.ofNat key.val) down
      rw [← same, reported] at told
      simp at told
    by_contra ended
    push Not at ended
    exact silent ((mem 5).2 ⟨⟨⟨.ofNat 2, 5, none⟩, by simp [script], rfl, rfl⟩, ended⟩)
  · have down := (((follows 3).1 5).2 (by decide)).2 ⟨p, last, held⟩
    rw [up] at down
    cases down

end Keypad

end Chip8
