import Chip8.Proofs.Keypad
import Mathlib.Data.List.FinRange

/-!
# Keys that go down and up

A keypad is pressed, released and polled in any order. On the way it passes through keypads that
differ in a key or two: a poll first lets go of the keys whose time is over, and then presses the
keys of the script one by one, so a key can go up and down again within one poll. `Keypad.passed`
lists these keypads, and `downs` and `ups` the keys that go down and up between one and the next.

Polls report every key that goes down, once and in order, and what they have not reported yet is
pending (`downs_reported`). A key cannot go down twice without going up in between (`count_downs`).
-/

namespace Chip8

namespace Keypad

/-- What can be asked of a keypad. A number stands for the key in its low four bits. -/
inductive Action
  | press (n : Number)
  | release (n : Number)
  | requestQuit
  | poll

/-- Does what is asked. Only polls have an answer. -/
def act (k : Keypad) : Action → Option Poll × Keypad
  | .press n => (none, k.press (.ofLowBits n.truncate))
  | .release n => (none, k.release (.ofLowBits n.truncate))
  | .requestQuit => (none, k.requestQuit)
  | .poll => (some k.poll.1, k.poll.2)

/-- The keypads after each of some presses. -/
def pressing (k : Keypad) : List Press → List Keypad
  | [] => []
  | p :: ps => k.apply p :: (k.apply p).pressing ps

/-- The keypads that an action passes through. A poll lets go of keys, presses those of the script,
and takes away what it reports. -/
def stages (k : Keypad) : Action → List Keypad
  | .poll =>
    let released := k.released k.polls
    released :: (released.pressing (released.pressesAt k.polls) ++ [k.poll.2])
  | action => [(k.act action).2]

/-- The keypads that some actions pass through. -/
def passed (k : Keypad) : List Action → List Keypad
  | [] => []
  | action :: actions => k.stages action ++ (k.act action).2.passed actions

def after (k : Keypad) (actions : List Action) : Keypad :=
  actions.foldl (fun k action => (k.act action).2) k

/-- What the polls among some actions report to have gone down. -/
def reported (k : Keypad) : List Action → List Number
  | [] => []
  | action :: actions => (k.act action).1.elim [] (·.keyDowns) ++ (k.act action).2.reported actions

/-- The keys that are up in a keypad and down in the next one. -/
def goingDown (k next : Keypad) : List Key :=
  (List.finRange 16).filter fun key => !k.isDown key && next.isDown key

/-- The keys that go down along some keypads, from a first one on. -/
def downs : Keypad → List Keypad → List Key
  | _, [] => []
  | k, next :: rest => k.goingDown next ++ downs next rest

/-- The keys that go up along some keypads, from a first one on. -/
def ups : Keypad → List Keypad → List Key
  | _, [] => []
  | k, next :: rest => next.goingDown k ++ ups next rest

/-- Keys as a poll reports them. -/
def numbers (keys : List Key) : List Number := keys.map fun key => .ofNat key.val

@[simp] theorem numbers_nil : numbers [] = [] := rfl

@[simp] theorem numbers_append (keys others : List Key) :
    numbers (keys ++ others) = numbers keys ++ numbers others :=
  List.map_append

theorem count_numbers (keys : List Key) (key : Key) :
    (numbers keys).count (.ofNat key.val) = keys.count key := by
  have inj : Function.Injective fun key : Key => Number.ofNat key.val :=
    fun a b same => Fin.ext (Number.ofNat_inj.1 same)
  exact List.count_map_of_injective keys _ inj key

variable {k next : Keypad} {key : Key}

/-! ## From one keypad to the next -/

theorem goingDown_eq_nil (up : ∀ key, next.isDown key = true → k.isDown key = true) :
    k.goingDown next = [] := by
  rw [goingDown, List.filter_eq_nil_iff]
  intro key _
  cases down : next.isDown key with
  | false => simp
  | true => simp [up key down]

/-- A key that is put down goes down, unless it is down already. -/
theorem goingDown_of_put (put : ∀ other, next.isDown other = (k.isDown other || key = other)) :
    k.goingDown next = if k.isDown key then [] else [key] := by
  cases down : k.isDown key with
  | true =>
    refine goingDown_eq_nil fun other now => ?_
    rw [put, Bool.or_eq_true, decide_eq_true_eq] at now
    rcases now with before | rfl
    · exact before
    · exact down
  | false =>
    have only (other : Key) : (!k.isDown other && next.isDown other) = (other == key) := by
      rw [put]
      by_cases same : other = key
      · subst same
        simp [down]
      · have apart : key ≠ other := Ne.symm same
        simp [same, apart]
    have once : (List.finRange 16).count key = 1 :=
      List.count_eq_one_of_mem (List.nodup_finRange 16) (List.mem_finRange key)
    rw [goingDown, funext only, List.filter_beq, once]
    rfl

theorem count_goingDown (k next : Keypad) (key : Key) :
    (k.goingDown next).count key = if !k.isDown key && next.isDown key then 1 else 0 := by
  split
  · next changes =>
    exact List.count_eq_one_of_mem ((List.nodup_finRange 16).filter _)
      (List.mem_filter.2 ⟨List.mem_finRange key, changes⟩)
  · next same =>
    rw [List.count_eq_zero, goingDown, List.mem_filter]
    exact fun member => same member.2

theorem downs_append (k : Keypad) (before rest : List Keypad) :
    k.downs (before ++ rest) = k.downs before ++ (before.getLastD k).downs rest := by
  induction before generalizing k with
  | nil => rfl
  | cons next before ih =>
    rw [List.cons_append, downs, downs, ih, List.append_assoc, List.getLastD_cons]

/-- Along any keypads a key goes down and up by turns. -/
theorem count_downs (k : Keypad) (ks : List Keypad) (key : Key) :
    (k.downs ks).count key + (k.isDown key).toNat =
      (k.ups ks).count key + ((ks.getLastD k).isDown key).toNat := by
  induction ks generalizing k with
  | nil => rfl
  | cons next ks ih =>
    have rest := ih next
    rw [downs, ups, List.count_append, List.count_append, count_goingDown, count_goingDown,
      List.getLastD_cons]
    cases k.isDown key <;> cases now : next.isDown key <;> simp [now] at rest ⊢ <;> omega

/-! ## Actions -/

theorem isDown_press (k : Keypad) (key other : Key) :
    (k.press key).isDown other = (k.isDown other || key = other) := by
  simp [isDown, get_eq_getElem, press, Vector.getElem_set, Fin.ext_iff, Bool.or_comm]

theorem pendingDowns_press (k : Keypad) (key : Key) :
    (k.press key).pendingDowns = if k.isDown key then k.pendingDowns else k.pendingDowns ++ [key] :=
  rfl

theorem isDown_release (k : Keypad) (key other : Key) :
    (k.release key).isDown other = (k.isDown other && key ≠ other) := by
  simp [isDown, get_eq_getElem, release, Vector.getElem_set, Fin.ext_iff, Bool.and_comm]

/-- Presses add to what is pending the keys that go down. -/
theorem pendingDowns_pressing (k : Keypad) (ps : List Press) :
    (ps.foldl apply k).pendingDowns = k.pendingDowns ++ k.downs (k.pressing ps) := by
  induction ps generalizing k with
  | nil => exact (List.append_nil _).symm
  | cons p ps ih =>
    rw [List.foldl_cons, ih, pendingDowns_apply, pressing, downs,
      goingDown_of_put (fun other => isDown_apply (k := k) (p := p))]
    split <;> simp

theorem getLastD_pressing (k : Keypad) (ps : List Press) :
    (k.pressing ps).getLastD k = ps.foldl apply k := by
  induction ps generalizing k with
  | nil => rfl
  | cons p ps ih => rw [pressing, List.getLastD_cons, ih, List.foldl_cons]

/-- The last keypad that an action passes through is the one that it leaves. -/
theorem getLastD_stages (k : Keypad) (action : Action) :
    (k.stages action).getLastD k = (k.act action).2 := by
  cases action with
  | poll =>
    rw [stages, List.getLastD_cons]
    exact List.getLastD_concat ..
  | _ => rfl

/-- Keys go down in a poll where the script presses them. To let go of keys puts none down, nor does
the report. -/
theorem downs_stages_poll (k : Keypad) :
    k.downs (k.stages .poll) =
      (k.released k.polls).downs
        ((k.released k.polls).pressing ((k.released k.polls).pressesAt k.polls)) := by
  have letGo : k.goingDown (k.released k.polls) = [] := by
    refine goingDown_eq_nil fun key down => ?_
    rw [isDown_released, Bool.and_eq_true] at down
    exact down.1
  have report : k.shown.goingDown k.poll.2 = [] := by
    refine goingDown_eq_nil fun key down => ?_
    rw [poll_eq] at down
    exact down
  rw [stages, downs, letGo, List.nil_append, downs_append, getLastD_pressing, ← shown, downs,
    report]
  exact List.append_nil _

/-- What an action reports and what it leaves pending is what was pending before and what goes down
in it. -/
theorem numbers_act (k : Keypad) (action : Action) :
    (k.act action).1.elim [] (·.keyDowns) ++ numbers (k.act action).2.pendingDowns =
      numbers k.pendingDowns ++ numbers (k.downs (k.stages action)) := by
  cases action with
  | press n =>
    have down := goingDown_of_put (isDown_press k (.ofLowBits n.truncate))
    change numbers (k.press _).pendingDowns = _ ++ numbers (k.goingDown (k.press _) ++ [])
    rw [down, pendingDowns_press, ← numbers_append]
    split <;> simp
  | release n =>
    have down : k.goingDown (k.release (.ofLowBits n.truncate)) = [] := by
      refine goingDown_eq_nil fun key down => ?_
      rw [isDown_release, Bool.and_eq_true] at down
      exact down.1
    change numbers k.pendingDowns = _ ++ numbers (k.goingDown (k.release _) ++ [])
    rw [down]
    exact (List.append_nil _).symm
  | requestQuit =>
    have down : k.goingDown k.requestQuit = [] := goingDown_eq_nil fun key down => down
    change numbers k.pendingDowns = _ ++ numbers (k.goingDown k.requestQuit ++ [])
    rw [down]
    exact (List.append_nil _).symm
  | poll =>
    have report : k.poll.1.keyDowns = numbers k.shown.pendingDowns := by
      rw [poll_eq]
      rfl
    have shown : k.shown.pendingDowns = k.pendingDowns ++ k.downs (k.stages .poll) := by
      rw [downs_stages_poll, shown, pendingDowns_pressing, pendingDowns_released]
    change k.poll.1.keyDowns ++ numbers [] = _
    rw [report, shown, numbers_nil, List.append_nil, numbers_append]

/-- What some actions report and what they leave pending. -/
theorem numbers_after (k : Keypad) (actions : List Action) :
    k.reported actions ++ numbers (k.after actions).pendingDowns =
      numbers k.pendingDowns ++ numbers (k.downs (k.passed actions)) := by
  induction actions generalizing k with
  | nil => exact (List.append_nil _).symm
  | cons action actions ih =>
    have rest := ih (k.act action).2
    calc k.reported (action :: actions) ++ numbers (k.after (action :: actions)).pendingDowns
      _ = (k.act action).1.elim [] (·.keyDowns) ++
            ((k.act action).2.reported actions ++
              numbers ((k.act action).2.after actions).pendingDowns) :=
          List.append_assoc ..
      _ = numbers k.pendingDowns ++ (numbers (k.downs (k.stages action)) ++
            numbers ((k.act action).2.downs ((k.act action).2.passed actions))) := by
          rw [rest, ← List.append_assoc, numbers_act, List.append_assoc]
      _ = numbers k.pendingDowns ++ numbers (k.downs (k.passed (action :: actions))) := by
          rw [passed, downs_append, getLastD_stages, numbers_append]

theorem eq_start_of_create? {events : List KeyEvent} {quitAfter : Number}
    (created : create? events quitAfter = .ok k) :
    ∃ script, k = start script quitAfter := by
  unfold create? at created
  cases presses : events.mapM KeyEvent.press? with
  | error e =>
    rw [presses] at created
    cases created
  | ok script =>
    rw [presses] at created
    cases created
    exact ⟨script, rfl⟩

/-- Whatever is pressed, released and polled, each time that a key goes down is reported by one
poll, in order, or is still pending, and a poll leaves nothing pending. -/
theorem downs_reported {events : List KeyEvent} {quitAfter : Number}
    (created : create? events quitAfter = .ok k) (actions : List Action) :
    let keypads := k.passed actions
    let entries := k.reported actions ++ numbers (k.after actions).pendingDowns
    entries = numbers (k.downs keypads) ∧
    (k.after (actions ++ [.poll])).pendingDowns = [] ∧
    ∀ key : Key, entries.count (.ofNat key.val) ≤ 1 + (k.ups keypads).count key := by
  intro keypads entries
  obtain ⟨script, rfl⟩ := eq_start_of_create? created
  have told : entries = numbers ((start script quitAfter).downs keypads) := numbers_after _ actions
  refine ⟨told, ?_, fun key => ?_⟩
  · rw [after, List.foldl_concat]
    rfl
  · have turns := count_downs (start script quitAfter) keypads key
    rw [isDown_start] at turns
    have last := Bool.toNat_le (((keypads.getLastD (start script quitAfter)).isDown key))
    rw [told, count_numbers]
    simp only [Bool.toNat_false] at turns
    omega

/-- A key that goes down four times: twice by the script, the second time in the poll that lets go
of it, and by hand in between. It is down already at the first press by hand. -/
theorem downs_reported_when_pressed_again :
    let events : List KeyEvent :=
  [⟨.ofNat 0, .ofNat 5, some (.ofNat 2)⟩, ⟨.ofNat 2, .ofNat 5, none⟩]
    let actions : List Action :=
      [.poll, .press (.ofNat 21), .release (.ofNat 5), .press (.ofInt (-11)), .poll, .poll,
        .release (.ofNat 5), .press (.ofNat 5)]
    ∃ k, create? events (.infinite false) = .ok k ∧
      k.reported actions = [.ofNat 5, .ofNat 5, .ofNat 5] ∧ (k.after actions).pendingDowns = [5] ∧
      k.reported actions ++ numbers (k.after actions).pendingDowns =
        numbers (k.downs (k.passed actions)) ∧
      (k.after (actions ++ [.poll])).pendingDowns = [] ∧
      (k.reported actions ++ numbers (k.after actions).pendingDowns).count (.ofNat 5) ≤
        1 + (k.ups (k.passed actions)).count 5 := by
  intro events actions
  have created :=
    create?_events [⟨.ofNat 0, 5, some (.ofNat 2)⟩, ⟨.ofNat 2, 5, none⟩] (.infinite false)
  obtain ⟨told, drained, counted⟩ := downs_reported created actions
  exact ⟨_, created, by decide +kernel, by decide +kernel, told, drained, counted 5⟩

end Keypad

end Chip8
