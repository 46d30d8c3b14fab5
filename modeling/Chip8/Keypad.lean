import Chip8.Machine
import Chip8.Number
import Chip8.Text.Decimal

/-!
# The scripted keypad

A keypad that is polled once an instruction tick and counts its polls. It follows a script of key
events: the key of an event goes down at the poll with the event's number and up again after the
polls for which it is held. Keys can also be pressed and released by hand. A poll reports which keys
are down and, once each, the keys that went down since the poll before.
-/

namespace Chip8

/-- What a poll reports. -/
structure Poll where
  /-- Which keys are down. -/
  keys : Vector Bool 16
  /-- The keys that went down since the last poll, in order. A host may report numbers that name no
  key. -/
  keyDowns : List Number
  /-- The host asks to quit. -/
  quit : Bool

/-- A scripted key press: the poll at which the key goes down, and for how many polls it is held,
one unless said otherwise. -/
structure KeyEvent where
  tick : Number
  key : Number
  hold : Option Number
deriving DecidableEq

structure KeyError where
  key : Number
deriving DecidableEq

def KeyError.message (e : KeyError) : String := "key out of range: " ++ Text.numberText e.key

/-- The key that a number is, if it is one. -/
def Number.key? (n : Number) : Option Key :=
  match n.toInt? with
  | some k => if h : 0 ≤ k ∧ k < 16 then some ⟨k.toNat, by omega⟩ else none
  | none => none

/-- The key in the low four bits of a number. -/
def Key.ofLowBits (n : Int) : Key := ⟨(n % 16).toNat, by omega⟩

structure Press where
  tick : Number
  key : Key
  hold : Option Number
deriving DecidableEq

namespace KeyEvent

/-- The press that an event asks for. -/
def press? (e : KeyEvent) : Except KeyError Press :=
  match e.key.key? with
  | some key => .ok ⟨e.tick, key, e.hold⟩
  | none => .error ⟨e.key⟩

end KeyEvent

/-- The number of the first poll that finds the key of a press up again, if it is a whole one: a key
is held for one poll at least. -/
def Press.releaseTime (p : Press) : Number :=
  p.tick.add ((Number.ofNat 1).max (p.hold.getD (.ofNat 1)))

structure Keypad where
  script : List Press
  /-- The number of polls after which the keypad asks to quit. -/
  quitAfter : Number
  /-- Which keys are down. -/
  pressed : Vector Bool 16
  /-- When the keys that went down by the script go up. -/
  releases : Vector (Option Number) 16
  /-- The keys that went down since the last poll, in order. -/
  pendingDowns : List Key
  /-- The number of polls so far. -/
  polls : Nat
  quitRequested : Bool

namespace Keypad

/-- A keypad at its start, if every event of the script names a key. The first that does not is
reported. -/
def create? (events : List KeyEvent) (quitAfter : Number) : Except KeyError Keypad := do
  let script ← events.mapM KeyEvent.press?
  pure {
    script, quitAfter
    pressed := Vector.replicate 16 false
    releases := Vector.replicate 16 none
    pendingDowns := []
    polls := 0
    quitRequested := false }

/-- Puts a key down. A key that is down already is not reported again. -/
def press (k : Keypad) (key : Key) : Keypad :=
  { k with
    pressed := k.pressed.set key true
    pendingDowns := if k.pressed[key] then k.pendingDowns else k.pendingDowns ++ [key] }

def release (k : Keypad) (key : Key) : Keypad := { k with pressed := k.pressed.set key false }

def requestQuit (k : Keypad) : Keypad := { k with quitRequested := true }

/-- Is a key that goes up at the given time to go up at this poll? -/
def isDue (poll : Nat) : Option Number → Bool
  | some time => time.le (.ofNat poll)
  | none => false

def releaseDue (k : Keypad) (poll : Nat) : Keypad :=
  { k with
    pressed := Vector.ofFn fun (key : Key) => k.pressed[key] && !isDue poll k.releases[key]
    releases := k.releases.map fun time => if isDue poll time then none else time }

/-- Puts down the key of a press and notes when it goes up. -/
def apply (k : Keypad) (p : Press) : Keypad :=
  { k.press p.key with releases := k.releases.set p.key (some p.releaseTime) }

def pressesAt (k : Keypad) (poll : Nat) : List Press := k.script.filter (·.tick = .ofNat poll)

def poll (k : Keypad) : Poll × Keypad :=
  let now := k.polls
  let k := { (k.releaseDue now) with polls := now + 1 }
  let k := (k.pressesAt now).foldl apply k
  ({ keys := k.pressed
     keyDowns := k.pendingDowns.map fun (key : Key) => .ofNat key.val
     quit := k.quitRequested || k.quitAfter.lt (.ofNat k.polls) },
    { k with pendingDowns := [] })

end Keypad

end Chip8
