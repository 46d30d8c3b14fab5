/-!
# Sound outputs

The machine makes one sound, which is on or off. A bell rings each time the sound comes on; a
recorder keeps every signal that it is given.
-/

namespace Chip8

/-- A terminal bell, and whether the sound is on. -/
structure Bell where
  active : Bool
deriving DecidableEq

namespace Bell

def silent : Bell := ⟨false⟩

/-- Takes a signal; says whether the bell rings. -/
def signal (b : Bell) (on : Bool) : Bool × Bell := (on && !b.active, ⟨on⟩)

/-- What ringing the bell writes. -/
def sound : String := "\x07"

end Bell

/-- Every signal so far, in order. -/
structure ToneRecorder where
  signals : List Bool
deriving DecidableEq

namespace ToneRecorder

def empty : ToneRecorder := ⟨[]⟩

/-- Is the sound on after the signals so far? -/
def active (r : ToneRecorder) : Bool := r.signals.getLast?.getD false

/-- Takes a signal. -/
def signal (r : ToneRecorder) (on : Bool) : ToneRecorder := ⟨r.signals ++ [on]⟩

end ToneRecorder

end Chip8
