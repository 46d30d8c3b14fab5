import Chip8.Screen

/-!
# The frame recorder

A display without a window: it keeps the last frame that it was shown, counts the frames, and asks
to quit once it has been shown as many as it was set to.
-/

namespace Chip8

structure FrameRecorder where
  /-- The number of frames after which the recorder asks to quit. -/
  limit : Number
  /-- The number of frames shown so far. -/
  count : Nat
  /-- The last frame shown; dark before the first. -/
  last : Frame

namespace FrameRecorder

def new (limit : Number) : FrameRecorder := ⟨limit, 0, Frame.dark⟩

/-- Shows a frame; says whether the recorder asks to quit. -/
def present (r : FrameRecorder) (f : Frame) : Bool × FrameRecorder :=
  let count := r.count + 1
  (r.limit.le (.ofNat count), { r with count, last := f })

end FrameRecorder

end Chip8
