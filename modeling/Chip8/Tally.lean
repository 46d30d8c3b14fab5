/-!
# Tallies

How often each item was seen, in the order in which the items were first seen.
-/

namespace Chip8

/-- Items with their counts, in order of first appearance. -/
structure Tally (α : Type) where
  entries : List (α × Nat)
deriving DecidableEq

namespace Tally

variable {α : Type} [DecidableEq α]

def empty : Tally α := ⟨[]⟩

instance : Inhabited (Tally α) := ⟨empty⟩

def count (t : Tally α) (a : α) : Nat :=
  match t.entries.find? (·.1 = a) with
  | some (_, n) => n
  | none => 0

/-- The entries with one more of an item. -/
def bumpEntries (a : α) : List (α × Nat) → List (α × Nat)
  | [] => [(a, 1)]
  | (b, n) :: rest => if b = a then (b, n + 1) :: rest else (b, n) :: bumpEntries a rest

def bump (t : Tally α) (a : α) : Tally α := ⟨bumpEntries a t.entries⟩

theorem count_bump (t : Tally α) (a b : α) :
    (t.bump a).count b = t.count b + if a = b then 1 else 0 := by
  have onEntries (entries : List (α × Nat)) :
      (Tally.mk (bumpEntries a entries)).count b =
        (Tally.mk entries).count b + if a = b then 1 else 0 := by
    induction entries with
    | nil => by_cases h : a = b <;> simp [bumpEntries, count, h]
    | cons e rest ih =>
      by_cases ha : e.1 = a
      · by_cases hb : e.1 = b <;> simp_all [bumpEntries, count]
      · have hab (h : e.1 = b) : a ≠ b := fun h' => ha (h.trans h'.symm)
        by_cases hb : e.1 = b <;> simp_all [bumpEntries, count]
  exact onEntries t.entries

/-- The entries from the highest count down, equal counts in order of first appearance. -/
def ranking (t : Tally α) : List (α × Nat) := t.entries.mergeSort fun a b => b.2 ≤ a.2

end Tally

end Chip8
