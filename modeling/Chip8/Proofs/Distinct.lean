import Mathlib.Data.List.Induction

/-!
# The first of equal ones

`List.eraseDups` keeps the first of equal items. Its items differ, and stand in the order of their
first appearance.
-/

namespace Chip8

variable {α : Type} [BEq α] [LawfulBEq α] {l : List α} {a : α}

theorem eraseDups_concat_of_mem (old : a ∈ l) : (l ++ [a]).eraseDups = l.eraseDups := by
  rw [List.eraseDups_append]
  simp [List.removeAll, old]

theorem eraseDups_concat_of_not_mem (new : a ∉ l) : (l ++ [a]).eraseDups = l.eraseDups ++ [a] := by
  rw [List.eraseDups_append]
  simp [List.removeAll, new, List.eraseDups_cons]

/-- More items at the end do not change where an item stands first. -/
theorem idxOf_concat_of_mem {b : α} (old : b ∈ l) : (l ++ [a]).idxOf b = l.idxOf b := by
  rw [List.idxOf_append, if_pos old]

theorem pairwise_idxOf_eraseDups : l.eraseDups.Pairwise fun a b => l.idxOf a < l.idxOf b := by
  induction l using List.reverseRecOn with
  | nil => exact .nil
  | append_singleton l a ih =>
    have earlier : l.eraseDups.Pairwise fun b c => (l ++ [a]).idxOf b < (l ++ [a]).idxOf c := by
      refine ih.imp_of_mem fun hb hc before => ?_
      rw [idxOf_concat_of_mem (List.mem_eraseDups.1 hb),
        idxOf_concat_of_mem (List.mem_eraseDups.1 hc)]
      exact before
    by_cases old : a ∈ l
    · rw [eraseDups_concat_of_mem old]
      exact earlier
    · rw [eraseDups_concat_of_not_mem old, List.pairwise_append]
      refine ⟨earlier, List.pairwise_singleton _ a, fun b hb c hc => ?_⟩
      have member := List.mem_eraseDups.1 hb
      rw [List.mem_singleton.1 hc, idxOf_concat_of_mem member, List.idxOf_append, if_neg old]
      exact Nat.lt_add_left _ (List.idxOf_lt_length_of_mem member)

theorem nodup_eraseDups : l.eraseDups.Nodup := by
  refine pairwise_idxOf_eraseDups.imp fun before same => ?_
  rw [same] at before
  exact Nat.lt_irrefl _ before

end Chip8
