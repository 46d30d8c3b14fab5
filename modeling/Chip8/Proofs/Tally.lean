import Chip8.Tally
import Chip8.Proofs.Distinct
import Mathlib.Algebra.BigOperators.Group.List.Basic
import Mathlib.Algebra.Ring.Nat

/-!
# Tallies as histograms

A tally that was empty and then counted a list of items holds each of them once, with the number of
its appearances and in the order of the first ones (`Tally.entries_ofList`). Its ranking is a
histogram of the list (`Histogram`): ranking is a stable sort, so entries with equal counts stay in
order (`Tally.filter_ranking`).
-/

namespace Chip8

namespace Tally

/-! ## Ranking -/

variable {α : Type} (t : Tally α)

theorem ahead_trans (p q r : α × Nat) (first : decide (q.2 ≤ p.2) = true)
    (second : decide (r.2 ≤ q.2) = true) :
    decide (r.2 ≤ p.2) = true := by
  simp only [decide_eq_true_eq] at *
  omega

theorem ahead_total (p q : α × Nat) : (decide (q.2 ≤ p.2) || decide (p.2 ≤ q.2)) = true := by
  simp only [Bool.or_eq_true, decide_eq_true_eq]
  omega

theorem ranking_perm : t.ranking.Perm t.entries := List.mergeSort_perm ..

theorem ranking_falling : t.ranking.Pairwise fun p q => q.2 ≤ p.2 :=
  (List.pairwise_mergeSort ahead_trans ahead_total t.entries).imp of_decide_eq_true

/-- Entries with equal counts keep their order. -/
theorem filter_ranking (n : Nat) : t.ranking.filter (·.2 = n) = t.entries.filter (·.2 = n) := by
  have level : (t.entries.filter (·.2 = n)).Pairwise fun p q => decide (q.2 ≤ p.2) = true := by
    refine List.Pairwise.imp_of_mem (R := fun _ _ => True) (fun hp hq _ => ?_)
      (List.pairwise_of_forall fun _ _ => trivial)
    have p := of_decide_eq_true (List.mem_filter.1 hp).2
    have q := of_decide_eq_true (List.mem_filter.1 hq).2
    exact decide_eq_true (by omega)
  have kept : (t.entries.filter (·.2 = n)).Sublist t.ranking :=
    List.sublist_mergeSort ahead_trans ahead_total level List.filter_sublist
  have sublist := kept.filter (·.2 = n)
  rw [List.filter_filter] at sublist
  simp only [Bool.and_self] at sublist
  exact (sublist.eq_of_length (t.ranking_perm.filter _).length_eq.symm).symm

/-- What two entries have to each other by their order is kept where their counts are equal. -/
theorem ranking_ties {R : α × Nat → α × Nat → Prop} (ordered : t.entries.Pairwise R) :
    t.ranking.Pairwise fun p q => p.2 = q.2 → R p q := by
  refine List.pairwise_iff_forall_sublist.2 fun {p q} sublist same => ?_
  have both : [p, q].Sublist (t.ranking.filter (·.2 = q.2)) := by
    have filtered := sublist.filter (·.2 = q.2)
    simpa [same] using filtered
  rw [filter_ranking] at both
  exact List.pairwise_iff_forall_sublist.1 ordered (both.trans List.filter_sublist)

end Tally

/-! ## Histograms -/

variable {α : Type} [DecidableEq α]

/-- A list of items with counts that ranks the items of another list. -/
structure Histogram (items : List α) (entries : List (α × Nat)) : Prop where
  /-- No item has two entries. -/
  once : (entries.map Prod.fst).Nodup
  /-- The items with an entry are those of the list, and are counted right. -/
  mem_iff (a : α) (n : Nat) : (a, n) ∈ entries ↔ a ∈ items ∧ n = items.count a
  falling : entries.Pairwise fun p q => q.2 ≤ p.2
  /-- Of two items that are counted alike the one that appeared first is ahead. -/
  ties : entries.Pairwise fun p q => p.2 = q.2 → items.idxOf p.1 < items.idxOf q.1
  total : (entries.map Prod.snd).sum = items.length

namespace Tally

/-- The tally of a list of items. -/
def ofList (items : List α) : Tally α := items.foldl bump empty

theorem ofList_concat (items : List α) (a : α) : ofList (items ++ [a]) = (ofList items).bump a := by
  rw [ofList, List.foldl_append]
  rfl

/-- A new item goes to the end, and a known one stays in its place. -/
theorem bumpEntries_map (a : α) (count : α → Nat) {keys : List α} (nodup : keys.Nodup) :
    bumpEntries a (keys.map fun b => (b, count b)) =
      (keys.map fun b => (b, count b + if a = b then 1 else 0)) ++ if a ∈ keys then []
        else [(a, 1)] := by
  induction keys with
  | nil => rfl
  | cons b keys ih =>
    obtain ⟨fresh, nodup⟩ := List.nodup_cons.1 nodup
    by_cases same : b = a
    · have others : keys.map (fun c => (c, count c + if a = c then 1 else 0)) = keys.map fun c =>
          (c, count c) := by
        refine List.map_congr_left fun c member => ?_
        rw [if_neg fun eq => fresh (same.trans eq ▸ member)]
        rfl
      simp [bumpEntries, same, others]
    · simp [bumpEntries, same, ih nodup, Ne.symm same]

theorem entries_ofList (items : List α) :
    (ofList items).entries = items.eraseDups.map fun a => (a, items.count a) := by
  induction items using List.reverseRecOn with
  | nil => rfl
  | append_singleton items a ih =>
    have counts (b : α) : (items ++ [a]).count b = items.count b + if a = b then 1 else 0 := by
      rw [List.count_append, List.count_singleton]
      simp only [beq_iff_eq]
    rw [ofList_concat, bump, ih, bumpEntries_map a items.count nodup_eraseDups]
    simp only [counts, List.mem_eraseDups]
    by_cases old : a ∈ items
    · rw [eraseDups_concat_of_mem old, if_pos old, List.append_nil]
    · rw [eraseDups_concat_of_not_mem old, if_neg old, List.map_append]
      simp [List.count_eq_zero_of_not_mem old]

theorem sum_bumpEntries (a : α) (entries : List (α × Nat)) :
    ((bumpEntries a entries).map Prod.snd).sum = (entries.map Prod.snd).sum + 1 := by
  induction entries with
  | nil => rfl
  | cons entry entries ih =>
    rw [bumpEntries]
    split
    · simp only [List.map_cons, List.sum_cons]
      omega
    · simp only [List.map_cons, List.sum_cons, ih]
      omega

theorem sum_entries_ofList (items : List α) :
    ((ofList items).entries.map Prod.snd).sum = items.length := by
  induction items using List.reverseRecOn with
  | nil => rfl
  | append_singleton items a ih =>
    rw [ofList_concat, bump, sum_bumpEntries, ih, List.length_append, List.length_singleton]

/-- The ranking of a tally of items is a histogram of the items. -/
theorem histogram_ranking (items : List α) : Histogram items (ofList items).ranking where
  once := by
    have keys : ((ofList items).entries.map Prod.fst).Nodup := by
      rw [entries_ofList, List.map_map]
      exact (List.map_id _).symm ▸ nodup_eraseDups
    exact ((ranking_perm _).map Prod.fst).nodup_iff.2 keys
  mem_iff a n := by
    rw [(ranking_perm _).mem_iff, entries_ofList]
    simp only [List.mem_map, List.mem_eraseDups, Prod.mk.injEq]
    constructor
    · rintro ⟨b, member, rfl, rfl⟩
      exact ⟨member, rfl⟩
    · rintro ⟨member, rfl⟩
      exact ⟨a, member, rfl, rfl⟩
  falling := ranking_falling _
  ties := by
    refine ranking_ties _ ?_
    rw [entries_ofList, List.pairwise_map]
    exact pairwise_idxOf_eraseDups
  total := by
    rw [((ranking_perm _).map Prod.snd).sum_eq]
    exact sum_entries_ofList items

end Tally

end Chip8
