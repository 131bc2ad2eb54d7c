/-
This file is about choosing greedily among items that each take a share of two resources, a
budget that may be used up and a room that may not.

`scan` goes through the items once and takes each one that fits into what is left. Whatever the
order, the result respects both resources and cannot be extended. In ascending order of size, and
with room for everything, no other choice has more items; in descending order the choice is
everything that fits at all, or more than half of the budget.

The second part is about the order. Searching a list for its first extremum again and again
visits the items in the order of a stable sort.
-/

import Mathlib.Algebra.Order.BigOperators.Group.List
import Mathlib.Algebra.Order.Ring.Int
import Mathlib.Data.List.Sort
import Mathlib.Tactic.Common

namespace Greedy

variable {α : Type}

/-! ### One pass over the items -/

/-- Take each item that fits into what is left of the room and of the budget. -/
def scan (size cost : α → Int) : Int → Int → List α → List α
  | _, _, [] => []
  | room, budget, item :: rest =>
    if room - cost item > 0 ∧ budget - size item ≥ 0 then
      item :: scan size cost (room - cost item) (budget - size item) rest
    else scan size cost room budget rest

variable {size cost : α → Int}

theorem sum_nonneg {measure : α → Int} {items : List α}
    (measures : ∀ item ∈ items, 0 ≤ measure item) : 0 ≤ (items.map measure).sum := by
  refine List.sum_nonneg fun value found => ?_
  obtain ⟨item, member, rfl⟩ := List.mem_map.mp found
  exact measures item member

/-- Some of the items and one more together take at most what all take. -/
theorem sum_add_le {measure : α → Int} {chosen items : List α} (choice : chosen.Sublist items)
    (measures : ∀ item ∈ items, 0 ≤ measure item) {item : α} (member : item ∈ items)
    (left : item ∉ chosen) : (chosen.map measure).sum + measure item ≤ (items.map measure).sum := by
  induction choice with
  | slnil => cases member
  | cons head later inductionHypothesis =>
    rw [List.forall_mem_cons] at measures
    rw [List.map_cons, List.sum_cons]
    rcases List.mem_cons.mp member with rfl | tail
    · have part := (later.map measure).sum_le_sum fun value found => by
        obtain ⟨other, chosen, rfl⟩ := List.mem_map.mp found
        exact measures.2 other chosen
      omega
    · have others := inductionHypothesis measures.2 tail left
      omega
  | cons_cons head later inductionHypothesis =>
    rw [List.forall_mem_cons] at measures
    rw [List.mem_cons, not_or] at left
    have others := inductionHypothesis measures.2
      ((List.mem_cons.mp member).resolve_left left.1) left.2
    rw [List.map_cons, List.sum_cons, List.map_cons, List.sum_cons]
    omega

theorem scan_sublist (room budget : Int) (items : List α) :
    (scan size cost room budget items).Sublist items := by
  induction items generalizing room budget with
  | nil => exact .slnil
  | cons item rest inductionHypothesis =>
    rw [scan]
    split
    · exact (inductionHypothesis _ _).cons_cons item
    · exact (inductionHypothesis _ _).cons item

/-- The budget is not exceeded. -/
theorem scan_size_le {budget : Int} (positive : 0 ≤ budget) (room : Int) (items : List α) :
    ((scan size cost room budget items).map size).sum ≤ budget := by
  induction items generalizing room budget with
  | nil => exact positive
  | cons item rest inductionHypothesis =>
    rw [scan]
    split
    · rename_i fits
      have later := inductionHypothesis fits.2 (room - cost item)
      rw [List.map_cons, List.sum_cons]
      omega
    · exact inductionHypothesis positive room

/-- The room is not used up. -/
theorem scan_cost_lt {room budget : Int} {items : List α}
    (nonempty : scan size cost room budget items ≠ []) :
    ((scan size cost room budget items).map cost).sum < room := by
  induction items generalizing room budget with
  | nil => exact absurd rfl nonempty
  | cons item rest inductionHypothesis =>
    rw [scan] at nonempty ⊢
    split at nonempty
    · rename_i fits
      rw [if_pos fits, List.map_cons, List.sum_cons]
      by_cases last : scan size cost (room - cost item) (budget - size item) rest = []
      · rw [last, List.map_nil, List.sum_nil]
        omega
      · have later := inductionHypothesis last
        omega
    · rename_i unfit
      rw [if_neg unfit]
      exact inductionHypothesis nonempty

section Maximal

variable {items : List α} (sizes : ∀ item ∈ items, 0 ≤ size item)
  (costs : ∀ item ∈ items, 0 ≤ cost item)

include sizes costs

/-- What did not fit once never fits later: an item left out does not fit beside the result. -/
theorem scan_maximal {room budget : Int} {item : α} (member : item ∈ items)
    (left : item ∉ scan size cost room budget items) :
    budget < ((scan size cost room budget items).map size).sum + size item ∨
      room ≤ ((scan size cost room budget items).map cost).sum + cost item := by
  induction items generalizing room budget with
  | nil => cases member
  | cons head rest inductionHypothesis =>
    rw [List.forall_mem_cons] at sizes costs
    rw [scan] at left ⊢
    split at left
    · rename_i fits
      rw [List.mem_cons, not_or] at left
      have later := inductionHypothesis sizes.2 costs.2
        ((List.mem_cons.mp member).resolve_left left.1) left.2
      rw [if_pos fits, List.map_cons, List.sum_cons, List.map_cons, List.sum_cons]
      omega
    · rename_i unfit
      rw [if_neg unfit]
      rcases List.mem_cons.mp member with rfl | tail
      · have taken : (scan size cost room budget rest).Sublist rest := scan_sublist ..
        have sized := sum_nonneg fun other chosen => sizes.2 other (taken.subset chosen)
        have priced := sum_nonneg fun other chosen => costs.2 other (taken.subset chosen)
        omega
      · exact inductionHypothesis sizes.2 costs.2 tail left

end Maximal

/-- Nothing is taken exactly when no item fits on its own. -/
theorem scan_eq_nil_iff {room budget : Int} {items : List α} :
    scan size cost room budget items = [] ↔
      ∀ item ∈ items, budget < size item ∨ room ≤ cost item := by
  induction items with
  | nil => simp [scan]
  | cons item rest inductionHypothesis =>
    rw [scan, List.forall_mem_cons]
    split
    · exact iff_of_false (List.cons_ne_nil _ _) fun unfit => by omega
    · rw [inductionHypothesis]
      exact ⟨fun unfit => ⟨by omega, unfit⟩, fun unfit => unfit.2⟩

/-! ### Room for everything -/

section Roomy

variable {items : List α} {room budget : Int} (sizes : ∀ item ∈ items, 0 ≤ size item)
  (costs : ∀ item ∈ items, 0 ≤ cost item) (roomy : (items.map cost).sum < room)

include sizes costs roomy

/-- Smallest first, no other choice within the budget has more items: the first item of another
choice is at least as large as the first item taken, and may be exchanged for it. -/
theorem scan_longest
    (ascending : items.Pairwise fun first second => size first ≤ size second) {other : List α}
    (choice : other.Sublist items) (within : (other.map size).sum ≤ budget) :
    other.length ≤ (scan size cost room budget items).length := by
  induction items generalizing room budget other with
  | nil => rw [List.sublist_nil.mp choice, List.length_nil]; exact Nat.zero_le _
  | cons item rest inductionHypothesis =>
    rw [List.forall_mem_cons] at sizes costs
    rw [List.pairwise_cons] at ascending
    rw [List.map_cons, List.sum_cons] at roomy
    have priced := sum_nonneg costs.2
    cases other with
    | nil => exact Nat.zero_le _
    | cons first others =>
      rw [List.map_cons, List.sum_cons] at within
      obtain ⟨least, tail⟩ : size item ≤ size first ∧ others.Sublist rest := by
        cases choice with
        | cons _ later =>
          exact ⟨ascending.1 first (later.subset List.mem_cons_self),
            (List.sublist_cons_self first others).trans later⟩
        | cons_cons _ later => exact ⟨le_refl _, later⟩
      have sized := sum_nonneg fun other chosen => sizes.2 other (tail.subset chosen)
      rw [scan, if_pos (by omega), List.length_cons, List.length_cons]
      refine Nat.succ_le_succ (inductionHypothesis sizes.2 costs.2 ?_ ascending.2 tail ?_)
      · omega
      · omega

/-- Largest first, an item left out that is within the budget comes after one taken that is at
least as large. -/
theorem scan_covers
    (descending : items.Pairwise fun first second => size second ≤ size first) {item : α}
    (member : item ∈ items) (within : size item ≤ budget)
    (left : item ∉ scan size cost room budget items) :
    size item ≤ ((scan size cost room budget items).map size).sum := by
  induction items generalizing room budget with
  | nil => cases member
  | cons head rest inductionHypothesis =>
    rw [List.forall_mem_cons] at sizes costs
    rw [List.pairwise_cons] at descending
    rw [List.map_cons, List.sum_cons] at roomy
    have priced := sum_nonneg costs.2
    rw [scan] at left ⊢
    split at left
    · rename_i fits
      rw [List.mem_cons, not_or] at left
      have tail := (List.mem_cons.mp member).resolve_left left.1
      have taken : (scan size cost (room - cost head) (budget - size head) rest).Sublist rest :=
        scan_sublist ..
      have sized := sum_nonneg fun other chosen => sizes.2 other (taken.subset chosen)
      have largest := descending.1 item tail
      rw [if_pos fits, List.map_cons, List.sum_cons]
      omega
    · rename_i unfit
      rw [if_neg unfit]
      have tail : item ∈ rest := by
        refine (List.mem_cons.mp member).resolve_left fun same => unfit ?_
        rw [← same] at roomy ⊢
        omega
      exact inductionHypothesis sizes.2 costs.2 (by omega) descending.2 tail within left

/-- Largest first, everything within the budget is taken, or more than half of the budget. -/
theorem scan_half_full
    (descending : items.Pairwise fun first second => size second ≤ size first) :
    (∀ item ∈ items, size item ≤ budget → item ∈ scan size cost room budget items) ∨
      budget < 2 * ((scan size cost room budget items).map size).sum := by
  by_contra neither
  rw [not_or] at neither
  obtain ⟨missing, underfull⟩ := neither
  push Not at missing
  obtain ⟨item, member, within, left⟩ := missing
  have covered := scan_covers sizes costs roomy descending member within left
  have chosen : (scan size cost room budget items).Sublist items := scan_sublist ..
  have affordable := sum_add_le chosen costs member left
  have maximal := scan_maximal sizes costs member left
  omega

end Roomy

/-! ### Searching for the first extremum -/

section Extremum

variable (order : Int → Int → Prop) (key : α → Int)

/-- The first extremum of a list: no item in front of it has its place in the order, and it may
stand before every item behind it. -/
structure FirstBest (items : List α) (best : α) (front back : List α) : Prop where
  split : items = front ++ best :: back
  front : ∀ item ∈ front, ¬ order (key item) (key best)
  back : ∀ item ∈ back, order (key best) (key item)

variable {order key}

theorem FirstBest.mem {items front back : List α} {best : α}
    (first : FirstBest order key items best front back) : best ∈ items := by
  rw [first.split]
  exact List.mem_append_right front List.mem_cons_self

/-- The extremum stays one when other items are left out. -/
theorem FirstBest.filter {items front back : List α} {best : α}
    (first : FirstBest order key items best front back) (keep : α → Bool) (kept : keep best) :
    FirstBest order key (items.filter keep) best (front.filter keep) (back.filter keep) where
  split := by rw [first.split, List.filter_append, List.filter_cons_of_pos kept]
  front item member := first.front item (List.mem_of_mem_filter member)
  back item member := first.back item (List.mem_of_mem_filter member)

variable [DecidableRel order]

/-- Taking the first extremum out and sorting the rest is a stable sort. -/
theorem FirstBest.insertionSort {items front back : List α} {best : α}
    (first : FirstBest order key items best front back) :
    items.insertionSort (fun one other => order (key one) (key other)) =
      best :: (front ++ back).insertionSort fun one other => order (key one) (key other) := by
  obtain ⟨rfl, before, behind⟩ := first
  induction front with
  | nil => exact List.insertionSort_cons_of_forall_rel _ behind
  | cons item front inductionHypothesis =>
    rw [List.forall_mem_cons] at before
    rw [List.cons_append, List.insertionSort_cons, inductionHypothesis before.2,
      List.orderedInsert_cons, if_neg before.1, List.cons_append, List.insertionSort_cons]

/-- Remember the first item whose key stands in front of every key seen so far. -/
def better (order : Int → Int → Prop) [DecidableRel order] (key : α → Int)
    (best : Int × Option α) (item : α) : Int × Option α :=
  if order best.1 (key item) then best else (key item, some item)

variable [Std.Total order] [IsTrans Int order]

/-- One more item: it becomes the extremum, or it stands behind the one there is. -/
theorem FirstBest.step {seen front back : List α} {best : α}
    (first : FirstBest order key seen best front back) (item : α) :
    ∃ best' front' back', better order key (key best, some best) item =
        (key best', some best') ∧ FirstBest order key (seen ++ [item]) best' front' back' := by
  obtain ⟨rfl, before, behind⟩ := first
  by_cases stays : order (key best) (key item)
  · refine ⟨best, front, back ++ [item], if_pos stays, ⟨by simp, before, ?_⟩⟩
    intro other member
    rcases List.mem_append.mp member with old | new
    · exact behind other old
    · rw [List.mem_singleton.mp new]
      exact stays
  · have improves : order (key item) (key best) := (Std.Total.total _ _).resolve_left stays
    refine ⟨item, front ++ best :: back, [], if_neg stays, ⟨rfl, ?_, by simp⟩⟩
    intro other member comes
    rcases List.mem_append.mp member with ahead | rest
    · exact before other ahead (IsTrans.trans _ _ _ comes improves)
    · rcases List.mem_cons.mp rest with rfl | after
      · exact stays comes
      · exact stays (IsTrans.trans _ _ _ (behind other after) comes)

/-- The search, started with an extremum of what it has seen, ends with one of everything. -/
theorem FirstBest.foldl {seen front back : List α} {best : α}
    (first : FirstBest order key seen best front back) (rest : List α) :
    ∃ best' front' back', rest.foldl (better order key) (key best, some best) =
        (key best', some best') ∧ FirstBest order key (seen ++ rest) best' front' back' := by
  induction rest generalizing seen best front back with
  | nil => exact ⟨best, front, back, rfl, by rwa [List.append_nil]⟩
  | cons item rest inductionHypothesis =>
    obtain ⟨best', front', back', stepped, next⟩ := first.step item
    obtain ⟨last, front'', back'', folded, holds⟩ := inductionHypothesis next
    refine ⟨last, front'', back'', ?_, by rwa [List.append_assoc] at holds⟩
    rw [List.foldl_cons, stepped, folded]

/-- A search that starts with a key in front of which every item has its place finds the first
extremum of a list that is not empty. -/
theorem exists_firstBest {items : List α} (nonempty : items ≠ []) {start : Int}
    (sentinel : ∀ item ∈ items, ¬ order start (key item)) :
    ∃ best front back, (items.foldl (better order key) (start, none)).2 = some best ∧
      FirstBest order key items best front back := by
  cases items with
  | nil => exact absurd rfl nonempty
  | cons item rest =>
    have single : FirstBest order key [item] item [] [] := ⟨rfl, by simp, by simp⟩
    obtain ⟨best, front, back, folded, first⟩ := single.foldl rest
    refine ⟨best, front, back, ?_, first⟩
    rw [List.foldl_cons, better, if_neg (sentinel item List.mem_cons_self), folded]

end Extremum

end Greedy
