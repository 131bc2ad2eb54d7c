/-
This file is about the rules that pick by thread count.

They search the shrinking copy of the table for an extremum in every round. That visits the apps
in the order of a stable sort, so each of these rules is one greedy pass over the sorted keys.
When memory does not bind, fewest threads first starts as many apps as any choice could, and most
threads first starts everything that fits at all, or more than half of the idle CPUs.
-/

import ClusterJobs.Selection
import Mathlib.Algebra.BigOperators.Group.Finset.Basic

namespace ClusterJobs

open Python

variable {machine : Machine} {table : StatsTable} {threads ram : Text → Int} {sample : Sample}
  {runninglist : List Text}

/-! ### One pass over the sorted keys -/

/-- The keys of the copy, in the order in which it is iterated over, that are not excluded. -/
def candidates (sample : Sample) (table : StatsTable) (excluded : List Text) : List Text :=
  (deepcopy sample.order table).keys.filter fun app => app ∉ excluded

theorem mem_candidates_iff {excluded : List Text} {app : Text} :
    app ∈ candidates sample table excluded ↔ app ∈ table ∧ app ∉ excluded := by
  rw [candidates, List.mem_filter, decide_eq_true_eq]
  exact and_congr_left fun _ => mem_deepcopy_iff ..

theorem candidates_nodup (sample : Sample) (table : StatsTable) (excluded : List Text) :
    (candidates sample table excluded).Nodup :=
  (AList.keys_nodup _).filter _

theorem candidates_nil : candidates sample table [] = (deepcopy sample.order table).keys := by
  rw [candidates, List.filter_eq_self]
  simp

/-- The apps sorted by thread count, those with equal counts in the order they had. -/
structure StablySorted (before : Int → Int → Prop) (threads : Text → Int)
    (apps sorted : List Text) : Prop where
  perm : sorted.Perm apps
  ordered : sorted.Pairwise fun one other => before (threads one) (threads other)
  stable : ∀ count, sorted.filter (fun app => threads app = count) =
    apps.filter fun app => threads app = count

theorem stablySorted_insertionSort (before : Int → Int → Prop) [DecidableRel before]
    [Std.Refl before] [Std.Total before] [IsTrans Int before] (threads : Text → Int)
    (apps : List Text) :
    StablySorted before threads apps
      (apps.insertionSort fun one other => before (threads one) (threads other)) := by
  have total : Std.Total fun one other => before (threads one) (threads other) :=
    ⟨fun _ _ => Std.Total.total _ _⟩
  have trans : IsTrans Text fun one other => before (threads one) (threads other) :=
    ⟨fun _ _ _ => IsTrans.trans _ _ _⟩
  have perm := apps.perm_insertionSort fun one other => before (threads one) (threads other)
  refine ⟨perm, List.pairwise_insertionSort _ _, fun count => ?_⟩
  -- Apps with equal counts are in order already, so they are found in the sorted list as they are.
  have inOrder : (apps.filter fun app => threads app = count).Pairwise
      fun one other => before (threads one) (threads other) := by
    refine List.pairwise_of_forall_mem_list fun one member other member' => ?_
    have sameOne : threads one = count := by simpa using (List.mem_filter.mp member).2
    have sameOther : threads other = count := by simpa using (List.mem_filter.mp member').2
    rw [sameOne, sameOther]
    exact Std.Refl.refl count
  have kept := (List.sublist_insertionSort inOrder List.filter_sublist).filter
    fun app => decide (threads app = count)
  simp only [List.filter_filter, Bool.and_self] at kept
  exact (kept.eq_of_length (perm.filter _).length_eq.symm).symm

/-- Fewest threads first. -/
def fewestFirst (threads : Text → Int) (apps : List Text) : List Text :=
  apps.insertionSort fun one other => threads one ≤ threads other

/-- Most threads first. -/
def mostFirst (threads : Text → Int) (apps : List Text) : List Text :=
  apps.insertionSort fun one other => threads one ≥ threads other

theorem stablySorted_fewestFirst (threads : Text → Int) (apps : List Text) :
    StablySorted (· ≤ ·) threads apps (fewestFirst threads apps) :=
  stablySorted_insertionSort (· ≤ ·) threads apps

theorem stablySorted_mostFirst (threads : Text → Int) (apps : List Text) :
    StablySorted (· ≥ ·) threads apps (mostFirst threads apps) :=
  stablySorted_insertionSort (· ≥ ·) threads apps

section Sorted

variable (measured : Measured machine table threads ram)
  (positive : ∀ app ∈ table, 1 ≤ threads app)

include measured positive

/-- A rule whose search visits the copy in sorted order scans its candidates in that order. -/
theorem rule_eq_scan_sorted (name : RuleName) (runninglist : List Text)
    (before : Int → Int → Prop) [DecidableRel before]
    (visits : ∃ order, Picks (name.nextApp machine) (deepcopy sample.order table) order ∧
      ∀ keep : Text → Bool, order.filter keep =
        ((deepcopy sample.order table).keys.filter keep).insertionSort
          fun one other => before (threads one) (threads other)) :
    name.rule machine sample table runninglist =
      .ok (Greedy.scan threads ram (machine.memTotal.getD 0) (name.budget machine sample)
        ((candidates sample table (name.excluded runninglist)).insertionSort
          fun one other => before (threads one) (threads other))) := by
  obtain ⟨order, picks, sorted⟩ := visits
  rw [rule_eq_scan measured positive picks runninglist, sorted]
  rfl

/-- `rule3` scans all apps with the fewest threads first. -/
theorem rule3_eq_scan (below : ∀ app ∈ table, threads app < 1000000) :
    rule3 machine sample table runninglist =
      .ok (Greedy.scan threads ram (machine.memTotal.getD 0) (machine.cpuCount * 2)
        (fewestFirst threads (deepcopy sample.order table).keys)) := by
  rw [← candidates_nil]
  exact rule_eq_scan_sorted measured positive .rule3 runninglist (· ≤ ·)
    (minThreads_picks (measured.deepcopy sample.order).threads
      fun app member => below app ((mem_deepcopy_iff ..).mp member))

/-- `rule4` scans the apps that do not run in the same order. -/
theorem rule4_eq_scan (below : ∀ app ∈ table, threads app < 1000000) :
    rule4 machine sample table runninglist =
      .ok (Greedy.scan threads ram (machine.memTotal.getD 0) (idleBudget machine sample)
        (fewestFirst threads (candidates sample table runninglist))) :=
  rule_eq_scan_sorted measured positive .rule4 runninglist (· ≤ ·)
    (minThreads_picks (measured.deepcopy sample.order).threads
      fun app member => below app ((mem_deepcopy_iff ..).mp member))

/-- `rule6` scans them with the most threads first. -/
theorem rule6_eq_scan :
    rule6 machine sample table runninglist =
      .ok (Greedy.scan threads ram (machine.memTotal.getD 0) (idleBudget machine sample)
        (mostFirst threads (candidates sample table runninglist))) :=
  rule_eq_scan_sorted measured positive .rule6 runninglist (· ≥ ·)
    (maxThreads_picks (measured.deepcopy sample.order).threads
      fun app member => positive app ((mem_deepcopy_iff ..).mp member))

end Sorted

/-- The rules that pick by thread count are one greedy pass over the candidates, stably sorted;
so what they return is sorted, and the search for an extremum never comes back without one. -/
theorem thread_rules_scan_sorted (machine : Machine) (sample : Sample) (runninglist : List Text)
    (measured : Measured machine table threads ram)
    (counts : ∀ app ∈ table, 1 ≤ threads app ∧ threads app < 1000000) :
    (∀ apps, StablySorted (· ≤ ·) threads apps (fewestFirst threads apps) ∧
      StablySorted (· ≥ ·) threads apps (mostFirst threads apps)) ∧
    rule3 machine sample table runninglist = .ok (Greedy.scan threads ram
      (machine.memTotal.getD 0) (machine.cpuCount * 2)
      (fewestFirst threads (deepcopy sample.order table).keys)) ∧
    rule4 machine sample table runninglist = .ok (Greedy.scan threads ram
      (machine.memTotal.getD 0) (idleBudget machine sample)
      (fewestFirst threads (candidates sample table runninglist))) ∧
    rule6 machine sample table runninglist = .ok (Greedy.scan threads ram
      (machine.memTotal.getD 0) (idleBudget machine sample)
      (mostFirst threads (candidates sample table runninglist))) ∧
    (∀ plan, rule3 machine sample table runninglist = .ok plan ∨
      rule4 machine sample table runninglist = .ok plan →
        plan.Pairwise fun one other => threads one ≤ threads other) ∧
    (∀ plan, rule6 machine sample table runninglist = .ok plan →
      plan.Pairwise fun one other => threads one ≥ threads other) ∧
    ∀ rest : StatsTable, (∀ app ∈ rest, app ∈ table) → rest.keys ≠ [] →
      (∃ app ∈ rest, getAppWithMinThreads machine rest = .ok (some app)) ∧
      ∃ app ∈ rest, getAppWithMaxThreads machine rest = .ok (some app) := by
  have positive : ∀ app ∈ table, 1 ≤ threads app := fun app member => (counts app member).1
  have below : ∀ app ∈ table, threads app < 1000000 := fun app member => (counts app member).2
  have third : rule3 machine sample table runninglist = _ :=
    rule3_eq_scan measured positive below
  have fourth : rule4 machine sample table runninglist = _ :=
    rule4_eq_scan measured positive below
  have sixth : rule6 machine sample table runninglist = _ := rule6_eq_scan measured positive
  refine ⟨fun apps => ⟨stablySorted_fewestFirst threads apps, stablySorted_mostFirst threads apps⟩,
    third, fourth, sixth, fun plan ruled => ?_, fun plan ruled => ?_, fun rest known nonempty => ?_⟩
  · rcases ruled with ruled | ruled
    · cases third.symm.trans ruled
      exact (stablySorted_fewestFirst threads _).ordered.sublist (Greedy.scan_sublist ..)
    · cases fourth.symm.trans ruled
      exact (stablySorted_fewestFirst threads _).ordered.sublist (Greedy.scan_sublist ..)
  · cases sixth.symm.trans ruled
    exact (stablySorted_mostFirst threads _).ordered.sublist (Greedy.scan_sublist ..)
  · have threadsOf : ∀ app ∈ rest, machine.threads app = .ok (threads app) :=
      fun app member => measured.threads app (known app member)
    obtain ⟨least, _, _, fewest, first⟩ := getAppWithMinThreads_first threadsOf nonempty
      fun app member => below app (known app member)
    obtain ⟨greatest, _, _, most, first'⟩ := getAppWithMaxThreads_first threadsOf nonempty
      fun app member => positive app (known app member)
    exact ⟨⟨least, first.mem, fewest⟩, greatest, first'.mem, most⟩

/-- One CPU, memory for both apps of the pair; `a` has two threads and `b` has one. -/
def unevenMachine : Machine := ⟨some 50000, 1, fun app => .ok (if app = "a".toList then 2 else 1)⟩

/-- The thread counts of the pair. -/
def unevenThreads (app : Text) : Int := if app = "a".toList then 2 else 1

theorem unevenThreads_range (app : Text) : 1 ≤ unevenThreads app ∧ unevenThreads app < 1000000 := by
  unfold unevenThreads
  split <;> decide

theorem pairTable_uneven : Measured unevenMachine pairTable unevenThreads fun _ => 22228 where
  threads _ _ := rfl
  ram := pairTable_measured.ram

/-- Of the pair, `b` comes first. -/
theorem thread_rules_scan_sorted_sample :
    rule3 unevenMachine {} pairTable [] =
      .ok (Greedy.scan unevenThreads (fun _ => 22228) 50000 2 ["b".toList, "a".toList]) := by
  have sorted := (thread_rules_scan_sorted unevenMachine {} [] pairTable_uneven
    fun app _ => unevenThreads_range app).2.1
  have order : fewestFirst unevenThreads (deepcopy [] pairTable).keys =
      ["b".toList, "a".toList] := by decide +kernel
  rw [← order]
  exact sorted

/-! ### When memory does not bind -/

section Roomy

variable (sizes : ∀ app ∈ table, 0 ≤ ram app)
  (roomy : (table.keys.map ram).sum < machine.memTotal.getD 0)

include sizes roomy

/-- The candidates in any order fit into the memory together. -/
theorem candidates_roomy {excluded sorted : List Text}
    (perm : sorted.Perm (candidates sample table excluded)) :
    (∀ app ∈ sorted, 0 ≤ ram app) ∧ (sorted.map ram).sum < machine.memTotal.getD 0 := by
  have subset : sorted.Subperm table.keys := by
    refine List.subperm_of_subset (perm.nodup_iff.mpr (candidates_nodup ..)) fun app member => ?_
    exact (mem_candidates_iff.mp (perm.subset member)).1
  refine ⟨fun app member => sizes app (subset.subset member), ?_⟩
  obtain ⟨part, same, sublist⟩ := subset
  rw [← (same.map ram).sum_eq]
  refine lt_of_le_of_lt ((sublist.map ram).sum_le_sum fun value found => ?_) roomy
  obtain ⟨app, member, rfl⟩ := List.mem_map.mp found
  exact sizes app member

/-- Fewest threads first, no set of candidates within the budget has more members. -/
theorem card_le_scan_fewestFirst {excluded : List Text} {budget : Int}
    (positive : ∀ app ∈ table, 1 ≤ threads app) (apps : Finset Text)
    (candidate : ∀ app ∈ apps, app ∈ table ∧ app ∉ excluded)
    (within : ∑ app ∈ apps, threads app ≤ budget) :
    apps.card ≤ (Greedy.scan threads ram (machine.memTotal.getD 0) budget
      (fewestFirst threads (candidates sample table excluded))).length := by
  have sorted := stablySorted_fewestFirst threads (candidates sample table excluded)
  have nodup := sorted.perm.nodup_iff.mpr (candidates_nodup sample table excluded)
  obtain ⟨priced, fits⟩ := candidates_roomy sizes roomy sorted.perm
  have counted : ∀ app ∈ fewestFirst threads (candidates sample table excluded),
      0 ≤ threads app := by
    intro app member
    have := positive app (mem_candidates_iff.mp (sorted.perm.subset member)).1
    omega
  -- The set as a sublist of the sorted candidates.
  let choice := (fewestFirst threads (candidates sample table excluded)).filter (· ∈ apps)
  have same : choice.toFinset = apps := by
    ext app
    rw [List.mem_toFinset, List.mem_filter, sorted.perm.mem_iff, mem_candidates_iff,
      decide_eq_true_eq]
    exact ⟨fun both => both.2, fun member => ⟨candidate app member, member⟩⟩
  have distinct : choice.Nodup := nodup.filter _
  rw [← same, List.toFinset_card_of_nodup distinct]
  rw [← same, List.sum_toFinset _ distinct] at within
  exact Greedy.scan_longest counted priced fits sorted.ordered List.filter_sublist within

end Roomy

/-- Fewest threads first starts as many apps as any set within the threads could: `rule3` among
all apps, `rule4` among those that do not run. -/
theorem fewest_threads_first_optimal (machine : Machine) (sample : Sample)
    (runninglist : List Text) (measured : Measured machine table threads ram)
    (counts : ∀ app ∈ table, 1 ≤ threads app ∧ threads app < 1000000)
    (sizes : ∀ app ∈ table, 0 ≤ ram app)
    (roomy : (table.keys.map ram).sum < machine.memTotal.getD 0) :
    (∃ plan, rule3 machine sample table runninglist = .ok plan ∧
      ∀ apps : Finset Text, (∀ app ∈ apps, app ∈ table) →
        ∑ app ∈ apps, threads app ≤ machine.cpuCount * 2 → apps.card ≤ plan.length) ∧
    ∃ plan, rule4 machine sample table runninglist = .ok plan ∧
      ∀ apps : Finset Text, (∀ app ∈ apps, app ∈ table ∧ app ∉ runninglist) →
        ∑ app ∈ apps, threads app ≤ idleBudget machine sample → apps.card ≤ plan.length := by
  have positive : ∀ app ∈ table, 1 ≤ threads app := fun app member => (counts app member).1
  have below : ∀ app ∈ table, threads app < 1000000 := fun app member => (counts app member).2
  refine ⟨⟨_, rule3_eq_scan measured positive below, fun apps known within => ?_⟩,
    ⟨_, rule4_eq_scan measured positive below, fun apps known within => ?_⟩⟩
  · rw [← candidates_nil]
    refine card_le_scan_fewestFirst sizes roomy positive apps (fun app member => ?_) within
    exact ⟨known app member, List.not_mem_nil⟩
  · exact card_le_scan_fewestFirst sizes roomy positive apps known within

/-- The pair has room for both, and `rule3` starts one of them, as any choice within two threads
does. -/
theorem fewest_threads_first_optimal_sample :
    ∃ plan, rule3 unevenMachine {} pairTable [] = .ok plan ∧
      ∀ apps : Finset Text, (∀ app ∈ apps, app ∈ pairTable) →
        ∑ app ∈ apps, unevenThreads app ≤ 2 → apps.card ≤ plan.length :=
  (fewest_threads_first_optimal unevenMachine {} [] pairTable_uneven
    (fun app _ => unevenThreads_range app) (fun _ _ => by decide) (by decide +kernel)).1

/-- Most threads first starts every app outside the running list that is within the idle CPUs, or
takes more than half of them. -/
theorem most_threads_first_half_full (machine : Machine) (sample : Sample)
    (runninglist : List Text) (measured : Measured machine table threads ram)
    (positive : ∀ app ∈ table, 1 ≤ threads app) (sizes : ∀ app ∈ table, 0 ≤ ram app)
    (roomy : (table.keys.map ram).sum < machine.memTotal.getD 0) :
    ∃ plan, rule6 machine sample table runninglist = .ok plan ∧
      ((∀ app ∈ table, app ∉ runninglist → threads app ≤ idleBudget machine sample →
          app ∈ plan) ∨
        idleBudget machine sample < 2 * (plan.map threads).sum) := by
  have sorted := stablySorted_mostFirst threads (candidates sample table runninglist)
  obtain ⟨priced, fits⟩ := candidates_roomy sizes roomy sorted.perm
  have counted : ∀ app ∈ mostFirst threads (candidates sample table runninglist),
      0 ≤ threads app := by
    intro app member
    have := positive app (mem_candidates_iff.mp (sorted.perm.subset member)).1
    omega
  refine ⟨_, rule6_eq_scan measured positive, ?_⟩
  refine (Greedy.scan_half_full counted priced fits sorted.ordered).imp_left
    fun taken app known outside small => taken app ?_ small
  exact sorted.perm.symm.subset (mem_candidates_iff.mpr ⟨known, outside⟩)

/-- One idle CPU is taken by `b`; `a` is too large for it. -/
theorem most_threads_first_half_full_sample :
    idleBudget unevenMachine { idle := 999 / 10 } = 1 ∧
      ∃ plan, rule6 unevenMachine { idle := 999 / 10 } pairTable [] = .ok plan ∧
        ((∀ app ∈ pairTable, app ∉ ([] : List Text) →
            unevenThreads app ≤ idleBudget unevenMachine { idle := 999 / 10 } → app ∈ plan) ∨
          idleBudget unevenMachine { idle := 999 / 10 } < 2 * (plan.map unevenThreads).sum) :=
  ⟨by decide +kernel, most_threads_first_half_full unevenMachine { idle := 999 / 10 } []
    pairTable_uneven (fun app _ => (unevenThreads_range app).1) (fun _ _ => by decide)
    (by decide +kernel)⟩

end ClusterJobs
