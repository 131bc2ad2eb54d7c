/-
This file asks in which order `rule1` and `rule2` consider the apps.

They are to take the app with the fewest cache misses first. `get_app_with_min_cache_misses`
remembers the key it has found and forgets its count: every key is compared with the first one,
and the last key below the first one is returned, whether or not it has the fewest misses. So the
keys below the first one are considered from the last to the first, then the first one itself, and
then the others in the same manner.

That is an order by the number of misses exactly when the keys do not lie in one particular way:
two keys in the wrong order behind a key above both, and no key before that one which would have
separated them.
-/

import ClusterJobs.Selection

namespace ClusterJobs

open Python

/-! ### Always the last item below the first -/

section Considered

variable {α : Type} (key : α → Int)

/-- The items below the first one, and the others. -/
def below (first : α) (rest : List α) : List α := rest.filter fun item => key item < key first

@[inherit_doc below]
def notBelow (first : α) (rest : List α) : List α := rest.filter fun item => key first ≤ key item

/-- The items in the order in which they are taken when the last item below the first one goes
first, and the first one itself when none is below it. -/
def considered : List α → List α
  | [] => []
  | first :: rest => (below key first rest).reverse ++ first :: considered (notBelow key first rest)
termination_by items => items.length
decreasing_by exact Nat.lt_succ_of_le (List.length_filter_le _ _)

/-- No two items in ascending order stand behind an item above both, unless an item before that
one is above the lower of the two and not above the other. -/
def Unmixed (items : List α) : Prop :=
  ∀ front top back, items = front ++ top :: back → ∀ low middle, [low, middle].Sublist back →
    key low < key middle → key middle < key top →
      ∃ item ∈ front, key low < key item ∧ key item ≤ key middle

variable {key} {first item : α} {rest : List α}

theorem mem_below_iff : item ∈ below key first rest ↔ item ∈ rest ∧ key item < key first := by
  rw [below, List.mem_filter, decide_eq_true_eq]

theorem mem_notBelow_iff :
    item ∈ notBelow key first rest ↔ item ∈ rest ∧ key first ≤ key item := by
  rw [notBelow, List.mem_filter, decide_eq_true_eq]

theorem below_perm (first : α) (rest : List α) :
    (below key first rest ++ notBelow key first rest).Perm rest := by
  have parts := List.filter_append_perm (fun item => decide (key item < key first)) rest
  have others : (rest.filter fun item => !decide (key item < key first)) =
      notBelow key first rest := by
    refine List.filter_congr fun item _ => ?_
    rw [← decide_not]
    exact decide_eq_decide.mpr Int.not_lt
  rwa [others] at parts

theorem considered_perm (items : List α) : (considered key items).Perm items := by
  induction items using considered.induct key with
  | case1 => rw [considered]
  | case2 first rest inductionHypothesis =>
    rw [considered]
    exact ((List.reverse_perm _).append (inductionHypothesis.cons first)).trans
      (List.perm_middle.trans ((below_perm first rest).cons first))

/-- The first item cuts the question in two. -/
theorem unmixed_cons_iff (first : α) (rest : List α) :
    Unmixed key (first :: rest) ↔
      (below key first rest).Pairwise (fun one other => key other ≤ key one) ∧
        Unmixed key (notBelow key first rest) := by
  constructor
  · intro unmixed
    constructor
    · refine List.pairwise_iff_forall_sublist.mpr fun {low middle} sublist => ?_
      by_contra ascending
      have under := mem_below_iff.mp (sublist.subset (List.mem_cons_of_mem _ List.mem_cons_self))
      obtain ⟨item, member, -⟩ := unmixed [] first rest rfl low middle
        (sublist.trans List.filter_sublist) (Int.not_le.mp ascending) under.2
      cases member
    · intro front top back split low middle sublist ascending under
      obtain ⟨before, tail, rfl, rfl, tailSplit⟩ := List.filter_eq_append_iff.mp split
      obtain ⟨between, after, rfl, skipped, -, rfl⟩ := List.filter_eq_cons_iff.mp tailSplit
      have above := (mem_notBelow_iff.mp (sublist.subset List.mem_cons_self)).2
      obtain ⟨item, member, more, less⟩ := unmixed (first :: before ++ between) top after
        (by simp) low middle (sublist.trans List.filter_sublist) ascending under
      have reaches : key first ≤ key item := above.trans more.le
      refine ⟨item, List.mem_filter.mpr ⟨?_, decide_eq_true reaches⟩, more, less⟩
      rcases List.mem_append.mp member with here | there
      · rcases List.mem_cons.mp here with rfl | earlier
        · omega
        · exact earlier
      · exact absurd (decide_eq_true reaches) (skipped item there)
  · rintro ⟨descending, unmixed⟩ front top back split low middle sublist ascending under
    -- Two items below the first one descend.
    have apart : [low, middle].Sublist rest → key first ≤ key middle := by
      intro inside
      by_contra lower
      have kept : [low, middle].Sublist (below key first rest) := by
        have filtered := inside.filter fun item => key item < key first
        simpa [below, ascending.trans (Int.not_le.mp lower), Int.not_le.mp lower] using filtered
      have := List.pairwise_iff_forall_sublist.mp descending kept
      omega
    cases front with
    | nil =>
      obtain ⟨rfl, rfl⟩ := List.cons.inj split
      exact absurd under (Int.not_lt.mpr (apart sublist))
    | cons head front =>
      obtain ⟨rfl, tail⟩ := List.cons.inj split
      have shape : rest = front ++ top :: back := tail
      have inside : [low, middle].Sublist rest := by
        rw [shape]
        exact sublist.trans
          ((List.sublist_cons_self top back).trans (List.sublist_append_right front _))
      by_cases lower : key low < key first
      · exact ⟨first, List.mem_cons_self, lower, apart inside⟩
      · have reachesLow : key first ≤ key low := Int.not_lt.mp lower
        have reachesMiddle : key first ≤ key middle := reachesLow.trans ascending.le
        have reachesTop : key first ≤ key top := reachesMiddle.trans under.le
        have kept : [low, middle].Sublist (notBelow key first back) := by
          have filtered := sublist.filter fun item => key first ≤ key item
          simpa [notBelow, reachesLow, reachesMiddle] using filtered
        have cut : notBelow key first rest =
            notBelow key first front ++ top :: notBelow key first back := by
          rw [shape, notBelow, List.filter_append,
            List.filter_cons_of_pos (by simpa using reachesTop)]
          rfl
        obtain ⟨item, member, bounds⟩ := unmixed _ top _ cut low middle kept ascending under
        exact ⟨item, List.mem_cons_of_mem _ (List.mem_of_mem_filter member), bounds⟩

/-- When the order in which the items are taken ascends. -/
theorem considered_ascends_iff (items : List α) :
    (considered key items).Pairwise (fun one other => key one ≤ key other) ↔
      Unmixed key items := by
  induction items using considered.induct key with
  | case1 =>
    rw [considered]
    refine iff_of_true List.Pairwise.nil fun front top back split => ?_
    exact absurd split.symm (by simp)
  | case2 first rest inductionHypothesis =>
    have above : ∀ item ∈ considered key (notBelow key first rest), key first ≤ key item :=
      fun item member => (mem_notBelow_iff.mp ((considered_perm _).subset member)).2
    have lower : ∀ item ∈ (below key first rest).reverse, key item < key first :=
      fun item member => (mem_below_iff.mp (List.mem_reverse.mp member)).2
    rw [considered, unmixed_cons_iff, List.pairwise_append, List.pairwise_cons,
      inductionHypothesis, List.pairwise_reverse]
    constructor
    · intro ⟨descending, ⟨_, unmixed⟩, _⟩
      exact ⟨descending, unmixed⟩
    · intro ⟨descending, unmixed⟩
      refine ⟨descending, ⟨above, unmixed⟩, fun item member other found => ?_⟩
      rcases List.mem_cons.mp found with rfl | later
      · exact (lower item member).le
      · exact (lower item member).le.trans (above other later)

/-- Taking the last item below the first one. -/
theorem considered_split {front back : List α} (first : α) {last : α}
    (lower : key last < key first) (above : ∀ item ∈ back, key first ≤ key item) :
    considered key (first :: (front ++ last :: back)) =
      last :: considered key (first :: (front ++ back)) := by
  have none : below key first back = [] := by
    refine List.filter_eq_nil_iff.mpr fun item member => ?_
    simpa using above item member
  have taken : below key first (front ++ last :: back) =
      below key first (front ++ back) ++ [last] := by
    simp only [below, List.filter_append] at none ⊢
    rw [List.filter_cons_of_pos (by simpa using lower), none, List.append_nil]
  have others : notBelow key first (front ++ last :: back) =
      notBelow key first (front ++ back) := by
    simp only [notBelow, List.filter_append]
    rw [List.filter_cons_of_neg (by simpa using lower)]
  rw [considered, considered, taken, others, List.reverse_append, List.reverse_singleton,
    List.singleton_append, List.cons_append]

/-- Taking the first item when none is below it. -/
theorem considered_first {rest : List α} (first : α) (above : ∀ item ∈ rest, key first ≤ key item) :
    considered key (first :: rest) = first :: considered key rest := by
  have none : below key first rest = [] := by
    refine List.filter_eq_nil_iff.mpr fun item member => ?_
    simpa using above item member
  have others : notBelow key first rest = rest := by
    refine List.filter_eq_self.mpr fun item member => ?_
    simpa using above item member
  rw [considered, none, others, List.reverse_nil, List.nil_append]

/-- A search that compares every item with the same bound ends at the last one below it. -/
theorem foldl_below (bound : Int) (items : List α) (start : α) :
    (∀ item ∈ items, bound ≤ key item) ∧ items.foldl (fun best item =>
        if key item < bound then item else best) start = start ∨
      ∃ front last back, items = front ++ last :: back ∧ key last < bound ∧
        (∀ item ∈ back, bound ≤ key item) ∧ items.foldl (fun best item =>
          if key item < bound then item else best) start = last := by
  induction items generalizing start with
  | nil => exact .inl ⟨fun _ member => absurd member List.not_mem_nil, rfl⟩
  | cons head items inductionHypothesis =>
    rw [List.foldl_cons]
    by_cases lower : key head < bound
    · rw [if_pos lower]
      rcases inductionHypothesis head with ⟨above, same⟩ | ⟨front, last, back, rfl, rest⟩
      · exact .inr ⟨[], head, items, rfl, lower, above, same⟩
      · exact .inr ⟨head :: front, last, back, rfl, rest⟩
    · rw [if_neg lower]
      rcases inductionHypothesis start with ⟨above, same⟩ | ⟨front, last, back, rfl, rest⟩
      · exact .inl ⟨List.forall_mem_cons.mpr ⟨Int.not_lt.mp lower, above⟩, same⟩
      · exact .inr ⟨head :: front, last, back, rfl, rest⟩

end Considered

/-! ### The order of `rule1` and `rule2` -/

variable {machine : Machine} {table : StatsTable} {threads ram misses : Text → Int}
  {pick : StatsTable → Except PyError (Option Text)}

/-- The order of the picks is determined by the table. -/
theorem Picks.unique {order order' : List Text} (picks : Picks pick table order)
    (picks' : Picks pick table order') : order = order' := by
  induction picks generalizing order' with
  | nil empty =>
    cases picks' with
    | nil _ => rfl
    | cons _ member _ =>
      rw [AList.mem_keys, empty] at member
      cases member
  | cons picked member _ inductionHypothesis =>
    cases picks' with
    | nil empty =>
      rw [AList.mem_keys, empty] at member
      cases member
    | cons picked' _ rest' =>
      rw [picked] at picked'
      cases picked'
      rw [inductionHypothesis rest']

/-- What `get_app_with_min_cache_misses` picks from a table, one app after the other. -/
theorem picks_considered (counted : Counted table misses) :
    Picks getAppWithMinCacheMisses table (considered misses table.keys) := by
  induction size : table.keys.length generalizing table with
  | zero =>
    have empty := List.length_eq_zero_iff.mp size
    rw [empty, considered]
    exact .nil empty
  | succ count inductionHypothesis =>
    obtain ⟨first, rest, keys⟩ := List.exists_cons_of_length_eq_add_one size
    have picked := getAppWithMinCacheMisses_eq counted keys
    have popped : ∀ {app : Text} {front back : List Text}, table.keys = front ++ app :: back →
        Picks getAppWithMinCacheMisses (table.erase app) (considered misses (front ++ back)) := by
      intro app front back split
      have shorter : (table.erase app).keys.length = count := by
        rw [split] at size
        rw [keys_erase_split split]
        simp only [List.length_append, List.length_cons] at size ⊢
        omega
      rw [← keys_erase_split split]
      exact inductionHypothesis (counted.erase app) shorter
    have member : ∀ {app : Text} {front back : List Text}, table.keys = front ++ app :: back →
        app ∈ table := by
      intro app front back split
      show app ∈ table.keys
      rw [split]
      exact List.mem_append_right _ List.mem_cons_self
    rw [keys, List.foldl_cons, if_neg (lt_irrefl _)] at picked
    rcases foldl_below (misses first) rest first with
      ⟨above, same⟩ | ⟨front, last, back, rfl, lower, above, same⟩
    · rw [same] at picked
      rw [keys, considered_first first above]
      have split : table.keys = [] ++ first :: rest := keys
      exact .cons picked (member split) (popped split)
    · rw [same] at picked
      rw [keys, considered_split first lower above]
      have split : table.keys = (first :: front) ++ last :: back := keys
      exact .cons picked (member split) (popped split)

/-- The apps are considered in ascending order of their cache misses; and when no two apps have the
same number of them, the rule returns the greedy scan over the apps sorted by that number, whatever
the order of the keys in the copy of the table. -/
structure FewestMissesFirst (machine : Machine) (sample : Sample) (table : StatsTable)
    (runninglist : List Text) (threads ram misses : Text → Int) (name : RuleName) : Prop where
  ascending : ∃ order, Picks (name.nextApp machine) (deepcopy sample.order table) order ∧
    order.Pairwise fun one other => misses one ≤ misses other
  sorted : (∀ app ∈ table, ∀ other ∈ table, misses app = misses other → app = other) →
    name.rule machine sample table runninglist =
      .ok (Greedy.scan threads ram (machine.memTotal.getD 0) (name.budget machine sample)
        (table.keys.insertionSort fun one other => misses one ≤ misses other))

/-- The keys of the copy are those of the table. -/
theorem keys_deepcopy_perm (order : List Text) (table : StatsTable) :
    (deepcopy order table).keys.Perm table.keys :=
  (List.perm_ext_iff_of_nodup (deepcopy order table).keys_nodup table.keys_nodup).mpr
    fun app => mem_deepcopy_iff order table app

/-- An ascending order of the keys is the sorted one when no two apps have the same number. -/
theorem eq_insertionSort_of_ascending {order : List Text} (perm : order.Perm table.keys)
    (ascending : order.Pairwise fun one other => misses one ≤ misses other)
    (distinct : ∀ app ∈ table, ∀ other ∈ table, misses app = misses other → app = other) :
    order = table.keys.insertionSort fun one other => misses one ≤ misses other := by
  have total : Std.Total fun one other : Text => misses one ≤ misses other :=
    ⟨fun one other => Int.le_total (misses one) (misses other)⟩
  have transitive : IsTrans Text fun one other => misses one ≤ misses other :=
    ⟨fun _ _ _ first second => Int.le_trans first second⟩
  have sorting := List.perm_insertionSort (fun one other => misses one ≤ misses other) table.keys
  refine List.Perm.eq_of_pairwise ?_ ascending (List.pairwise_insertionSort _ _)
    (perm.trans sorting.symm)
  intro app other known known' less more
  exact distinct app (perm.subset known) other (sorting.subset known') (Int.le_antisymm less more)

/-- `rule1` and `rule2` consider the apps by their cache misses exactly when the keys of the copy
are not mixed. -/
theorem fewest_misses_first_iff (machine : Machine) (sample : Sample) (runninglist : List Text)
    {name : RuleName} (byMisses : name = .rule1 ∨ name = .rule2)
    (measured : Measured machine table threads ram) (counted : Counted table misses) :
    FewestMissesFirst machine sample table runninglist threads ram misses name ↔
      Unmixed misses (deepcopy sample.order table).keys := by
  have picks : Picks (name.nextApp machine) (deepcopy sample.order table)
      (considered misses (deepcopy sample.order table).keys) := by
    rcases byMisses with rfl | rfl <;> exact picks_considered (counted.deepcopy sample.order)
  rw [← considered_ascends_iff]
  constructor
  · intro ⟨⟨order, picked, ascending⟩, _⟩
    rw [picks.unique picked]
    exact ascending
  · intro ascending
    refine ⟨⟨_, picks, ascending⟩, fun distinct => ?_⟩
    have perm : (considered misses (deepcopy sample.order table).keys).Perm table.keys :=
      (considered_perm _).trans (keys_deepcopy_perm sample.order table)
    have selects := selectApps_eq_scan measured picks (name.excluded runninglist)
      (name.budget machine sample)
    rw [eq_insertionSort_of_ascending perm ascending distinct] at selects
    have everyone : ∀ apps : List Text,
        (apps.filter fun app => app ∉ name.excluded runninglist) = apps := by
      intro apps
      refine List.filter_eq_self.mpr fun app _ => ?_
      rcases byMisses with rfl | rfl <;> simp [RuleName.excluded]
    rw [everyone] at selects
    rcases byMisses with rfl | rfl <;> exact selects

/-- The record of an app with a number of cache misses. -/
def missingRecord (misses : Int) : StatRecord :=
  { sampleRecord with counts := ![0, 0, 0, 0, 0, 0, misses, 0] }

/-- Three apps, with the keys in the order `a`, `b`, `c`. -/
def missesTable (a b c : Int) : StatsTable :=
  (((∅ : StatsTable).insert "c".toList (missingRecord c).entry).insert "b".toList
    (missingRecord b).entry).insert "a".toList (missingRecord a).entry

/-- The numbers of cache misses of three apps. -/
def missesOf (a b c : Int) (app : Text) : Int :=
  if app = "a".toList then a else if app = "b".toList then b else c

/-- `a` has 3 cache misses, `b` has 1 and `c` has 2, and `c` is considered first. -/
theorem fewest_misses_not_first :
    ¬ FewestMissesFirst tightMachine {} (missesTable 3 1 2) [] (fun _ => 1) (fun _ => 22228)
      (missesOf 3 1 2) .rule1 := by
  intro ⟨⟨order, picks, ascending⟩, _⟩
  cases picks with
  | nil empty => exact absurd empty (by decide +kernel)
  | @cons _ app rest picked _ later =>
    have first : getAppWithMinCacheMisses (deepcopy [] (missesTable 3 1 2)) =
        .ok (some "c".toList) := by decide +kernel
    have same := picked.symm.trans first
    cases same
    have member : "b".toList ∈ rest := later.perm.symm.subset (by decide +kernel)
    exact absurd (List.rel_of_pairwise_cons ascending member) (by decide +kernel)

/-- `a` has 2 cache misses, `b` has 1 and `c` has 3. -/
theorem fewest_misses_first_sample :
    FewestMissesFirst tightMachine {} (missesTable 2 1 3) [] (fun _ => 1) (fun _ => 22228)
      (missesOf 2 1 3) .rule1 := by
  have measured : Measured tightMachine (missesTable 2 1 3) (fun _ => 1) fun _ => 22228 :=
    ⟨fun _ _ => rfl, show ∀ app ∈ (missesTable 2 1 3).keys,
      ramOf (missesTable 2 1 3) app = .ok 22228 by decide +kernel⟩
  have counted : Counted (missesTable 2 1 3) (missesOf 2 1 3) :=
    show ∀ app ∈ (missesTable 2 1 3).keys,
      cacheMisses (missesTable 2 1 3) app = .ok (missesOf 2 1 3 app) by decide +kernel
  refine (fewest_misses_first_iff tightMachine {} [] (.inl rfl) measured counted).mpr ?_
  have keys : (deepcopy [] (missesTable 2 1 3)).keys = ["a".toList, "b".toList, "c".toList] := rfl
  have order : considered (missesOf 2 1 3) ["a".toList, "b".toList, "c".toList] =
      ["b".toList, "a".toList, "c".toList] := by
    simp [considered, below, notBelow, missesOf]
  rw [keys, ← considered_ascends_iff, order]
  decide +kernel

end ClusterJobs
