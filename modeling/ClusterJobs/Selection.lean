/-
This file shows that every rule makes a sound and maximal selection.

Whatever a rule picks first, its loop is a greedy scan over the candidates in the order in which
it picks them: `Picks` records that order, and `selectLoop_eq_scan` is the link to the general
facts about such scans.

The rules take the candidate table apart while they work. They do so on a copy: the last part
repeats the loop over dictionaries that are held by reference, where a `pop` is seen by everyone
who has the reference, and shows that it selects the same apps and leaves the table of the caller
alone.
-/

import ClusterJobs.Greedy
import ClusterJobs.Rules

namespace ClusterJobs

open Python

/-! ### What the rules measure -/

/-- The thread counts and the resident sizes that the rules read for the apps of the table. -/
structure Measured (machine : Machine) (table : StatsTable) (threads ram : Text → Int) :
    Prop where
  threads : ∀ app ∈ table, machine.threads app = .ok (threads app)
  ram : ∀ app ∈ table, ramOf table app = .ok (ram app)

/-- The numbers of cache misses that `rule1` and `rule2` read as well. -/
def Counted (table : StatsTable) (misses : Text → Int) : Prop :=
  ∀ app ∈ table, cacheMisses table app = .ok (misses app)

variable {machine : Machine} {table : StatsTable} {threads ram misses : Text → Int}
  {pick : StatsTable → Except PyError (Option Text)}

theorem lookup_erase_of_mem {app other : Text} (member : app ∈ table.erase other) :
    (table.erase other).lookup app = table.lookup app :=
  AList.lookup_erase_ne (AList.mem_erase.mp member).1

theorem Measured.erase (measured : Measured machine table threads ram) (app : Text) :
    Measured machine (table.erase app) threads ram where
  threads other member := measured.threads other (AList.mem_erase.mp member).2
  ram other member := by
    rw [ramOf_congr (lookup_erase_of_mem member)]
    exact measured.ram other (AList.mem_erase.mp member).2

theorem Measured.deepcopy (measured : Measured machine table threads ram) (order : List Text) :
    Measured machine (deepcopy order table) threads ram where
  threads app member := measured.threads app ((mem_deepcopy_iff ..).mp member)
  ram app member := by
    rw [ramOf_congr (lookup_deepcopy order table app)]
    exact measured.ram app ((mem_deepcopy_iff ..).mp member)

theorem Counted.erase (counted : Counted table misses) (app : Text) :
    Counted (table.erase app) misses := by
  intro other member
  rw [cacheMisses, statOf_congr (lookup_erase_of_mem member)]
  exact counted other (AList.mem_erase.mp member).2

theorem Counted.deepcopy (counted : Counted table misses) (order : List Text) :
    Counted (deepcopy order table) misses := by
  intro app member
  rw [cacheMisses, statOf_congr (lookup_deepcopy order table app)]
  exact counted app ((mem_deepcopy_iff ..).mp member)

/-! ### The order of the picks -/

/-- The apps that a rule picks from a table, one after the other. -/
inductive Picks (pick : StatsTable → Except PyError (Option Text)) :
    StatsTable → List Text → Prop
  | nil {table : StatsTable} : table.keys = [] → Picks pick table []
  | cons {table : StatsTable} {app : Text} {rest : List Text} : pick table = .ok (some app) →
      app ∈ table → Picks pick (table.erase app) rest → Picks pick table (app :: rest)

/-- A pop takes one key out of the keys. -/
theorem keys_erase_split {app : Text} {front back : List Text}
    (split : table.keys = front ++ app :: back) : (table.erase app).keys = front ++ back := by
  have absent : app ∉ front := by
    have distinct := split ▸ table.keys_nodup
    exact fun member => (List.nodup_append.mp distinct).2.2 app member app List.mem_cons_self rfl
  rw [AList.keys_erase, split]
  exact (@List.erase_append_right _ instBEqOfDecidableEq _ app front _ absent).trans
    (congrArg (front ++ ·) (@List.erase_cons_head _ instBEqOfDecidableEq _ app back))

theorem Picks.perm {order : List Text} (picks : Picks pick table order) :
    order.Perm table.keys := by
  induction picks with
  | nil empty => rw [empty]
  | cons picked member _ inductionHypothesis =>
    obtain ⟨front, back, split⟩ := List.append_of_mem member
    rw [keys_erase_split split] at inductionHypothesis
    rw [split]
    exact (inductionHypothesis.cons _).trans List.perm_middle.symm

/-- A rule that always picks an app of a table of some kind works through such a table. -/
theorem exists_picks (kind : StatsTable → Prop)
    (picked : ∀ table, kind table → table.keys ≠ [] → ∃ app ∈ table, pick table = .ok (some app))
    (erased : ∀ table app, kind table → kind (table.erase app)) (holds : kind table) :
    ∃ order, Picks pick table order := by
  induction size : table.keys.length generalizing table with
  | zero => exact ⟨[], .nil (List.length_eq_zero_iff.mp size)⟩
  | succ count inductionHypothesis =>
    have nonempty : table.keys ≠ [] := List.length_pos_iff.mp (by omega)
    obtain ⟨app, member, found⟩ := picked table holds nonempty
    obtain ⟨front, back, split⟩ := List.append_of_mem member
    have shorter : (table.erase app).keys.length = count := by
      rw [split] at size
      rw [keys_erase_split split]
      simp only [List.length_append, List.length_cons] at size ⊢
      omega
    obtain ⟨rest, picks⟩ := inductionHypothesis (erased table app holds) shorter
    exact ⟨app :: rest, .cons found member picks⟩

/-- A rule that always picks the first extremum works through the table in the order of a stable
sort, also when only some of the apps are looked at. -/
theorem exists_picks_sorted (before : Int → Int → Prop) [DecidableRel before] (key : Text → Int)
    (kind : StatsTable → Prop)
    (picked : ∀ table, kind table → table.keys ≠ [] → ∃ app front back,
      pick table = .ok (some app) ∧ Greedy.FirstBest before key table.keys app front back)
    (erased : ∀ table app, kind table → kind (table.erase app)) (holds : kind table) :
    ∃ order, Picks pick table order ∧ ∀ keep : Text → Bool, order.filter keep =
      (table.keys.filter keep).insertionSort fun one other => before (key one) (key other) := by
  induction size : table.keys.length generalizing table with
  | zero =>
    have empty := List.length_eq_zero_iff.mp size
    refine ⟨[], .nil empty, fun keep => ?_⟩
    rw [empty, List.filter_nil, List.insertionSort_nil]
  | succ count inductionHypothesis =>
    obtain ⟨app, front, back, found, first⟩ :=
      picked table holds (List.length_pos_iff.mp (by omega))
    have shorter : (table.erase app).keys.length = count := by
      have shortened := congrArg List.length (keys_erase_split first.split)
      rw [first.split] at size
      simp only [List.length_append, List.length_cons] at size shortened
      omega
    obtain ⟨rest, picks, sorted⟩ := inductionHypothesis (erased table app holds) shorter
    refine ⟨app :: rest, .cons found first.mem picks, fun keep => ?_⟩
    rw [keys_erase_split first.split] at sorted
    cases kept : keep app with
    | true =>
      rw [List.filter_cons_of_pos kept, sorted, (first.filter keep kept).insertionSort,
        List.filter_append]
    | false =>
      rw [List.filter_cons_of_neg (by simp [kept]), sorted, first.split, List.filter_append,
        List.filter_append, List.filter_cons_of_neg (by simp [kept])]

/-- The loop of a rule is a greedy scan over its picks outside the running list. -/
theorem selectLoop_eq_scan {runninglist order : List Text} (picks : Picks pick table order)
    (measured : Measured machine table threads ram) {fuel : Nat} (enough : order.length ≤ fuel)
    (room budget : Int) (nextRunnable : List Text) :
    selectLoop machine pick runninglist fuel table room budget nextRunnable =
      .ok (nextRunnable ++ Greedy.scan threads ram room budget
        (order.filter fun app => app ∉ runninglist)) := by
  induction picks generalizing fuel room budget nextRunnable with
  | nil empty =>
    rw [List.filter_nil, Greedy.scan, List.append_nil]
    cases fuel with
    | zero => rfl
    | succ fuel => rw [selectLoop, empty, List.length_nil, if_pos rfl]
  | @cons table app rest picked member _ inductionHypothesis =>
    cases fuel with
    | zero => cases enough
    | succ fuel =>
      have nonempty : table.keys.length ≠ 0 :=
        (List.length_pos_iff.mpr (List.ne_nil_of_mem member)).ne'
      have later := inductionHypothesis (measured.erase app) (Nat.le_of_succ_le_succ enough)
      rw [selectLoop, if_neg nonempty, picked]
      show (if app ∈ runninglist then _ else _) = _
      by_cases runs : app ∈ runninglist
      · rw [if_pos runs, later, List.filter_cons_of_neg (by simpa using runs)]
      · rw [if_neg runs, List.filter_cons_of_pos (by simpa using runs), Greedy.scan,
          measured.threads app member, measured.ram app member]
        show (if _ then _ else _) = _
        split
        · rw [later, List.append_assoc, List.singleton_append]
        · exact later room budget nextRunnable

/-! ### What the rules pick -/

/-- `get_app_with_min_cache_misses` compares every key with the first one, and the last key with
fewer misses wins. -/
theorem getAppWithMinCacheMisses_eq {first : Text} {others : List Text}
    (counted : Counted table misses) (keys : table.keys = first :: others) :
    getAppWithMinCacheMisses table = .ok (some (table.keys.foldl (fun minkey app =>
      if misses app < misses first then app else minkey) first)) := by
  have member : first ∈ table := by
    show first ∈ table.keys
    rw [keys]
    exact List.mem_cons_self
  have step : ∀ (minkey : Text), ∀ app ∈ table.keys, (do
      if (← cacheMisses table app) < misses first then pure app else pure minkey) =
        (.ok (if misses app < misses first then app else minkey) : Except PyError Text) := by
    intro minkey app known
    rw [counted app known]
    show (if misses app < misses first then _ else _) = _
    split <;> rfl
  have searched := foldlM_eq_ok step first
  rw [getAppWithMinCacheMisses]
  rw [keys] at searched ⊢
  exact bind_eq_ok_iff.mpr ⟨_, counted first member, bind_eq_ok_iff.mpr ⟨_, searched, rfl⟩⟩

/-- `get_app_with_min_cache_misses` always picks an app. -/
theorem getAppWithMinCacheMisses_picks (counted : Counted table misses)
    (nonempty : table.keys ≠ []) :
    ∃ app ∈ table, getAppWithMinCacheMisses table = .ok (some app) := by
  obtain ⟨first, others, keys⟩ := List.exists_cons_of_ne_nil nonempty
  have member : first ∈ table := by
    show first ∈ table.keys
    rw [keys]
    exact List.mem_cons_self
  have stays : ∀ (apps : List Text) (minkey : Text), (∀ app ∈ apps, app ∈ table) →
      minkey ∈ table → apps.foldl (fun minkey app =>
        if misses app < misses first then app else minkey) minkey ∈ table := by
    intro apps
    induction apps with
    | nil => exact fun minkey _ known => known
    | cons app apps inductionHypothesis =>
      intro minkey known knownKey
      rw [List.forall_mem_cons] at known
      rw [List.foldl_cons]
      refine inductionHypothesis _ known.2 ?_
      split
      · exact known.1
      · exact knownKey
  exact ⟨_, stays table.keys first (fun _ known => known) member,
    getAppWithMinCacheMisses_eq counted keys⟩

section Threads

variable (measured : ∀ app ∈ table, machine.threads app = .ok (threads app))
  (nonempty : table.keys ≠ [])

include measured nonempty

/-- `get_app_with_min_threads` finds the first app with the fewest threads. -/
theorem getAppWithMinThreads_first (below : ∀ app ∈ table, threads app < 1000000) :
    ∃ app front back, getAppWithMinThreads machine table = .ok (some app) ∧
      Greedy.FirstBest (· ≤ ·) threads table.keys app front back := by
  have step : ∀ (best : Int × Option Text), ∀ app ∈ table.keys, (do
      let thread ← machine.threads app
      if thread < best.1 then pure (thread, some app) else pure best) =
        (.ok (Greedy.better (· ≤ ·) threads best app) : Except PyError (Int × Option Text)) := by
    intro best app member
    rw [measured app member, Greedy.better]
    show (if threads app < best.1 then _ else _) = _
    by_cases fewer : threads app < best.1
    · rw [if_pos fewer, if_neg (Int.not_le.mpr fewer)]
      rfl
    · rw [if_neg fewer, if_pos (Int.not_lt.mp fewer)]
      rfl
  have sentinel : ∀ app ∈ table.keys, ¬ (1000000 : Int) ≤ threads app :=
    fun app member => Int.not_le.mpr (below app member)
  obtain ⟨app, front, back, found, first⟩ := Greedy.exists_firstBest nonempty sentinel
  refine ⟨app, front, back, ?_, first⟩
  rw [getAppWithMinThreads, foldlM_eq_ok step]
  exact congrArg Except.ok found

/-- `get_app_with_max_threads` finds the first app with the most threads. -/
theorem getAppWithMaxThreads_first (positive : ∀ app ∈ table, 0 < threads app) :
    ∃ app front back, getAppWithMaxThreads machine table = .ok (some app) ∧
      Greedy.FirstBest (· ≥ ·) threads table.keys app front back := by
  have step : ∀ (best : Int × Option Text), ∀ app ∈ table.keys, (do
      let thread ← machine.threads app
      if thread > best.1 then pure (thread, some app) else pure best) =
        (.ok (Greedy.better (· ≥ ·) threads best app) : Except PyError (Int × Option Text)) := by
    intro best app member
    rw [measured app member, Greedy.better]
    show (if threads app > best.1 then _ else _) = _
    by_cases more : threads app > best.1
    · rw [if_pos more, if_neg (Int.not_le.mpr more)]
      rfl
    · rw [if_neg more, if_pos (Int.not_lt.mp more)]
      rfl
  have sentinel : ∀ app ∈ table.keys, ¬ (-1 : Int) ≥ threads app := by
    intro app member below
    have := positive app member
    omega
  obtain ⟨app, front, back, found, first⟩ := Greedy.exists_firstBest nonempty sentinel
  refine ⟨app, front, back, ?_, first⟩
  rw [getAppWithMaxThreads, foldlM_eq_ok step]
  exact congrArg Except.ok found

end Threads

theorem minCacheMisses_picks (counted : Counted table misses) :
    ∃ order, Picks getAppWithMinCacheMisses table order := by
  refine exists_picks (fun table => Counted table misses) ?_ ?_ counted
  · exact fun table counted nonempty => getAppWithMinCacheMisses_picks counted nonempty
  · exact fun table app counted => counted.erase app

/-- Smallest thread count first. -/
theorem minThreads_picks (measured : ∀ app ∈ table, machine.threads app = .ok (threads app))
    (below : ∀ app ∈ table, threads app < 1000000) :
    ∃ order, Picks (getAppWithMinThreads machine) table order ∧
      ∀ keep : Text → Bool, order.filter keep = (table.keys.filter keep).insertionSort
        fun one other => threads one ≤ threads other := by
  refine exists_picks_sorted (· ≤ ·) threads (fun table => ∀ app ∈ table,
    machine.threads app = .ok (threads app) ∧ threads app < 1000000) ?_ ?_
    fun app member => ⟨measured app member, below app member⟩
  · intro table kind nonempty
    exact getAppWithMinThreads_first (fun app member => (kind app member).1) nonempty
      fun app member => (kind app member).2
  · exact fun table app kind other member => kind other (AList.mem_erase.mp member).2

/-- Largest thread count first. -/
theorem maxThreads_picks (measured : ∀ app ∈ table, machine.threads app = .ok (threads app))
    (positive : ∀ app ∈ table, 0 < threads app) :
    ∃ order, Picks (getAppWithMaxThreads machine) table order ∧
      ∀ keep : Text → Bool, order.filter keep = (table.keys.filter keep).insertionSort
        fun one other => threads one ≥ threads other := by
  refine exists_picks_sorted (· ≥ ·) threads (fun table => ∀ app ∈ table,
    machine.threads app = .ok (threads app) ∧ 0 < threads app) ?_ ?_
    fun app member => ⟨measured app member, positive app member⟩
  · intro table kind nonempty
    exact getAppWithMaxThreads_first (fun app member => (kind app member).1) nonempty
      fun app member => (kind app member).2
  · exact fun table app kind other member => kind other (AList.mem_erase.mp member).2

/-! ### The five rules -/

/-- The keys of `RULES`. -/
inductive RuleName
  | rule1
  | rule2
  | rule3
  | rule4
  | rule6
  deriving DecidableEq, Repr

/-- The rule of that name. -/
def RuleName.rule (machine : Machine) : RuleName → Rule
  | .rule1 => ClusterJobs.rule1 machine
  | .rule2 => ClusterJobs.rule2 machine
  | .rule3 => ClusterJobs.rule3 machine
  | .rule4 => ClusterJobs.rule4 machine
  | .rule6 => ClusterJobs.rule6 machine

/-- How the rule picks the next app. -/
def RuleName.nextApp (machine : Machine) : RuleName → StatsTable → Except PyError (Option Text)
  | .rule1 | .rule2 => getAppWithMinCacheMisses
  | .rule3 | .rule4 => getAppWithMinThreads machine
  | .rule6 => getAppWithMaxThreads machine

/-- The thread budget of the rule. -/
def RuleName.budget (machine : Machine) (sample : Sample) : RuleName → Int
  | .rule1 | .rule3 => machine.cpuCount * 2
  | .rule2 => machine.cpuCount
  | .rule4 | .rule6 => idleBudget machine sample

/-- The apps that the rule passes over. -/
def RuleName.excluded (runninglist : List Text) : RuleName → List Text
  | .rule1 | .rule2 | .rule3 => []
  | .rule4 | .rule6 => runninglist

theorem idleBudget_nonneg (machine : Machine) (sample : Sample) :
    0 ≤ idleBudget machine sample := by
  rw [idleBudget, getcpuidleperc]
  split
  · decide
  · rename_i idle
    have used : (0 : ℚ) ≤ sample.idle := by
      by_contra negative
      rw [truncate, if_neg negative] at idle
      have := Int.ceil_le.mpr (show sample.idle ≤ ((0 : Int) : ℚ) by
        rw [Int.cast_zero]
        exact (not_le.mp negative).le)
      omega
    have rounded : 0 ≤ roundHalfAway sample.idle := by
      rw [roundHalfAway, if_pos used]
      exact Int.floor_nonneg.mpr (by linarith)
    exact Int.ediv_nonneg (Int.mul_nonneg rounded (by omega)) (by decide)

theorem RuleName.budget_nonneg (machine : Machine) (sample : Sample) (name : RuleName) :
    0 ≤ name.budget machine sample := by
  cases name with
  | rule1 => exact Int.mul_nonneg (Int.natCast_nonneg _) (by decide)
  | rule2 => exact Int.natCast_nonneg _
  | rule3 => exact Int.mul_nonneg (Int.natCast_nonneg _) (by decide)
  | rule4 => exact idleBudget_nonneg machine sample
  | rule6 => exact idleBudget_nonneg machine sample

/-! ### Idle CPUs -/

/-- A budget of idle CPUs rounded up: at least one when `top` reports enough idle time, and none
exactly when it does not. -/
structure RoundedUp (machine : Machine) (sample : Sample) (budget : Int) : Prop where
  idle : 7 ≤ truncate sample.idle →
    budget = ⌈(roundHalfAway sample.idle * machine.cpuCount : ℚ) / 100⌉ ∧ 1 ≤ budget
  zero : budget = 0 ↔ truncate sample.idle < 7

/-- Rounding to the nearest percent stays above a whole percentage. -/
theorem truncate_le_roundHalfAway {percentage : ℚ} (positive : 0 < truncate percentage) :
    truncate percentage ≤ roundHalfAway percentage := by
  have nonneg : 0 ≤ percentage := by
    by_contra negative
    rw [truncate, if_neg negative] at positive
    exact absurd (Int.ceil_pos.mp positive) (fun above => negative above.le)
  rw [truncate, roundHalfAway, if_pos nonneg, if_pos nonneg]
  exact Int.floor_le_floor (by linarith)

theorem ceil_div_hundred_eq_iff (value : Int) :
    value / 100 = ⌈(value : ℚ) / 100⌉ ↔ (100 : Int) ∣ value := by
  have ceiling : ⌈(value : ℚ) / 100⌉ = -((-value) / 100) :=
    Rat.ceil_intCast_div_natCast value 100
  rw [ceiling]
  omega

/-- The budget of the rules for idle CPUs is rounded up exactly when there is nothing to round, or
too little idle time: the quotient is cut off before it gets to `math.ceil`. -/
theorem idle_budget_rounded_up_iff (machine : Machine) (sample : Sample)
    (cpus : 1 ≤ machine.cpuCount) :
    RoundedUp machine sample (idleBudget machine sample) ↔
      truncate sample.idle < 7 ∨
        (100 : Int) ∣ roundHalfAway sample.idle * machine.cpuCount := by
  by_cases busy : truncate sample.idle < 7
  · have none : idleBudget machine sample = 0 := by
      rw [idleBudget, getcpuidleperc, if_pos busy]
      rfl
    refine iff_of_true ⟨fun enough => ?_, ?_⟩ (.inl busy)
    · omega
    · exact iff_of_true none busy
  · have budget : idleBudget machine sample =
        roundHalfAway sample.idle * machine.cpuCount / 100 := by
      rw [idleBudget, getcpuidleperc, if_neg busy]
    have product : (roundHalfAway sample.idle * machine.cpuCount : ℚ) =
        ((roundHalfAway sample.idle * machine.cpuCount : Int) : ℚ) := by push_cast; rfl
    have rounded : 7 ≤ roundHalfAway sample.idle :=
      (Int.not_lt.mp busy).trans (truncate_le_roundHalfAway (by omega))
    have positive : 0 < roundHalfAway sample.idle * machine.cpuCount :=
      Int.mul_pos (by omega) (by omega)
    rw [or_iff_right busy, ← ceil_div_hundred_eq_iff, ← product]
    constructor
    · intro right
      rw [← budget]
      exact (right.idle (Int.not_lt.mp busy)).1
    · intro exact
      have whole : (100 : Int) ∣ roundHalfAway sample.idle * machine.cpuCount :=
        (ceil_div_hundred_eq_iff _).mp (by rw [← product]; exact exact)
      have some : 1 ≤ idleBudget machine sample := by
        rw [budget]
        exact Int.le_ediv_of_mul_le (by decide) (Int.le_of_dvd positive whole)
      refine ⟨fun _ => ⟨budget.trans exact, some⟩, ?_⟩
      exact iff_of_false (by omega) busy

/-- One CPU that is half idle counts as none. -/
theorem half_idle_cpu_is_none :
    ¬ RoundedUp ⟨some 1000, 1, fun _ => .ok 1⟩ { idle := 50 }
      (idleBudget ⟨some 1000, 1, fun _ => .ok 1⟩ { idle := 50 }) := by
  intro right
  exact absurd (right.idle (by decide +kernel)).2 (by decide +kernel)

/-- Two CPUs that are half idle count as one. -/
theorem idle_budget_rounded_up_sample :
    RoundedUp ⟨some 1000, 2, fun _ => .ok 1⟩ { idle := 50 }
      (idleBudget ⟨some 1000, 2, fun _ => .ok 1⟩ { idle := 50 }) :=
  (idle_budget_rounded_up_iff ⟨some 1000, 2, fun _ => .ok 1⟩ { idle := 50 } (by decide)).mpr
    (.inr (by decide +kernel))

/-- A rule for idle CPUs returns what its loop selects, if that is nothing without an idle CPU. -/
theorem idleRule_eq {sample : Sample} {runninglist plan : List Text}
    (selects : selectApps machine sample pick runninglist (idleBudget machine sample) table =
      .ok plan) (idle : idleBudget machine sample ≤ 0 → plan = []) :
    (if idleBudget machine sample > 0 then
      selectApps machine sample pick runninglist (idleBudget machine sample) table
    else .ok []) = .ok plan := by
  split
  · exact selects
  · rw [idle (by omega)]

/-- A loop that works through the copy of the table selects the greedy scan over its picks. -/
theorem selectApps_eq_scan {sample : Sample} {order : List Text}
    (measured : Measured machine table threads ram)
    (picks : Picks pick (deepcopy sample.order table) order) (runninglist : List Text)
    (budget : Int) :
    selectApps machine sample pick runninglist budget table =
      .ok (Greedy.scan threads ram (machine.memTotal.getD 0) budget
        (order.filter fun app => app ∉ runninglist)) :=
  selectLoop_eq_scan picks (measured.deepcopy sample.order) picks.perm.length_eq.le _ _ []

/-- A rule that works through the table returns the greedy scan over its picks. The rules for
idle CPUs do not even look at the table when there is none. -/
theorem rule_eq_scan {name : RuleName} {sample : Sample} {order : List Text}
    (measured : Measured machine table threads ram) (positive : ∀ app ∈ table, 1 ≤ threads app)
    (picks : Picks (name.nextApp machine) (deepcopy sample.order table) order)
    (runninglist : List Text) :
    name.rule machine sample table runninglist =
      .ok (Greedy.scan threads ram (machine.memTotal.getD 0) (name.budget machine sample)
        (order.filter fun app => app ∉ name.excluded runninglist)) := by
  have selects := selectApps_eq_scan measured picks (name.excluded runninglist)
    (name.budget machine sample)
  have idle : name.budget machine sample ≤ 0 →
      Greedy.scan threads ram (machine.memTotal.getD 0) (name.budget machine sample)
        (order.filter fun app => app ∉ name.excluded runninglist) = [] := by
    intro none
    refine Greedy.scan_eq_nil_iff.mpr fun app member => .inl ?_
    have known := (mem_deepcopy_iff ..).mp (picks.perm.subset (List.mem_of_mem_filter member))
    have := positive app known
    omega
  cases name with
  | rule1 => exact selects
  | rule2 => exact selects
  | rule3 => exact selects
  | rule4 => exact idleRule_eq selects idle
  | rule6 => exact idleRule_eq selects idle

/-- Every rule works through the table. -/
theorem rule_picks {name : RuleName} (measured : Measured machine table threads ram)
    (positive : ∀ app ∈ table, 1 ≤ threads app)
    (below : name = .rule3 ∨ name = .rule4 → ∀ app ∈ table, threads app < 1000000)
    (counted : name = .rule1 ∨ name = .rule2 → Counted table misses) (order : List Text) :
    ∃ picks, Picks (name.nextApp machine) (deepcopy order table) picks := by
  have threadsOf := (measured.deepcopy order).threads
  have known : ∀ app ∈ deepcopy order table, app ∈ table := fun _ => (mem_deepcopy_iff ..).mp
  cases name with
  | rule1 => exact minCacheMisses_picks ((counted (.inl rfl)).deepcopy order)
  | rule2 => exact minCacheMisses_picks ((counted (.inr rfl)).deepcopy order)
  | rule3 =>
    obtain ⟨picks, worked, _⟩ := minThreads_picks threadsOf fun app member =>
      below (.inl rfl) app (known app member)
    exact ⟨picks, worked⟩
  | rule4 =>
    obtain ⟨picks, worked, _⟩ := minThreads_picks threadsOf fun app member =>
      below (.inr rfl) app (known app member)
    exact ⟨picks, worked⟩
  | rule6 =>
    obtain ⟨picks, worked, _⟩ := maxThreads_picks threadsOf fun app member =>
      positive app (known app member)
    exact ⟨picks, worked⟩

/-! ### Sound and maximal -/

/-- A selection among the apps of the table that are not excluded: each app once, within the
threads, below the memory when there are any, and such that no candidate left out could be added.
-/
structure SoundAndMaximal (table : StatsTable) (excluded : List Text) (threads ram : Text → Int)
    (totalram totalthreads : Int) (plan : List Text) : Prop where
  nodup : plan.Nodup
  candidate : ∀ app ∈ plan, app ∈ table ∧ app ∉ excluded
  withinThreads : (plan.map threads).sum ≤ totalthreads
  withinRam : plan ≠ [] → (plan.map ram).sum < totalram
  maximal : ∀ app ∈ table, app ∉ excluded → app ∉ plan →
    totalthreads < (plan.map threads).sum + threads app ∨
      totalram ≤ (plan.map ram).sum + ram app
  empty : plan = [] → ∀ app ∈ table, app ∉ excluded →
    totalthreads < threads app ∨ totalram ≤ ram app

/-- A greedy scan over the candidates in any order is sound and maximal. -/
theorem soundAndMaximal_scan {order excluded : List Text} (perm : order.Perm table.keys)
    (positive : ∀ app ∈ table, 0 ≤ threads app) (sizes : ∀ app ∈ table, 0 ≤ ram app)
    (room : Int) {budget : Int} (budgeted : 0 ≤ budget) :
    SoundAndMaximal table excluded threads ram room budget
      (Greedy.scan threads ram room budget (order.filter fun app => app ∉ excluded)) := by
  have chosen : (Greedy.scan threads ram room budget
      (order.filter fun app => app ∉ excluded)).Sublist (order.filter fun app => app ∉ excluded) :=
    Greedy.scan_sublist ..
  have candidate : ∀ app, app ∈ order.filter (fun app => app ∉ excluded) ↔
      app ∈ table ∧ app ∉ excluded := by
    intro app
    rw [List.mem_filter, perm.mem_iff, decide_eq_true_eq]
    rfl
  have candidateThreads : ∀ app ∈ order.filter (fun app => app ∉ excluded), 0 ≤ threads app :=
    fun app member => positive app ((candidate app).mp member).1
  have candidateRam : ∀ app ∈ order.filter (fun app => app ∉ excluded), 0 ≤ ram app :=
    fun app member => sizes app ((candidate app).mp member).1
  constructor
  · exact ((perm.nodup_iff.mpr table.keys_nodup).filter _).sublist chosen
  · exact fun app member => (candidate app).mp (chosen.subset member)
  · exact Greedy.scan_size_le budgeted room _
  · exact Greedy.scan_cost_lt
  · exact fun app known outside left => Greedy.scan_maximal candidateThreads candidateRam
      ((candidate app).mpr ⟨known, outside⟩) left
  · exact fun nothing app known outside => Greedy.scan_eq_nil_iff.mp nothing app
      ((candidate app).mpr ⟨known, outside⟩)

/-- Every rule returns a sound and maximal selection. -/
theorem rule_soundAndMaximal {name : RuleName} (measured : Measured machine table threads ram)
    (counted : name = .rule1 ∨ name = .rule2 → Counted table misses)
    (counts : ∀ app ∈ table, 1 ≤ threads app ∧ threads app < 1000000)
    (sizes : ∀ app ∈ table, 0 ≤ ram app) (sample : Sample) (runninglist : List Text) :
    ∃ plan, name.rule machine sample table runninglist = .ok plan ∧
      SoundAndMaximal table (name.excluded runninglist) threads ram (machine.memTotal.getD 0)
        (name.budget machine sample) plan := by
  have positive : ∀ app ∈ table, 1 ≤ threads app := fun app member => (counts app member).1
  obtain ⟨order, picks⟩ := rule_picks measured positive
    (fun _ app member => (counts app member).2) counted sample.order
  refine ⟨_, rule_eq_scan measured positive picks runninglist, ?_⟩
  have perm : order.Perm table.keys := by
    refine picks.perm.trans ((List.perm_ext_iff_of_nodup (AList.keys_nodup _)
      table.keys_nodup).mpr fun app => ?_)
    exact mem_deepcopy_iff ..
  refine soundAndMaximal_scan perm (fun app member => ?_) sizes _
    (name.budget_nonneg machine sample)
  have := positive app member
  omega

/-! ### The table of the caller -/

/-- Dictionaries by reference: a reference is a position. -/
abbrev Heap := List StatsTable

/-- The dictionary behind a reference. -/
def tableAt (heap : Heap) (ref : Nat) : StatsTable := heap.getD ref ∅

/-- `copy.deepcopy`: a new dictionary. -/
def deepcopyAt (order : List Text) (ref : Nat) : Program Heap PyError Nat := do
  let heap ← get
  modify fun heap => heap ++ [deepcopy order (tableAt heap ref)]
  pure heap.length

/-- `app_stats_map.pop(app)`. -/
def popAt (ref : Nat) (app : Text) : Program Heap PyError Unit :=
  modify fun heap => heap.modify ref fun table => table.erase app

/-- The loop of every rule, on the dictionary behind the reference. -/
def selectLoopAt (machine : Machine) (pick : StatsTable → Except PyError (Option Text))
    (runninglist : List Text) (ref : Nat) :
    Nat → Int → Int → List Text → Program Heap PyError (List Text)
  | 0, _, _, nextRunnable => pure nextRunnable
  | fuel + 1, totalram, totalthreads, nextRunnable => do
    let heap ← get
    if (tableAt heap ref).keys.length = 0 then pure nextRunnable
    else do
      match ← liftM (pick (tableAt heap ref)) with
      | none => throw .typeError
      | some app =>
        if app ∈ runninglist then do
          popAt ref app
          selectLoopAt machine pick runninglist ref fuel totalram totalthreads nextRunnable
        else do
          let thread ← liftM (machine.threads app)
          let ram ← liftM (ramOf (tableAt heap ref) app)
          if totalram - ram > 0 ∧ totalthreads - thread ≥ 0 then do
            popAt ref app
            selectLoopAt machine pick runninglist ref fuel (totalram - ram)
              (totalthreads - thread) (nextRunnable ++ [app])
          else do
            popAt ref app
            selectLoopAt machine pick runninglist ref fuel totalram totalthreads nextRunnable

/-- The rule of that name, called with a reference to the table. The rules for idle CPUs look at
their copy only when there is an idle CPU. -/
def RuleName.ruleAt (machine : Machine) (name : RuleName) (sample : Sample) (ref : Nat)
    (runninglist : List Text) : Program Heap PyError (List Text) := do
  let copy ← deepcopyAt sample.order ref
  let heap ← get
  let loop := selectLoopAt machine (name.nextApp machine) (name.excluded runninglist) copy
    (tableAt heap copy).keys.length (machine.memTotal.getD 0) (name.budget machine sample) []
  match name with
  | .rule1 | .rule2 | .rule3 => loop
  | .rule4 | .rule6 => if idleBudget machine sample > 0 then loop else pure []

/-- Only the dictionary behind one reference may have changed. -/
def ChangedOnlyAt (ref : Nat) (before after : Heap) : Prop :=
  ∀ other ≠ ref, after[other]? = before[other]?

/-- The loop on a reference selects what the loop on a value does, and changes nothing else. -/
theorem ensures_selectLoopAt {runninglist : List Text} {ref fuel : Nat} {heap : Heap}
    (stored : heap[ref]? = some table) (room budget : Int) (nextRunnable : List Text) :
    Ensures (selectLoopAt machine pick runninglist ref fuel room budget nextRunnable) heap
      (fun plan heap' => selectLoop machine pick runninglist fuel table room budget nextRunnable =
        .ok plan ∧ ChangedOnlyAt ref heap heap')
      (fun error => selectLoop machine pick runninglist fuel table room budget nextRunnable =
        .error error) := by
  induction fuel generalizing heap table room budget nextRunnable with
  | zero => exact ⟨rfl, fun _ _ => rfl⟩
  | succ fuel inductionHypothesis =>
    have behind : tableAt heap ref = table := by
      rw [tableAt, List.getD_eq_getElem?_getD, stored, Option.getD_some]
    have popped : ∀ (app : Text) (room budget : Int) (nextRunnable : List Text),
        Ensures (selectLoopAt machine pick runninglist ref fuel room budget nextRunnable)
          (heap.modify ref fun table => table.erase app)
          (fun plan heap' => selectLoop machine pick runninglist fuel (table.erase app) room
            budget nextRunnable = .ok plan ∧ ChangedOnlyAt ref heap heap')
          (fun error => selectLoop machine pick runninglist fuel (table.erase app) room budget
            nextRunnable = .error error) := by
      intro app room budget nextRunnable
      have erased : (heap.modify ref fun table => table.erase app)[ref]? =
          some (table.erase app) := by
        rw [List.getElem?_modify_eq, stored]
        rfl
      refine (inductionHypothesis erased room budget nextRunnable).imp fun plan heap' outcome => ?_
      refine ⟨outcome.1, fun other different => ?_⟩
      rw [outcome.2 other different, List.getElem?_modify_ne _ _ (Ne.symm different)]
    rw [selectLoopAt, ensures_bind, ensures_get, behind, selectLoop]
    by_cases empty : table.keys.length = 0
    · rw [if_pos empty, if_pos empty]
      exact ⟨rfl, fun _ _ => rfl⟩
    rw [if_neg empty, if_neg empty, ensures_bind, ensures_liftExcept]
    refine ⟨fun picked found => ?_, fun error raised => by rw [raised]; rfl⟩
    rw [found]
    cases picked with
    | none => exact (ensures_throw ..).mpr rfl
    | some app =>
      show Ensures (if app ∈ runninglist then _ else _) heap
        (fun plan heap' => (if app ∈ runninglist then _ else _) = _ ∧ _)
        (fun error => (if app ∈ runninglist then _ else _) = _)
      by_cases runs : app ∈ runninglist
      · rw [if_pos runs, if_pos runs, ensures_bind, popAt, ensures_modify]
        exact popped app room budget nextRunnable
      rw [if_neg runs, if_neg runs, ensures_bind, ensures_liftExcept]
      refine ⟨fun thread threads => ?_, fun error raised => by rw [raised]; rfl⟩
      rw [threads, ensures_bind, ensures_liftExcept]
      refine ⟨fun resident sized => ?_, fun error raised => by rw [raised]; rfl⟩
      rw [sized]
      show Ensures (if room - resident > 0 ∧ budget - thread ≥ 0 then _ else _) heap
        (fun plan heap' => (if room - resident > 0 ∧ budget - thread ≥ 0 then _ else _) = _ ∧ _)
        (fun error => (if room - resident > 0 ∧ budget - thread ≥ 0 then _ else _) = _)
      by_cases fits : room - resident > 0 ∧ budget - thread ≥ 0
      · rw [if_pos fits, if_pos fits, ensures_bind, popAt, ensures_modify]
        exact popped app _ _ _
      · rw [if_neg fits, if_neg fits, ensures_bind, popAt, ensures_modify]
        exact popped app _ _ _

/-- The guard of the rules for idle CPUs. -/
theorem ensures_idleGuard {sample : Sample} {program : Program Heap PyError (List Text)}
    {heap : Heap} {outcome : Except PyError (List Text)} {kept : Heap → Prop} (same : kept heap)
    (ensured : Ensures program heap (fun plan heap' => outcome = .ok plan ∧ kept heap')
      fun error => outcome = .error error) :
    Ensures (if idleBudget machine sample > 0 then program else pure []) heap
      (fun plan heap' => (if idleBudget machine sample > 0 then outcome else .ok []) = .ok plan ∧
        kept heap')
      fun error => (if idleBudget machine sample > 0 then outcome else .ok []) = .error error := by
  split
  · exact ensured
  · exact ⟨rfl, same⟩

/-- A rule called with a reference returns what it returns for the table behind it, and leaves
every dictionary there was as it was. -/
theorem ensures_ruleAt {name : RuleName} {sample : Sample} {ref : Nat} {heap : Heap}
    {runninglist : List Text} (stored : heap[ref]? = some table) :
    Ensures (name.ruleAt machine sample ref runninglist) heap
      (fun plan heap' => name.rule machine sample table runninglist = .ok plan ∧
        ∀ other < heap.length, heap'[other]? = heap[other]?)
      (fun error => name.rule machine sample table runninglist = .error error) := by
  have behind : tableAt heap ref = table := by
    rw [tableAt, List.getD_eq_getElem?_getD, stored, Option.getD_some]
  have copied : (heap ++ [deepcopy sample.order table])[heap.length]? =
      some (deepcopy sample.order table) := List.getElem?_concat_length
  have copy : tableAt (heap ++ [deepcopy sample.order table]) heap.length =
      deepcopy sample.order table := by
    rw [tableAt, List.getD_eq_getElem?_getD, copied, Option.getD_some]
  have kept : ∀ {heap' : Heap},
      ChangedOnlyAt heap.length (heap ++ [deepcopy sample.order table]) heap' →
        ∀ other < heap.length, heap'[other]? = heap[other]? := by
    intro heap' changed other bound
    rw [changed other bound.ne, List.getElem?_append_left bound]
  have loop : Ensures (selectLoopAt machine (name.nextApp machine) (name.excluded runninglist)
        heap.length (deepcopy sample.order table).keys.length (machine.memTotal.getD 0)
        (name.budget machine sample) []) (heap ++ [deepcopy sample.order table])
      (fun plan heap' => selectApps machine sample (name.nextApp machine)
        (name.excluded runninglist) (name.budget machine sample) table = .ok plan ∧
          ∀ other < heap.length, heap'[other]? = heap[other]?)
      (fun error => selectApps machine sample (name.nextApp machine)
        (name.excluded runninglist) (name.budget machine sample) table = .error error) :=
    (ensures_selectLoopAt copied _ _ []).imp fun _ _ outcome => ⟨outcome.1, kept outcome.2⟩
  have unchanged : ∀ other < heap.length,
      (heap ++ [deepcopy sample.order table])[other]? = heap[other]? :=
    fun other bound => List.getElem?_append_left bound
  rw [RuleName.ruleAt, deepcopyAt]
  simp only [ensures_bind, ensures_get, ensures_modify, ensures_pure, behind, copy]
  cases name with
  | rule1 => exact loop
  | rule2 => exact loop
  | rule3 => exact loop
  | rule4 => exact ensures_idleGuard unchanged loop
  | rule6 => exact ensures_idleGuard unchanged loop

/-- Whichever rule it is, and whatever the machine, the order of the keys and the running list, a
rule returns a sound and maximal selection and leaves the table of its caller as it was. -/
theorem rules_sound_and_maximal (machine : Machine) (name : RuleName) (sample : Sample)
    (runninglist : List Text) {heap : Heap} {ref : Nat} (stored : heap[ref]? = some table)
    (measured : Measured machine table threads ram)
    (counted : name = .rule1 ∨ name = .rule2 → Counted table misses)
    (counts : ∀ app ∈ table, 1 ≤ threads app ∧ threads app < 1000000)
    (sizes : ∀ app ∈ table, 0 ≤ ram app) :
    ∃ plan heap', (name.ruleAt machine sample ref runninglist).run heap = .ok (plan, heap') ∧
      name.rule machine sample table runninglist = .ok plan ∧
      SoundAndMaximal table (name.excluded runninglist) threads ram (machine.memTotal.getD 0)
        (name.budget machine sample) plan ∧
      heap'[ref]? = some table := by
  obtain ⟨plan, ruled, sound⟩ :=
    rule_soundAndMaximal measured counted counts sizes sample runninglist
  have ensured : Ensures (name.ruleAt machine sample ref runninglist) heap
      (fun plan' heap' => name.rule machine sample table runninglist = .ok plan' ∧
        ∀ other < heap.length, heap'[other]? = heap[other]?) fun _ => False :=
    (ensures_ruleAt stored).mono (fun _ _ outcome => outcome) fun error raised => by
      rw [ruled] at raised
      cases raised
  obtain ⟨plan', heap', ran, same, kept⟩ := ensured.returns
  rw [ruled] at same
  cases same
  refine ⟨plan, heap', ran, ruled, sound, ?_⟩
  rw [kept ref (List.getElem?_eq_some_iff.mp stored).1, stored]

/-- Two apps that fit one at a time. -/
def pairTable : StatsTable :=
  ((∅ : StatsTable).insert "b".toList sampleRecord.entry).insert "a".toList sampleRecord.entry

/-- One CPU, memory for one app, and one thread for every app. -/
def tightMachine : Machine := ⟨some 30000, 1, fun _ => .ok 1⟩

theorem pairTable_measured : Measured tightMachine pairTable (fun _ => 1) fun _ => 22228 where
  threads _ _ := rfl
  ram := show ∀ app ∈ pairTable.keys, ramOf pairTable app = .ok 22228 by decide +kernel

/-- Of the two apps one is selected. -/
theorem rules_sound_and_maximal_sample :
    ∃ plan heap', (RuleName.rule1.ruleAt tightMachine {} 0 []).run [pairTable] =
        .ok (plan, heap') ∧
      SoundAndMaximal pairTable [] (fun _ => 1) (fun _ => 22228) 30000 2 plan ∧
      heap'[0]? = some pairTable := by
  have counted : Counted pairTable fun _ => 0 :=
    show ∀ app ∈ pairTable.keys, cacheMisses pairTable app = .ok 0 by decide +kernel
  obtain ⟨plan, heap', ran, _, sound, kept⟩ := rules_sound_and_maximal tightMachine .rule1 {} []
    (rfl : [pairTable][0]? = some pairTable) pairTable_measured (fun _ => counted)
    (fun _ _ => by decide) (fun _ _ => by decide)
  exact ⟨plan, heap', ran, sound, kept⟩

end ClusterJobs
