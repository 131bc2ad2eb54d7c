/-
This file models the selection rules of `common/imports/rules.py` and the helpers of
`common/imports/rules_utils.py` they pick candidates with.

A rule gets the candidate table and returns the apps that may run. All rules share one loop:
pick a candidate, take it when it fits in what is left of the memory and of the thread budget,
and remove it from a copy of the table until the copy is empty. They differ in how they pick,
in the budget they start with, and in whether they pass over the apps already running. The
loop is `selectLoop`; every rule is that loop at its own values.

The last part bounds what a rule returns: keys of the table, each once, within the thread
budget and below the memory of the machine.
-/

import ClusterJobs.Program
import ClusterJobs.StatRecord
import Mathlib.Data.Rat.Floor

namespace ClusterJobs

open Python

/-- What the rules read of the machine: the `MemTotal` of `/proc/meminfo` (`none` when the
pattern does not match), the number of CPUs, and the `THREADS` of an app's XML file. -/
structure Machine where
  memTotal : Option Nat
  cpuCount : Nat
  threads : Text → Except PyError Int

/-- What a rule reads at the moment it is called: the order in which the copy of the table is
iterated over (a Python 2 dictionary has no order of its own) and the idle percentage that
`top` reports. -/
structure Sample where
  order : List Text := []
  idle : ℚ := 0

/-- `copy.deepcopy(app_stats_map)`: the same table, in any order. -/
def deepcopy (order : List Text) (table : StatsTable) : StatsTable :=
  order.foldr (fun key copy => match table.lookup key with
    | some stats => copy.insert key stats
    | none => copy) table

/-! ### Picking a candidate -/

/-- `app_stats_map[app][field]`. -/
def statOf (table : StatsTable) (app field : Text) : Except PyError Text :=
  match table.lookup app with
  | none => .error .keyError
  | some stats => match stats.lookup field with
    | none => .error .keyError
    | some value => .ok value

/-- `int(app_stats_map[app]['CACHE_MISSES'])`. -/
def cacheMisses (table : StatsTable) (app : Text) : Except PyError Int := do
  int (← statOf table app "CACHE_MISSES".toList)

/-- `int(app_stats_map[app]['VmRSS'].split(' ')[0])`. -/
def ramOf (table : StatsTable) (app : Text) : Except PyError Int := do
  let value ← statOf table app "VmRSS".toList
  int ((value.splitOn ' ').headD [])

/-- `get_app_with_min_cache_misses`. The count of the first key stays the one every other key
is compared with. -/
def getAppWithMinCacheMisses (table : StatsTable) : Except PyError (Option Text) :=
  match table.keys with
  | [] => .error .indexError
  | first :: _ => do
    let minMiss ← cacheMisses table first
    let minkey ← table.keys.foldlM (fun minkey app => do
      if (← cacheMisses table app) < minMiss then pure app else pure minkey) first
    .ok (some minkey)

/-- `get_app_with_min_threads`. -/
def getAppWithMinThreads (machine : Machine) (table : StatsTable) :
    Except PyError (Option Text) := do
  let best ← table.keys.foldlM (fun (best : Int × Option Text) app => do
    let thread ← machine.threads app
    if thread < best.1 then pure (thread, some app) else pure best) (1000000, none)
  .ok best.2

/-- `get_app_with_max_threads`. -/
def getAppWithMaxThreads (machine : Machine) (table : StatsTable) :
    Except PyError (Option Text) := do
  let best ← table.keys.foldlM (fun (best : Int × Option Text) app => do
    let thread ← machine.threads app
    if thread > best.1 then pure (thread, some app) else pure best) (-1, none)
  .ok best.2

/-- `int(value)` of a float: the fraction is cut off. -/
def truncate (value : ℚ) : Int := if 0 ≤ value then ⌊value⌋ else ⌈value⌉

/-- `round(value, 0)`: the nearest integer, halves away from zero. -/
def roundHalfAway (value : ℚ) : Int := if 0 ≤ value then ⌊value + 1 / 2⌋ else ⌈value - 1 / 2⌉

/-- `getcpuidleperc`, from the idle percentage that `top` prints. How the number is cut out of the
line is left out; for a reading of exactly `100.0`, which `top` prints without a space in front, the
source raises instead. -/
def getcpuidleperc (machine : Machine) (cpuutilization : ℚ) : Int :=
  if truncate cpuutilization < 7 then 0
  else roundHalfAway cpuutilization * machine.cpuCount

/-! ### The rules -/

/-- The loop of every rule, with what is left of the memory and of the threads. Apps of
`runninglist` are removed without being considered. One round empties the copy by one app, so
`fuel` is the number of apps in it. -/
def selectLoop (machine : Machine) (pick : StatsTable → Except PyError (Option Text))
    (runninglist : List Text) :
    Nat → StatsTable → Int → Int → List Text → Except PyError (List Text)
  | 0, _, _, _, nextRunnable => .ok nextRunnable
  | fuel + 1, table, totalram, totalthreads, nextRunnable =>
    if table.keys.length = 0 then .ok nextRunnable
    else do
      match ← pick table with
      | none => .error .typeError
      | some app =>
        if app ∈ runninglist then
          selectLoop machine pick runninglist fuel (table.erase app) totalram totalthreads
            nextRunnable
        else do
          let thread ← machine.threads app
          let ram ← ramOf table app
          if totalram - ram > 0 ∧ totalthreads - thread ≥ 0 then
            selectLoop machine pick runninglist fuel (table.erase app) (totalram - ram)
              (totalthreads - thread) (nextRunnable ++ [app])
          else
            selectLoop machine pick runninglist fuel (table.erase app) totalram totalthreads
              nextRunnable

/-- A rule from its own values: how it picks, what it passes over, and its thread budget. -/
def selectApps (machine : Machine) (sample : Sample)
    (pick : StatsTable → Except PyError (Option Text)) (runninglist : List Text)
    (totalthreads : Int) (table : StatsTable) : Except PyError (List Text) :=
  let copy := deepcopy sample.order table
  selectLoop machine pick runninglist copy.keys.length copy (machine.memTotal.getD 0)
    totalthreads []

/-- A rule: the candidate table and the running apps to the apps that may run. -/
abbrev Rule := Sample → StatsTable → List Text → Except PyError (List Text)

/-- `rule1`: overcommit threads twofold, fewest cache misses first. -/
def rule1 (machine : Machine) : Rule := fun sample table _ =>
  selectApps machine sample getAppWithMinCacheMisses [] (machine.cpuCount * 2) table

/-- `rule2`: no overcommit, fewest cache misses first. -/
def rule2 (machine : Machine) : Rule := fun sample table _ =>
  selectApps machine sample getAppWithMinCacheMisses [] machine.cpuCount table

/-- `rule3`: overcommit threads twofold, fewest threads first. -/
def rule3 (machine : Machine) : Rule := fun sample table _ =>
  selectApps machine sample (getAppWithMinThreads machine) [] (machine.cpuCount * 2) table

/-- The thread budget of `rule4` and `rule6`: `math.ceil(getcpuidleperc() / 100)`, where `/`
between integers is integer division. -/
def idleBudget (machine : Machine) (sample : Sample) : Int :=
  getcpuidleperc machine sample.idle / 100

/-- `rule4`: idle CPUs, fewest threads first. -/
def rule4 (machine : Machine) : Rule := fun sample table runninglist =>
  if idleBudget machine sample > 0 then
    selectApps machine sample (getAppWithMinThreads machine) runninglist
      (idleBudget machine sample) table
  else .ok []

/-- `rule6`: idle CPUs, most threads first. -/
def rule6 (machine : Machine) : Rule := fun sample table runninglist =>
  if idleBudget machine sample > 0 then
    selectApps machine sample (getAppWithMaxThreads machine) runninglist
      (idleBudget machine sample) table
  else .ok []

/-- The dictionary `RULES`. -/
def rules (machine : Machine) : List (Text × Rule) :=
  [("rule1".toList, rule1 machine), ("rule2".toList, rule2 machine),
    ("rule3".toList, rule3 machine), ("rule4".toList, rule4 machine),
    ("rule6".toList, rule6 machine)]

/-! ### The copy of the table -/

theorem lookup_deepcopy (order : List Text) (table : StatsTable) (app : Text) :
    (deepcopy order table).lookup app = table.lookup app := by
  induction order with
  | nil => rfl
  | cons key order inductionHypothesis =>
    rw [deepcopy, List.foldr_cons, ← deepcopy]
    cases found : table.lookup key with
    | none => exact inductionHypothesis
    | some stats =>
      by_cases same : app = key
      · subst same
        rw [AList.lookup_insert, found]
      · rw [AList.lookup_insert_ne same]
        exact inductionHypothesis

theorem mem_deepcopy_iff (order : List Text) (table : StatsTable) (app : Text) :
    app ∈ deepcopy order table ↔ app ∈ table := by
  rw [← AList.lookup_isSome, lookup_deepcopy, AList.lookup_isSome]

theorem statOf_congr {first second : StatsTable} {app : Text}
    (same : first.lookup app = second.lookup app) (field : Text) :
    statOf first app field = statOf second app field := by
  rw [statOf, statOf, same]

theorem ramOf_congr {first second : StatsTable} {app : Text}
    (same : first.lookup app = second.lookup app) : ramOf first app = ramOf second app := by
  rw [ramOf, ramOf, statOf_congr same]

theorem ramOf_mem {table : StatsTable} {app : Text} {ram : Int}
    (read : ramOf table app = .ok ram) : app ∈ table := by
  rw [ramOf, bind_eq_ok_iff] at read
  obtain ⟨value, found, _⟩ := read
  rw [← AList.lookup_isSome]
  cases present : table.lookup app with
  | none =>
    rw [statOf, present] at found
    cases found
  | some stats => rfl

/-! ### What a rule returns -/

/-- The total of a measure over a list of apps; it raises when one of them does. -/
def total (measure : Text → Except PyError Int) : List Text → Except PyError Int
  | [] => .ok 0
  | app :: rest => do
    let first ← measure app
    let others ← total measure rest
    .ok (first + others)

theorem total_cons_iff {measure : Text → Except PyError Int} {app : Text} {rest : List Text}
    {sum : Int} :
    total measure (app :: rest) = .ok sum ↔
      ∃ first others, measure app = .ok first ∧ total measure rest = .ok others ∧
        sum = first + others := by
  rw [total, bind_eq_ok_iff]
  constructor
  · rintro ⟨first, measured, rest⟩
    rw [bind_eq_ok_iff] at rest
    obtain ⟨others, summed, same⟩ := rest
    exact ⟨first, others, measured, summed, (Except.ok.inj same).symm⟩
  · rintro ⟨first, others, measured, summed, rfl⟩
    exact ⟨first, measured, bind_eq_ok_iff.mpr ⟨others, summed, rfl⟩⟩

/-- The total does not depend on the order of the apps. -/
theorem total_perm {measure : Text → Except PyError Int} {first second : List Text} {sum : Int}
    (same : first.Perm second) (summed : total measure first = .ok sum) :
    total measure second = .ok sum := by
  induction same generalizing sum with
  | nil => exact summed
  | cons app _ inductionHypothesis =>
    obtain ⟨value, others, measured, rest, rfl⟩ := total_cons_iff.mp summed
    exact total_cons_iff.mpr ⟨value, others, measured, inductionHypothesis rest, rfl⟩
  | swap app other rest =>
    obtain ⟨value, others, measured, tail, rfl⟩ := total_cons_iff.mp summed
    obtain ⟨value', others', measured', tail', rfl⟩ := total_cons_iff.mp tail
    exact total_cons_iff.mpr ⟨value', value + others', measured',
      total_cons_iff.mpr ⟨value, others', measured, tail', rfl⟩, by omega⟩
  | trans _ _ first second => exact second (first summed)

theorem total_congr {first second : Text → Except PyError Int} {apps : List Text}
    (same : ∀ app ∈ apps, first app = second app) : total first apps = total second apps := by
  induction apps with
  | nil => rfl
  | cons app rest inductionHypothesis =>
    rw [total, total, same app List.mem_cons_self,
      inductionHypothesis fun other member => same other (List.mem_cons_of_mem _ member)]

/-- What a rule may return, given what it had to share out: apps of the table outside the
running list, each once, within the threads, and below the memory when there are any. -/
structure Selected (machine : Machine) (table : StatsTable) (runninglist : List Text)
    (totalram totalthreads : Int) (chosen : List Text) : Prop where
  nodup : chosen.Nodup
  candidate : ∀ app ∈ chosen, app ∈ table ∧ app ∉ runninglist
  threads : ∃ sum, total machine.threads chosen = .ok sum ∧ (0 ≤ totalthreads → sum ≤ totalthreads)
  ram : ∃ sum, total (ramOf table) chosen = .ok sum ∧ (chosen ≠ [] → sum < totalram)

theorem selected_nil (machine : Machine) (table : StatsTable) (runninglist : List Text)
    (totalram totalthreads : Int) :
    Selected machine table runninglist totalram totalthreads [] where
  nodup := List.nodup_nil
  candidate _ member := absurd member List.not_mem_nil
  threads := ⟨0, rfl, fun holds => holds⟩
  ram := ⟨0, rfl, fun nonempty => absurd rfl nonempty⟩

/-- What is selected from a table with one app removed is selected from the table. -/
theorem Selected.of_erase {machine : Machine} {table : StatsTable} {runninglist : List Text}
    {totalram totalthreads : Int} {app : Text} {chosen : List Text}
    (selected : Selected machine (table.erase app) runninglist totalram totalthreads chosen) :
    Selected machine table runninglist totalram totalthreads chosen where
  nodup := selected.nodup
  candidate other member :=
    ⟨(AList.mem_erase.mp (selected.candidate other member).1).2,
      (selected.candidate other member).2⟩
  threads := selected.threads
  ram := by
    obtain ⟨sum, summed, bound⟩ := selected.ram
    refine ⟨sum, ?_, bound⟩
    rw [← summed]
    refine total_congr fun other member => ramOf_congr ?_
    exact (AList.lookup_erase_ne (AList.mem_erase.mp (selected.candidate other member).1).1).symm

/-- Taking an app that fits and then what is selected from the rest. -/
theorem Selected.cons {machine : Machine} {table : StatsTable} {runninglist : List Text}
    {totalram totalthreads thread ram : Int} {app : Text} {chosen : List Text}
    (outside : app ∉ runninglist) (threads : machine.threads app = .ok thread)
    (resident : ramOf table app = .ok ram) (fitsRam : totalram - ram > 0)
    (fitsThreads : totalthreads - thread ≥ 0)
    (selected : Selected machine (table.erase app) runninglist (totalram - ram)
      (totalthreads - thread) chosen) :
    Selected machine table runninglist totalram totalthreads (app :: chosen) where
  nodup := List.nodup_cons.mpr
    ⟨fun member => (AList.mem_erase.mp (selected.candidate app member).1).1 rfl, selected.nodup⟩
  candidate other member := by
    rcases List.mem_cons.mp member with rfl | tail
    · exact ⟨ramOf_mem resident, outside⟩
    · exact selected.of_erase.candidate other tail
  threads := by
    obtain ⟨sum, summed, bound⟩ := selected.threads
    refine ⟨thread + sum, total_cons_iff.mpr ⟨thread, sum, threads, summed, rfl⟩, fun _ => ?_⟩
    have := bound fitsThreads
    omega
  ram := by
    obtain ⟨sum, summed, bound⟩ := selected.of_erase.ram
    refine ⟨ram + sum, total_cons_iff.mpr ⟨ram, sum, resident, summed, rfl⟩, fun _ => ?_⟩
    by_cases empty : chosen = []
    · rw [empty] at summed
      cases summed
      omega
    · have := bound empty
      omega

/-- The loop adds a selection to what it was started with. -/
theorem selectLoop_selected {machine : Machine}
    {pick : StatsTable → Except PyError (Option Text)} {runninglist : List Text} {fuel : Nat}
    {table : StatsTable} {totalram totalthreads : Int} {nextRunnable result : List Text}
    (run : selectLoop machine pick runninglist fuel table totalram totalthreads nextRunnable =
      .ok result) :
    ∃ chosen, result = nextRunnable ++ chosen ∧
      Selected machine table runninglist totalram totalthreads chosen := by
  induction fuel generalizing table totalram totalthreads nextRunnable with
  | zero => exact ⟨[], by rw [List.append_nil]; exact (Except.ok.inj run).symm, selected_nil ..⟩
  | succ fuel inductionHypothesis =>
    rw [selectLoop] at run
    split at run
    · exact ⟨[], by rw [List.append_nil]; exact (Except.ok.inj run).symm, selected_nil ..⟩
    obtain ⟨picked, _, run⟩ := bind_eq_ok_iff.mp run
    cases picked with
    | none => cases run
    | some app =>
      simp only at run
      split at run
      · obtain ⟨chosen, rfl, selected⟩ := inductionHypothesis run
        exact ⟨chosen, rfl, selected.of_erase⟩
      rename_i outside
      obtain ⟨thread, threads, run⟩ := bind_eq_ok_iff.mp run
      obtain ⟨ram, resident, run⟩ := bind_eq_ok_iff.mp run
      split at run
      · rename_i fits
        obtain ⟨chosen, rfl, selected⟩ := inductionHypothesis run
        exact ⟨app :: chosen, by simp, selected.cons outside threads resident fits.1 fits.2⟩
      · obtain ⟨chosen, rfl, selected⟩ := inductionHypothesis run
        exact ⟨chosen, rfl, selected.of_erase⟩

/-- Every rule returns a selection from the table it is given. -/
theorem selectApps_selected {machine : Machine} {sample : Sample}
    {pick : StatsTable → Except PyError (Option Text)} {runninglist : List Text}
    {totalthreads : Int} {table : StatsTable} {plan : List Text}
    (run : selectApps machine sample pick runninglist totalthreads table = .ok plan) :
    Selected machine table runninglist (machine.memTotal.getD 0) totalthreads plan := by
  obtain ⟨chosen, same, selected⟩ := selectLoop_selected run
  rw [List.nil_append] at same
  subst same
  refine ⟨selected.nodup, fun app member => ?_, selected.threads, ?_⟩
  · exact ⟨(mem_deepcopy_iff _ _ _).mp (selected.candidate app member).1,
      (selected.candidate app member).2⟩
  · obtain ⟨sum, summed, bound⟩ := selected.ram
    refine ⟨sum, ?_, bound⟩
    rw [← summed]
    exact total_congr fun app _ => ramOf_congr (lookup_deepcopy _ _ _).symm

/-- The rules for idle CPUs select outside the running list; without an idle CPU, nothing. -/
theorem idleRule_selected {machine : Machine} {sample : Sample}
    {pick : StatsTable → Except PyError (Option Text)} {runninglist : List Text}
    {table : StatsTable} {plan : List Text}
    (run : (if idleBudget machine sample > 0 then
        selectApps machine sample pick runninglist (idleBudget machine sample) table
      else .ok []) = .ok plan) :
    Selected machine table runninglist (machine.memTotal.getD 0) (idleBudget machine sample) plan ∧
      (idleBudget machine sample ≤ 0 → plan = []) := by
  split at run
  · exact ⟨selectApps_selected run, fun none => by omega⟩
  · cases run
    exact ⟨selected_nil .., fun _ => rfl⟩

/-- The rule returns apps of the table only. -/
def Selects (rule : Rule) : Prop :=
  ∀ sample table runninglist plan, rule sample table runninglist = .ok plan →
    ∀ app ∈ plan, app ∈ table

theorem rules_selects (machine : Machine) :
    ∀ rule ∈ (rules machine).map Prod.snd, Selects rule := by
  simp only [rules, List.map_cons, List.map_nil, List.forall_mem_cons]
  refine ⟨?_, ?_, ?_, ?_, ?_, fun _ impossible => by cases impossible⟩
  · exact fun sample table _ plan run app member =>
      ((selectApps_selected run).candidate app member).1
  · exact fun sample table _ plan run app member =>
      ((selectApps_selected run).candidate app member).1
  · exact fun sample table _ plan run app member =>
      ((selectApps_selected run).candidate app member).1
  · exact fun sample table _ plan run app member =>
      ((idleRule_selected run).1.candidate app member).1
  · exact fun sample table _ plan run app member =>
      ((idleRule_selected run).1.candidate app member).1

end ClusterJobs
