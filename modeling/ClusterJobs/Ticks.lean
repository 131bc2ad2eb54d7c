/-
This file follows one tick of the scheduler: a plan, the preemption of what is outside it, and
the start of what is in it and not running.

A rule bounds the resources of its plan. What runs after a tick is the plan together with the
entries that `stop_running` skipped, and it skips the neighbour of every entry it removes. So the
bounds hold when no two neighbours are both outside the plan, and otherwise an app survives that
the rule has not accounted for.

The rules for idle CPUs return apps to add, while `stop_running` takes the plan for everything
that may run. Under these rules every entry that the loop looks at is outside the plan, and each
tick preempts the entries at the even positions.
-/

import ClusterJobs.MainLoop

namespace ClusterJobs

open Python

variable {config : Config} {ids plan : List Text} {base : Board} {world : World}
  {main planned stopped after : Main} {machine : Machine}

/-! ### What a tick does -/

/-- The three steps of a tick that has a plan. -/
structure Tick (config : Config) (plan : List Text) (main planned stopped after : Main) : Prop where
  plans : mainStep config main = .ok planned
  plan : planned.pc = .planned plan
  stops : mainStep config planned = .ok stopped
  starts : mainStep config stopped = .ok after

/-- What a tick does to the list, for the plan that the rule made. -/
structure Ticked (config : Config) (plan : List Text) (before planned after : World) : Prop where
  ruled : config.rule (config.schedule (planned.clock - 1)).sample planned.appStatsMap
    before.runningApps = .ok plan
  table : after.appStatsMap = planned.appStatsMap
  list : ∃ survivors new, after.runningPidPort = survivors ++ new ∧
    Sweep (fun entry => entry.app ∈ plan) (fun entry => entry.app ∉ plan) before.runningPidPort
      survivors ∧
    (new.map Entry.app).Perm
      (plan.dedup.filter fun app => app ∉ survivors.map Entry.app)

theorem Tick.ticked (tick : Tick config plan main planned stopped after)
    (tracked : Tracked Set.univ ids base main.world) :
    Tracked Set.univ ids base after.world ∧
      Ticked config plan main.world planned.world after.world := by
  obtain ⟨plans, isPlanned, stops, starts⟩ := tick
  obtain ⟨trackedPlanned, first⟩ := advance_of_mainStep tracked plans
  obtain ⟨trackedStopped, second⟩ := advance_of_mainStep trackedPlanned stops
  obtain ⟨trackedAfter, third⟩ := advance_of_mainStep trackedStopped starts
  refine ⟨trackedAfter, ?_⟩
  cases first with
  | plan _ refreshed ruled =>
    cases isPlanned
    cases second with
    | stop preempted swept =>
      cases third with
      | start started apps =>
        rw [refreshed.list] at swept
        exact ⟨ruled, started.table.trans preempted.table, _, _, started.list, swept, apps⟩
  | _ => cases isPlanned

/-- Run a tick with a given plan and check its states. -/
def tickPasses (config : Config) (plan : List Text) (main : Main)
    (check : Main → Main → Main → Bool) : Bool :=
  match mainStep config main with
  | .error _ => false
  | .ok planned =>
    decide (planned.pc = .planned plan) && match mainStep config planned with
      | .error _ => false
      | .ok stopped => match mainStep config stopped with
        | .error _ => false
        | .ok after => check planned stopped after

theorem exists_tick {check : Main → Main → Main → Bool}
    (passed : tickPasses config plan main check = true) :
    ∃ planned stopped after, Tick config plan main planned stopped after ∧
      check planned stopped after = true := by
  unfold tickPasses at passed
  split at passed
  · cases passed
  · rename_i planned plans
    obtain ⟨isPlanned, passed⟩ := Bool.and_eq_true_iff.mp passed
    split at passed
    · cases passed
    · rename_i stopped stops
      split at passed
      · cases passed
      · rename_i after starts
        exact ⟨planned, stopped, after, ⟨plans, of_decide_eq_true isPlanned, stops, starts⟩, passed⟩

/-- One CPU; app `c` has two threads, every other app one. -/
def mixedMachine : Machine := ⟨some 1000, 1, fun app => .ok (if app = "c".toList then 2 else 1)⟩

/-! ### The plan and what runs -/

/-- No two neighbours of the list are both outside the plan. -/
def Apart (plan : List Text) (list : List Entry) : Prop :=
  list.IsChain fun first second => ¬ (first.app ∉ plan ∧ second.app ∉ plan)

instance (plan : List Text) (list : List Entry) : Decidable (Apart plan list) :=
  inferInstanceAs (Decidable (list.IsChain fun first second =>
    ¬ (first.app ∉ plan ∧ second.app ∉ plan)))

/-- Only apps of the plan run after a tick exactly when no two neighbours were both outside it. -/
theorem Ticked.subset_iff {before planned after : World}
    (ticked : Ticked config plan before planned after) :
    (∀ app ∈ after.runningApps, app ∈ plan) ↔ Apart plan before.runningPidPort := by
  obtain ⟨survivors, new, list, swept, apps⟩ := ticked.list
  have swept' : Sweep (fun entry => ¬ entry.app ∉ plan) (fun entry => entry.app ∉ plan)
      before.runningPidPort survivors := by
    simpa only [not_not] using swept
  rw [World.runningApps, list, List.map_append]
  constructor
  · intro inside
    refine swept'.apart fun entry member outside => outside (inside _ ?_)
    exact List.mem_append_left _ (List.mem_map_of_mem member)
  · intro apart app member
    rcases List.mem_append.mp member with old | fresh
    · obtain ⟨entry, survives, rfl⟩ := List.mem_map.mp old
      rw [swept'.eq_filter apart, List.mem_filter] at survives
      simpa using survives.2
    · have started := apps.subset fresh
      rw [List.mem_filter, List.mem_dedup] at started
      exact started.1

/-- All apps of the plan run after a tick. -/
theorem Ticked.superset {before planned after : World}
    (ticked : Ticked config plan before planned after) : ∀ app ∈ plan, app ∈ after.runningApps := by
  obtain ⟨survivors, new, list, _, apps⟩ := ticked.list
  intro app member
  rw [World.runningApps, list, List.map_append, List.mem_append]
  by_cases survives : app ∈ survivors.map Entry.app
  · exact Or.inl survives
  · refine Or.inr (apps.symm.subset ?_)
    rw [List.mem_filter, List.mem_dedup]
    exact ⟨member, by simpa using survives⟩

theorem Ticked.perm {before planned after : World}
    (ticked : Ticked config plan before planned after) (tracked : Tracked Set.univ ids base after)
    (distinct : plan.Nodup) (apart : Apart plan before.runningPidPort) :
    after.runningApps.Perm plan := by
  obtain ⟨board, _, consistent⟩ := tracked
  refine (List.perm_ext_iff_of_nodup consistent.nodup distinct).mpr fun app => ?_
  exact ⟨ticked.subset_iff.mpr apart app, ticked.superset app⟩

/-! ### Resources -/

/-- The running apps keep within a number of threads and within the memory of the machine. -/
def WithinResources (machine : Machine) (budget : Int) (world : World) : Prop :=
  ∃ threads ram, total machine.threads world.runningApps = .ok threads ∧ threads ≤ budget ∧
    total (ramOf world.appStatsMap) world.runningApps = .ok ram ∧ ram ≤ machine.memTotal.getD 0

/-- The thread budget of the rules that plan for the whole machine. -/
inductive Budget (machine : Machine) : Rule → Int → Prop
  | rule1 : Budget machine (rule1 machine) (2 * machine.cpuCount)
  | rule2 : Budget machine (rule2 machine) machine.cpuCount
  | rule3 : Budget machine (rule3 machine) (2 * machine.cpuCount)

theorem Budget.selected {budget : Int} {rule : Rule} (ruled : Budget machine rule budget)
    {sample : Sample} {table : StatsTable} {runninglist : List Text}
    (run : rule sample table runninglist = .ok plan) :
    Selected machine table [] (machine.memTotal.getD 0) budget plan ∧ 0 ≤ budget := by
  cases ruled with
  | rule1 =>
    have selected := selectApps_selected run
    rw [Int.mul_comm] at selected
    exact ⟨selected, by omega⟩
  | rule2 => exact ⟨selectApps_selected run, by omega⟩
  | rule3 =>
    have selected := selectApps_selected run
    rw [Int.mul_comm] at selected
    exact ⟨selected, by omega⟩

/-- After a tick, what runs is the plan, and so keeps within the resources, exactly when no two
neighbours of the list were both outside the plan. -/
theorem resources_bounded
    (plain : ∀ app ∈ ids, '.' ∉ app ∧ '/' ∉ app) (enqueued : Enqueued ids world)
    (reached : Reachable (mainStep config) (Main.start world) main) {budget : Int}
    (ruled : Budget machine config.rule budget)
    (tick : Tick config plan main planned stopped after) :
    ((∀ app ∈ after.world.runningApps, app ∈ plan) ↔ Apart plan main.world.runningPidPort) ∧
      (Apart plan main.world.runningPidPort → WithinResources machine budget after.world) := by
  obtain ⟨trackedAfter, ticked⟩ := tick.ticked (tracked_of_reachable plain enqueued reached)
  refine ⟨ticked.subset_iff, fun apart => ?_⟩
  obtain ⟨⟨distinct, _, ⟨threads, threadSum, threadBound⟩, ram, ramSum, ramBound⟩, positive⟩ :=
    ruled.selected ticked.ruled
  have same := ticked.perm trackedAfter distinct apart
  refine ⟨threads, ram, total_perm same.symm threadSum, threadBound positive, ?_, ?_⟩
  · rw [ticked.table]
    exact total_perm same.symm ramSum
  · by_cases empty : plan = []
    · rw [empty] at ramSum
      cases ramSum
      omega
    · exact (ramBound empty).le

def threeApps : World :=
  enqueue [("a".toList, sampleStat 1), ("b".toList, sampleStat 2), ("c".toList, sampleStat 5)]

/-- While `a` and `b` run, both get more cache misses than `c`. -/
def growingMisses : Config :=
  surroundings ["a".toList, "b".toList, "c".toList] (rule1 mixedMachine) fun clock =>
    { events :=
        if clock = 10 then [.write 0 (sampleStat 7).text, .write 1 (sampleStat 8).text] else [] }

/-- The plan is `c` alone, which takes both threads; `a` is preempted and `b` is skipped. -/
theorem skipped_app_exceeds_threads :
    ∃ main planned stopped after,
      Reachable (mainStep growingMisses) (Main.start threeApps) main ∧
      Tick growingMisses ["c".toList] main planned stopped after ∧
      (∀ command ∈ after.world.commands, command.stderr = []) ∧
      after.world.runningApps = ["b".toList, "c".toList] ∧
      ¬ WithinResources mixedMachine 2 after.world := by
  obtain ⟨main, reached, passed⟩ := exists_reachable (mainStep growingMisses) 39
    (Main.start threeApps)
    (fun main => tickPasses growingMisses ["c".toList] main (fun _ _ after =>
      decide ((∀ command ∈ after.world.commands, command.stderr = []) ∧
        after.world.runningApps = ["b".toList, "c".toList])) = true) (by decide +kernel)
  obtain ⟨planned, stopped, after, tick, holds⟩ := exists_tick passed
  obtain ⟨succeeded, apps⟩ := of_decide_eq_true holds
  refine ⟨main, planned, stopped, after, reached, tick, succeeded, apps, ?_⟩
  rintro ⟨threads, ram, summed, bound, _⟩
  rw [apps, show total mixedMachine.threads ["b".toList, "c".toList] = .ok 3 by decide] at summed
  cases summed
  omega

/-- One thread for every app; while `a` and `b` run, `a` gets more cache misses than `c`. -/
def oneGrows : Config :=
  surroundings ["a".toList, "b".toList, "c".toList] (rule1 ⟨some 1000, 1, fun _ => .ok 1⟩)
    fun clock => { events := if clock = 10 then [.write 0 (sampleStat 7).text] else [] }

/-- A tick that keeps `b` and replaces `a` by `c`. -/
theorem resources_bounded_sample :
    ∃ main planned stopped after,
      Reachable (mainStep oneGrows) (Main.start threeApps) main ∧
      Tick oneGrows ["b".toList, "c".toList] main planned stopped after ∧
      main.world.runningApps = ["a".toList, "b".toList] ∧
      WithinResources ⟨some 1000, 1, fun _ => .ok 1⟩ 2 after.world := by
  obtain ⟨main, reached, list, apart, passed⟩ := exists_reachable (mainStep oneGrows) 39
    (Main.start threeApps)
    (fun main => main.world.runningApps = ["a".toList, "b".toList] ∧
      Apart ["b".toList, "c".toList] main.world.runningPidPort ∧
      tickPasses oneGrows ["b".toList, "c".toList] main (fun _ _ _ => true) = true)
    (by decide +kernel)
  obtain ⟨planned, stopped, after, tick, _⟩ := exists_tick passed
  refine ⟨main, planned, stopped, after, reached, tick, list, ?_⟩
  exact (resources_bounded (by decide) (enqueue_enqueued _) reached .rule1 tick).2 apart

/-! ### The rules for idle CPUs -/

/-- Under the rules for idle CPUs, an app that runs and has not finished keeps running through
a tick exactly when it does not stand at an even position; and a tick without an idle CPU
changes the list unless it is empty. -/
theorem idle_rules_only_add_iff
    (plain : ∀ app ∈ ids, '.' ∉ app ∧ '/' ∉ app) (enqueued : Enqueued ids world)
    (reached : Reachable (mainStep config) (Main.start world) main)
    (ruled : config.rule = rule4 machine ∨ config.rule = rule6 machine)
    (tick : Tick config plan main planned stopped after) :
    ((∀ entry ∈ main.world.runningPidPort, main.world.alive entry.pid →
        entry.app ∈ after.world.runningApps) ↔
      ∀ (half : Nat) (entry : Entry), main.world.runningPidPort[2 * half]? = some entry →
        ¬ main.world.alive entry.pid) ∧
    (idleBudget machine (config.schedule (planned.world.clock - 1)).sample ≤ 0 →
      (after.world.runningPidPort = main.world.runningPidPort ↔
        main.world.runningPidPort = [])) := by
  have tracked := tracked_of_reachable plain enqueued reached
  obtain ⟨_, ticked⟩ := tick.ticked tracked
  obtain ⟨board, _, consistent⟩ := tracked
  obtain ⟨survivors, new, list, swept, apps⟩ := ticked.list
  -- Both rules pass over the running apps, so no entry of the list is in the plan.
  obtain ⟨selected, unplanned⟩ : Selected machine planned.world.appStatsMap main.world.runningApps
      (machine.memTotal.getD 0)
      (idleBudget machine (config.schedule (planned.world.clock - 1)).sample) plan ∧
      (idleBudget machine (config.schedule (planned.world.clock - 1)).sample ≤ 0 → plan = []) := by
    have run := ticked.ruled
    rcases ruled with rule | rule
    · rw [rule] at run
      exact idleRule_selected run
    · rw [rule] at run
      exact idleRule_selected run
  have outside : ∀ entry ∈ main.world.runningPidPort, entry.app ∉ plan := fun entry member inside =>
    (selected.candidate _ inside).2 (List.mem_map_of_mem member)
  have halved : survivors = odds main.world.runningPidPort := swept.eq_odds outside
  subst halved
  have stays : ∀ entry ∈ main.world.runningPidPort, entry.app ∈ after.world.runningApps ↔
      entry ∈ odds main.world.runningPidPort := by
    intro entry member
    rw [World.runningApps, list, List.map_append, List.mem_append]
    constructor
    · rintro (old | fresh)
      · obtain ⟨other, survives, same⟩ := List.mem_map.mp old
        have inList := swept.sublist.subset survives
        rwa [← List.inj_on_of_nodup_map consistent.nodup inList member same]
      · have started := apps.subset fresh
        rw [List.mem_filter, List.mem_dedup] at started
        exact absurd started.1 (outside entry member)
    · exact fun survives => Or.inl (List.mem_map_of_mem survives)
  constructor
  · constructor
    · intro keeps half entry found alive
      have member := List.mem_of_getElem? found
      have survives := (stays entry member).mp (keeps entry member alive)
      exact (mem_odds_iff_not_even consistent.list_nodup member).mp survives ⟨half, found⟩
    · intro finished entry member alive
      refine (stays entry member).mpr
        ((mem_odds_iff_not_even consistent.list_nodup member).mpr ?_)
      rintro ⟨half, found⟩
      exact finished half entry found alive
  · intro busy
    rw [unplanned busy] at apps
    have unstarted : new = [] := List.map_eq_nil_iff.mp (List.perm_nil.mp apps)
    rw [list, unstarted, List.append_nil, odds_eq_self_iff]

/-- Idle at first, and busy from then on. -/
def busyLater : Config :=
  surroundings ["a".toList, "b".toList] (rule4 mixedMachine) fun clock =>
    { sample := { idle := if clock = 0 then 999 / 10 else 0 } }

/-- A tick that finds no idle CPU preempts the only running app. -/
theorem busy_tick_preempts :
    ∃ main planned stopped after,
      Reachable (mainStep busyLater) (Main.start twoApps) main ∧
      Tick busyLater [] main planned stopped after ∧
      idleBudget mixedMachine (busyLater.schedule (planned.world.clock - 1)).sample = 0 ∧
      main.world.runningPidPort = [⟨"a".toList, 0, 0⟩] ∧ main.world.alive 0 ∧
      after.world.runningPidPort = [] := by
  obtain ⟨main, reached, list, alive, passed⟩ := exists_reachable (mainStep busyLater) 39
    (Main.start twoApps)
    (fun main => main.world.runningPidPort = [⟨"a".toList, 0, 0⟩] ∧ main.world.alive 0 = true ∧
      tickPasses busyLater [] main (fun planned _ after => decide
        (idleBudget mixedMachine (busyLater.schedule (planned.world.clock - 1)).sample = 0 ∧
          after.world.runningPidPort = [])) = true) (by decide +kernel)
  obtain ⟨planned, stopped, after, tick, holds⟩ := exists_tick passed
  obtain ⟨busy, empty⟩ := of_decide_eq_true holds
  exact ⟨main, planned, stopped, after, reached, tick, busy, list, alive, empty⟩

/-- Two CPUs that are idle at first and busy from then on; `a` ends just before the second tick. -/
def oneEnds : Config :=
  surroundings ["a".toList, "b".toList] (rule4 ⟨some 1000, 2, fun _ => .ok 1⟩) fun clock =>
    { events := if clock = 62 then [.exit 0 0] else []
      stderr := ["Error: no process connected".toList]
      port := 7000 + clock
      sample := { idle := if clock = 0 then 999 / 10 else 0 } }

/-- The ended `a` stands first, so the running `b` stays. -/
theorem idle_rules_only_add_sample :
    ∃ main planned stopped after,
      Reachable (mainStep oneEnds) (Main.start twoApps) main ∧
      Tick oneEnds [] main planned stopped after ∧
      main.world.runningPidPort = [⟨"a".toList, 0, 7002⟩, ⟨"b".toList, 1, 7003⟩] ∧
      ¬ main.world.alive 0 ∧ main.world.alive 1 ∧
      ∀ entry ∈ main.world.runningPidPort, main.world.alive entry.pid →
        entry.app ∈ after.world.runningApps := by
  obtain ⟨main, reached, list, ended, alive, passed⟩ := exists_reachable (mainStep oneEnds) 39
    (Main.start twoApps)
    (fun main => main.world.runningPidPort = [⟨"a".toList, 0, 7002⟩, ⟨"b".toList, 1, 7003⟩] ∧
      ¬ main.world.alive 0 ∧ main.world.alive 1 ∧
      tickPasses oneEnds [] main (fun _ _ _ => true) = true) (by decide +kernel)
  obtain ⟨planned, stopped, after, tick, _⟩ := exists_tick passed
  refine ⟨main, planned, stopped, after, reached, tick, list, ended, alive, ?_⟩
  have only := idle_rules_only_add_iff (by decide) (enqueue_enqueued _) reached (Or.inl rfl) tick
  refine only.1.mpr ?_
  rw [list]
  rintro (_ | half) entry found
  · cases found
    exact ended
  · simp [Nat.mul_add] at found

end ClusterJobs
