/-
This file asks whether the preempting scheduler can get stuck: jobs are queued, nothing runs, and
no tick ever starts one.

While nothing runs the state rests: no stat file is rewritten, no command is sent, and the loop
only counts up its timer. The next tick therefore plans from the table as it is, and what it
starts is the selection of the rule. A rule selects nothing exactly when no candidate fits into
the whole machine on its own; then the scheduler waits for ever, without a word.
-/

import ClusterJobs.Selection
import ClusterJobs.Ticks

namespace ClusterJobs

open Python

variable {config : Config} {ids plan : List Text} {base : Board} {world : World}
  {main due : Main} {machine : Machine} {threads ram misses : Text → Int}

/-! ### The scheduler at rest -/

theorem backed_of_idle (idle : world.runningPidPort = []) : Backed world := by
  intro entry member
  rw [idle] at member
  cases member

theorem cleanCompleted_idle (idle : world.runningPidPort = []) :
    (cleanCompleted config).run world = .ok (false, world) := by
  have none : world.runningPidPort.length = 0 := by rw [idle, List.length_nil]
  rw [cleanCompleted, forEach, StateT.run_bind]
  show (iterate _ _ world.runningPidPort.length 0 false).run world = _
  rw [none]
  rfl

theorem stopRunning_idle (idle : world.runningPidPort = []) :
    (stopRunning config plan).run world = .ok ((), world) := by
  have none : world.runningPidPort.length = 0 := by rw [idle, List.length_nil]
  rw [stopRunning, forEach, StateT.run_bind]
  show (iterate _ _ world.runningPidPort.length 0 ()).run world = _
  rw [none]
  rfl

/-- With nothing running no stat file is read, and the plan is made from the table as it is. -/
theorem ensures_getNextRunnableMap_idle (idle : world.runningPidPort = [])
    (unread : world.listdir .running = []) :
    Ensures (getNextRunnableMap config) world (fun plan next => Quiet world next ∧
        ∃ sample, config.rule sample world.appStatsMap [] = .ok plan)
      fun error => ∃ sample, config.rule sample world.appStatsMap [] = .error error := by
  have nothing : world.runningApps = [] := by rw [World.runningApps, idle, List.map_nil]
  simp only [getNextRunnableMap, ensures_bind, ensures_get, unread, nothing,
    ensures_forM_nil]
  refine (ensures_observe (backed_of_idle idle)).imp fun moment next quiet => ?_
  simp only [ensures_liftExcept, quiet.table]
  exact ⟨fun plan ruled => ⟨quiet, moment.sample, ruled⟩, fun error raised => ⟨_, raised⟩⟩

/-- A state in which the loop plans next. -/
def Due (main : Main) : Prop :=
  ∃ retval, main.pc = .cleaned retval ∧ (retval = true ∨ main.timer % 60 = 0)

/-- The timer counts in fives. -/
theorem timer_of_reachable (reached : Reachable (mainStep config) (Main.start world) main) :
    main.timer % 5 = 0 := by
  refine reached.invariant (fun main => main.timer % 5 = 0) rfl ?_
  rintro ⟨pc, timer, world⟩ next counted stepped
  cases pc with
  | head =>
    simp only [mainStep] at stepped
    split at stepped
    · obtain ⟨_, _, result⟩ := bind_eq_ok_iff.mp stepped
      cases result
      exact counted
    · cases stepped
      exact counted
  | cleaned retval =>
    simp only [mainStep] at stepped
    split at stepped
    · obtain ⟨_, _, result⟩ := bind_eq_ok_iff.mp stepped
      cases result
      show (if timer % 60 = 0 then 0 else timer) % 5 = 0
      split
      · rfl
      · exact counted
    · cases stepped
      exact counted
  | planned plan =>
    obtain ⟨_, _, result⟩ := bind_eq_ok_iff.mp stepped
    cases result
    exact counted
  | stopped plan =>
    obtain ⟨_, _, result⟩ := bind_eq_ok_iff.mp stepped
    cases result
    exact counted
  | sleeping =>
    obtain ⟨_, _, result⟩ := bind_eq_ok_iff.mp stepped
    cases result
    show (timer + 5) % 5 = 0
    rw [Nat.add_mod_right]
    exact counted
  | finished =>
    cases stepped
    exact counted

theorem mainStep_head_idle {timer : Nat} {name : Text} (idle : world.runningPidPort = [])
    (queued : (Dir.queued, name) ∈ world.files) :
    mainStep config ⟨.head, timer, world⟩ = .ok ⟨.cleaned false, timer, world⟩ := by
  have some : (world.listdir .queued).length > 0 :=
    List.length_pos_of_mem (mem_listdir_iff.mpr queued)
  simp only [mainStep]
  rw [if_pos (.inl some), cleanCompleted_idle idle]
  rfl

/-- Five seconds later the loop has looked again, and nothing has happened. -/
theorem exists_next_look {timer : Nat} {name : Text} (idle : world.runningPidPort = [])
    (queued : (Dir.queued, name) ∈ world.files) :
    ∃ next, Reachable (mainStep config) ⟨.sleeping, timer, world⟩
      ⟨.cleaned false, timer + 5, next⟩ ∧ Quiet world next := by
  have quiet := quiet_advance (backed_of_idle idle) (config.schedule world.clock)
  have wakes : mainStep config ⟨.sleeping, timer, world⟩ =
      .ok ⟨.head, timer + 5, world.advance (config.schedule world.clock)⟩ := rfl
  have looks : mainStep config ⟨.head, timer + 5, _⟩ = _ :=
    mainStep_head_idle (quiet.list.trans idle) ((quiet.files _).mpr queued)
  exact ⟨_, (Reachable.refl.next wakes).next looks, quiet⟩

/-- From a state in which the loop has looked for finished jobs, a tick comes, and nothing happens
before it. -/
theorem exists_due_of_cleaned {retval : Bool} {timer : Nat} {name : Text}
    (counted : timer % 5 = 0) (idle : world.runningPidPort = [])
    (queued : (Dir.queued, name) ∈ world.files) :
    ∃ due, Reachable (mainStep config) ⟨.cleaned retval, timer, world⟩ due ∧ Due due ∧
      Quiet world due.world := by
  -- The induction is on the time that is left until the timer is a multiple of sixty.
  induction rest : 60 - timer % 60 using Nat.strongRecOn generalizing timer retval world with
  | ind left inductionHypothesis =>
    by_cases now : retval = true ∨ timer % 60 = 0
    · exact ⟨_, .refl, ⟨retval, rfl, now⟩, quiet_refl world⟩
    have waits : mainStep config ⟨.cleaned retval, timer, world⟩ =
        .ok ⟨.sleeping, timer, world⟩ := by
      simp only [mainStep]
      rw [if_neg now]
    obtain ⟨next, looked, quiet⟩ := exists_next_look idle queued
    have later := (Reachable.refl.next waits).trans looked
    have closer : 60 - (timer + 5) % 60 < left ∨ (timer + 5) % 60 = 0 := by omega
    rcases closer with closer | due
    · obtain ⟨due, reached, isDue, rest⟩ := inductionHypothesis _ closer (by omega)
        (quiet.list.trans idle) ((quiet.files _).mpr queued) rfl
      exact ⟨due, later.trans reached, isDue, quiet.trans rest⟩
    · exact ⟨_, later, ⟨false, rfl, .inr due⟩, quiet⟩

/-- Where the loop stands between two ticks. -/
def Waiting (main : Main) : Prop :=
  main.pc = .head ∨ (∃ retval, main.pc = .cleaned retval) ∨ main.pc = .sleeping

/-- While jobs are queued and nothing runs, a tick comes, and nothing happens before it. -/
theorem Waiting.exists_due (config : Config) {name : Text} (waiting : Waiting main)
    (counted : main.timer % 5 = 0)
    (idle : main.world.runningPidPort = []) (queued : (Dir.queued, name) ∈ main.world.files) :
    ∃ due, Reachable (mainStep config) main due ∧ Due due ∧ Quiet main.world due.world := by
  obtain ⟨pc, timer, world⟩ := main
  rcases waiting with rfl | ⟨retval, rfl⟩ | rfl
  · have looks : mainStep config ⟨.head, timer, world⟩ = _ := mainStep_head_idle idle queued
    obtain ⟨due, reached, isDue, quiet⟩ := exists_due_of_cleaned counted idle queued
    exact ⟨due, (Reachable.refl.next looks).trans reached, isDue, quiet⟩
  · exact exists_due_of_cleaned counted idle queued
  · obtain ⟨next, looked, quiet⟩ := exists_next_look idle queued
    have counted' : (timer + 5) % 5 = 0 := by
      rw [Nat.add_mod_right]
      exact counted
    obtain ⟨due, reached, isDue, rest⟩ := exists_due_of_cleaned counted'
      (quiet.list.trans idle) ((quiet.files _).mpr queued)
    exact ⟨due, looked.trans reached, isDue, quiet.trans rest⟩

/-! ### The next tick -/

theorem Quiet.unread {world' : World} (quiet : Quiet world world')
    (unread : world.listdir .running = []) : world'.listdir .running = [] := by
  refine List.eq_nil_iff_forall_not_mem.mpr fun name member => ?_
  have stored := mem_listdir_iff.mpr ((quiet.files _).mp (mem_listdir_iff.mp member))
  rw [unread] at stored
  cases stored

/-- When nothing runs and no command has failed, the keys of the table are queued. -/
theorem Consistent.queued_of_idle {board : Board}
    (consistent : Consistent Set.univ ids [] world board)
    (idle : world.runningPidPort = [])
    (succeeded : ∀ command ∈ world.commands, command.stderr = []) {app : Text}
    (candidate : app ∈ world.appStatsMap) :
    app ∈ ids ∧ ∃ name, board app = some (.queued, name) := by
  obtain ⟨⟨dir, name⟩, found, unfinished⟩ := (consistent.table app).mp candidate
  refine ⟨(consistent.domain app).mp (by rw [found]; rfl), name, ?_⟩
  cases dir with
  | queued => exact found
  | running =>
    have listed := (consistent.listed app).mpr ⟨name, found⟩
    rw [List.nil_append, World.runningApps, idle] at listed
    cases listed
  | completed => exact absurd rfl unfinished
  | noidea =>
    obtain ⟨command, member, failed, _⟩ := (consistent.failures app).mp ⟨name, found⟩
    exact absurd (succeeded command member) failed

/-- A tick that finds nothing running starts the apps of its plan. -/
theorem exists_tick_of_idle (tracked : Tracked Set.univ ids base due.world) (isDue : Due due)
    (idle : due.world.runningPidPort = []) (unread : due.world.listdir .running = [])
    (succeeded : ∀ command ∈ due.world.commands, command.stderr = [])
    (selects : Selects config.rule) (restartable : Restartable config ids)
    (ruled : ∀ sample, ∃ plan, config.rule sample due.world.appStatsMap [] = .ok plan) :
    ∃ plan planned stopped after sample, Tick config plan due planned stopped after ∧
      config.rule sample due.world.appStatsMap [] = .ok plan ∧
      (after.world.runningPidPort = [] ↔ plan = []) := by
  obtain ⟨pc, timer, world⟩ := due
  obtain ⟨retval, rfl, now⟩ := isDue
  have raisesNot : ∀ error, (∃ sample, config.rule sample world.appStatsMap [] = .error error) →
      False := by
    rintro error ⟨sample, raised⟩
    obtain ⟨plan, planned⟩ := ruled sample
    rw [planned] at raised
    cases raised
  obtain ⟨plan, seen, plans, quiet, sample, planned⟩ :=
    ((ensures_getNextRunnableMap_idle idle unread).mono (fun _ _ outcome => outcome)
      raisesNot).returns
  have idle' := quiet.list.trans idle
  have stops : (stopRunning config plan).run seen = .ok ((), seen) := stopRunning_idle idle'
  obtain ⟨board, steps, consistent⟩ := tracked.quiet quiet
  have nothing : seen.runningApps = [] := by rw [World.runningApps, idle', List.map_nil]
  have queued : ∀ app ∈ plan, app ∈ ids ∧ ∃ name, board app = some (.queued, name) := by
    intro app member
    refine consistent.queued_of_idle idle' (by rwa [quiet.commands]) ?_
    rw [quiet.table]
    exact selects _ _ _ _ planned app member
  have startable : Restartable config plan := by
    obtain ⟨runnable, mapped, each⟩ := restartable
    exact ⟨runnable, mapped, fun app member => each app (queued app member).1⟩
  have startsAll := (ensures_startNext plan steps consistent).mono (fun _ _ outcome => outcome)
    fun error raised => by
      obtain ⟨app, member, _, unqueued⟩ := raised.1 (raised.2 startable)
      obtain ⟨name, found⟩ := (queued app member).2
      exact unqueued name found
  obtain ⟨_, last, starts, _, new, started, apps⟩ := startsAll.returns
  have planStep : mainStep config ⟨.cleaned retval, timer, world⟩ =
      .ok ⟨.planned plan, if timer % 60 = 0 then 0 else timer, seen⟩ := by
    simp only [mainStep]
    rw [if_pos now, plans]
    rfl
  have stopStep : ∀ timer, mainStep config ⟨.planned plan, timer, seen⟩ =
      .ok ⟨.stopped plan, timer, seen⟩ := by
    intro timer
    simp only [mainStep]
    rw [stops]
    rfl
  have startStep : ∀ timer, mainStep config ⟨.stopped plan, timer, seen⟩ =
      .ok ⟨.sleeping, timer, last⟩ := by
    intro timer
    simp only [mainStep]
    rw [starts]
    rfl
  refine ⟨plan, _, _, _, sample, ⟨planStep, rfl, stopStep _, startStep _⟩, planned, ?_⟩
  show last.runningPidPort = [] ↔ plan = []
  rw [nothing] at apps
  simp only [List.not_mem_nil, not_false_eq_true, decide_true, List.filter_true] at apps
  rw [started.list, idle', List.nil_append]
  constructor
  · rintro rfl
    exact (List.dedup_eq_nil plan).mp (List.nil_perm.mp apps)
  · rintro rfl
    exact List.map_eq_nil_iff.mp (List.perm_nil.mp apps)

/-! ### What the rule selects -/

/-- The rule can read the table: every app has a positive number of threads and a resident size,
and, where the rule looks at them, cache misses or a thread count below its sentinel. -/
structure Legible (machine : Machine) (name : RuleName) (table : StatsTable)
    (threads ram misses : Text → Int) : Prop where
  measured : Measured machine table threads ram
  positive : ∀ app ∈ table, 1 ≤ threads app
  below : name = .rule3 → ∀ app ∈ table, threads app < 1000000
  counted : name = .rule1 ∨ name = .rule2 → Counted table misses

/-- The rules that plan for the whole machine. -/
def PlansMachine (name : RuleName) : Prop := name = .rule1 ∨ name = .rule2 ∨ name = .rule3

/-- Such a rule returns nothing exactly when no app fits into the machine on its own. -/
theorem Legible.rule_eq_nil_iff {name : RuleName} {table : StatsTable}
    (legible : Legible machine name table threads ram misses) (whole : PlansMachine name)
    (sample : Sample) :
    ∃ plan, name.rule machine sample table [] = .ok plan ∧ (plan = [] ↔
      ∀ app ∈ table, name.budget machine {} < threads app ∨ machine.memTotal.getD 0 ≤ ram app) := by
  have below : name = .rule3 ∨ name = .rule4 → ∀ app ∈ table, threads app < 1000000 := by
    rintro (third | fourth)
    · exact legible.below third
    · rcases whole with rfl | rfl | rfl <;> cases fourth
  have everything : name.excluded [] = [] := by cases name <;> rfl
  have budget : name.budget machine sample = name.budget machine {} := by
    rcases whole with rfl | rfl | rfl <;> rfl
  obtain ⟨order, picks⟩ :=
    rule_picks legible.measured legible.positive below legible.counted sample.order
  refine ⟨_, rule_eq_scan legible.measured legible.positive picks [], ?_⟩
  rw [Greedy.scan_eq_nil_iff, everything, budget]
  simp only [List.not_mem_nil, not_false_eq_true, decide_true, List.filter_true]
  have members : ∀ app, app ∈ order ↔ app ∈ table := fun app =>
    picks.perm.mem_iff.trans (mem_deepcopy_iff ..)
  simp only [members]

/-- A queued app fits into the machine on its own. -/
def SomeQueuedFits (machine : Machine) (name : RuleName) (threads ram : Text → Int)
    (ids : List Text) (world : World) : Prop :=
  ∃ app ∈ ids, HasStatFile world .queued app ∧ threads app ≤ name.budget machine {} ∧
    ram app < machine.memTotal.getD 0

/-- When nothing runs and no command has failed, the candidates are the queued apps. -/
theorem someQueuedFits_iff {name : RuleName} (tracked : Tracked Set.univ ids base world)
    (idle : world.runningPidPort = [])
    (succeeded : ∀ command ∈ world.commands, command.stderr = []) :
    SomeQueuedFits machine name threads ram ids world ↔ ¬ ∀ app ∈ world.appStatsMap,
      name.budget machine {} < threads app ∨ machine.memTotal.getD 0 ≤ ram app := by
  obtain ⟨board, _, consistent⟩ := tracked
  have candidate : ∀ app, app ∈ world.appStatsMap ↔ app ∈ ids ∧ HasStatFile world .queued app := by
    intro app
    constructor
    · intro known
      obtain ⟨member, name, found⟩ := consistent.queued_of_idle idle succeeded known
      exact ⟨member, consistent.hasStatFile_of_board found⟩
    · rintro ⟨member, stored⟩
      obtain ⟨name, found⟩ := (consistent.hasStatFile_iff member (.inl (by simp))).mp stored
      exact (consistent.table app).mpr ⟨_, found, by simp⟩
  push Not
  constructor
  · rintro ⟨app, member, stored, fewThreads, smallSize⟩
    exact ⟨app, (candidate app).mpr ⟨member, stored⟩, fewThreads, smallSize⟩
  · rintro ⟨app, known, fewThreads, smallSize⟩
    obtain ⟨member, stored⟩ := (candidate app).mp known
    exact ⟨app, member, stored, fewThreads, smallSize⟩

/-! ### Stuck for ever -/

/-- Nothing has happened since, and a plan in hand is empty. -/
def AtRest (world : World) (main : Main) : Prop :=
  Quiet world main.world ∧ ∀ plan, main.pc = .planned plan ∨ main.pc = .stopped plan → plan = []

/-- A scheduler at rest whose rule selects nothing stays at rest. -/
theorem AtRest.step {next : Main} (atRest : AtRest world main)
    (idle : world.runningPidPort = []) (unread : world.listdir .running = [])
    (selectsNothing : ∀ sample plan, config.rule sample world.appStatsMap [] = .ok plan → plan = [])
    (stepped : mainStep config main = .ok next) : AtRest world next := by
  obtain ⟨pc, timer, current⟩ := main
  obtain ⟨quiet, unplanned⟩ := atRest
  have idle' := quiet.list.trans idle
  cases pc with
  | head =>
    simp only [mainStep] at stepped
    rw [cleanCompleted_idle idle'] at stepped
    split at stepped
    · cases stepped
      exact ⟨quiet, by simp⟩
    · cases stepped
      exact ⟨quiet, by simp⟩
  | cleaned retval =>
    simp only [mainStep] at stepped
    split at stepped
    · obtain ⟨⟨plan, after⟩, ran, result⟩ := bind_eq_ok_iff.mp stepped
      cases result
      obtain ⟨later, sample, planned⟩ :=
        (ensures_getNextRunnableMap_idle idle' (quiet.unread unread)).of_run ran
      rw [quiet.table] at planned
      refine ⟨quiet.trans later, ?_⟩
      rintro plan' (same | same)
      · cases same
        exact selectsNothing sample plan planned
      · cases same
    · cases stepped
      exact ⟨quiet, by simp⟩
  | planned plan =>
    simp only [mainStep] at stepped
    rw [stopRunning_idle idle'] at stepped
    cases stepped
    refine ⟨quiet, ?_⟩
    rintro plan' (same | same)
    · cases same
    · cases same
      exact unplanned plan (.inl rfl)
  | stopped plan =>
    have empty : plan = [] := unplanned plan (.inr rfl)
    subst empty
    obtain ⟨⟨⟨⟩, after⟩, ran, result⟩ := bind_eq_ok_iff.mp stepped
    cases result
    have waits : Ensures (startNext config []) current (fun _ after => Quiet current after)
        fun _ => True := by
      have none : ∀ order runningapplist, toRestart order [] runningapplist = [] := by
        refine fun order runningapplist => List.eq_nil_iff_forall_not_mem.mpr fun app member => ?_
        exact absurd (mem_toRestart_iff.mp member).1 List.not_mem_nil
      simp only [startNext, ensures_bind, ensures_get, ensures_liftExcept, none, ensures_forM_nil,
        implies_true, and_true]
      exact (ensures_observe (backed_of_idle idle')).imp fun _ _ later _ _ => later
    exact ⟨quiet.trans (waits.of_run ran), by simp⟩
  | sleeping =>
    cases stepped
    exact ⟨quiet.trans (quiet_advance (backed_of_idle idle') _), by simp⟩
  | finished =>
    cases stepped
    exact ⟨quiet, by simp⟩

/-- While jobs are queued and nothing runs, the next tick starts a job exactly when a queued one
fits into the machine on its own. When none does, nothing is ever started again. No plugin may have
left a stat file in `running`, since the tick would read it. -/
theorem next_tick_starts_iff
    (plain : ∀ app ∈ ids, '.' ∉ app ∧ '/' ∉ app) (enqueued : Enqueued ids world)
    (reached : Reachable (mainStep config) (Main.start world) main) {name : RuleName}
    (whole : PlansMachine name) (ruled : config.rule = name.rule machine)
    (restartable : Restartable config ids) (waiting : Waiting main)
    (idle : main.world.runningPidPort = []) (unread : main.world.listdir .running = [])
    (queued : main.world.listdir .queued ≠ [])
    (succeeded : ∀ command ∈ main.world.commands, command.stderr = [])
    (legible : Legible machine name main.world.appStatsMap threads ram misses) :
    (∃ plan due planned stopped after, Reachable (mainStep config) main due ∧
      Quiet main.world due.world ∧ Tick config plan due planned stopped after ∧
      (after.world.runningPidPort ≠ [] ↔
        SomeQueuedFits machine name threads ram ids main.world)) ∧
    (¬ SomeQueuedFits machine name threads ram ids main.world → ∀ later,
      Reachable (mainStep config) main later → later.world.runningPidPort = []) := by
  have tracked := tracked_of_reachable plain enqueued reached
  have fits : SomeQueuedFits machine name threads ram ids main.world ↔ _ :=
    someQueuedFits_iff tracked idle succeeded
  constructor
  · obtain ⟨file, stored⟩ := List.exists_mem_of_ne_nil _ queued
    obtain ⟨due, later, isDue, quiet⟩ := waiting.exists_due config (timer_of_reachable reached)
      idle (mem_listdir_iff.mp stored)
    have selects : Selects config.rule := by
      rw [ruled]
      exact rules_selects machine _ (by cases name <;> simp [rules, RuleName.rule])
    have rules : ∀ sample, ∃ plan, config.rule sample due.world.appStatsMap [] = .ok plan := by
      intro sample
      obtain ⟨plan, planned, _⟩ := legible.rule_eq_nil_iff whole sample
      rw [ruled, quiet.table]
      exact ⟨plan, planned⟩
    obtain ⟨plan, planned, stopped, after, sample, tick, made, starts⟩ :=
      exists_tick_of_idle (tracked.later later) isDue (quiet.list.trans idle)
        (quiet.unread unread) (by rwa [quiet.commands]) selects restartable rules
    refine ⟨plan, due, planned, stopped, after, later, quiet, tick, ?_⟩
    obtain ⟨plan', made', nothing⟩ := legible.rule_eq_nil_iff whole sample
    rw [ruled, quiet.table, made'] at made
    cases made
    rw [fits, ← nothing, not_iff_not, starts]
  · intro unfit later reachedLater
    rw [fits, not_not] at unfit
    have selectsNothing : ∀ sample plan,
        config.rule sample main.world.appStatsMap [] = .ok plan → plan = [] := by
      intro sample plan planned
      obtain ⟨plan', planned', nothing⟩ := legible.rule_eq_nil_iff whole sample
      rw [ruled, planned'] at planned
      cases planned
      exact nothing.mpr unfit
    have atRest : AtRest main.world main := by
      refine ⟨quiet_refl _, ?_⟩
      rintro plan (planned | planned)
      · rcases waiting with pc | ⟨_, pc⟩ | pc <;> rw [planned] at pc <;> cases pc
      · rcases waiting with pc | ⟨_, pc⟩ | pc <;> rw [planned] at pc <;> cases pc
    have rests := reachedLater.invariant (AtRest main.world) atRest fun state next holds stepped =>
      holds.step idle unread selectsNothing stepped
    exact rests.1.list.trans idle

/-- One CPU, and four threads for every app. -/
def narrowMachine : Machine := ⟨some 1000, 1, fun _ => .ok 4⟩

/-- Nothing happens. -/
def calm (machine : Machine) : Config :=
  surroundings ["a".toList, "b".toList] (rule1 machine) fun _ => {}

/-- Two apps that are too large for the machine: the tick starts neither. -/
theorem large_apps_never_start :
    ∃ main planned stopped after,
      Reachable (mainStep (calm narrowMachine)) (Main.start twoApps) main ∧
      main.world.listdir .queued ≠ [] ∧ main.world.runningPidPort = [] ∧
      Tick (calm narrowMachine) [] main planned stopped after ∧
      after.world.runningPidPort = [] := by
  obtain ⟨main, reached, queued, idle, passed⟩ := exists_reachable (mainStep (calm narrowMachine)) 1
    (Main.start twoApps)
    (fun main => main.world.listdir .queued ≠ [] ∧ main.world.runningPidPort = [] ∧
      tickPasses (calm narrowMachine) [] main (fun _ _ after =>
        decide (after.world.runningPidPort = [])) = true) (by decide +kernel)
  obtain ⟨planned, stopped, after, tick, nothing⟩ := exists_tick passed
  exact ⟨main, planned, stopped, after, reached, queued, idle, tick, of_decide_eq_true nothing⟩

theorem twoApps_legible :
    Legible smallMachine .rule1 twoApps.appStatsMap (fun _ => 2) (fun _ => 100)
      fun app => if app = "a".toList then 1 else 5 where
  measured := {
    threads := fun _ _ => rfl
    ram := show ∀ app ∈ twoApps.appStatsMap.keys, ramOf twoApps.appStatsMap app = .ok 100 by
      decide +kernel }
  positive _ _ := by decide
  below third := by cases third
  counted _ := show ∀ app ∈ twoApps.appStatsMap.keys, cacheMisses twoApps.appStatsMap app =
    .ok (if app = "a".toList then 1 else 5) by decide +kernel

/-- With two threads each they are started one at a time. -/
theorem next_tick_starts_sample :
    ∃ plan due planned stopped after,
      Reachable (mainStep (calm smallMachine)) (Main.start twoApps) due ∧
      Tick (calm smallMachine) plan due planned stopped after ∧
      after.world.runningPidPort ≠ [] := by
  have fits : SomeQueuedFits smallMachine .rule1 (fun _ => 2) (fun _ => 100)
      ["a".toList, "b".toList] twoApps :=
    ⟨"a".toList, List.mem_cons_self, by decide +kernel, by decide, by decide⟩
  have started : Reachable (mainStep (calm smallMachine)) (Main.start twoApps)
      (Main.start twoApps) := .refl
  obtain ⟨plan, due, planned, stopped, after, reached, _, tick, starts⟩ :=
    (next_tick_starts_iff (by decide) (enqueue_enqueued _) started (.inl rfl) rfl
      (by decide +kernel) (.inl rfl) rfl rfl (by decide +kernel) (List.forall_mem_nil _)
      twoApps_legible).1
  exact ⟨plan, due, planned, stopped, after, reached, tick, starts.mpr fits⟩

end ClusterJobs
