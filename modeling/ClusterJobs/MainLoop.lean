/-
This file follows the main loop of `bin/parallel_dmtcp` through whole runs.

`Advance` says once what a step of the loop can do; it is read off the statements about the
operations, and every result about runs is a case analysis of it. From it come the two results
of this file. No job is lost: every app has a stat file, the list holds it at most once, and when
the loop ends every app is in `completed` or `noidea`. It has only one stat file as long as no
plugin writes between the two statements with which `stop_running` takes a job off. The candidate
table, on the other hand, keeps the key of an app that went to `noidea`, so it matches the queues
as long as no command has failed.
-/

import ClusterJobs.Operations

namespace ClusterJobs

open Python

variable {config : Config} {late : Set Text} {ids : List Text} {base : Board} {world : World}
  {main next main' : Main}

/-! ### One step -/

/-- What one step of the main loop does. -/
inductive Advance (config : Config) : Main → Main → Prop
  | clean {timer : Nat} {world world' : World} (retval : Bool) :
      world'.commands = world.commands → ProcsLater world.procs world'.procs →
      Sweep (fun entry => world.alive entry.pid) (fun _ => True) world.runningPidPort
        world'.runningPidPort →
      Advance config ⟨.head, timer, world⟩ ⟨.cleaned retval, timer, world'⟩
  | finish {timer : Nat} {world : World} :
      (∀ name, (Dir.queued, name) ∉ world.files ∧ (Dir.running, name) ∉ world.files) →
      Advance config ⟨.head, timer, world⟩ ⟨.finished, timer, world⟩
  | plan {timer timer' : Nat} {world world' : World} (retval : Bool) {plan : List Text} :
      Refreshed world world' →
      config.rule (config.schedule (world'.clock - 1)).sample world'.appStatsMap
        world.runningApps = .ok plan →
      Advance config ⟨.cleaned retval, timer, world⟩ ⟨.planned plan, timer', world'⟩
  | wait {timer : Nat} {world : World} (retval : Bool) :
      Advance config ⟨.cleaned retval, timer, world⟩ ⟨.sleeping, timer, world⟩
  | stop {timer : Nat} {world world' : World} {plan : List Text} :
      Preempted world world' →
      Sweep (fun entry => entry.app ∈ plan) (fun entry => entry.app ∉ plan) world.runningPidPort
        world'.runningPidPort →
      Advance config ⟨.planned plan, timer, world⟩ ⟨.stopped plan, timer, world'⟩
  | start {timer : Nat} {world world' : World} {plan : List Text} {new : List Entry} :
      Started world world' new →
      (new.map Entry.app).Perm (plan.dedup.filter fun app => app ∉ world.runningApps) →
      Advance config ⟨.stopped plan, timer, world⟩ ⟨.sleeping, timer, world'⟩
  | sleep {timer timer' : Nat} {world world' : World} : Quiet world world' →
      Advance config ⟨.sleeping, timer, world⟩ ⟨.head, timer', world'⟩
  | stay {timer : Nat} {world : World} :
      Advance config ⟨.finished, timer, world⟩ ⟨.finished, timer, world⟩

/-- Every step keeps the state on track and is one of these, when the apps that it makes late are
among those that may be late. -/
theorem advance_of_late (tracked : Tracked late ids base main.world)
    (allowed : ∀ plan, main.pc = .planned plan →
      appsOf (lateWriters config plan main.world) ⊆ late)
    (stepped : mainStep config main = .ok next) :
    Tracked late ids base next.world ∧ Advance config main next := by
  obtain ⟨pc, timer, world⟩ := main
  cases pc with
  | head =>
    simp only [mainStep] at stepped
    split at stepped
    · obtain ⟨⟨retval, world'⟩, ran, result⟩ := bind_eq_ok_iff.mp stepped
      cases result
      obtain ⟨⟨trackedNext, commands, procs⟩, swept⟩ :=
        (ensures_cleanCompleted tracked).of_run ran
      exact ⟨trackedNext, .clean retval commands procs swept⟩
    · rename_i idle
      cases stepped
      simp only [gt_iff_lt, List.length_pos_iff, not_or, not_not, List.eq_nil_iff_forall_not_mem,
        mem_listdir_iff] at idle
      exact ⟨tracked, .finish fun name => ⟨idle.1 name, idle.2 name⟩⟩
  | cleaned retval =>
    simp only [mainStep] at stepped
    split at stepped
    · obtain ⟨⟨plan, world'⟩, ran, result⟩ := bind_eq_ok_iff.mp stepped
      cases result
      obtain ⟨⟨trackedNext, refreshed⟩, planned⟩ := (ensures_getNextRunnableMap tracked).of_run ran
      exact ⟨trackedNext, .plan retval refreshed planned⟩
    · cases stepped
      exact ⟨tracked, .wait retval⟩
  | planned plan =>
    obtain ⟨⟨⟨⟩, world'⟩, ran, result⟩ := bind_eq_ok_iff.mp stepped
    cases result
    obtain ⟨⟨trackedNext, preempted⟩, swept⟩ :=
      (ensures_stopRunning plan tracked (allowed plan rfl)).of_run ran
    exact ⟨trackedNext, .stop preempted swept⟩
  | stopped plan =>
    obtain ⟨⟨⟨⟩, world'⟩, ran, result⟩ := bind_eq_ok_iff.mp stepped
    cases result
    obtain ⟨board, steps, consistent⟩ := tracked
    obtain ⟨trackedNext, new, started, apps⟩ := (ensures_startNext plan steps consistent).of_run ran
    exact ⟨trackedNext, .start started apps⟩
  | sleeping =>
    obtain ⟨⟨moment, world'⟩, ran, result⟩ := bind_eq_ok_iff.mp stepped
    cases result
    have observed : Ensures (observe config) world (fun _ next => Quiet world next)
        (fun _ => False) := ensures_observe tracked.backed
    have quiet := observed.of_run ran
    exact ⟨tracked.quiet quiet, .sleep quiet⟩
  | finished =>
    cases stepped
    exact ⟨tracked, .stay⟩

/-- When any app may be late, every step keeps the state on track. -/
theorem advance_of_mainStep (tracked : Tracked Set.univ ids base main.world)
    (stepped : mainStep config main = .ok next) :
    Tracked Set.univ ids base next.world ∧ Advance config main next :=
  advance_of_late tracked (fun _ _ => Set.subset_univ _) stepped

/-! ### Small instances -/

/-- A record with a number of cache misses. -/
def sampleStat (misses : Int) : StatRecord where
  name := "app".toList
  padding := 3
  rss := 100
  counts := ![0, 0, 0, 0, 0, 0, misses, 0]
  buff := sampleRecord.buff
  name_plain := by decide
  buff_plain := sampleRecord.buff_plain

/-- The state with the given stat files enqueued. -/
def enqueue (stats : List (Text × StatRecord)) : World where
  files := stats.foldr (fun stat files => files.insert (.queued, statFile stat.1) stat.2.text) ∅
  runningPidPort := []
  appStatsMap := stats.foldr (fun stat table => table.insert stat.1 stat.2.entry) ∅
  procs := []
  commands := []
  clock := 0

theorem enqueue_enqueued (stats : List (Text × StatRecord)) :
    Enqueued (stats.map Prod.fst) (enqueue stats) where
  files place := by
    induction stats with
    | nil => simp [enqueue]
    | cons stat stats inductionHypothesis =>
      simp only [enqueue, List.foldr_cons, AList.mem_insert] at *
      rw [inductionHypothesis]
      simp
  table app := by
    induction stats with
    | nil => simp [enqueue]
    | cons stat stats inductionHypothesis =>
      simp only [enqueue, List.foldr_cons, AList.mem_insert] at *
      rw [inductionHypothesis]
      simp
  list := rfl
  procs := rfl
  commands := rfl

/-- One CPU, and two threads for every app. -/
def smallMachine : Machine := ⟨some 1000, 1, fun _ => .ok 2⟩

/-- Surroundings in which every app has one checkpoint. -/
def surroundings (apps : List Text) (rule : Rule) (schedule : Nat → Moment) : Config where
  chkptsDir := "chkpts".toList
  chkpts := apps.foldr (fun app tree =>
    tree.insert app (AList.singleton "1".toList ["ckpt.dmtcp".toList])) ∅
  rule := rule
  schedule := schedule

/-- Two apps, the first with fewer cache misses. -/
def twoApps : World := enqueue [("a".toList, sampleStat 1), ("b".toList, sampleStat 5)]

/-- Every process ends well at once. -/
def bothEnd : Config :=
  surroundings ["a".toList, "b".toList] (rule1 smallMachine)
    fun _ => { events := [.exit 0 0, .exit 1 0] }

/-- App `a` gets more cache misses than `b` and ends by itself just before it is preempted, so
that the checkpoint command prints an error. Later `b` ends. -/
def lateExit : Config :=
  surroundings ["a".toList, "b".toList] (rule1 smallMachine) fun clock =>
    { events :=
        if clock = 4 then [.write 0 (sampleStat 9).text]
        else if clock = 40 then [.exit 0 0]
        else if clock = 45 then [.exit 1 0]
        else []
      stderr := ["Error: no process connected".toList] }

/-! ### Whole runs -/

/-- What every step keeps, given that the state is on track, holds throughout a run. -/
theorem Tracked.invariant (inv : Main → Prop) (tracked : Tracked Set.univ ids base main.world)
    (reached : Reachable (mainStep config) main main') (initial : inv main)
    (preserved : ∀ state next, Tracked Set.univ ids base state.world → Advance config state next →
      inv state → inv next) : Tracked Set.univ ids base main'.world ∧ inv main' := by
  refine reached.invariant (fun state => Tracked Set.univ ids base state.world ∧ inv state)
    ⟨tracked, initial⟩ ?_
  rintro state next ⟨here, holds⟩ stepped
  obtain ⟨trackedNext, advance⟩ := advance_of_mainStep here stepped
  exact ⟨trackedNext, preserved state next here advance holds⟩

theorem Tracked.later (tracked : Tracked Set.univ ids base main.world)
    (reached : Reachable (mainStep config) main main') : Tracked Set.univ ids base main'.world :=
  (tracked.invariant (fun _ => True) reached trivial fun _ _ _ _ _ => trivial).1

theorem Enqueued.start (enqueued : Enqueued ids world)
    (plain : ∀ app ∈ ids, '.' ∉ app ∧ '/' ∉ app) :
    Tracked Set.univ ids (startBoard ids) (Main.start world).world :=
  enqueued.tracked fun app member => (plain app member).1

theorem tracked_of_reachable
    (plain : ∀ app ∈ ids, '.' ∉ app ∧ '/' ∉ app) (enqueued : Enqueued ids world)
    (reached : Reachable (mainStep config) (Main.start world) main) :
    Tracked Set.univ ids (startBoard ids) main.world :=
  (enqueued.start plain).later reached

/-- A job in `completed` or `noidea` stays there: no stat file ever leaves these directories. -/
theorem final_of_reachable (tracked : Tracked Set.univ ids base main.world)
    (reached : Reachable (mainStep config) main main') {dir : Dir} {app : Text}
    (final : dir = .completed ∨ dir = .noidea) (member : app ∈ ids)
    (stored : HasStatFile main.world dir app) : HasStatFile main'.world dir app := by
  obtain ⟨board, _, consistent⟩ := tracked
  have here : Tracked Set.univ ids board main.world := ⟨board, .refl, consistent⟩
  obtain ⟨board', steps, consistent'⟩ := here.later reached
  have certain : dir ≠ .running := by rcases final with rfl | rfl <;> simp
  obtain ⟨name, found⟩ := (consistent.hasStatFile_iff member (.inl certain)).mp stored
  have stays : board' app = some (dir, name) := by
    refine steps.final found ?_
    rintro job target ⟨edge, _⟩
    rcases final with rfl | rfl <;> cases edge
  exact consistent'.hasStatFile_of_board stays

/-- The loop ends with nothing queued and nothing running. -/
theorem idle_of_finished
    (plain : ∀ app ∈ ids, '.' ∉ app ∧ '/' ∉ app) (enqueued : Enqueued ids world)
    (reached : Reachable (mainStep config) (Main.start world) main)
    (finished : main.pc = .finished) (name : Text) :
    (Dir.queued, name) ∉ main.world.files ∧ (Dir.running, name) ∉ main.world.files := by
  refine ((enqueued.start plain).invariant (fun main => main.pc = .finished → ∀ name,
    (Dir.queued, name) ∉ main.world.files ∧ (Dir.running, name) ∉ main.world.files) reached
    (fun impossible => by cases impossible) ?_).2 finished name
  intro state next _ advance idle ended
  cases advance with
  | finish empty => exact empty
  | stay => exact idle rfl
  | _ => cases ended

/-! ### Conservation of jobs -/

/-- In the next step a plugin writes the stat file of an entry that `stop_running` has moved away
and not yet taken off the list. -/
def WritesLate (config : Config) (main : Main) : Prop :=
  match main.pc with
  | .planned plan => lateWriters config plan main.world ≠ []
  | _ => False

instance (main : Main) : Decidable (WritesLate config main) := by
  unfold WritesLate
  split <;> infer_instance

/-- In a run without such a step no app is late. -/
theorem tracked_of_passes (plain : ∀ app ∈ ids, '.' ∉ app ∧ '/' ∉ app)
    (enqueued : Enqueued ids world) {count : Nat}
    (run : Passes (mainStep config) (WritesLate config) (Main.start world) count main) :
    count = 0 → Tracked ∅ ids (startBoard ids) main.world := by
  induction run with
  | refl => exact fun _ => enqueued.tracked fun app member => (plain app member).1
  | @next state _ _ _ punctual stepped inductionHypothesis =>
    intro none
    refine (advance_of_late (inductionHypothesis none) (fun plan planned => ?_) stepped).1
    rintro app ⟨writer, isLate, _⟩
    rw [WritesLate, planned] at punctual
    exact absurd (List.ne_nil_of_mem isLate) punctual
  | pass => exact fun impossible => by cases impossible

/-- The list holds every app at most once, `clean_completed` and `stop_running` find every file
they rename, and when the loop ends every app is in `completed` or `noidea`. As long as no plugin
writes a stat file that `stop_running` has moved away, every app has its stat file in exactly one
directory, and the list holds the apps of `running`. -/
theorem jobs_conserved
    (plain : ∀ app ∈ ids, '.' ∉ app ∧ '/' ∉ app) (enqueued : Enqueued ids world) {count : Nat}
    (run : Passes (mainStep config) (WritesLate config) (Main.start world) count main) :
    main.world.runningApps.Nodup ∧
      (∃ retval after, (cleanCompleted config).run main.world = .ok (retval, after)) ∧
      (∀ plan, ∃ after, (stopRunning config plan).run main.world = .ok ((), after)) ∧
      (main.pc = .finished → main.world.runningPidPort = [] ∧ ∀ app ∈ ids,
        HasStatFile main.world .completed app ∨ HasStatFile main.world .noidea app) ∧
      (count = 0 → (∀ app ∈ ids, ∃! dir, HasStatFile main.world dir app) ∧
        ∀ app, app ∈ main.world.runningApps ↔
          app ∈ ids ∧ HasStatFile main.world .running app) := by
  have tracked := tracked_of_reachable plain enqueued run.reachable
  obtain ⟨board, _, consistent⟩ := id tracked
  refine ⟨consistent.nodup, ?_, ?_, ?_, ?_⟩
  · obtain ⟨retval, after, ran, _⟩ := (ensures_cleanCompleted tracked).returns
    exact ⟨retval, after, ran⟩
  · intro plan
    obtain ⟨_, after, ran, _⟩ :=
      (ensures_stopRunning plan tracked (Set.subset_univ _)).returns
    exact ⟨after, ran⟩
  · intro finished
    have idle := idle_of_finished plain enqueued run.reachable finished
    constructor
    · rw [List.eq_nil_iff_forall_not_mem]
      intro entry member
      exact (idle _).2 (consistent.backed entry member)
    · intro app member
      obtain ⟨dir, name, found⟩ := consistent.placed member
      have stored := consistent.shelved.stored app _ found
      cases dir with
      | queued => exact absurd stored (idle name).1
      | running => exact absurd stored (idle name).2
      | completed => exact Or.inl (consistent.hasStatFile_of_board found)
      | noidea => exact Or.inr (consistent.hasStatFile_of_board found)
  · intro punctual
    obtain ⟨board, _, consistent⟩ := tracked_of_passes plain enqueued run punctual
    have onBoard : ∀ {dir : Dir} {app : Text}, app ∈ ids →
        (HasStatFile main.world dir app ↔ ∃ name, board app = some (dir, name)) :=
      fun member => consistent.hasStatFile_iff member (.inr (Set.notMem_empty _))
    constructor
    · intro app member
      obtain ⟨dir, name, found⟩ := consistent.placed member
      refine ⟨dir, consistent.hasStatFile_of_board found, fun other stored => ?_⟩
      obtain ⟨otherName, otherFound⟩ := (onBoard member).mp stored
      rw [found] at otherFound
      cases otherFound
      rfl
    · intro app
      constructor
      · intro listed
        obtain ⟨name, found⟩ := (consistent.listed app).mp listed
        exact ⟨(consistent.domain app).mp (by rw [found]; rfl),
          consistent.hasStatFile_of_board found⟩
      · rintro ⟨member, stored⟩
        exact (consistent.listed app).mpr ((onBoard member).mp stored)

/-- App `a` gets more cache misses than `b`, its checkpoint fails, and it writes its stat file
again before it is taken off the list. -/
def lateWrite : Config :=
  surroundings ["a".toList, "b".toList] (rule1 smallMachine) fun clock =>
    { events := if clock = 4 ∨ clock = 42 then [.write 0 (sampleStat 9).text] else []
      stderr := ["Error: not all processes are running".toList] }

/-- The stat file of `a` is then in `noidea` and in `running`, and `a` is not in the list. -/
theorem late_write_duplicates :
    ∃ main, Reachable (mainStep lateWrite) (Main.start twoApps) main ∧
      HasStatFile main.world .running "a".toList ∧ "a".toList ∉ main.world.runningApps ∧
      ¬ ∃! dir, HasStatFile main.world dir "a".toList := by
  obtain ⟨main, reached, lost, stored, unlisted⟩ := exists_reachable (mainStep lateWrite) 41
    (Main.start twoApps)
    (fun main => HasStatFile main.world .noidea "a".toList ∧
      HasStatFile main.world .running "a".toList ∧ "a".toList ∉ main.world.runningApps)
    (by decide +kernel)
  refine ⟨main, reached, stored, unlisted, fun single => ?_⟩
  cases single.unique lost stored

/-- App `a` gets more cache misses than `b`, and nothing fails. -/
def changeOver : Config :=
  surroundings ["a".toList, "b".toList] (rule1 smallMachine) fun clock =>
    { events := if clock = 4 then [.write 0 (sampleStat 9).text] else [] }

/-- App `a` is preempted for `b`. -/
theorem jobs_conserved_sample :
    ∃ main, Passes (mainStep changeOver) (WritesLate changeOver) (Main.start twoApps) 0 main ∧
      main.world.runningApps = ["b".toList] ∧ ∃! dir, HasStatFile main.world dir "a".toList := by
  obtain ⟨main, run, list⟩ := exists_passes (mainStep changeOver) (WritesLate changeOver)
    (fun main => main.world.runningApps = ["b".toList]) 42 (by decide +kernel)
    (Passes.refl : Passes _ _ (Main.start twoApps) 0 _)
  have conserved := jobs_conserved (by decide) (enqueue_enqueued _) run
  exact ⟨main, run, list, (conserved.2.2.2.2 rfl).1 "a".toList (by decide)⟩

/-! ### The candidate table -/

/-- What `start_next` relies on: the keys of the table are the apps in `queued` and `running`,
so the apps of the plan that are not running are queued, and no rename raises. -/
def TableMatches (config : Config) (ids plan : List Text) (world : World) : Prop :=
  (∀ app, app ∈ world.appStatsMap ↔
    app ∈ ids ∧ (HasStatFile world .queued app ∨ HasStatFile world .running app)) ∧
  (∀ app ∈ plan, app ∉ world.runningApps → HasStatFile world .queued app) ∧
  (startNext config plan).run world ≠ .error (.osError .rename)

/-- The plan in hand consists of keys of the table. -/
theorem plan_in_table
    (plain : ∀ app ∈ ids, '.' ∉ app ∧ '/' ∉ app) (enqueued : Enqueued ids world)
    (reached : Reachable (mainStep config) (Main.start world) main)
    (selects : Selects config.rule) {plan : List Text}
    (planned : main.pc = .planned plan ∨ main.pc = .stopped plan) :
    ∀ app ∈ plan, app ∈ main.world.appStatsMap := by
  refine ((enqueued.start plain).invariant (fun main => ∀ plan,
    main.pc = .planned plan ∨ main.pc = .stopped plan →
      ∀ app ∈ plan, app ∈ main.world.appStatsMap) reached ?_ ?_).2 plan planned
  · intro plan planned
    rcases planned with impossible | impossible <;> cases impossible
  · intro state next _ advance known plan planned
    cases advance with
    | plan _ _ ruled =>
      rcases planned with same | impossible
      · cases same
        exact selects _ _ _ _ ruled
      · cases impossible
    | stop preempted _ =>
      rcases planned with impossible | same
      · cases impossible
      · cases same
        rw [preempted.table]
        exact known _ (Or.inl rfl)
    | _ => rcases planned with impossible | impossible <;> cases impossible

/-- The candidate table matches the queues as long as no command has failed: an app in `noidea`
stays a candidate. After a failed command it matches only when a plugin has brought the stat file
back to `running` and the plan leaves the app out. -/
theorem table_matches_iff
    (plain : ∀ app ∈ ids, '.' ∉ app ∧ '/' ∉ app) (enqueued : Enqueued ids world)
    (reached : Reachable (mainStep config) (Main.start world) main)
    (selects : Selects config.rule) {plan : List Text}
    (stopped : main.pc = .stopped plan) :
    TableMatches config ids plan main.world ↔
      ∀ app, FailedFor main.world app → HasStatFile main.world .running app ∧ app ∉ plan := by
  have selected := plan_in_table plain enqueued reached selects (Or.inr stopped)
  obtain ⟨board, steps, consistent⟩ := tracked_of_reachable plain enqueued reached
  have queuedFile : ∀ {app : Text}, app ∈ ids →
      (HasStatFile main.world .queued app ↔ ∃ name, board app = some (.queued, name)) :=
    fun member => consistent.hasStatFile_iff member (.inl (by simp))
  constructor
  · rintro ⟨table, queued, _⟩ app failed
    obtain ⟨name, lost⟩ := (consistent.failures app).mpr failed
    have unqueued : app ∈ ids → ¬ HasStatFile main.world .queued app := by
      rintro enlisted stored
      obtain ⟨name, found⟩ := (queuedFile enlisted).mp stored
      rw [lost] at found
      cases found
    obtain ⟨enlisted, stored⟩ := (table app).mp ((consistent.table app).mpr ⟨_, lost, by simp⟩)
    refine ⟨stored.resolve_left (unqueued enlisted), fun member => ?_⟩
    refine unqueued enlisted (queued app member fun listed => ?_)
    obtain ⟨name, found⟩ := (consistent.listed app).mp listed
    rw [lost] at found
    cases found
  · intro harmless
    have enlisted : ∀ app ∈ main.world.appStatsMap, app ∈ ids := by
      intro app candidate
      obtain ⟨place, found, _⟩ := (consistent.table app).mp candidate
      exact (consistent.domain app).mp (by rw [found]; rfl)
    have queued : ∀ app ∈ plan, app ∉ main.world.runningApps →
        ∃ name, board app = some (.queued, name) := by
      intro app member unlisted
      obtain ⟨⟨dir, name⟩, found, unfinished⟩ := (consistent.table app).mp (selected app member)
      cases dir with
      | queued => exact ⟨name, found⟩
      | running => exact absurd ((consistent.listed app).mpr ⟨name, found⟩) unlisted
      | completed => exact absurd rfl unfinished
      | noidea =>
        exact absurd member (harmless app ((consistent.failures app).mp ⟨name, found⟩)).2
    refine ⟨fun app => ⟨fun candidate => ?_, ?_⟩, fun app member unlisted => ?_, fun run => ?_⟩
    · refine ⟨enlisted app candidate, ?_⟩
      obtain ⟨⟨dir, name⟩, found, unfinished⟩ := (consistent.table app).mp candidate
      cases dir with
      | queued => exact Or.inl (consistent.hasStatFile_of_board found)
      | running => exact Or.inr (consistent.hasStatFile_of_board found)
      | completed => exact absurd rfl unfinished
      | noidea => exact Or.inr (harmless app ((consistent.failures app).mp ⟨name, found⟩)).1
    · rintro ⟨member, stored | stored⟩
      · obtain ⟨name, found⟩ := (queuedFile member).mp stored
        exact (consistent.table app).mpr ⟨_, found, by simp⟩
      · rcases consistent.board_of_hasStatFile member stored with
          ⟨name, found⟩ | ⟨_, _, dir, name, found, away⟩
        · exact (consistent.table app).mpr ⟨_, found, by simp⟩
        · exact (consistent.table app).mpr ⟨_, found, by rcases away with rfl | rfl <;> simp⟩
    · obtain ⟨name, found⟩ := queued app member unlisted
      exact consistent.hasStatFile_of_board found
    · obtain ⟨app, member, unlisted, unqueued⟩ :=
        ((ensures_startNext plan steps consistent).of_error run).1 rfl
      obtain ⟨name, found⟩ := queued app member unlisted
      exact unqueued name found

/-- An app that has gone to `noidea` is selected once more. -/
theorem lost_app_selected_again :
    ∃ main, Reachable (mainStep lateExit) (Main.start twoApps) main ∧
      main.pc = .stopped ["a".toList] ∧ HasStatFile main.world .noidea "a".toList ∧
      ¬ TableMatches lateExit ["a".toList, "b".toList] ["a".toList] main.world := by
  obtain ⟨main, reached, stopped, lost, unlisted, unqueued⟩ := exists_reachable
    (mainStep lateExit) 46 (Main.start twoApps)
    (fun main => main.pc = .stopped ["a".toList] ∧ HasStatFile main.world .noidea "a".toList ∧
      "a".toList ∉ main.world.runningApps ∧ ¬ HasStatFile main.world .queued "a".toList)
    (by decide +kernel)
  refine ⟨main, reached, stopped, lost, fun holds => ?_⟩
  exact unqueued (holds.2.1 _ (List.mem_singleton_self _) unlisted)

/-- Without a failed command the table matches. -/
theorem table_matches_sample :
    ∃ main, Reachable (mainStep bothEnd) (Main.start twoApps) main ∧
      main.pc = .stopped ["b".toList] ∧
      TableMatches bothEnd ["a".toList, "b".toList] ["b".toList] main.world := by
  obtain ⟨main, reached, stopped, succeeded⟩ := exists_reachable (mainStep bothEnd) 8
    (Main.start twoApps)
    (fun main => main.pc = .stopped ["b".toList] ∧
      ∀ command ∈ main.world.commands, command.stderr = []) (by decide +kernel)
  refine ⟨main, reached, stopped, (table_matches_iff (by decide) (enqueue_enqueued _) reached
    (rules_selects smallMachine _ List.mem_cons_self) stopped).mpr ?_⟩
  rintro app ⟨command, member, failed, _⟩
  exact absurd (succeeded command member) failed

end ClusterJobs
