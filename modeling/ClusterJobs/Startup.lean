/-
This file models how `bin/parallel_dmtcp` starts: `generate_stats_and_enqueue` restarts every
checkpointed app once, waits until it is gone, and reads the stat file it has left behind.

The stat file is the work of another program. The plugin in the app's process learns from the
environment that it is to write one record, and it does so when the hook gets the event
`DMTCP_EVENT_RESUME`, which comes when a checkpoint has finished; then it ends the process. The
coordinator takes a checkpoint every 60 seconds. An app that ends before its first checkpoint has
finished leaves no stat file. The scheduler opens the file all the same, and the exception ends it
before anything is scheduled.

A start that ends leaves exactly the state from which the main loop is known to keep its jobs.
-/

import ClusterJobs.MainLoop
import ClusterJobs.Plugin

namespace ClusterJobs

open Python Plugin

/-! ### The life of a restarted app -/

/-- The time between two checkpoints, `-i 60`, in milliseconds. -/
def interval : Nat := 60 * 1000

/-- An app after its restart: its image and its threads, when it ends if nobody ends it, when its
checkpoints finish, and what the plugin finds when it writes. The checkpoints are an interval
apart. -/
structure Life where
  image : Image Place
  threads : Nat
  ends : Nat
  finish : Nat → Nat
  record : StatRecord
  increasing : StrictMono finish
  spaced : ∀ number, interval * (number + 1) ≤ finish number

/-- The checkpoints that finish while the app is still there. -/
def Life.finished (life : Life) : Nat :=
  (List.range (life.ends / interval)).countP fun number => life.finish number < life.ends

/-- The events of a restarted process: each of its threads is resumed, the first one and the
others, and each checkpoint that finishes while the app is there resumes it again. -/
def Life.events (life : Life) : List DmtcpEvent :=
  List.replicate (life.threads + 1) (.resumeUserThread true) ++
    (List.replicate life.finished [.resume, .resumeUserThread false]).flatten

/-- `restart`, in the foreground: the process has ended when the call returns. -/
def restart (perfEventOpen : PerfEventOpen) (env : Env Place) (life : Life)
    (files : AList fun _ : Place => Text) : AList fun _ : Place => Text :=
  (life.events.foldl (deliver perfEventOpen env life.record) (life.image.revive files)).files

/-! ### `generate_stats_and_enqueue` -/

/-- `update_app_stats_map(appid, statfile)`. -/
def readStatFile (appid : Text) (place : Place) : Program World PyError Unit := do
  let world ← get
  match world.files.lookup place with
  | none => throw (.osError .open)
  | some content => do
    let table ← liftM (updateAppStatsMap appid content world.appStatsMap)
    modify fun world => { world with appStatsMap := table }

/-- The body of the loop. `dmtcp_env.txt` and the log are left out. -/
def generateStats (perfEventOpen : PerfEventOpen) (config : Config) (lives : Text → Life)
    (key : Text) : Program World PyError Unit := do
  liftM (enterChkptDir config.chkpts key)
  let env : Env Place := ⟨some (.queued, statFile key), some "ONCE".toList⟩
  modify fun world => { world with
    files := restart perfEventOpen env (lives key) world.files }
  readStatFile key (.queued, statFile key)

def generateStatsAndEnqueue (perfEventOpen : PerfEventOpen) (config : Config)
    (lives : Text → Life) : Program World PyError Unit := do
  let runnable ← liftM (getRunnableInstanceMap config.chkptsDir config.chkpts)
  runnable.keys.forM (generateStats perfEventOpen config lives)

/-- The directories of the stats have just been made, and nothing has been started. -/
def World.fresh : World where
  files := ∅
  runningPidPort := []
  appStatsMap := ∅
  procs := []
  commands := []
  clock := 0

/-- The first checkpoint is the one that counts. -/
theorem Life.finished_pos_iff (life : Life) : 0 < life.finished ↔ life.finish 0 < life.ends := by
  rw [Life.finished, List.countP_pos_iff]
  constructor
  · intro ⟨number, _, before⟩
    exact (life.increasing.monotone (Nat.zero_le number)).trans_lt (of_decide_eq_true before)
  · intro before
    have first : interval * (0 + 1) ≤ life.finish 0 := life.spaced 0
    rw [Nat.zero_add, Nat.mul_one] at first
    refine ⟨0, List.mem_range.mpr ?_, decide_eq_true before⟩
    exact Nat.div_pos (first.trans before.le) (by decide)

/-- An app restarted to write one record has written it exactly when its first checkpoint finished
while it was still there. -/
theorem restart_once {perfEventOpen : PerfEventOpen} (opens : Opens perfEventOpen) (place : Place)
    (life : Life) (files : AList fun _ : Place => Text) :
    restart perfEventOpen ⟨some place, some "ONCE".toList⟩ life files =
      if life.finish 0 < life.ends then files.insert place life.record.text else files := by
  have alive : (life.image.revive files).ended = false := rfl
  have primed := primed_replicate opens life.record place life.threads alive rfl
  rw [restart, Life.events, List.foldl_append]
  by_cases before : life.finish 0 < life.ends
  · obtain ⟨count, positive⟩ := Nat.exists_eq_succ_of_ne_zero
      (life.finished_pos_iff.mpr before).ne'
    obtain ⟨ended, written, _⟩ := primed.resume perfEventOpen
      ⟨some place, some "ONCE".toList⟩ life.record
    have resumed : (List.replicate count.succ
        [DmtcpEvent.resume, .resumeUserThread false]).flatten =
          .resume :: .resumeUserThread false ::
            (List.replicate count [DmtcpEvent.resume, .resumeUserThread false]).flatten := rfl
    rw [if_pos before, positive, resumed, List.foldl_cons, foldl_deliver_ended ended, written]
    rfl
  · have none : life.finished = 0 :=
      Nat.eq_zero_of_not_pos fun positive => before (life.finished_pos_iff.mp positive)
    rw [if_neg before, none]
    exact primed.files

/-! ### One app, and all of them -/

section Starting

variable {perfEventOpen : PerfEventOpen} {config : Config} {lives : Text → Life}

/-- The checkpoint directory of the app can be entered, and the app is still there when its first
checkpoint has finished. -/
def Survives (config : Config) (lives : Text → Life) (app : Text) : Prop :=
  enterChkptDir config.chkpts app = .ok () ∧ (lives app).finish 0 < (lives app).ends

/-- The state with one more app enqueued. -/
def World.enqueued (lives : Text → Life) (world : World) (app : Text) : World :=
  { world with
    files := world.files.insert (.queued, statFile app) (lives app).record.text
    appStatsMap := world.appStatsMap.insert app (lives app).record.entry }

/-- The body of the loop enqueues an app that survives; of any other it raises. -/
theorem ensures_generateStats (opens : Opens perfEventOpen) {world : World} {key : Text}
    (fresh : (Dir.queued, statFile key) ∉ world.files) :
    Ensures (generateStats perfEventOpen config lives key) world
      (fun _ next => Survives config lives key ∧ next = world.enqueued lives key)
      (fun _ => ¬ Survives config lives key) := by
  simp only [generateStats, readStatFile, ensures_bind, ensures_liftExcept, ensures_modify,
    ensures_get, restart_once opens]
  refine ⟨fun _ entered => ?_, fun error raised survives => ?_⟩
  · by_cases before : (lives key).finish 0 < (lives key).ends
    · rw [if_pos before, AList.lookup_insert]
      simp only [ensures_bind, ensures_liftExcept, ensures_modify, StatRecord.update_whole]
      refine ⟨fun table stored => ⟨⟨entered, before⟩, ?_⟩, fun error raised => by cases raised⟩
      rw [← Except.ok.inj stored]
      rfl
    · rw [if_neg before, AList.lookup_eq_none.mpr fresh]
      simp only [ensures_throw]
      exact fun survives => before survives.2
  · rw [survives.1] at raised
    cases raised

/-- The state with several more apps enqueued. -/
def World.enqueuedAll (lives : Text → Life) (world : World) (apps : List Text) : World :=
  apps.foldl (World.enqueued lives) world

theorem mem_files_enqueuedAll (world : World) (apps : List Text) (place : Place) :
    place ∈ (world.enqueuedAll lives apps).files ↔
      place ∈ world.files ∨ ∃ app ∈ apps, place = (.queued, statFile app) := by
  induction apps generalizing world with
  | nil => simp [World.enqueuedAll]
  | cons app apps inductionHypothesis =>
    refine (inductionHypothesis (world.enqueued lives app)).trans ?_
    simp only [World.enqueued, AList.mem_insert, List.mem_cons, exists_eq_or_imp]
    rw [or_comm (a := place = _), or_assoc]

theorem mem_table_enqueuedAll (world : World) (apps : List Text) (app : Text) :
    app ∈ (world.enqueuedAll lives apps).appStatsMap ↔ app ∈ world.appStatsMap ∨ app ∈ apps := by
  induction apps generalizing world with
  | nil => simp [World.enqueuedAll]
  | cons head apps inductionHypothesis =>
    refine (inductionHypothesis (world.enqueued lives head)).trans ?_
    rw [World.enqueued, AList.mem_insert, List.mem_cons, or_comm (a := app = head), or_assoc]

/-- The stat file and the entry of an app are those of its record. -/
structure Stored (lives : Text → Life) (world : World) (app : Text) : Prop where
  file : world.files.lookup (.queued, statFile app) = some (lives app).record.text
  entry : world.appStatsMap.lookup app = some (lives app).record.entry

theorem Stored.enqueued {world : World} {app : Text} (stored : Stored lives world app)
    (other : Text) : Stored lives (world.enqueued lives other) app := by
  by_cases same : app = other
  · rw [same]
    exact ⟨AList.lookup_insert _, AList.lookup_insert _⟩
  · have places : ((Dir.queued, statFile app) : Place) ≠ (.queued, statFile other) :=
      fun equal => same (statFile_injective (congrArg Prod.snd equal))
    exact ⟨(AList.lookup_insert_ne places).trans stored.file,
      (AList.lookup_insert_ne same).trans stored.entry⟩

theorem Stored.enqueuedAll {world : World} {app : Text} (stored : Stored lives world app)
    (apps : List Text) : Stored lives (world.enqueuedAll lives apps) app := by
  induction apps generalizing world with
  | nil => exact stored
  | cons other apps inductionHypothesis => exact inductionHypothesis (stored.enqueued other)

/-- The loop enqueues all apps when all survive, and raises otherwise. -/
theorem ensures_generateStats_all (opens : Opens perfEventOpen) {keys : List Text}
    (distinct : keys.Nodup) :
    Ensures (keys.forM (generateStats perfEventOpen config lives)) World.fresh
      (fun _ next => (∀ key ∈ keys, Survives config lives key) ∧
        next = World.fresh.enqueuedAll lives keys)
      (fun _ => ∃ key ∈ keys, ¬ Survives config lives key) := by
  -- The state is known from the apps behind; those to come have no stat file yet.
  refine (ensures_forM (fun rest state => ∃ done, done ++ rest = keys ∧
    (∀ key ∈ done, Survives config lives key) ∧ state = World.fresh.enqueuedAll lives done)
    ?_ keys World.fresh ⟨[], rfl, by simp, rfl⟩).imp ?_
  · rintro key rest _ ⟨done, split, survive, rfl⟩
    have here : key ∈ keys := by
      rw [← split]
      exact List.mem_append_right _ List.mem_cons_self
    have fresh : (Dir.queued, statFile key) ∉ (World.fresh.enqueuedAll lives done).files := by
      rw [mem_files_enqueuedAll]
      rintro (stored | ⟨app, member, same⟩)
      · exact AList.notMem_empty _ stored
      · obtain rfl := statFile_injective (congrArg Prod.snd same)
        rw [← split, List.nodup_append] at distinct
        exact distinct.2.2 key member key List.mem_cons_self rfl
    refine (ensures_generateStats opens fresh).mono ?_ fun _ dies => ⟨key, here, dies⟩
    rintro _ _ ⟨survives, rfl⟩
    refine ⟨done ++ [key], by simpa using split, ?_, ?_⟩
    · exact List.forall_mem_append.mpr ⟨survive, List.forall_mem_singleton.mpr survives⟩
    · rw [World.enqueuedAll, World.enqueuedAll, List.foldl_append]
      rfl
  · rintro _ _ ⟨done, split, survive, rfl⟩
    rw [List.append_nil] at split
    rw [← split]
    exact ⟨survive, rfl⟩

/-- The start enqueues all apps when all survive, and raises otherwise. -/
theorem ensures_generateStatsAndEnqueue (opens : Opens perfEventOpen) (lives : Text → Life)
    (imaged : Imaged config.chkpts) :
    ∃ apps : List Text, (∀ app, app ∈ apps ↔ app ∈ config.chkpts) ∧
      Ensures (generateStatsAndEnqueue perfEventOpen config lives) World.fresh
        (fun _ next => (∀ app ∈ config.chkpts, Survives config lives app) ∧
          next = World.fresh.enqueuedAll lives apps)
        (fun _ => ∃ app ∈ config.chkpts, ¬ Survives config lives app) := by
  obtain ⟨runnable, mapped, keys, -⟩ := getRunnableInstanceMap_lookup config.chkptsDir imaged
  refine ⟨runnable.keys, keys, ?_⟩
  simp only [generateStatsAndEnqueue, ensures_bind, ensures_liftExcept, mapped]
  refine ⟨fun runnable' same => ?_, fun error raised => by cases raised⟩
  obtain rfl := Except.ok.inj same
  refine (ensures_generateStats_all opens runnable.keys_nodup).mono ?_ ?_
  · rintro _ _ ⟨survive, rfl⟩
    exact ⟨fun app member => survive app ((keys app).mpr member), rfl⟩
  · rintro _ ⟨app, member, dies⟩
    exact ⟨app, (keys app).mp member, dies⟩

theorem enqueuedAll_elsewhere (lives : Text → Life) (world : World) (apps : List Text) :
    (world.enqueuedAll lives apps).runningPidPort = world.runningPidPort ∧
      (world.enqueuedAll lives apps).procs = world.procs ∧
      (world.enqueuedAll lives apps).commands = world.commands := by
  induction apps generalizing world with
  | nil => exact ⟨rfl, rfl, rfl⟩
  | cons app apps inductionHypothesis => exact inductionHypothesis (world.enqueued lives app)

/-- A start that ends leaves the state from which the main loop is known to keep its jobs. -/
theorem startup_enqueued (opens : Opens perfEventOpen) (imaged : Imaged config.chkpts)
    {world : World}
    (ran : (generateStatsAndEnqueue perfEventOpen config lives).run World.fresh =
      .ok ((), world)) :
    ∃ apps : List Text, (∀ app, app ∈ apps ↔ app ∈ config.chkpts) ∧ Enqueued apps world := by
  obtain ⟨apps, keys, ensured⟩ := ensures_generateStatsAndEnqueue opens lives imaged
  obtain ⟨-, rfl⟩ := ensured.of_run ran
  obtain ⟨list, procs, commands⟩ := enqueuedAll_elsewhere lives World.fresh apps
  refine ⟨apps, keys, fun place => ?_, fun app => ?_, list, procs, commands⟩
  · exact (mem_files_enqueuedAll _ _ _).trans (or_iff_right (AList.notMem_empty place))
  · exact (mem_table_enqueuedAll _ _ _).trans (or_iff_right (AList.notMem_empty app))

end Starting

/-! ### A short job and a long one -/

end ClusterJobs
