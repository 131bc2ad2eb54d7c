/-
This file states what always holds between the four directories, the list `running_pid_port`,
the candidate table, the process table and the commands sent, and shows that nothing the
scheduler or its environment does breaks it.

The invariant `Consistent` relates the state to a board that gives every enqueued app one
place. The apps on the board in `running` are those of the list; the keys of the table are the
apps that are not in `completed`, so an app in `noidea` keeps its key; and an app is in
`noidea` exactly when some command has failed. `Fate` follows each process: while no command
sent to it has failed, it is listed, or its app is completed, or it was killed; after a failed
command its app is in `noidea`.

An app that `start_next` has moved but not yet entered in the list is `pending`. An app is `late`
when its plugin may have written after `stop_running` moved its stat file away: it may have a
second file in `running`, until it is started again.
-/

import ClusterJobs.Lifecycle
import ClusterJobs.Scheduler
import ClusterJobs.Sweep

namespace ClusterJobs

open Python

/-! ### Stat files and their apps -/

/-- The place may hold the stat file of the app. In `completed` a timestamp is appended to the
name. -/
def IsStatFile (app : Text) : Place → Prop
  | (.completed, name) => ∃ timestamp, name = statFile app ++ timestamp
  | (_, name) => name = statFile app

/-- The app has its stat file in the directory. -/
def HasStatFile (world : World) (dir : Dir) (app : Text) : Prop :=
  ∃ name, (dir, name) ∈ world.files ∧ IsStatFile app (dir, name)

instance (app : Text) (place : Place) : Decidable (IsStatFile app place) :=
  match place with
  | (.queued, name) => inferInstanceAs (Decidable (name = statFile app))
  | (.running, name) => inferInstanceAs (Decidable (name = statFile app))
  | (.noidea, name) => inferInstanceAs (Decidable (name = statFile app))
  | (.completed, name) => decidable_of_iff (statFile app <+: name)
    ⟨fun ⟨timestamp, same⟩ => ⟨timestamp, same.symm⟩,
      fun ⟨timestamp, same⟩ => ⟨timestamp, same.symm⟩⟩

instance (world : World) (dir : Dir) (app : Text) : Decidable (HasStatFile world dir app) :=
  decidable_of_iff (∃ place ∈ world.files.keys, place.1 = dir ∧ IsStatFile app place)
    ⟨fun ⟨⟨_, name⟩, stored, same, named⟩ => ⟨name, same ▸ stored, same ▸ named⟩,
      fun ⟨name, stored, named⟩ => ⟨(dir, name), stored, rfl, named⟩⟩

/-- Stat files of different apps have different names. -/
theorem statFile_injective : Function.Injective statFile := fun _ _ same =>
  List.append_cancel_right same

theorem split_statFile {app : Text} (plain : '.' ∉ app) (rest : Text) :
    ((statFile app ++ rest).splitOn '.').headD [] = app := by
  have dot : statFile app ++ rest = app ++ '.' :: ("stat".toList ++ rest) := by
    simp [statFile]
  rw [dot, List.splitOn_append_cons_self_of_not_mem plain, List.headD_cons]

/-- A stat file names its app: `name.split('.')[0]`. -/
theorem IsStatFile.split {app : Text} {place : Place} (named : IsStatFile app place)
    (plain : '.' ∉ app) : (place.2.splitOn '.').headD [] = app := by
  have whole := split_statFile plain []
  rw [List.append_nil] at whole
  obtain ⟨dir, name⟩ := place
  cases dir with
  | completed =>
    obtain ⟨timestamp, rfl⟩ := named
    exact split_statFile plain timestamp
  | queued => exact (congrArg (fun name => (name.splitOn '.').headD []) named).trans whole
  | running => exact (congrArg (fun name => (name.splitOn '.').headD []) named).trans whole
  | noidea => exact (congrArg (fun name => (name.splitOn '.').headD []) named).trans whole

/-! ### The board -/

/-- The ways a stat file moves between the directories. -/
inductive Move : Dir → Dir → Prop
  | start : Move .queued .running
  | preempt : Move .running .queued
  | lose : Move .running .noidea
  | complete : Move .running .completed

/-- The ways an app moves between places. -/
def Moves (app : Text) (source target : Place) : Prop :=
  Move source.1 target.1 ∧ IsStatFile app target

abbrev Board := Lifecycle.Board Text Place

/-- The stat file that a late app has in `running`, beside the one it has on the board. -/
def LateFile (late : Set Text) (board : Board) (place : Place) : Prop :=
  ∃ app ∈ late, place = (.running, statFile app) ∧
    ∃ dir name, board app = some (dir, name) ∧ (dir = .queued ∨ dir = .noidea)

/-- The files are the stat files of the apps on the board, one for each, and those of late
apps. -/
structure Shelved (late : Set Text) (files : AList fun _ : Place => Text) (board : Board) :
    Prop where
  stored : ∀ app place, board app = some place → place ∈ files
  known : ∀ place ∈ files, (∃ app, board app = some place) ∨ LateFile late board place
  named : ∀ app place, board app = some place → IsStatFile app place
  plain : ∀ app place, board app = some place → '.' ∉ app

theorem Shelved.unique {late : Set Text} {files : AList fun _ : Place => Text} {board : Board}
    (shelved : Shelved late files board) {first second : Text} {place : Place}
    (one : board first = some place) (other : board second = some place) : first = second := by
  rw [← (shelved.named _ _ one).split (shelved.plain _ _ one),
    (shelved.named _ _ other).split (shelved.plain _ _ other)]

/-- A rename moves one app on the board. It leaves `running`, or replaces a late file there. -/
theorem Shelved.move {late : Set Text} {files : AList fun _ : Place => Text} {board : Board}
    (shelved : Shelved late files board) {app : Text} {source target : Place}
    (there : board app = some source) (named : IsStatFile app target)
    (clears : source.1 = .running ∨ target = (.running, statFile app)) (content : Text) :
    Shelved late ((files.erase source).insert target content)
      (Function.update board app (some target)) where
  stored other place found := by
    rw [AList.mem_insert, AList.mem_erase]
    by_cases same : other = app
    · subst same
      rw [Function.update_self] at found
      exact Or.inl (Option.some.inj found).symm
    · rw [Function.update_of_ne same] at found
      refine Or.inr ⟨?_, shelved.stored other place found⟩
      rintro rfl
      exact same (shelved.unique found there)
  known place member := by
    rw [AList.mem_insert, AList.mem_erase] at member
    rcases member with rfl | ⟨different, member⟩
    · exact Or.inl ⟨app, Function.update_self ..⟩
    rcases shelved.known place member with
      ⟨other, found⟩ | ⟨other, isLate, rfl, dir, name, found, away⟩
    · refine Or.inl ⟨other, ?_⟩
      have distinct : other ≠ app := by
        rintro rfl
        exact different (Option.some.inj (found.symm.trans there))
      rw [Function.update_of_ne distinct, found]
    · by_cases same : other = app
      · subst same
        rcases clears with leaves | replaced
        · rw [there] at found
          cases found
          rcases away with queued | lost
          · cases leaves.symm.trans queued
          · cases leaves.symm.trans lost
        · exact Or.inl ⟨other, by rw [Function.update_self, replaced]⟩
      · have still := (Function.update_of_ne same (some target) board).trans found
        exact Or.inr ⟨other, isLate, rfl, dir, name, still, away⟩
  named other place found := by
    by_cases same : other = app
    · subst same
      rw [Function.update_self] at found
      cases found
      exact named
    · rw [Function.update_of_ne same] at found
      exact shelved.named other place found
  plain other place found := by
    by_cases same : other = app
    · subst same
      exact shelved.plain other source there
    · rw [Function.update_of_ne same] at found
      exact shelved.plain other place found

/-! ### Processes over time -/

/-- The same process, later. -/
def Later (before after : Process) : Prop :=
  after.app = before.app ∧ Phase.Settles before.phase after.phase

/-- The same process table, later. -/
structure ProcsLater (before after : List Process) : Prop where
  length : after.length = before.length
  forward : ∀ (pid : Nat) (process : Process), before[pid]? = some process →
    ∃ later, after[pid]? = some later ∧ Later process later

theorem procsLater_refl (procs : List Process) : ProcsLater procs procs :=
  ⟨rfl, fun _ process found => ⟨process, found, rfl, Phase.settles_refl _⟩⟩

theorem ProcsLater.trans {first second third : List Process} (before : ProcsLater first second)
    (after : ProcsLater second third) : ProcsLater first third where
  length := after.length.trans before.length
  forward pid process found := by
    obtain ⟨middle, foundMiddle, sameApp, settles⟩ := before.forward pid process found
    obtain ⟨last, foundLast, sameApp', settles'⟩ := after.forward pid middle foundMiddle
    exact ⟨last, foundLast, sameApp'.trans sameApp, settles.trans settles'⟩

theorem ProcsLater.backward {before after : List Process} (later : ProcsLater before after)
    {pid : Nat} {process' : Process} (found : after[pid]? = some process') :
    ∃ process, before[pid]? = some process ∧ Later process process' := by
  have bound : pid < before.length := by
    rw [← later.length]
    exact (List.getElem?_eq_some_iff.mp found).1
  obtain ⟨process'', found', holds⟩ :=
    later.forward pid before[pid] (List.getElem?_eq_getElem bound)
  rw [found] at found'
  cases found'
  exact ⟨before[pid], List.getElem?_eq_getElem bound, holds⟩

/-- Changing one process to a later state of it. -/
theorem procsLater_modify (procs : List Process) (pid : Nat) (change : Process → Process)
    (later : ∀ process, Later process (change process)) :
    ProcsLater procs (procs.modify pid change) where
  length := List.length_modify ..
  forward other process found := by
    rw [List.getElem?_modify, found]
    by_cases same : pid = other
    · exact ⟨change process, by simp [same], later process⟩
    · exact ⟨process, by simp [same], rfl, Phase.settles_refl _⟩

/-- A process that runs later runs now. -/
theorem ProcsLater.alive {before after : World} (later : ProcsLater before.procs after.procs)
    {pid : Nat} (alive : after.alive pid) : before.alive pid := by
  have running : after.phase pid = some .running := by simpa [World.alive] using alive
  obtain ⟨process', found, phase⟩ := Option.map_eq_some_iff.mp running
  obtain ⟨process, found', _, settles⟩ := later.backward found
  simp [World.alive, World.phase, found', settles.running phase]

/-- The processes keep their apps and their exit statuses. -/
structure Remembers (before after : List Process) : Prop where
  length : before.length ≤ after.length
  forward : ∀ (pid : Nat) (process : Process), before[pid]? = some process →
    ∃ later, after[pid]? = some later ∧ later.app = process.app ∧
      ∀ status, process.phase.exitStatus = some status → later.phase.exitStatus = some status

theorem ProcsLater.remembers {before after : List Process} (later : ProcsLater before after) :
    Remembers before after where
  length := later.length.ge
  forward pid process found := by
    obtain ⟨process', found', sameApp, settles⟩ := later.forward pid process found
    exact ⟨process', found', sameApp, settles.exited⟩

theorem Remembers.trans {first second third : List Process} (before : Remembers first second)
    (after : Remembers second third) : Remembers first third where
  length := before.length.trans after.length
  forward pid process found := by
    obtain ⟨middle, foundMiddle, sameApp, exited⟩ := before.forward pid process found
    obtain ⟨last, foundLast, sameApp', exited'⟩ := after.forward pid middle foundMiddle
    exact ⟨last, foundLast, sameApp'.trans sameApp,
      fun status holds => exited' status (exited status holds)⟩

theorem Remembers.app_iff {before after : List Process} (remembers : Remembers before after)
    {pid : Nat} (bound : pid < before.length) (app : Text) :
    (∃ process, after[pid]? = some process ∧ process.app = app) ↔
      ∃ process, before[pid]? = some process ∧ process.app = app := by
  have found := List.getElem?_eq_getElem bound
  obtain ⟨later, foundLater, sameApp, _⟩ := remembers.forward pid _ found
  simp [found, foundLater, sameApp]

theorem remembers_launch (world : World) (app image : Text) (port : Nat) :
    Remembers world.procs (world.launch app image port).procs where
  length := by simp [World.launch]
  forward pid process found := by
    refine ⟨process, ?_, rfl, by simp⟩
    exact (List.getElem?_append_left (List.getElem?_eq_some_iff.mp found).1).trans found

/-! ### What the environment leaves alone -/

/-- The listed apps have their stat files in `running`, so that a plugin that writes one adds
no file. -/
def Backed (world : World) : Prop :=
  ∀ entry ∈ world.runningPidPort, (Dir.running, statFile entry.app) ∈ world.files

/-- A step of the environment, or a look at a process: the list, the table, the commands and
the set of files stay, and the processes only get older. -/
structure Quiet (before after : World) : Prop where
  list : after.runningPidPort = before.runningPidPort
  table : after.appStatsMap = before.appStatsMap
  commands : after.commands = before.commands
  files : ∀ place, place ∈ after.files ↔ place ∈ before.files
  procs : ProcsLater before.procs after.procs

/-- The same, but plugins may also have written files at some places. -/
structure Stirs (fresh : Place → Prop) (before after : World) : Prop where
  list : after.runningPidPort = before.runningPidPort
  table : after.appStatsMap = before.appStatsMap
  commands : after.commands = before.commands
  kept : ∀ place ∈ before.files, place ∈ after.files
  found : ∀ place ∈ after.files, place ∈ before.files ∨ fresh place
  procs : ProcsLater before.procs after.procs

theorem Quiet.stirs {before after : World} (quiet : Quiet before after) (fresh : Place → Prop) :
    Stirs fresh before after :=
  ⟨quiet.list, quiet.table, quiet.commands, fun place => (quiet.files place).mpr,
    fun place member => Or.inl ((quiet.files place).mp member), quiet.procs⟩

theorem quiet_refl (world : World) : Quiet world world :=
  ⟨rfl, rfl, rfl, fun _ => Iff.rfl, procsLater_refl _⟩

theorem Quiet.trans {first second third : World} (before : Quiet first second)
    (after : Quiet second third) : Quiet first third :=
  ⟨after.list.trans before.list, after.table.trans before.table,
    after.commands.trans before.commands,
    fun place => (after.files place).trans (before.files place), before.procs.trans after.procs⟩

theorem Quiet.backed {before after : World} (quiet : Quiet before after)
    (backed : Backed before) : Backed after := by
  intro entry member
  rw [quiet.list] at member
  exact (quiet.files _).mpr (backed entry member)

theorem Quiet.alive {before after : World} (quiet : Quiet before after) {pid : Nat}
    (alive : after.alive pid) : before.alive pid :=
  quiet.procs.alive alive

theorem quiet_changePhase (world : World) (pid : Nat) (change : Phase → Phase)
    (settles : ∀ phase, Phase.Settles phase (change phase)) :
    Quiet world (world.changePhase pid change) :=
  ⟨rfl, rfl, rfl, fun _ => Iff.rfl,
    procsLater_modify _ _ _ fun process => ⟨rfl, settles process.phase⟩⟩

/-- The stat files that plugins write when something happens. -/
def Written (world : World) (events : List Event) (place : Place) : Prop :=
  ∃ entry ∈ world.runningPidPort, (∃ content, .write entry.pid content ∈ events) ∧
    place = (.running, statFile entry.app)

theorem stirs_write (world : World) (pid : Nat) (content : Text) :
    Stirs (Written world [.write pid content]) world (world.write pid content) := by
  unfold World.write
  cases found : world.runningPidPort.find? fun entry => entry.pid = pid with
  | none => exact (quiet_refl world).stirs _
  | some entry =>
    have same : entry.pid = pid := by simpa using List.find?_some found
    refine ⟨rfl, rfl, rfl, fun place member => ?_, fun place member => ?_, procsLater_refl _⟩
    · exact (AList.mem_insert ..).mpr (Or.inr member)
    · rcases (AList.mem_insert ..).mp member with rfl | old
      · refine Or.inr ⟨entry, List.mem_of_find?_eq_some found, ⟨content, ?_⟩, rfl⟩
        rw [same]
        exact List.mem_singleton_self _
      · exact Or.inl old

theorem stirs_applyEvent (world : World) (event : Event) :
    Stirs (Written world [event]) world (world.applyEvent event) := by
  have bound : ∀ pid value, Quiet world (world.setBound pid value) := fun pid value =>
    ⟨rfl, rfl, rfl, fun _ => Iff.rfl,
      procsLater_modify _ _ _ fun _ => ⟨rfl, Phase.settles_refl _⟩⟩
  cases event with
  | exit pid status =>
    exact (quiet_changePhase world pid _ fun phase => Phase.settles_exit phase status).stirs _
  | write pid content => exact stirs_write world pid content
  | bind pid => exact (bound pid true).stirs _
  | release pid =>
    unfold World.applyEvent
    simp only
    split
    · exact (quiet_refl world).stirs _
    · exact (bound pid false).stirs _

theorem stirs_events (world : World) (events : List Event) :
    Stirs (Written world events) world (events.foldl World.applyEvent world) := by
  induction events generalizing world with
  | nil => exact (quiet_refl world).stirs _
  | cons event events inductionHypothesis =>
    have first := stirs_applyEvent world event
    have later := inductionHypothesis (world.applyEvent event)
    refine ⟨later.list.trans first.list, later.table.trans first.table,
      later.commands.trans first.commands,
      fun place member => later.kept place (first.kept place member), fun place member => ?_,
      first.procs.trans later.procs⟩
    rcases later.found place member with old | ⟨entry, listed, ⟨content, happens⟩, rfl⟩
    · refine (first.found place old).imp_right ?_
      rintro ⟨entry, listed, ⟨content, happens⟩, rfl⟩
      have here : .write entry.pid content ∈ event :: events :=
        List.mem_singleton.mp happens ▸ List.mem_cons_self
      exact ⟨entry, listed, ⟨content, here⟩, rfl⟩
    · rw [first.list] at listed
      exact Or.inr ⟨entry, listed, ⟨content, List.mem_cons_of_mem _ happens⟩, rfl⟩

/-- Whatever happens, plugins write the stat files of listed apps at most. -/
theorem stirs_advance (world : World) (moment : Moment) :
    Stirs (Written world moment.events) world (world.advance moment) := by
  obtain ⟨list, table, commands, kept, found, procs⟩ := stirs_events world moment.events
  exact ⟨list, table, commands, kept, found, procs⟩

/-- When every listed app has its stat file, these writes add no file. -/
theorem quiet_advance {world : World} (backed : Backed world) (moment : Moment) :
    Quiet world (world.advance moment) := by
  obtain ⟨list, table, commands, kept, found, procs⟩ := stirs_advance world moment
  refine ⟨list, table, commands, fun place => ⟨fun member => ?_, kept place⟩, procs⟩
  rcases found place member with old | ⟨entry, listed, _, rfl⟩
  · exact old
  · exact backed entry listed

/-- Whatever the schedule, waiting for the environment is quiet. -/
theorem ensures_observe {config : Config} {world : World} {raised : PyError → Prop}
    (backed : Backed world) :
    Ensures (observe config) world (fun _ next => Quiet world next) raised := by
  simp only [observe, ensures_bind, ensures_get, ensures_modify, ensures_pure]
  exact quiet_advance backed _

/-! ### The invariant -/

/-- Commands sent to an ended process print an error. -/
def Honest (commands : List Command) : Prop :=
  ∀ command ∈ commands, command.ended = true → command.stderr ≠ []

instance (commands : List Command) : Decidable (Honest commands) :=
  inferInstanceAs (Decidable (∀ command ∈ commands, command.ended = true → command.stderr ≠ []))

/-- No command sent to the process has printed an error. -/
def Unfailed (world : World) (pid : Nat) : Prop :=
  ∀ command ∈ world.commands, command.pid = pid → command.stderr = []

/-- The process is listed in `running_pid_port`. -/
def Listed (world : World) (pid : Nat) : Prop :=
  ∃ entry ∈ world.runningPidPort, entry.pid = pid

/-- A command sent to a process of the app has printed an error. -/
def FailedFor (world : World) (app : Text) : Prop :=
  ∃ command ∈ world.commands, command.stderr ≠ [] ∧
    ∃ process, world.procs[command.pid]? = some process ∧ process.app = app

theorem failedFor_iff {before after : World} (remembers : Remembers before.procs after.procs)
    (sent : ∀ command ∈ before.commands, command.pid < before.procs.length)
    (same : after.commands = before.commands) (app : Text) :
    FailedFor after app ↔ FailedFor before app := by
  unfold FailedFor
  rw [same]
  exact exists_congr fun command => and_congr_right fun member => and_congr_right fun _ =>
    remembers.app_iff (sent command member) app

/-- What has become of a process: without a failed command it is listed, or its app is
completed, or it was killed; otherwise its app is in `noidea`. -/
inductive Fate (world : World) (board : Board) (pid : Nat) (process : Process) : Prop
  | listed : Unfailed world pid → Listed world pid → Fate world board pid process
  | completed {name : Text} : Unfailed world pid →
      board process.app = some (.completed, name) → Fate world board pid process
  | killed : Unfailed world pid → process.phase = .killed → Fate world board pid process
  | lost {name : Text} : ¬ Unfailed world pid → board process.app = some (.noidea, name) →
      Fate world board pid process

/-- The invariant of the scheduler. -/
structure Consistent (late : Set Text) (ids pending : List Text) (world : World) (board : Board) :
    Prop where
  domain : ∀ app, (board app).isSome ↔ app ∈ ids
  shelved : Shelved late world.files board
  listed : ∀ app, app ∈ pending ++ world.runningApps ↔ ∃ name, board app = some (.running, name)
  nodup : (pending ++ world.runningApps).Nodup
  table : ∀ app, app ∈ world.appStatsMap ↔ ∃ place, board app = some place ∧ place.1 ≠ .completed
  entries : ∀ entry ∈ world.runningPidPort,
    ∃ process, world.procs[entry.pid]? = some process ∧ process.app = entry.app
  sent : ∀ command ∈ world.commands, command.pid < world.procs.length
  failures : ∀ app, (∃ name, board app = some (.noidea, name)) ↔ FailedFor world app
  fates : Honest world.commands → ∀ (pid : Nat) (process : Process),
    world.procs[pid]? = some process → Fate world board pid process

namespace Consistent

variable {late : Set Text} {ids pending : List Text} {world : World} {board : Board}

theorem place_of_listed (consistent : Consistent late ids pending world board) {entry : Entry}
    (member : entry ∈ world.runningPidPort) :
    board entry.app = some (.running, statFile entry.app) := by
  obtain ⟨name, found⟩ := (consistent.listed entry.app).mp
    (List.mem_append_right _ (List.mem_map_of_mem member))
  have named : name = statFile entry.app := consistent.shelved.named _ _ found
  rw [found, named]

theorem backed (consistent : Consistent late ids pending world board) : Backed world := by
  intro entry member
  exact consistent.shelved.stored _ _ (consistent.place_of_listed member)

theorem hasStatFile_of_board (consistent : Consistent late ids pending world board) {dir : Dir}
    {app name : Text} (found : board app = some (dir, name)) : HasStatFile world dir app :=
  ⟨name, consistent.shelved.stored _ _ found, consistent.shelved.named _ _ found⟩

theorem placed (consistent : Consistent late ids pending world board) {app : Text}
    (member : app ∈ ids) : ∃ dir name, board app = some (dir, name) := by
  obtain ⟨⟨dir, name⟩, found⟩ := Option.isSome_iff_exists.mp ((consistent.domain app).mpr member)
  exact ⟨dir, name, found⟩

/-- A stat file of an app is where the board has the app, or the file of a late app. -/
theorem board_of_hasStatFile (consistent : Consistent late ids pending world board) {dir : Dir}
    {app : Text} (member : app ∈ ids) (stored : HasStatFile world dir app) :
    (∃ name, board app = some (dir, name)) ∨ dir = .running ∧ app ∈ late ∧
      ∃ dir name, board app = some (dir, name) ∧ (dir = .queued ∨ dir = .noidea) := by
  obtain ⟨name, stored, named⟩ := stored
  obtain ⟨_, _, spot⟩ := consistent.placed member
  have plain := consistent.shelved.plain app _ spot
  rcases consistent.shelved.known _ stored with ⟨other, found⟩ | ⟨other, isLate, same, away⟩
  · have same : other = app := by
      rw [← (consistent.shelved.named _ _ found).split (consistent.shelved.plain _ _ found),
        named.split plain]
    exact Or.inl ⟨name, same ▸ found⟩
  · cases same
    have same : other = app := statFile_injective named
    subst same
    exact Or.inr ⟨rfl, isLate, away⟩

/-- Only a late app may have a stat file in another directory than on the board, in `running`. -/
theorem hasStatFile_iff (consistent : Consistent late ids pending world board) {dir : Dir}
    {app : Text} (member : app ∈ ids) (certain : dir ≠ .running ∨ app ∉ late) :
    HasStatFile world dir app ↔ ∃ name, board app = some (dir, name) := by
  refine ⟨fun stored => ?_, fun ⟨name, found⟩ => consistent.hasStatFile_of_board found⟩
  refine (consistent.board_of_hasStatFile member stored).resolve_right ?_
  rintro ⟨rfl, isLate, _⟩
  exact certain.elim (fun away => away rfl) fun punctual => punctual isLate

theorem list_nodup (consistent : Consistent late ids pending world board) :
    world.runningPidPort.Nodup :=
  (List.nodup_append.mp consistent.nodup).2.1.of_map _

/-- A listed process has had no failed command. -/
theorem unfailed_of_listed (consistent : Consistent late ids pending world board)
    (honest : Honest world.commands) {entry : Entry} (member : entry ∈ world.runningPidPort) :
    Unfailed world entry.pid := by
  obtain ⟨process, found, sameApp⟩ := consistent.entries entry member
  cases consistent.fates honest entry.pid process found with
  | listed unfailed _ => exact unfailed
  | completed unfailed _ => exact unfailed
  | killed unfailed _ => exact unfailed
  | lost _ lost =>
    rw [sameApp, consistent.place_of_listed member] at lost
    cases lost

/-! ### Quiet steps -/

/-- The environment acts, and plugins write late files. -/
theorem stir {world' : World} (consistent : Consistent late ids pending world board)
    (stirs : Stirs (LateFile late board) world world') :
    Consistent late ids pending world' board where
  domain := consistent.domain
  shelved := {
    stored := fun app place found => stirs.kept place (consistent.shelved.stored app place found)
    known := fun place member => by
      rcases stirs.found place member with old | fresh
      · exact consistent.shelved.known place old
      · exact Or.inr fresh
    named := consistent.shelved.named
    plain := consistent.shelved.plain }
  listed app := by
    rw [World.runningApps, stirs.list]
    exact consistent.listed app
  nodup := by
    rw [World.runningApps, stirs.list]
    exact consistent.nodup
  table app := by
    rw [stirs.table]
    exact consistent.table app
  entries entry member := by
    rw [stirs.list] at member
    obtain ⟨process, found, sameApp⟩ := consistent.entries entry member
    obtain ⟨later, foundLater, stillApp, _⟩ := stirs.procs.forward _ _ found
    exact ⟨later, foundLater, stillApp.trans sameApp⟩
  sent command member := by
    rw [stirs.commands] at member
    rw [stirs.procs.length]
    exact consistent.sent command member
  failures app := by
    rw [failedFor_iff stirs.procs.remembers consistent.sent stirs.commands]
    exact consistent.failures app
  fates honest pid process found := by
    rw [stirs.commands] at honest
    obtain ⟨before, foundBefore, sameApp, settles⟩ := stirs.procs.backward found
    have unfailed : Unfailed world' pid ↔ Unfailed world pid := by
      unfold Unfailed
      rw [stirs.commands]
    cases consistent.fates honest pid before foundBefore with
    | listed unharmed listed =>
      refine .listed (unfailed.mpr unharmed) ?_
      unfold Listed
      rw [stirs.list]
      exact listed
    | completed unharmed completed =>
      exact .completed (unfailed.mpr unharmed) (sameApp ▸ completed)
    | killed unharmed killed => exact .killed (unfailed.mpr unharmed) (settles.killed.mp killed)
    | lost failed lost => exact .lost (fun holds => failed (unfailed.mp holds)) (sameApp ▸ lost)

theorem quiet {world' : World} (consistent : Consistent late ids pending world board)
    (quiet : Quiet world world') : Consistent late ids pending world' board :=
  consistent.stir (quiet.stirs _)

/-- More apps may be late. -/
theorem mono {late' : Set Text} (consistent : Consistent late ids pending world board)
    (more : late ⊆ late') : Consistent late' ids pending world board :=
  { consistent with
    shelved := { consistent.shelved with
      known := fun place member => (consistent.shelved.known place member).imp_right
        fun ⟨app, isLate, lies⟩ => ⟨app, more isLate, lies⟩ } }

end Consistent

/-! ### Taking an entry off the list -/

/-- An entry leaves the list and its stat file goes from `running` to a target, together with
the commands that led to it. Only a failed command leads to `noidea`, only a completion clears
the key of the table, and behind a way back to `queued` stands a killed process. -/
structure Retires (before after : World) (entry : Entry) (target : Place) : Prop where
  files : ∃ content, after.files =
    (before.files.erase (.running, statFile entry.app)).insert target content
  list : after.runningPidPort = before.runningPidPort.erase entry
  table : ∀ app, app ∈ after.appStatsMap ↔
    app ∈ before.appStatsMap ∧ ¬ (app = entry.app ∧ target.1 = .completed)
  procs : after.procs.length = before.procs.length
  remembers : Remembers before.procs after.procs
  others : ∀ pid ≠ entry.pid, after.procs[pid]? = before.procs[pid]?
  commands : ∃ new, after.commands = before.commands ++ new ∧
    (∀ command ∈ new, command.pid = entry.pid) ∧
    ((∃ command ∈ new, command.stderr ≠ []) ↔ target.1 = .noidea)
  killed : target.1 = .queued → Honest after.commands →
    ∀ process, after.procs[entry.pid]? = some process → process.phase = .killed

theorem mem_apps_erase {list : List Entry} (nodup : (list.map Entry.app).Nodup) {entry : Entry}
    (member : entry ∈ list) (app : Text) :
    app ∈ (list.erase entry).map Entry.app ↔ app ≠ entry.app ∧ app ∈ list.map Entry.app := by
  have listNodup : list.Nodup := nodup.of_map _
  constructor
  · intro found
    obtain ⟨other, otherMember, rfl⟩ := List.mem_map.mp found
    obtain ⟨different, inList⟩ := listNodup.mem_erase_iff.mp otherMember
    refine ⟨fun same => different ?_, List.mem_map_of_mem inList⟩
    exact List.inj_on_of_nodup_map nodup inList member same
  · rintro ⟨different, found⟩
    obtain ⟨other, otherMember, rfl⟩ := List.mem_map.mp found
    refine List.mem_map_of_mem (listNodup.mem_erase_iff.mpr ⟨?_, otherMember⟩)
    rintro rfl
    exact different rfl

namespace Retires

variable {world world' : World} {entry : Entry} {target : Place}

/-- The commands went to the process of the entry. -/
theorem unfailed_iff (retires : Retires world world' entry target) {pid : Nat}
    (different : pid ≠ entry.pid) : Unfailed world' pid ↔ Unfailed world pid := by
  obtain ⟨new, commands, newPid, -⟩ := retires.commands
  unfold Unfailed
  rw [commands]
  constructor
  · exact fun holds command old samePid => holds command (List.mem_append_left _ old) samePid
  · intro holds command found samePid
    rcases List.mem_append.mp found with old | fresh
    · exact holds command old samePid
    · exact absurd ((newPid command fresh).symm.trans samePid) (Ne.symm different)

/-- One of them failed exactly when the file goes to `noidea`. -/
theorem unfailed_own (retires : Retires world world' entry target)
    (unharmed : Unfailed world entry.pid) : Unfailed world' entry.pid ↔ target.1 ≠ .noidea := by
  obtain ⟨new, commands, newPid, newFailed⟩ := retires.commands
  unfold Unfailed
  rw [commands]
  constructor
  · intro holds lost
    obtain ⟨command, fresh, error⟩ := newFailed.mpr lost
    exact error (holds command (List.mem_append_right _ fresh) (newPid command fresh))
  · intro kept command found samePid
    rcases List.mem_append.mp found with old | fresh
    · exact unharmed command old samePid
    · by_contra error
      exact kept (newFailed.mp ⟨command, fresh, error⟩)

theorem honest (retires : Retires world world' entry target)
    (honest : Honest world'.commands) : Honest world.commands := by
  obtain ⟨new, commands, -, -⟩ := retires.commands
  intro command old
  exact honest command (by rw [commands]; exact List.mem_append_left _ old)

end Retires

/-- Apart from one app the board is as before. -/
theorem update_board_of_apart {board : Board} {app other : Text} {spot target place : Place}
    (there : board app = some spot) (apart : place.1 ≠ spot.1) (found : board other = some place) :
    Function.update board app (some target) other = some place := by
  have different : other ≠ app := by
    rintro rfl
    rw [there] at found
    exact apart (by rw [Option.some.inj found])
  rw [Function.update_of_ne different, found]

theorem isSome_update_board {board : Board} {app : Text} {spot : Place}
    (there : board app = some spot) (target : Place) (other : Text) :
    (Function.update board app (some target) other).isSome ↔ (board other).isSome := by
  by_cases same : other = app
  · subst same
    rw [Function.update_self, there]
    simp
  · rw [Function.update_of_ne same]

namespace Consistent

variable {late : Set Text} {ids : List Text} {world world' : World} {board : Board}

section Retire

variable {entry : Entry} {target : Place} (consistent : Consistent late ids [] world board)
  (member : entry ∈ world.runningPidPort) (retires : Retires world world' entry target)

include consistent member retires

theorem listed_of_retires (away : target.1 ≠ .running) (app : Text) : app ∈ world'.runningApps ↔
    ∃ name, Function.update board entry.app (some target) app = some (.running, name) := by
  rw [World.runningApps, retires.list, mem_apps_erase consistent.nodup member]
  by_cases same : app = entry.app
  · subst same
    rw [Function.update_self]
    constructor
    · exact fun absurdity => absurd rfl absurdity.1
    · rintro ⟨name, found⟩
      exact absurd (by rw [Option.some.inj found]) away
  · rw [Function.update_of_ne same, ← consistent.listed app, List.nil_append]
    exact ⟨fun both => both.2, fun found => ⟨same, found⟩⟩

theorem table_of_retires (app : Text) : app ∈ world'.appStatsMap ↔
    ∃ place, Function.update board entry.app (some target) app = some place ∧
      place.1 ≠ .completed := by
  rw [retires.table, consistent.table]
  by_cases same : app = entry.app
  · subst same
    rw [Function.update_self, consistent.place_of_listed member]
    simp
  · rw [Function.update_of_ne same]
    simp [same]

theorem failures_of_retires (app : Text) :
    (∃ name, Function.update board entry.app (some target) app = some (.noidea, name)) ↔
      FailedFor world' app := by
  obtain ⟨new, commands, newPid, newFailed⟩ := retires.commands
  obtain ⟨process, foundProcess, ownApp⟩ := consistent.entries entry member
  obtain ⟨later, foundLater, stillApp, _⟩ := retires.remembers.forward _ _ foundProcess
  have before : ∀ command ∈ world.commands, command.stderr ≠ [] →
      (∃ process, world'.procs[command.pid]? = some process ∧ process.app = app) →
      FailedFor world app := fun command old failed owner =>
    ⟨command, old, failed, (retires.remembers.app_iff (consistent.sent command old) app).mp owner⟩
  by_cases same : app = entry.app
  · subst same
    rw [Function.update_self]
    constructor
    · rintro ⟨name, found⟩
      obtain ⟨command, fresh, failed⟩ := newFailed.mpr (by rw [Option.some.inj found])
      refine ⟨command, by rw [commands]; exact List.mem_append_right _ fresh, failed, later, ?_,
        stillApp.trans ownApp⟩
      rw [newPid command fresh]
      exact foundLater
    · rintro ⟨command, found, failed, owner⟩
      rw [commands] at found
      rcases List.mem_append.mp found with old | fresh
      · obtain ⟨name, lost⟩ := (consistent.failures _).mpr (before command old failed owner)
        rw [consistent.place_of_listed member] at lost
        cases lost
      · exact ⟨target.2, by rw [← newFailed.mp ⟨command, fresh, failed⟩]⟩
  · rw [Function.update_of_ne same, consistent.failures]
    constructor
    · rintro ⟨command, old, failed, owner⟩
      exact ⟨command, by rw [commands]; exact List.mem_append_left _ old, failed,
        (retires.remembers.app_iff (consistent.sent command old) app).mpr owner⟩
    · rintro ⟨command, found, failed, owner⟩
      rw [commands] at found
      rcases List.mem_append.mp found with old | fresh
      · exact before command old failed owner
      · obtain ⟨other, foundOther, otherApp⟩ := owner
        rw [newPid command fresh, foundLater] at foundOther
        cases foundOther
        exact absurd (otherApp.symm.trans (stillApp.trans ownApp)) same

/-- The process of the entry. -/
theorem fate_of_retires_own (away : target.1 ≠ .running) (honest : Honest world'.commands)
    {process : Process} (found : world'.procs[entry.pid]? = some process) :
    Fate world' (Function.update board entry.app (some target)) entry.pid process := by
  obtain ⟨before, foundBefore, sameApp⟩ := consistent.entries entry member
  obtain ⟨later, foundLater, stillApp, _⟩ := retires.remembers.forward _ _ foundBefore
  rw [found] at foundLater
  cases foundLater
  have spot : Function.update board entry.app (some target) process.app = some target := by
    rw [stillApp, sameApp, Function.update_self]
  have unfailed := retires.unfailed_own
    (consistent.unfailed_of_listed (retires.honest honest) member)
  obtain ⟨dir, name⟩ := target
  cases dir with
  | queued => exact .killed (unfailed.mpr (by simp)) (retires.killed rfl honest process found)
  | running => exact absurd rfl away
  | completed => exact .completed (unfailed.mpr (by simp)) spot
  | noidea => exact .lost (fun holds => unfailed.mp holds rfl) spot

/-- Any other process. -/
theorem fate_of_retires_other (honest : Honest world'.commands) {pid : Nat}
    (samePid : pid ≠ entry.pid) {process : Process} (found : world'.procs[pid]? = some process) :
    Fate world' (Function.update board entry.app (some target)) pid process := by
  have there := consistent.place_of_listed member
  have unfailed := retires.unfailed_iff samePid
  rw [retires.others pid samePid] at found
  cases consistent.fates (retires.honest honest) pid process found with
  | listed unharmed listed =>
    refine .listed (unfailed.mpr unharmed) ?_
    obtain ⟨other, otherMember, otherPid⟩ := listed
    refine ⟨other, ?_, otherPid⟩
    rw [retires.list, consistent.list_nodup.mem_erase_iff]
    exact ⟨fun same => samePid (otherPid.symm.trans (by rw [same])), otherMember⟩
  | completed unharmed completed =>
    exact .completed (unfailed.mpr unharmed) (update_board_of_apart there (by simp) completed)
  | killed unharmed killed => exact .killed (unfailed.mpr unharmed) killed
  | lost failed lost =>
    exact .lost (fun holds => failed (unfailed.mp holds))
      (update_board_of_apart there (by simp) lost)

end Retire

theorem retire {entry : Entry} {target : Place} (consistent : Consistent late ids [] world board)
    (member : entry ∈ world.runningPidPort) (named : IsStatFile entry.app target)
    (away : target.1 ≠ .running) (retires : Retires world world' entry target) :
    Consistent late ids [] world' (Function.update board entry.app (some target)) := by
  have there := consistent.place_of_listed member
  refine ⟨?_, ?_, ?_, ?_, ?_, ?_, ?_, ?_, ?_⟩
  · exact fun app => (isSome_update_board there target app).trans (consistent.domain app)
  · obtain ⟨content, files⟩ := retires.files
    rw [files]
    exact consistent.shelved.move there named (Or.inl rfl) content
  · exact consistent.listed_of_retires member retires away
  · rw [List.nil_append, World.runningApps, retires.list]
    exact consistent.nodup.sublist (List.erase_sublist.map _)
  · exact consistent.table_of_retires member retires
  · intro other found
    rw [retires.list] at found
    obtain ⟨process, foundProcess, sameApp⟩ :=
      consistent.entries other (List.mem_of_mem_erase found)
    obtain ⟨later, foundLater, stillApp, _⟩ := retires.remembers.forward _ _ foundProcess
    exact ⟨later, foundLater, stillApp.trans sameApp⟩
  · intro command found
    obtain ⟨new, commands, newPid, -⟩ := retires.commands
    rw [commands] at found
    rw [retires.procs]
    rcases List.mem_append.mp found with old | fresh
    · exact consistent.sent command old
    · obtain ⟨process, foundProcess, _⟩ := consistent.entries entry member
      rw [newPid command fresh]
      exact (List.getElem?_eq_some_iff.mp foundProcess).1
  · exact consistent.failures_of_retires member retires
  · intro honest pid process found
    by_cases samePid : pid = entry.pid
    · subst samePid
      exact consistent.fate_of_retires_own member retires away honest found
    · exact consistent.fate_of_retires_other member retires honest samePid found

/-! ### Commands, new tables and new entries -/

/-- A command that printed no error is only recorded. -/
theorem record {pending : List Text} {command : Command}
    (consistent : Consistent late ids pending world board) (sent : command.pid < world.procs.length)
    (succeeded : command.stderr = []) :
    Consistent late ids pending { world with commands := world.commands ++ [command] } board := by
  have unfailed : ∀ pid, Unfailed { world with commands := world.commands ++ [command] } pid ↔
      Unfailed world pid := by
    intro pid
    simp [Unfailed, or_imp, forall_and, succeeded]
  refine { consistent with sent := ?_, failures := ?_, fates := ?_ }
  · intro other member
    rcases List.mem_append.mp member with old | fresh
    · exact consistent.sent other old
    · rw [List.mem_singleton.mp fresh]
      exact sent
  · intro app
    rw [consistent.failures]
    simp [FailedFor, or_and_right, exists_or, succeeded]
  · intro honest pid process found
    have honestBefore : Honest world.commands :=
      fun other old => honest other (List.mem_append_left _ old)
    cases consistent.fates honestBefore pid process found with
    | listed unharmed listed => exact .listed ((unfailed pid).mpr unharmed) listed
    | completed unharmed completed => exact .completed ((unfailed pid).mpr unharmed) completed
    | killed unharmed killed => exact .killed ((unfailed pid).mpr unharmed) killed
    | lost failed lost => exact .lost (fun holds => failed ((unfailed pid).mp holds)) lost

/-- A table with the same keys. -/
theorem refresh {pending : List Text} {table : StatsTable}
    (consistent : Consistent late ids pending world board)
    (same : ∀ app, app ∈ table ↔ app ∈ world.appStatsMap) :
    Consistent late ids pending { world with appStatsMap := table } board := by
  refine { consistent with
    table := fun app => (same app).trans (consistent.table app)
    fates := ?_ }
  intro honest pid process found
  cases consistent.fates honest pid process found with
  | listed unharmed listed => exact .listed unharmed listed
  | completed unharmed completed => exact .completed unharmed completed
  | killed unharmed killed => exact .killed unharmed killed
  | lost failed lost => exact .lost failed lost

/-- The stat file of a queued app is moved to `running`; its entry is still to come. -/
theorem begin {app : Text} (consistent : Consistent late ids [] world board) {name : Text}
    (queued : board app = some (.queued, name)) (content : Text) :
    Consistent late ids [app]
      { world with files :=
        (world.files.erase (.queued, statFile app)).insert (.running, statFile app) content }
      (Function.update board app (some (.running, statFile app))) := by
  have named : name = statFile app := consistent.shelved.named _ _ queued
  subst named
  have fresh : app ∉ world.runningApps := by
    intro member
    obtain ⟨name, running⟩ := (consistent.listed app).mp member
    rw [queued] at running
    cases running
  refine ⟨?_, ?_, ?_, ?_, ?_, consistent.entries, consistent.sent, ?_, ?_⟩
  · exact fun other => (isSome_update_board queued _ other).trans (consistent.domain other)
  · have named : IsStatFile app (.running, statFile app) := rfl
    exact consistent.shelved.move queued named (Or.inr rfl) content
  · intro other
    rw [List.singleton_append, List.mem_cons]
    by_cases same : other = app
    · subst same
      simp
    · rw [Function.update_of_ne same, ← consistent.listed other]
      exact ⟨fun found => found.resolve_left same, Or.inr⟩
  · exact List.nodup_cons.mpr ⟨fresh, consistent.nodup⟩
  · intro other
    rw [consistent.table]
    by_cases same : other = app
    · subst same
      rw [Function.update_self, queued]
      simp
    · rw [Function.update_of_ne same]
  · intro other
    refine Iff.trans ?_ (consistent.failures other)
    by_cases same : other = app
    · subst same
      simp [queued]
    · rw [Function.update_of_ne same]
  · intro honest pid process found
    cases consistent.fates honest pid process found with
    | listed unharmed listed => exact .listed unharmed listed
    | completed unharmed completed =>
      exact .completed unharmed (update_board_of_apart queued (by simp) completed)
    | killed unharmed killed => exact .killed unharmed killed
    | lost failed lost => exact .lost failed (update_board_of_apart queued (by simp) lost)

/-- The restarted process and its entry. -/
theorem launch {app : Text} (consistent : Consistent late ids [app] world board) (image : Text)
    (port : Nat) : Consistent late ids [] (world.launch app image port) board := by
  have apps : (world.launch app image port).runningApps = world.runningApps ++ [app] := by
    simp [World.runningApps, World.launch]
  refine ⟨consistent.domain, consistent.shelved, ?_, ?_, consistent.table, ?_, ?_, ?_, ?_⟩
  · intro other
    rw [apps, ← consistent.listed other]
    simp [or_comm]
  · rw [List.nil_append, apps]
    exact (List.perm_append_comm.nodup_iff).mp consistent.nodup
  · intro entry member
    rcases List.mem_append.mp member with old | fresh
    · obtain ⟨process, found, sameApp⟩ := consistent.entries entry old
      refine ⟨process, ?_, sameApp⟩
      exact (List.getElem?_append_left (List.getElem?_eq_some_iff.mp found).1).trans found
    · rw [List.mem_singleton.mp fresh]
      exact ⟨_, List.getElem?_concat_length, rfl⟩
  · intro command member
    have := consistent.sent command member
    simp only [World.launch, List.length_append, List.length_singleton]
    omega
  · intro other
    rw [consistent.failures]
    exact (failedFor_iff (remembers_launch world app image port) consistent.sent rfl other).symm
  · intro honest pid process found
    have unfailedNew : Unfailed (world.launch app image port) world.procs.length :=
      fun command member samePid => absurd (consistent.sent command member) (by omega)
    rw [World.launch, List.getElem?_append] at found
    split at found
    · cases consistent.fates honest pid process found with
      | listed unharmed listed =>
        obtain ⟨entry, member, samePid⟩ := listed
        exact .listed unharmed ⟨entry, List.mem_append_left _ member, samePid⟩
      | completed unharmed completed => exact .completed unharmed completed
      | killed unharmed killed => exact .killed unharmed killed
      | lost failed lost => exact .lost failed lost
    · have last : pid = world.procs.length := by
        have := (List.getElem?_eq_some_iff.mp found).1
        simp only [List.length_singleton] at this
        omega
      subst last
      exact .listed unfailedNew
        ⟨⟨app, world.procs.length, port⟩, List.mem_append_right _ (List.mem_singleton_self _), rfl⟩

end Consistent

/-! ### The start -/

/-- The board as `generate_stats_and_enqueue` leaves it. -/
def startBoard (ids : List Text) : Board := fun app =>
  if app ∈ ids then some (.queued, statFile app) else none

theorem startBoard_eq_some {ids : List Text} {app : Text} {place : Place} :
    startBoard ids app = some place ↔ app ∈ ids ∧ place = (.queued, statFile app) := by
  unfold startBoard
  split
  · simp_all [eq_comm]
  · simp_all

theorem Enqueued.consistent {ids : List Text} {world : World} (enqueued : Enqueued ids world)
    (plain : ∀ app ∈ ids, '.' ∉ app) (late : Set Text) :
    Consistent late ids [] world (startBoard ids) := by
  have elsewhere : ∀ app name dir, dir ≠ .queued → startBoard ids app ≠ some (dir, name) := by
    intro app name dir away found
    exact away (congrArg Prod.fst (startBoard_eq_some.mp found).2)
  refine ⟨?_, ⟨?_, ?_, ?_, ?_⟩, ?_, ?_, ?_, ?_, ?_, ?_, ?_⟩
  · intro app
    simp [startBoard]
  · intro app place found
    exact (enqueued.files place).mpr ⟨app, startBoard_eq_some.mp found⟩
  · intro place member
    obtain ⟨app, enlisted, rfl⟩ := (enqueued.files place).mp member
    exact Or.inl ⟨app, startBoard_eq_some.mpr ⟨enlisted, rfl⟩⟩
  · intro app place found
    rw [(startBoard_eq_some.mp found).2]
    rfl
  · intro app place found
    exact plain app (startBoard_eq_some.mp found).1
  · intro app
    simp only [World.runningApps, enqueued.list, List.map_nil, List.append_nil, List.not_mem_nil,
      false_iff]
    rintro ⟨name, found⟩
    exact elsewhere app name .running (by simp) found
  · simp [World.runningApps, enqueued.list]
  · intro app
    rw [enqueued.table]
    simp [startBoard_eq_some]
  · simp [enqueued.list]
  · simp [enqueued.commands]
  · intro app
    simp only [FailedFor, enqueued.commands, List.not_mem_nil, false_and, exists_false, iff_false]
    rintro ⟨name, found⟩
    exact elsewhere app name .noidea (by simp) found
  · simp [enqueued.procs]

end ClusterJobs
