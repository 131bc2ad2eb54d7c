/-
This file says what each operation of the scheduler does, one statement for each.

All of them keep the state on track: some board, reached by moves of stat files, explains it.
Beyond that, `clean_completed` and `stop_running` never raise and sweep the list
`running_pid_port`; `get_next_runnable_map` changes nothing but values of the table; and
`start_next` appends an entry for each app of the plan that is not running. The rest of the
development refers to these statements and does not look into the operations again.
-/

import ClusterJobs.Consistency
import Mathlib.Data.List.Dedup

namespace ClusterJobs

open Python

variable {config : Config} {late : Set Text} {ids : List Text} {base board : Board}
  {world world' moved : World} {entry : Entry} {raised : PyError → Prop}

/-! ### States on track -/

/-- Some board explains the state, and the apps got from their places on a base board to those
on it by moves of stat files. -/
def Tracked (late : Set Text) (ids : List Text) (base : Board) (world : World) : Prop :=
  ∃ board, Lifecycle.Steps Moves base board ∧ Consistent late ids [] world board

theorem Tracked.backed (tracked : Tracked late ids base world) : Backed world := by
  obtain ⟨board, _, consistent⟩ := tracked
  exact consistent.backed

theorem Tracked.list_nodup (tracked : Tracked late ids base world) :
    world.runningPidPort.Nodup := by
  obtain ⟨board, _, consistent⟩ := tracked
  exact consistent.list_nodup

theorem Tracked.quiet (tracked : Tracked late ids base world) (quiet : Quiet world world') :
    Tracked late ids base world' := by
  obtain ⟨board, steps, consistent⟩ := tracked
  exact ⟨board, steps, consistent.quiet quiet⟩

theorem Tracked.mono {late' : Set Text} (tracked : Tracked late ids base world)
    (more : late ⊆ late') : Tracked late' ids base world := by
  obtain ⟨board, steps, consistent⟩ := tracked
  exact ⟨board, steps, consistent.mono more⟩

theorem Tracked.retire {target : Place} (tracked : Tracked late ids base world)
    (member : entry ∈ world.runningPidPort) (named : IsStatFile entry.app target)
    (away : target.1 ≠ .running) (retires : Retires world world' entry target) :
    Tracked late ids base world' := by
  obtain ⟨board, steps, consistent⟩ := tracked
  refine ⟨_, steps.tail (.move (consistent.place_of_listed member) ⟨?_, named⟩),
    consistent.retire member named away retires⟩
  obtain ⟨dir, name⟩ := target
  cases dir with
  | queued => exact .preempt
  | running => exact absurd rfl away
  | completed => exact .complete
  | noidea => exact .lose

theorem Enqueued.tracked (enqueued : Enqueued ids world) (plain : ∀ app ∈ ids, '.' ∉ app) :
    Tracked late ids (startBoard ids) world :=
  ⟨startBoard ids, .refl, enqueued.consistent plain late⟩

/-! ### Looking at a process -/

/-- A process that is under `/proc` was there before. -/
theorem Quiet.inProc {pid : Nat} (quiet : Quiet world world')
    (present : (world'.phase pid).any Phase.inProc) : (world.phase pid).any Phase.inProc := by
  obtain ⟨phase, found, visible⟩ := (Option.any_eq_true ..).mp present
  obtain ⟨process', foundProcess, rfl⟩ := Option.map_eq_some_iff.mp found
  obtain ⟨process, foundBefore, _, settles⟩ := quiet.procs.backward foundProcess
  rw [World.phase, foundBefore]
  by_contra gone
  have gone' := settles.gone (by simpa using gone)
  rw [visible] at gone'
  cases gone'

/-- Once polled, a process under `/proc` is running: `poll` takes the ended ones away. -/
theorem alive_of_inProc_afterPoll {pid : Nat}
    (present : ((world.changePhase pid Phase.afterPoll).phase pid).any Phase.inProc) :
    (world.changePhase pid Phase.afterPoll).alive pid := by
  unfold World.alive
  simp only [World.phase, World.changePhase, List.getElem?_modify_eq] at *
  cases found : world.procs[pid]? with
  | none => simp [found] at present
  | some process =>
    simp only [found, Option.map_some, Option.map_eq_map, Option.any_some] at present ⊢
    cases phase : process.phase with
    | running => rfl
    | zombie status => simp [phase, Phase.afterPoll, Phase.inProc] at present
    | reaped status => simp [phase, Phase.afterPoll, Phase.inProc] at present
    | killed => simp [phase, Phase.afterPoll, Phase.inProc] at present

/-- An entry is taken to be running only if it was running when it was looked at. -/
theorem ensures_hasEnded (backed : Backed world) :
    Ensures (hasEnded config entry) world (fun ended next =>
      Quiet world next ∧ (ended = false → world.alive entry.pid)) raised := by
  simp only [hasEnded, poll, procExists, ensures_bind, ensures_get, ensures_modify, ensures_pure,
    ensures_ite]
  refine (ensures_observe backed).imp fun _ seen quiet => ?_
  have polled : Quiet world (seen.changePhase entry.pid Phase.afterPoll) :=
    quiet.trans (quiet_changePhase _ _ _ Phase.settles_afterPoll)
  refine ⟨fun _ => ⟨polled, by simp⟩, fun _ => ?_⟩
  refine (ensures_observe (polled.backed backed)).imp fun _ next later => ?_
  refine ⟨polled.trans later, fun present => polled.alive ?_⟩
  exact alive_of_inProc_afterPoll (later.inProc (by simpa using present))

/-! ### `clean_completed` -/

theorem ensures_rename {source target : Place} (stored : source ∈ world.files) :
    Ensures (rename source target) world (fun _ next => ∃ content,
      world.files.lookup source = some content ∧
      next = { world with files := (world.files.erase source).insert target content })
      raised := by
  simp only [rename, ensures_bind, ensures_get]
  cases found : world.files.lookup source with
  | none => exact absurd stored (AList.lookup_eq_none.mp found)
  | some content =>
    rw [ensures_modify]
    exact ⟨content, rfl, rfl⟩

/-- An entry that has ended is completed. -/
theorem ensures_cleanEntry (flag : Bool) (tracked : Tracked late ids base world)
    (member : entry ∈ world.runningPidPort) :
    Ensures (cleanEntry config entry flag) world (fun step next => ∃ flag', step = .yield flag' ∧
      (Tracked late ids base next ∧ next.commands = world.commands ∧
        ProcsLater world.procs next.procs) ∧
      (next.runningPidPort = world.runningPidPort ∧ world.alive entry.pid ∨
        next.runningPidPort = world.runningPidPort.erase entry ∧ True)) raised := by
  simp only [cleanEntry, ensures_bind, ensures_ite, ensures_pure]
  refine (ensures_hasEnded tracked.backed).imp fun ended looked outcome => ?_
  obtain ⟨quiet, running⟩ := outcome
  refine ⟨fun _ => ?_, fun unended => ?_⟩
  · have trackedLooked := tracked.quiet quiet
    refine (ensures_observe trackedLooked.backed).imp fun moment seen quiet' => ?_
    have trackedSeen := trackedLooked.quiet quiet'
    have memberSeen : entry ∈ seen.runningPidPort := by
      rw [quiet'.list, quiet.list]
      exact member
    refine (ensures_rename (trackedSeen.backed entry memberSeen)).imp ?_
    rintro _ _ ⟨content, _, rfl⟩
    obtain ⟨board, steps, consistent⟩ := trackedSeen
    have candidate : entry.app ∈ seen.appStatsMap :=
      (consistent.table _).mpr ⟨_, consistent.place_of_listed memberSeen, by simp⟩
    simp only [removeEntry, popStats, ensures_bind, ensures_get, ensures_modify, ensures_ite]
    refine ⟨fun _ => ?_, fun absent => absurd candidate absent⟩
    refine ⟨true, rfl, ⟨?_, by rw [quiet'.commands, quiet.commands], ?_⟩, Or.inr ⟨?_, trivial⟩⟩
    · have named : IsStatFile entry.app
          (.completed, statFile entry.app ++ moment.timestamp) := ⟨moment.timestamp, rfl⟩
      refine Tracked.retire ⟨board, steps, consistent⟩ memberSeen named (by simp)
        ⟨⟨content, rfl⟩, rfl, ?_, rfl, ?_, fun _ _ => rfl, ?_, by simp⟩
      · intro app
        rw [AList.mem_erase]
        simp [and_comm]
      · exact (procsLater_refl _).remembers
      · exact ⟨[], by simp⟩
    · exact quiet.procs.trans quiet'.procs
    · rw [quiet'.list, quiet.list]
  · refine ⟨flag, rfl, ⟨tracked.quiet quiet, quiet.commands, quiet.procs⟩, Or.inl ⟨quiet.list, ?_⟩⟩
    exact running (by simpa using unended)

/-- `clean_completed` never raises. It sends no command, and what it looks at and leaves was
running. -/
theorem ensures_cleanCompleted (tracked : Tracked late ids base world) :
    Ensures (cleanCompleted config) world (fun _ next =>
      (Tracked late ids base next ∧ next.commands = world.commands ∧
        ProcsLater world.procs next.procs) ∧
      Sweep (fun entry => world.alive entry.pid) (fun _ => True) world.runningPidPort
        next.runningPidPort) fun _ => False := by
  refine ensures_sweep (fun _ _ kept => kept.1.list_nodup) ?_ ⟨tracked, rfl, procsLater_refl _⟩
  intro flag entry current kept member
  refine (ensures_cleanEntry flag kept.1 member).imp ?_
  rintro step next ⟨flag', rfl, ⟨trackedNext, commands, procs⟩, list⟩
  refine ⟨flag', rfl, ⟨trackedNext, commands.trans kept.2.1, kept.2.2.trans procs⟩, ?_⟩
  refine list.imp_left fun ⟨same, alive⟩ => ⟨same, ?_⟩
  exact kept.2.2.alive alive

/-! ### `stop_running` -/

section Command

variable (kind : CommandKind) (stderr : List Text)

@[simp]
theorem command_files : (world.command kind entry stderr).files = world.files := by
  unfold World.command
  split <;> rfl

@[simp]
theorem command_list :
    (world.command kind entry stderr).runningPidPort = world.runningPidPort := by
  unfold World.command
  split <;> rfl

@[simp]
theorem command_table : (world.command kind entry stderr).appStatsMap = world.appStatsMap := by
  unfold World.command
  split <;> rfl

@[simp]
theorem command_commands : (world.command kind entry stderr).commands = world.commands ++
    [⟨kind, entry.pid, entry.port, !world.alive entry.pid, stderr⟩] := by
  unfold World.command
  split <;> rfl

end Command

/-- What preempting an entry does to the rest of the state. -/
structure Preempted (before after : World) : Prop where
  table : after.appStatsMap = before.appStatsMap
  commands : before.commands <+: after.commands
  remembers : Remembers before.procs after.procs

theorem Preempted.trans {first second third : World} (before : Preempted first second)
    (after : Preempted second third) : Preempted first third :=
  ⟨after.table.trans before.table, before.commands.trans after.commands,
    before.remembers.trans after.remembers⟩

theorem Stirs.preempted {fresh : Place → Prop} (stirs : Stirs fresh world world') :
    Preempted world world' :=
  ⟨stirs.table, by rw [stirs.commands], stirs.procs.remembers⟩

theorem Quiet.preempted (quiet : Quiet world world') : Preempted world world' :=
  (quiet.stirs fun _ => False).preempted

theorem remembers_kill (procs : List Process) (pid : Nat) :
    Remembers procs (procs.modify pid fun process =>
      { process with phase := Phase.kill process.phase }) where
  length := by rw [List.length_modify]
  forward other process found := by
    rw [List.getElem?_modify, found]
    refine ⟨_, rfl, ?_, ?_⟩
    · split <;> rfl
    · intro status exited
      split
      · cases phase : process.phase <;> simp_all [Phase.exitStatus, Phase.kill]
      · exact exited

theorem remembers_command (kind : CommandKind) (stderr : List Text) :
    Remembers world.procs (world.command kind entry stderr).procs := by
  unfold World.command
  split
  · exact remembers_kill _ _
  · exact (procsLater_refl _).remembers

/-- A command that leads to `noidea` when it fails, and to `queued` when it is a kill that
succeeds. -/
theorem retires_command {kind : CommandKind} {stderr : List Text} {dir : Dir} (content : Text)
    (lost : dir = .noidea ∧ stderr ≠ [] ∨ dir = .queued ∧ kind = .kill ∧ stderr = []) :
    Retires world
      { world.command kind entry stderr with
        files := (world.files.erase (.running, statFile entry.app)).insert
          (dir, statFile entry.app) content
        runningPidPort := world.runningPidPort.erase entry }
      entry (dir, statFile entry.app) where
  files := ⟨content, rfl⟩
  list := rfl
  table app := by
    rcases lost with ⟨rfl, _⟩ | ⟨rfl, _⟩ <;> simp
  procs := by
    unfold World.command
    split
    · exact List.length_modify ..
    · rfl
  remembers := remembers_command kind stderr
  others pid different := by
    unfold World.command
    split
    · exact List.getElem?_modify_ne _ _ (Ne.symm different)
    · rfl
  commands := by
    refine ⟨_, command_commands kind stderr, ?_, ?_⟩
    · intro command member
      rw [List.mem_singleton.mp member]
    · rcases lost with ⟨rfl, failed⟩ | ⟨rfl, _, succeeded⟩
      · simp [failed]
      · simp [succeeded]
  killed := by
    rintro queued honest process found
    rcases lost with ⟨noidea, _⟩ | ⟨_, rfl, rfl⟩
    · rw [noidea] at queued
      cases queued
    -- The kill printed no error, so the process it was sent to had not ended.
    have alive : world.alive entry.pid := by
      by_contra ended
      refine honest ⟨.kill, entry.pid, entry.port, !world.alive entry.pid, []⟩ ?_ ?_ rfl
      · exact (command_commands .kill []).symm ▸ List.mem_append_right _ (List.mem_singleton_self _)
      · simpa using ended
    have running : world.phase entry.pid = some .running := by simpa [World.alive] using alive
    obtain ⟨before, foundBefore, phase⟩ := Option.map_eq_some_iff.mp running
    simp only [World.command, World.changePhase, and_self, if_true, List.getElem?_modify_eq,
      foundBefore] at found
    cases found
    simp [phase, Phase.kill]

/-- The stat file of a listed entry has been moved away: without the entry the state is on
track. -/
structure Away (late : Set Text) (ids : List Text) (base : Board) (entry : Entry)
    (before moved : World) : Prop where
  tracked : ∃ board, Lifecycle.Steps Moves base board ∧
    Consistent late ids [] { moved with runningPidPort := moved.runningPidPort.erase entry } board ∧
    ∃ dir name, board entry.app = some (dir, name) ∧ (dir = .queued ∨ dir = .noidea)
  list : moved.runningPidPort = before.runningPidPort
  preempted : Preempted before moved

theorem Away.widen {first second : World} (away : Away late ids base entry second moved)
    (list : second.runningPidPort = first.runningPidPort) (preempted : Preempted first second) :
    Away late ids base entry first moved :=
  ⟨away.tracked, away.list.trans list, preempted.trans away.preempted⟩

/-- The renames of `moveAway`, after the command that decided where to. -/
theorem ensures_rename_away {kind : CommandKind} {stderr : List Text} {dir : Dir}
    (tracked : Tracked late ids base world) (member : entry ∈ world.runningPidPort)
    (lost : dir = .noidea ∧ stderr ≠ [] ∨ dir = .queued ∧ kind = .kill ∧ stderr = []) :
    Ensures (rename (.running, statFile entry.app) (dir, statFile entry.app))
      (world.command kind entry stderr)
      (fun _ moved => Away late ids base entry world moved) raised := by
  refine (ensures_rename (by simpa using tracked.backed entry member)).imp ?_
  rintro _ _ ⟨content, _, rfl⟩
  have named : IsStatFile entry.app (dir, statFile entry.app) := by
    rcases lost with ⟨rfl, _⟩ | ⟨rfl, _⟩ <;> rfl
  have away : dir = .queued ∨ dir = .noidea := lost.symm.imp And.left And.left
  have move : Move .running dir := by
    rcases lost with ⟨rfl, _⟩ | ⟨rfl, _⟩
    · exact .lose
    · exact .preempt
  obtain ⟨board, steps, consistent⟩ := tracked
  refine ⟨⟨_, steps.tail (.move (consistent.place_of_listed member) ⟨move, named⟩), ?_, dir, _,
    Function.update_self .., away⟩, by simp, by simp, ?_, remembers_command kind stderr⟩
  · simp only [command_files, command_list]
    exact consistent.retire member named (by rcases away with rfl | rfl <;> simp)
      (retires_command content lost)
  · simp

/-- A checkpoint that printed no error. -/
theorem Tracked.checkpoint (tracked : Tracked late ids base world)
    (member : entry ∈ world.runningPidPort) :
    Tracked late ids base (world.command .checkpoint entry []) := by
  obtain ⟨board, steps, consistent⟩ := tracked
  obtain ⟨process, found, _⟩ := consistent.entries entry member
  exact ⟨board, steps, consistent.record (List.getElem?_eq_some_iff.mp found).1 rfl⟩

/-- `moveAway` never raises. -/
theorem ensures_moveAway (tracked : Tracked late ids base world)
    (member : entry ∈ world.runningPidPort) :
    Ensures (moveAway config entry) world
      (fun _ moved => Away late ids base entry world moved) raised := by
  simp only [moveAway, dmtcpCommand, ensures_bind, ensures_modify, ensures_pure, ensures_ite]
  refine (ensures_observe tracked.backed).imp fun moment seen quiet => ?_
  have trackedSeen := tracked.quiet quiet
  have memberSeen : entry ∈ seen.runningPidPort := by rwa [quiet.list]
  refine ⟨fun checkpointed => ?_, fun failed => ?_⟩
  · rw [checkpointed]
    have trackedAfter := trackedSeen.checkpoint memberSeen
    refine (ensures_observe trackedAfter.backed).imp fun moment' seen' quiet' => ?_
    have trackedSeen' := trackedAfter.quiet quiet'
    have list' : seen'.runningPidPort = world.runningPidPort := by
      rw [quiet'.list, command_list, quiet.list]
    have memberSeen' : entry ∈ seen'.runningPidPort := by rwa [list']
    have recorded : Preempted seen (seen.command .checkpoint entry []) :=
      ⟨command_table _ _, by simp, remembers_command _ _⟩
    have preempted : Preempted world seen' :=
      (quiet.preempted.trans recorded).trans quiet'.preempted
    refine ⟨fun killed => ?_, fun failed => ?_⟩
    · exact (ensures_rename_away trackedSeen' memberSeen' (.inr ⟨rfl, rfl, killed⟩)).imp
        fun _ moved away => away.widen list' preempted
    · exact (ensures_rename_away trackedSeen' memberSeen' (.inl ⟨rfl, failed⟩)).imp
        fun _ moved away => away.widen list' preempted
  · exact (ensures_rename_away trackedSeen memberSeen (.inl ⟨rfl, failed⟩)).imp
      fun _ moved away => away.widen quiet.list quiet.preempted

/-- The plugin of a process writes. -/
def Event.writes (pid : Nat) : Event → Bool
  | .write writer _ => writer == pid
  | _ => false

/-- The entry, if its plugin writes at a moment. -/
def lateWriter (entry : Entry) (moment : Moment) : List Entry :=
  if moment.events.any (Event.writes entry.pid) then [entry] else []

/-- The apps of some entries. -/
def appsOf (entries : List Entry) : Set Text := {app | ∃ entry ∈ entries, entry.app = app}

/-- The entry is taken off the list. What its plugin has written before stays. -/
theorem Away.remove (away : Away late ids base entry world moved) (moment : Moment) :
    Tracked (late ∪ appsOf (lateWriter entry moment)) ids base
      { moved.advance moment with
        runningPidPort := (moved.advance moment).runningPidPort.erase entry } := by
  obtain ⟨⟨board, steps, consistent, dir, name, found, outside⟩, _, _⟩ := away
  have stirs := stirs_advance moved moment
  refine ⟨board, steps, (consistent.mono Set.subset_union_left).stir ⟨?_, stirs.table,
    stirs.commands, stirs.kept, fun place member => ?_, stirs.procs⟩⟩
  · show (moved.advance moment).runningPidPort.erase entry = _
    rw [stirs.list]
  · rcases stirs.found place member with old | ⟨writer, listed, ⟨content, happens⟩, rfl⟩
    · exact Or.inl old
    by_cases same : writer = entry
    · subst same
      have written : moment.events.any (Event.writes writer.pid) = true :=
        List.any_eq_true.mpr ⟨_, happens, by simp [Event.writes]⟩
      refine Or.inr ⟨writer.app, Or.inr ⟨writer, ?_, rfl⟩, rfl, dir, name, found, outside⟩
      rw [lateWriter, if_pos written]
      exact List.mem_singleton_self _
    · exact Or.inl (consistent.backed writer ((List.mem_erase_of_ne same).mpr listed))

/-- The state in which a preempted entry has left the list, and what happened just before. -/
def Left (late : Set Text) (ids : List Text) (base : Board) (entry : Entry) (before : World)
    (moment : Moment) (after : World) : Prop :=
  Tracked (late ∪ appsOf (lateWriter entry moment)) ids base after ∧
    after.runningPidPort = before.runningPidPort.erase entry ∧ Preempted before after

/-- Preempting an entry never raises and takes it off the list. -/
theorem ensures_preempt (tracked : Tracked late ids base world)
    (member : entry ∈ world.runningPidPort) :
    Ensures (preempt config entry) world (Left late ids base entry world) raised := by
  rw [preempt, ensures_bind]
  refine (ensures_moveAway tracked member).imp fun _ moved away => ?_
  simp only [observe, removeEntry, ensures_bind, ensures_get, ensures_modify, ensures_pure]
  have stirs := stirs_advance moved (config.schedule moved.clock)
  refine ⟨away.remove _, ?_, ?_⟩
  · show List.erase _ _ = _
    rw [stirs.list, away.list]
  · obtain ⟨table, commands, remembers⟩ := away.preempted.trans stirs.preempted
    exact ⟨table, commands, remembers⟩

/-- The body of the loop of `stop_running`, with a record of the entries whose plugins write after
their stat file has been moved away. -/
def recordLate (config : Config) (nextRunnable : List Text) (running : Entry)
    (noted : List Entry) : Program World PyError (ForInStep (List Entry)) := do
  if running.app ∉ nextRunnable then do
    let moment ← preempt config running
    pure (.yield (noted ++ lateWriter running moment))
  else pure (.yield noted)

/-- The record does not change what the loop does. -/
theorem stopRunning_eq_recordLate (plan : List Text) :
    stopRunning config plan =
      (fun _ => ()) <$> forEach World.runningPidPort (recordLate config plan) [] := by
  refine forEach_forget (fun _ => ()) ?_ []
  intro entry noted
  unfold stopEntry recordLate
  split
  · simp only [map_bind, map_pure]
    rfl
  · rw [map_pure]
    rfl

/-- `stop_running` never raises. It leaves the table alone and sweeps away entries outside the
plan; the apps it records may be late. -/
theorem ensures_recordLate (plan : List Text) (tracked : Tracked late ids base world) :
    Ensures (forEach World.runningPidPort (recordLate config plan) []) world (fun noted next =>
      (Tracked (late ∪ appsOf noted) ids base next ∧ Preempted world next) ∧
      Sweep (fun entry => entry.app ∈ plan) (fun entry => entry.app ∉ plan) world.runningPidPort
        next.runningPidPort) fun _ => False := by
  refine ensures_sweep (fun _ _ kept => kept.1.list_nodup) ?_
    ⟨tracked.mono Set.subset_union_left, (quiet_refl world).preempted⟩
  intro noted entry current kept member
  rw [recordLate, ensures_ite]
  refine ⟨fun outside => ?_, fun inside => ?_⟩
  · rw [ensures_bind]
    refine (ensures_preempt kept.1 member).imp fun moment next => ?_
    rintro ⟨trackedNext, list, preempted⟩
    refine ⟨_, rfl, ⟨trackedNext.mono ?_, kept.2.trans preempted⟩, Or.inr ⟨list, outside⟩⟩
    rw [Set.union_assoc]
    refine Set.union_subset_union_right late ?_
    rintro app (⟨writer, old, rfl⟩ | ⟨writer, fresh, rfl⟩)
    · exact ⟨writer, List.mem_append_left _ old, rfl⟩
    · exact ⟨writer, List.mem_append_right _ fresh, rfl⟩
  · exact ⟨noted, rfl, kept, Or.inl ⟨rfl, not_not.mp inside⟩⟩

/-- The entries whose plugins write after `stop_running` has moved their stat file away and
before it takes them off the list. -/
def lateWriters (config : Config) (nextRunnable : List Text) (world : World) : List Entry :=
  match (forEach World.runningPidPort (recordLate config nextRunnable) []).run world with
  | .error _ => []
  | .ok (noted, _) => noted

/-- The same for `stop_running` itself, when its late apps are among those that may be late. -/
theorem ensures_stopRunning (plan : List Text) (tracked : Tracked late ids base world)
    (allowed : appsOf (lateWriters config plan world) ⊆ late) :
    Ensures (stopRunning config plan) world (fun _ next =>
      (Tracked late ids base next ∧ Preempted world next) ∧
      Sweep (fun entry => entry.app ∈ plan) (fun entry => entry.app ∉ plan) world.runningPidPort
        next.runningPidPort) fun _ => False := by
  obtain ⟨noted, next, ran, ⟨trackedNext, preempted⟩, swept⟩ :=
    (ensures_recordLate plan tracked).returns
  have noLater : late ∪ appsOf noted ⊆ late := by
    rw [lateWriters, ran] at allowed
    exact Set.union_subset le_rfl allowed
  have returns : (stopRunning config plan).run world = .ok ((), next) := by
    rw [stopRunning_eq_recordLate, StateT.run_map, ran]
    rfl
  rw [Ensures, returns]
  exact ⟨⟨trackedNext.mono noLater, preempted⟩, swept⟩

/-! ### `get_next_runnable_map` -/

theorem mem_updateAppStatsMap {appid content : Text} {table table' : StatsTable}
    (updated : updateAppStatsMap appid content table = .ok table') (app : Text) :
    app ∈ table' ↔ app = appid ∨ app ∈ table := by
  rw [updateAppStatsMap] at updated
  obtain ⟨entry, _, stored⟩ := bind_eq_ok_iff.mp updated
  rw [← Except.ok.inj stored, AList.mem_insert]

theorem mem_listdir_iff {dir : Dir} {name : Text} :
    name ∈ world.listdir dir ↔ (dir, name) ∈ world.files := by
  simp [World.listdir, AList.mem_keys]

/-- What planning leaves as it is: everything but values of the table. -/
structure Refreshed (before after : World) : Prop where
  list : after.runningPidPort = before.runningPidPort
  commands : after.commands = before.commands
  files : ∀ place, place ∈ after.files ↔ place ∈ before.files
  procs : ProcsLater before.procs after.procs

theorem Refreshed.trans {first second third : World} (before : Refreshed first second)
    (after : Refreshed second third) : Refreshed first third :=
  ⟨after.list.trans before.list, after.commands.trans before.commands,
    fun place => (after.files place).trans (before.files place), before.procs.trans after.procs⟩

theorem Quiet.refreshed (quiet : Quiet world world') : Refreshed world world' :=
  ⟨quiet.list, quiet.commands, quiet.files, quiet.procs⟩

/-- A stat file in `running` belongs to a key of the table, so reading it adds no key. -/
theorem ensures_refreshStats {name : Text} (tracked : Tracked late ids base world)
    (stored : (Dir.running, name) ∈ world.files) :
    Ensures (refreshStats config name) world
      (fun _ next => Tracked late ids base next ∧ Refreshed world next) fun _ => True := by
  simp only [refreshStats, ensures_bind, ensures_get]
  refine (ensures_observe tracked.backed).imp fun _ seen quiet => ?_
  split
  · exact (ensures_throw ..).mpr trivial
  · simp only [ensures_bind, ensures_liftExcept, ensures_modify, implies_true, and_true]
    intro table updated
    obtain ⟨board, steps, consistent⟩ := tracked.quiet quiet
    obtain ⟨app, owner, candidate⟩ : ∃ app, (name.splitOn '.').headD [] = app ∧
        app ∈ seen.appStatsMap := by
      rcases consistent.shelved.known _ ((quiet.files _).mpr stored) with
        ⟨app, found⟩ | ⟨app, _, place, dir, _, found, away⟩
      · exact ⟨app, (consistent.shelved.named _ _ found).split (consistent.shelved.plain _ _ found),
          (consistent.table app).mpr ⟨_, found, by simp⟩⟩
      · have named : IsStatFile app (.running, name) := (Prod.mk.inj place).2
        refine ⟨app, named.split (consistent.shelved.plain _ _ found),
          (consistent.table app).mpr ⟨_, found, ?_⟩⟩
        rcases away with rfl | rfl <;> simp
    refine ⟨⟨board, steps, consistent.refresh fun other => ?_⟩, ?_⟩
    · rw [mem_updateAppStatsMap updated, owner]
      refine ⟨?_, Or.inr⟩
      rintro (rfl | member)
      · exact candidate
      · exact member
    · exact ⟨quiet.list, quiet.commands, quiet.files, quiet.procs⟩

theorem ensures_observe_moment :
    Ensures (observe config) world
      (fun moment next => moment = config.schedule (next.clock - 1)) raised := by
  simp only [observe, ensures_bind, ensures_get, ensures_modify, ensures_pure]
  rfl

/-- The plan is what the rule says of the table it leaves, at the moment it is called. -/
theorem ensures_getNextRunnableMap (tracked : Tracked late ids base world) :
    Ensures (getNextRunnableMap config) world (fun plan next =>
      (Tracked late ids base next ∧ Refreshed world next) ∧
      config.rule (config.schedule (next.clock - 1)).sample next.appStatsMap world.runningApps =
        .ok plan) fun _ => True := by
  simp only [getNextRunnableMap, ensures_bind, ensures_get]
  refine (ensures_forM (fun rest state => (Tracked late ids base state ∧ Refreshed world state) ∧
    ∀ name ∈ rest, (Dir.running, name) ∈ state.files) ?_ _ _
    ⟨⟨tracked, (quiet_refl world).refreshed⟩, fun name member => mem_listdir_iff.mp member⟩).imp ?_
  · rintro name rest state ⟨⟨trackedState, refreshed⟩, stored⟩
    refine (ensures_refreshStats trackedState (stored name List.mem_cons_self)).imp ?_
    rintro _ next ⟨trackedNext, later⟩
    refine ⟨⟨trackedNext, refreshed.trans later⟩, fun other member => ?_⟩
    exact (later.files _).mpr (stored other (List.mem_cons_of_mem _ member))
  · rintro _ read ⟨⟨trackedRead, refreshed⟩, _⟩
    refine ((ensures_observe trackedRead.backed).and ensures_observe_moment).mono ?_
      fun _ (impossible : False ∧ False) => trivial
    rintro moment next ⟨quiet, rfl⟩
    simp only [ensures_liftExcept, implies_true, and_true]
    intro plan planned
    exact ⟨⟨trackedRead.quiet quiet, refreshed.trans quiet.refreshed⟩, planned⟩

/-! ### `start_next` -/

/-- New entries at the end of the list, each with a process of its own. -/
structure Started (before after : World) (new : List Entry) : Prop where
  list : after.runningPidPort = before.runningPidPort ++ new
  fresh : ∀ entry ∈ new, before.procs.length ≤ entry.pid
  table : after.appStatsMap = before.appStatsMap
  commands : after.commands = before.commands
  remembers : Remembers before.procs after.procs

theorem Started.trans {first second third : World} {new later : List Entry}
    (before : Started first second new) (after : Started second third later) :
    Started first third (new ++ later) where
  list := by rw [after.list, before.list, List.append_assoc]
  fresh entry member := by
    rcases List.mem_append.mp member with old | young
    · exact before.fresh entry old
    · exact before.remembers.length.trans (after.fresh entry young)
  table := after.table.trans before.table
  commands := after.commands.trans before.commands
  remembers := before.remembers.trans after.remembers

theorem Quiet.started (quiet : Quiet world world') : Started world world' [] where
  list := by rw [quiet.list, List.append_nil]
  fresh _ member := absurd member List.not_mem_nil
  table := quiet.table
  commands := quiet.commands
  remembers := quiet.procs.remembers

theorem started_launch (app image : Text) (port : Nat) :
    Started world (world.launch app image port) [⟨app, world.procs.length, port⟩] where
  list := rfl
  fresh entry member := by rw [List.mem_singleton.mp member]
  table := rfl
  commands := rfl
  remembers := remembers_launch world app image port

/-- A stat file stored in `queued` is that of an app queued on the board. -/
theorem Consistent.queued_iff {pending : List Text} {app : Text}
    (consistent : Consistent late ids pending world board) :
    (Dir.queued, statFile app) ∈ world.files ↔ ∃ name, board app = some (.queued, name) := by
  constructor
  · intro stored
    rcases consistent.shelved.known _ stored with ⟨other, found⟩ | ⟨_, _, place, _⟩
    · have same : statFile app = statFile other := consistent.shelved.named _ _ found
      rw [List.append_cancel_right same]
      exact ⟨_, found⟩
    · cases place
  · rintro ⟨name, found⟩
    have named : name = statFile app := consistent.shelved.named _ _ found
    exact consistent.shelved.stored app _ (by rw [found, named])

/-- The app can be restarted: its checkpoint directory can be entered and its image is known. -/
def Startable (config : Config) (runnable : AList fun _ : Text => Text) (app : Text) : Prop :=
  enterChkptDir config.chkpts app = .ok () ∧ app ∈ runnable

instance (runnable : AList fun _ : Text => Text) (app : Text) :
    Decidable (Startable config runnable app) :=
  inferInstanceAs (Decidable (enterChkptDir config.chkpts app = .ok () ∧ app ∈ runnable.keys))

/-- Starting an app adds its entry. The rename raises only when the app is not queued, and for an
app that can be restarted nothing else raises. -/
theorem ensures_startApp (runnable : AList fun _ : Text => Text) (app : Text)
    (steps : Lifecycle.Steps Moves base board)
    (consistent : Consistent late ids [] world board) :
    Ensures (startApp config runnable app) world
      (fun _ next => ∃ board' entry, Lifecycle.Steps Moves base board' ∧
        Consistent late ids [] next board' ∧ (∀ other ≠ app, board' other = board other) ∧
        entry.app = app ∧ Started world next [entry])
      (fun error => (error = .osError .rename → ∀ name, board app ≠ some (.queued, name)) ∧
        (Startable config runnable app → error = .osError .rename)) := by
  by_cases stored : (Dir.queued, statFile app) ∈ world.files
  · obtain ⟨name, queued⟩ := consistent.queued_iff.mp stored
    simp only [startApp, ensures_bind, getopenport]
    refine (ensures_rename stored).imp ?_
    rintro _ _ ⟨content, _, rfl⟩
    have moved := consistent.begin queued content
    have move : Moves app (.queued, name) (.running, statFile app) := ⟨.start, rfl⟩
    have stepped := steps.tail (.move queued move)
    simp only [ensures_liftExcept]
    refine ⟨fun _ _ => ?_, fun error raised =>
      ⟨fun rename => absurd rename (enterChkptDir_error raised), fun startable => ?_⟩⟩
    · refine (ensures_observe moved.backed).imp fun moment seen quiet => ?_
      simp only [ensures_get, ensures_pure]
      generalize (if moment.port ∈ seen.boundPorts then _ else moment.port) = port
      split
      · rename_i unknown
        refine (ensures_throw ..).mpr ⟨by simp, fun startable => ?_⟩
        exact absurd startable.2 (AList.lookup_eq_none.mp unknown)
      · rw [ensures_modify]
        rename_i image _
        refine ⟨_, ⟨app, seen.procs.length, port⟩, stepped, (moved.quiet quiet).launch image port,
          fun other different => ?_, rfl, ?_⟩
        · exact Function.update_of_ne different ..
        · have launched := quiet.started.trans (started_launch app image port)
          exact ⟨launched.list, launched.fresh, launched.table, launched.commands,
            launched.remembers⟩
    · rw [startable.1] at raised
      cases raised
  · have absent : world.files.lookup (.queued, statFile app) = none :=
      AList.lookup_eq_none.mpr stored
    simp only [startApp, rename, ensures_bind, ensures_get, absent, ensures_throw]
    refine ⟨fun _ name queued => ?_, fun _ => trivial⟩
    exact stored (consistent.queued_iff.mpr ⟨name, queued⟩)

theorem reorder_perm {α : Type} [DecidableEq α] (order items : List α) :
    (reorder order items).Perm items := by
  induction order with
  | nil => exact List.Perm.refl _
  | cons item order inductionHypothesis =>
    rw [reorder, List.foldr_cons, ← reorder]
    split
    · rename_i member
      exact (List.perm_cons_erase member).symm.trans inductionHypothesis
    · exact inductionHypothesis

theorem mem_toRestart_iff {order plan runningapplist : List Text} {app : Text} :
    app ∈ toRestart order plan runningapplist ↔ app ∈ plan ∧ app ∉ runningapplist := by
  rw [toRestart, (reorder_perm ..).mem_iff]
  simp

theorem toRestart_nodup (order plan runningapplist : List Text) :
    (toRestart order plan runningapplist).Nodup :=
  (reorder_perm ..).nodup_iff.mpr ((List.nodup_dedup plan).filter _)

/-- All these apps can be restarted. -/
def Restartable (config : Config) (apps : List Text) : Prop :=
  ∃ runnable, getRunnableInstanceMap config.chkptsDir config.chkpts = .ok runnable ∧
    ∀ app ∈ apps, Startable config runnable app

instance (apps : List Text) : Decidable (Restartable config apps) :=
  match mapped : getRunnableInstanceMap config.chkptsDir config.chkpts with
  | .error _ => isFalse fun restartable =>
    restartable.elim fun _ holds => by
      rw [mapped] at holds
      cases holds.1
  | .ok runnable =>
    decidable_of_iff (∀ app ∈ apps, Startable config runnable app)
      ⟨fun each => ⟨runnable, mapped, each⟩, fun restartable => restartable.elim fun _ holds => by
        rw [mapped] at holds
        cases holds.1
        exact holds.2⟩

/-- `start_next` starts every app of the plan that is not running. A rename raises only when
one of these apps is not queued, and when they can be restarted nothing else raises. -/
theorem ensures_startNext (plan : List Text)
    (steps : Lifecycle.Steps Moves base board)
    (consistent : Consistent late ids [] world board) :
    Ensures (startNext config plan) world
      (fun _ next => Tracked late ids base next ∧ ∃ new, Started world next new ∧
        (new.map Entry.app).Perm (plan.dedup.filter fun app => app ∉ world.runningApps))
      (fun error => (error = .osError .rename →
        ∃ app ∈ plan, app ∉ world.runningApps ∧ ∀ name, board app ≠ some (.queued, name)) ∧
        (Restartable config plan → error = .osError .rename)) := by
  simp only [startNext, ensures_bind, ensures_get, ensures_liftExcept]
  refine (ensures_observe consistent.backed).imp fun moment seen quiet => ?_
  refine ⟨fun runnable mapped => ?_, fun error raised => ⟨fun rename => ?_, fun restartable => ?_⟩⟩
  · have apps : seen.runningApps = world.runningApps := by
      rw [World.runningApps, quiet.list, World.runningApps]
    rw [apps]
    have members : ∀ app ∈ toRestart moment.sample.order plan world.runningApps,
        app ∈ plan ∧ app ∉ world.runningApps := fun app => mem_toRestart_iff.mp
    have nodup := toRestart_nodup moment.sample.order plan world.runningApps
    -- The invariant follows the apps still to start: they are where they were.
    refine ((ensures_forM (fun rest state => ∃ board' new,
      (Lifecycle.Steps Moves base board' ∧ Consistent late ids [] state board') ∧
      (∀ app ∈ rest, board' app = board app) ∧ Started world state new ∧
      new.map Entry.app ++ rest = toRestart moment.sample.order plan world.runningApps)
      ?_ _ seen ?_).imp ?_)
    · rintro app rest state ⟨board', new, ⟨steps', consistent'⟩, same, started, split⟩
      rw [← split] at members nodup
      have ahead := (List.nodup_append.mp nodup).2.1
      refine (ensures_startApp runnable app steps' consistent').mono ?_ ?_
      · rintro _ next ⟨board'', entry, steps'', consistent'', others, rfl, started'⟩
        refine ⟨board'', new ++ [entry], ⟨steps'', consistent''⟩, fun other member => ?_,
          started.trans started', by simpa using split⟩
        have different : other ≠ entry.app := by
          rintro rfl
          exact (List.nodup_cons.mp ahead).1 member
        rw [others other different, same other (List.mem_cons_of_mem _ member)]
      · intro error raised
        have member := members app (List.mem_append_right _ List.mem_cons_self)
        refine ⟨fun rename => ⟨app, member.1, member.2, fun name queued => ?_⟩, ?_⟩
        · exact raised.1 rename name (by rw [same app List.mem_cons_self, queued])
        · rintro ⟨runnable', mapped', startable⟩
          cases mapped.symm.trans mapped'
          exact raised.2 (startable app member.1)
    · exact ⟨board, [], ⟨steps, consistent.quiet quiet⟩, fun _ _ => rfl, quiet.started, rfl⟩
    · rintro _ next ⟨board', new, ⟨steps', consistent'⟩, _, started, split⟩
      refine ⟨⟨board', steps', consistent'⟩, new, started, ?_⟩
      rw [List.append_nil] at split
      rw [split]
      exact reorder_perm ..
  · rw [getRunnableInstanceMap_error raised] at rename
    cases rename
  · obtain ⟨runnable, mapped, _⟩ := restartable
    rw [mapped] at raised
    cases raised

end ClusterJobs
