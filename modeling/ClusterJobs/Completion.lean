/-
This file follows one process of the scheduler from its end on.

Its entry moves towards the front of `running_pid_port` with every `clean_completed` that skips
it, so it is off the list after as many of them as the list was long: the removal under the
loop delays a completion but does not lose it. What can misfile a finished job is the other
loop: between its end and the next look at it, `stop_running` may send it a command, and a
command sent to an ended process fails and moves the stat file to `noidea`.
-/

import ClusterJobs.MainLoop

namespace ClusterJobs

open Python

variable {config : Config} {ids : List Text} {base : Board} {world : World}
  {main next main' : Main}

/-! ### One step -/

/-- No step forgets a process, its app or its exit status. -/
theorem Advance.remembers (advance : Advance config main next) :
    Remembers main.world.procs next.world.procs := by
  cases advance with
  | clean _ _ procs _ => exact procs.remembers
  | finish _ => exact (procsLater_refl _).remembers
  | plan _ refreshed _ => exact refreshed.procs.remembers
  | wait _ => exact (procsLater_refl _).remembers
  | stop preempted _ => exact preempted.remembers
  | start started _ => exact started.remembers
  | sleep quiet => exact quiet.procs.remembers
  | stay => exact (procsLater_refl _).remembers

/-- How far an entry has moved up when the step was a `clean_completed`. -/
def headStep (main : Main) : Nat := if main.pc = .head then 1 else 0

/-- The entry of an ended process does not move back, and a `clean_completed` that leaves it
moves it up. -/
theorem Advance.idxOf_le {entry : Entry} (advance : Advance config main next)
    (tracked : Tracked Set.univ ids base main.world) (known : entry.pid < main.world.procs.length)
    (ended : ¬ main.world.alive entry.pid) (member : entry ∈ next.world.runningPidPort) :
    entry ∈ main.world.runningPidPort ∧
      next.world.runningPidPort.idxOf entry + headStep main ≤
        main.world.runningPidPort.idxOf entry := by
  cases advance with
  | clean _ _ _ swept =>
    exact ⟨swept.sublist.subset member, swept.idxOf_lt tracked.list_nodup ended member⟩
  | finish empty => exact absurd (tracked.backed entry member) (empty _).2
  | plan _ refreshed _ =>
    rw [refreshed.list] at *
    exact ⟨member, le_rfl⟩
  | wait _ => exact ⟨member, le_rfl⟩
  | stop _ swept =>
    exact ⟨swept.sublist.subset member,
      idxOf_le_of_sublist swept.sublist tracked.list_nodup member⟩
  | start started _ =>
    rw [started.list] at *
    rcases List.mem_append.mp member with old | fresh
    · exact ⟨old, (List.idxOf_append_of_mem old).le⟩
    · exact absurd known (Nat.not_lt.mpr (started.fresh entry fresh))
  | sleep quiet =>
    rw [quiet.list] at *
    exact ⟨member, le_rfl⟩
  | stay => exact ⟨member, le_rfl⟩

/-! ### Whole runs -/

theorem not_alive_of_exitStatus {pid : Nat} {process : Process} {status : Int}
    (found : world.procs[pid]? = some process)
    (exited : process.phase.exitStatus = some status) : ¬ world.alive pid := by
  intro alive
  have running : process.phase = .running := by
    simpa [World.alive, World.phase, found] using alive
  rw [running] at exited
  cases exited

/-- A state after the end of a process: its exit status is still known, and its entry has moved
up by a number of places since the first state, unless it is off the list. -/
structure MovedUp (ids : List Text) (base : Board) (pid : Nat) (app : Text) (status : Int)
    (first : World)
    (places : Nat) (world : World) : Prop where
  tracked : Tracked Set.univ ids base world
  process : ∃ process, world.procs[pid]? = some process ∧ process.app = app ∧
    process.phase.exitStatus = some status
  moved : ∀ entry ∈ world.runningPidPort, entry.pid = pid → entry ∈ first.runningPidPort ∧
    world.runningPidPort.idxOf entry + places ≤ first.runningPidPort.idxOf entry

theorem MovedUp.step {pid places : Nat} {app : Text} {status : Int} {first : World}
    (before : MovedUp ids base pid app status first places main.world)
    (stepped : mainStep config main = .ok next) :
    MovedUp ids base pid app status first (places + headStep main) next.world := by
  obtain ⟨tracked, ⟨process, found, sameApp, exited⟩, moved⟩ := before
  obtain ⟨trackedNext, advance⟩ := advance_of_mainStep tracked stepped
  obtain ⟨process', found', sameApp', exited'⟩ := advance.remembers.forward pid process found
  refine ⟨trackedNext, ⟨process', found', sameApp'.trans sameApp, exited' _ exited⟩, ?_⟩
  rintro entry member rfl
  obtain ⟨listed, up⟩ := advance.idxOf_le tracked (List.getElem?_eq_some_iff.mp found).1
    (not_alive_of_exitStatus found exited) member
  obtain ⟨listedFirst, bound⟩ := moved entry listed rfl
  exact ⟨listedFirst, by omega⟩

/-- An entry moves up by as many places as there were calls of `clean_completed`. -/
theorem movedUp_of_passes {pid count : Nat} {process : Process} {status : Int}
    (tracked : Tracked Set.univ ids base main.world) (found : main.world.procs[pid]? = some process)
    (exited : process.phase.exitStatus = some status)
    (later : Passes (mainStep config) (fun main => main.pc = .head) main count main') :
    MovedUp ids base pid process.app status main.world count main'.world := by
  induction later with
  | refl => exact ⟨tracked, ⟨process, found, rfl, exited⟩, fun entry member _ => ⟨member, le_rfl⟩⟩
  | next _ elsewhere stepped inductionHypothesis =>
    have moved := inductionHypothesis.step stepped
    rwa [headStep, if_neg elsewhere] at moved
  | pass _ here stepped inductionHypothesis =>
    have moved := inductionHypothesis.step stepped
    rwa [headStep, if_pos here] at moved

/-! ### Where a finished job ends up -/

/-- The stat file is in `completed`, or in `running` with its entry waiting for the next
`clean_completed`. -/
def Filed (world : World) (pid : Nat) (app : Text) : Prop :=
  HasStatFile world .completed app ∨ Listed world pid ∧ HasStatFile world .running app

/-- A process that ended by itself is filed as long as no command to it has failed. -/
theorem filed_iff {pid : Nat} {process : Process} {status : Int}
    (tracked : Tracked Set.univ ids base world)
    (honest : Honest world.commands) (found : world.procs[pid]? = some process)
    (exited : process.phase.exitStatus = some status) :
    Filed world pid process.app ↔ Unfailed world pid := by
  obtain ⟨board, _, consistent⟩ := tracked
  have running : Listed world pid →
      board process.app = some (.running, statFile process.app) := by
    rintro ⟨entry, member, rfl⟩
    obtain ⟨process', found', sameApp⟩ := consistent.entries entry member
    rw [found] at found'
    cases found'
    rw [sameApp]
    exact consistent.place_of_listed member
  cases consistent.fates honest pid process found with
  | listed unharmed listed =>
    exact ⟨fun _ => unharmed,
      fun _ => Or.inr ⟨listed, consistent.hasStatFile_of_board (running listed)⟩⟩
  | completed unharmed completed =>
    exact ⟨fun _ => unharmed, fun _ => Or.inl (consistent.hasStatFile_of_board completed)⟩
  | killed _ killed =>
    rw [killed] at exited
    cases exited
  | lost failed lost =>
    have enlisted := (consistent.domain _).mp (by rw [lost]; rfl)
    refine ⟨fun filed => ?_, fun unharmed => absurd unharmed failed⟩
    rcases filed with stored | ⟨listed, _⟩
    · obtain ⟨name, found⟩ := (consistent.hasStatFile_iff enlisted (.inl (by simp))).mp stored
      rw [lost] at found
      cases found
    · have found := running listed
      rw [lost] at found
      cases found

/-- A process that ended with status 0 is filed, and completed after as many further calls of
`clean_completed` as there are entries in the list, exactly as long as no command sent to it
has failed. -/
theorem finished_job_completed_iff
    (plain : ∀ app ∈ ids, '.' ∉ app ∧ '/' ∉ app) (enqueued : Enqueued ids world)
    (reached : Reachable (mainStep config) (Main.start world) main)
    {pid count : Nat} {process : Process} (found : main.world.procs[pid]? = some process)
    (succeeded : process.phase.exitStatus = some 0)
    (later : Passes (mainStep config) (fun main => main.pc = .head) main count main')
    (honest : Honest main'.world.commands) :
    (Filed main'.world pid process.app ↔ Unfailed main'.world pid) ∧
      (main.world.runningPidPort.length ≤ count →
        (HasStatFile main'.world .completed process.app ↔ Unfailed main'.world pid)) := by
  have tracked := tracked_of_reachable plain enqueued reached
  obtain ⟨trackedLater, ⟨process', found', sameApp, exited⟩, moved⟩ :=
    movedUp_of_passes tracked found succeeded later
  have filed := filed_iff trackedLater honest found' exited
  rw [sameApp] at filed
  refine ⟨filed, fun enough => ?_⟩
  rw [← filed]
  refine ⟨Or.inl, ?_⟩
  rintro (stored | ⟨⟨entry, member, samePid⟩, _⟩)
  · exact stored
  · obtain ⟨before, bound⟩ := moved entry member samePid
    have := List.idxOf_lt_length_of_mem before
    omega

/-- A process that ends with status 0 right before its entry is preempted. -/
theorem finished_job_lost :
    ∃ main process, Reachable (mainStep lateExit) (Main.start twoApps) main ∧
      Honest main.world.commands ∧ main.world.procs[0]? = some process ∧
      process.phase.exitStatus = some 0 ∧ HasStatFile main.world .noidea process.app ∧
      ¬ HasStatFile main.world .completed process.app := by
  obtain ⟨main, reached, honest, ended⟩ := exists_reachable (mainStep lateExit) 41
    (Main.start twoApps)
    (fun main => Honest main.world.commands ∧ main.world.procs[0]?.any fun process =>
      process.phase.exitStatus = some 0 ∧ HasStatFile main.world .noidea process.app ∧
        ¬ HasStatFile main.world .completed process.app) (by decide +kernel)
  obtain ⟨process, found, holds⟩ := (Option.any_eq_true ..).mp ended
  exact ⟨main, process, reached, honest, found, of_decide_eq_true holds⟩

/-- A process that ends with status 0 and is cleaned up next. -/
theorem finished_job_completed_sample :
    ∃ main, Reachable (mainStep bothEnd) (Main.start twoApps) main ∧
      HasStatFile main.world .completed "a".toList := by
  obtain ⟨main, reached, head, ended, short, passed⟩ := exists_reachable (mainStep bothEnd) 5
    (Main.start twoApps)
    (fun main => main.pc = .head ∧ (main.world.procs[0]?.any fun process =>
      process.app = "a".toList ∧ process.phase.exitStatus = some 0) ∧
      main.world.runningPidPort.length ≤ 1 ∧
      reaches (mainStep bothEnd) 1 main (fun next => decide (next.world.commands.isEmpty))
        = true) (by decide +kernel)
  obtain ⟨next, stepped, unsent⟩ := exists_step passed
  obtain ⟨process, found, holds⟩ := (Option.any_eq_true ..).mp ended
  obtain ⟨sameApp, succeeded⟩ := of_decide_eq_true holds
  have none : next.world.commands = [] := List.isEmpty_iff.mp unsent
  have completed := finished_job_completed_iff (by decide) (enqueue_enqueued _) reached found
    succeeded (.pass .refl head stepped) (by simp [Honest, none])
  refine ⟨next, reached.next stepped, ?_⟩
  rw [← sameApp, completed.2 short]
  simp [Unfailed, none]

end ClusterJobs
