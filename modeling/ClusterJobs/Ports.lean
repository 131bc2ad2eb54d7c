/-
This file asks whether every running app has a coordinator port of its own.

`getopenport` lets the operating system choose a port, closes the socket again and returns the
number. The coordinator of the app binds it later, so until then the operating system may choose
the same port once more. The ports stay apart as long as every coordinator that still matters has
bound its own whenever `start_next` asks for another: then no command that `stop_running` sends
for one app can reach another.
-/

import ClusterJobs.Ticks
import Mathlib.Data.List.MinMax

namespace ClusterJobs

open Python

variable {config : Config} {ids plan : List Text} {base : Board} {world world' asked : World}
  {main : Main} {targets : List Entry}

/-! ### The ports in use -/

/-- The port a process was started with. -/
def World.portOf (world : World) (pid : Nat) : Option Nat :=
  (world.procs[pid]?).map Process.port

/-- The process is listed or has not ended: its port is in use. -/
def Held (world : World) (pid : Nat) : Prop := Listed world pid ∨ world.alive pid

instance (world : World) (pid : Nat) : Decidable (Held world pid) :=
  inferInstanceAs (Decidable ((∃ entry ∈ world.runningPidPort, entry.pid = pid) ∨
    world.alive pid = true))

/-- Every entry records the port of its process, and no two processes share a port that is in
use. -/
structure Ported (world : World) : Prop where
  recorded : ∀ entry ∈ world.runningPidPort, world.portOf entry.pid = some entry.port
  distinct : ∀ first second, Held world first → Held world second →
    world.portOf first = world.portOf second → first = second

/-- Every coordinator whose port is in use has bound it. -/
def Coordinated (world : World) : Prop :=
  ∀ pid < world.procs.length, Held world pid → (world.procs[pid]?).any Process.bound

instance (world : World) : Decidable (Coordinated world) :=
  inferInstanceAs (Decidable (∀ pid < world.procs.length, Held world pid →
    (world.procs[pid]?).any Process.bound = true))

/-! ### What never takes a port -/

/-- Entries and processes only go, processes keep their ports, and commands are sent only to the
given entries. -/
structure Subsides (targets : List Entry) (before after : World) : Prop where
  list : after.runningPidPort.Sublist before.runningPidPort
  ports : after.procs.map Process.port = before.procs.map Process.port
  alive : ∀ pid, after.alive pid → before.alive pid
  commands : ∀ command ∈ after.commands, command ∈ before.commands ∨
    ∃ entry ∈ targets, command.pid = entry.pid ∧ command.port = entry.port

instance : IsPreorder World (Subsides targets) where
  refl _ := ⟨.refl _, rfl, fun _ alive => alive, fun _ member => .inl member⟩
  trans _ _ _ before after := {
    list := after.list.trans before.list
    ports := after.ports.trans before.ports
    alive := fun pid alive => before.alive pid (after.alive pid alive)
    commands := by
      intro command member
      rcases after.commands command member with old | new
      · exact before.commands command old
      · exact .inr new }

theorem Subsides.portOf_eq (subsides : Subsides targets world world') (pid : Nat) :
    world'.portOf pid = world.portOf pid := by
  rw [World.portOf, World.portOf, ← List.getElem?_map, ← List.getElem?_map, subsides.ports]

theorem Subsides.listed (subsides : Subsides targets world world') {pid : Nat}
    (listed : Listed world' pid) : Listed world pid := by
  obtain ⟨entry, member, same⟩ := listed
  exact ⟨entry, subsides.list.subset member, same⟩

theorem Subsides.ported (subsides : Subsides targets world world') (ported : Ported world) :
    Ported world' where
  recorded entry member := by
    rw [subsides.portOf_eq]
    exact ported.recorded entry (subsides.list.subset member)
  distinct first second holds holds' same := by
    rw [subsides.portOf_eq, subsides.portOf_eq] at same
    exact ported.distinct first second (holds.imp subsides.listed (subsides.alive first))
      (holds'.imp subsides.listed (subsides.alive second)) same

/-- Changing one process without giving it another port or bringing it back. -/
theorem subsides_modify (world : World) (pid : Nat) (change : Process → Process)
    (port : ∀ process, (change process).port = process.port)
    (ended : ∀ process, (change process).phase = .running → process.phase = .running) :
    Subsides targets world { world with procs := world.procs.modify pid change } where
  list := .refl _
  ports := by
    refine List.ext_getElem? fun other => ?_
    rw [List.getElem?_map, List.getElem?_map, List.getElem?_modify]
    cases world.procs[other]? with
    | none => rfl
    | some process =>
      by_cases same : pid = other
      · simp [same, port]
      · simp [same]
  alive other alive := by
    simp only [World.alive, World.phase, List.getElem?_modify, beq_iff_eq] at alive ⊢
    cases found : world.procs[other]? with
    | none => simp [found] at alive
    | some process =>
      by_cases same : pid = other
      · simp only [found, same, if_true, Option.map_some, Option.map_eq_map,
          Option.some.injEq] at alive ⊢
        exact ended process alive
      · simpa [found, same] using alive
  commands _ member := .inl member

theorem subsides_changePhase (world : World) (pid : Nat) (change : Phase → Phase)
    (ended : ∀ phase, change phase = .running → phase = .running) :
    Subsides targets world (world.changePhase pid change) :=
  subsides_modify world pid _ (fun _ => rfl) fun process => ended process.phase

theorem subsides_applyEvent (world : World) (event : Event) :
    Subsides targets world (world.applyEvent event) := by
  have unchanged : Subsides targets world world := refl_of _ world
  cases event with
  | exit pid status =>
    refine subsides_changePhase world pid _ fun phase running => ?_
    exact (Phase.settles_exit phase status).running running
  | write pid content =>
    show Subsides targets world (world.write pid content)
    unfold World.write
    split
    · exact unchanged
    · exact ⟨.refl _, rfl, fun _ alive => alive, fun _ member => .inl member⟩
  | bind pid => exact subsides_modify world pid _ (fun _ => rfl) fun _ running => running
  | release pid =>
    show Subsides targets world (if world.alive pid then world else world.setBound pid false)
    split
    · exact unchanged
    · exact subsides_modify world pid _ (fun _ => rfl) fun _ running => running

theorem subsides_advance (world : World) (moment : Moment) :
    Subsides targets world (world.advance moment) := by
  have events : ∀ (events : List Event) (world : World),
      Subsides targets world (events.foldl World.applyEvent world) := by
    intro events
    induction events with
    | nil => exact fun world => refl_of _ world
    | cons event events inductionHypothesis =>
      exact fun world => trans_of _ (subsides_applyEvent world event) (inductionHypothesis _)
  obtain ⟨list, ports, alive, commands⟩ := events moment.events world
  exact ⟨list, ports, alive, commands⟩

/-! ### The operations that start nothing -/

theorem follows_observe : Follows (Subsides targets) (observe config) :=
  follows_get.bind fun _ =>
    (follows_modify fun world => subsides_advance world _).bind fun _ => follows_pure _

theorem follows_poll (pid : Nat) : Follows (Subsides targets) (poll config pid) := by
  refine follows_observe.bind fun _ => follows_get.bind fun _ => ?_
  refine (follows_modify fun world => ?_).bind fun _ => follows_pure _
  exact subsides_changePhase world pid _ fun phase running =>
    (Phase.settles_afterPoll phase).running running

/-- Files and the table have no part in it. -/
theorem subsides_rest (world : World) (files : AList fun _ : Place => Text) (table : StatsTable) :
    Subsides targets world { world with files := files, appStatsMap := table } :=
  ⟨.refl _, rfl, fun _ alive => alive, fun _ member => .inl member⟩

theorem follows_rename (source target : Place) :
    Follows (Subsides targets) (rename source target) := by
  refine follows_get.bind fun world => ?_
  split
  · exact follows_throw _
  · exact follows_modify fun world => subsides_rest world _ world.appStatsMap

theorem follows_removeEntry (entry : Entry) :
    Follows (Subsides targets) (removeEntry entry) :=
  follows_modify fun _ =>
    ⟨List.erase_sublist, rfl, fun _ alive => alive, fun _ member => .inl member⟩

theorem follows_popStats (app : Text) : Follows (Subsides targets) (popStats app) := by
  refine follows_get.bind fun _ => Follows.ite ?_ (follows_throw _)
  exact follows_modify fun world => subsides_rest world world.files _

theorem follows_cleanCompleted : Follows (Subsides targets) (cleanCompleted config) := by
  intro world
  refine Follows.forEach (fun _ _ subsides => subsides.list.length_le) ?_
  intro flag entry state _ _
  have ended : Follows (Subsides targets) (hasEnded config entry) := by
    refine (follows_poll _).bind fun _ => Follows.ite (follows_pure _) ?_
    refine Follows.bind ?_ fun _ => follows_pure _
    exact follows_observe.bind fun _ => follows_get.bind fun _ => follows_pure _
  refine ended.bind (fun _ => Follows.ite ?_ (follows_pure _)) state
  exact follows_observe.bind fun _ => (follows_rename _ _).bind fun _ =>
    (follows_removeEntry _).bind fun _ => (follows_popStats _).bind fun _ => follows_pure _

theorem follows_getNextRunnableMap : Follows (Subsides targets) (getNextRunnableMap config) := by
  refine follows_get.bind fun _ => (Follows.forM (fun app => ?_) _).bind fun _ =>
    follows_observe.bind fun _ => follows_get.bind fun _ => follows_liftExcept _
  refine follows_observe.bind fun _ => follows_get.bind fun _ => ?_
  split
  · exact follows_throw _
  · exact (follows_liftExcept _).bind fun _ =>
      follows_modify fun world => subsides_rest world world.files _

/-! ### `stop_running` -/

theorem subsides_command (world : World) (kind : CommandKind) {entry : Entry}
    (target : entry ∈ targets) (stderr : List Text) :
    Subsides targets world (world.command kind entry stderr) := by
  have recorded : ∀ command ∈ (world.command kind entry stderr).commands,
      command ∈ world.commands ∨ ∃ entry ∈ targets,
        command.pid = entry.pid ∧ command.port = entry.port := by
    intro command member
    rw [command_commands, List.mem_append, List.mem_singleton] at member
    rcases member with old | rfl
    · exact .inl old
    · exact .inr ⟨entry, target, rfl, rfl⟩
  unfold World.command at *
  split
  · rename_i kills
    have killed : ∀ phase, Phase.kill phase = .running → phase = .running := by
      intro phase
      cases phase <;> simp [Phase.kill]
    rw [if_pos kills] at recorded
    have changed : Subsides targets world (world.changePhase entry.pid Phase.kill) :=
      subsides_changePhase world entry.pid _ killed
    exact ⟨changed.list, changed.ports, changed.alive, recorded⟩
  · rename_i keeps
    rw [if_neg keeps] at recorded
    exact ⟨.refl _, rfl, fun _ alive => alive, recorded⟩

theorem follows_preempt {entry : Entry} (target : entry ∈ targets) :
    Follows (Subsides targets) (preempt config entry) := by
  have command : ∀ kind, Follows (Subsides targets) (dmtcpCommand config kind entry) :=
    fun kind => follows_observe.bind fun _ =>
      (follows_modify fun world => subsides_command world kind target _).bind fun _ =>
        follows_pure _
  have moves : Follows (Subsides targets) (moveAway config entry) :=
    (command .checkpoint).bind fun _ =>
      Follows.ite ((command .kill).bind fun _ => Follows.ite (follows_rename _ _)
        (follows_rename _ _)) (follows_rename _ _)
  exact moves.bind fun _ => follows_observe.bind fun _ =>
    (follows_removeEntry _).bind fun _ => follows_pure _

/-- `stop_running` sends its commands to entries of the list as it finds it. -/
theorem ensures_stopRunning_subsides (plan : List Text) :
    Ensures (stopRunning config plan) world
      (fun _ next => Subsides world.runningPidPort world next) fun _ => True := by
  refine Follows.forEach (fun _ _ subsides => subsides.list.length_le) ?_
  intro _ entry state reached member
  have target := reached.list.subset member
  exact Follows.ite ((follows_preempt target).bind fun _ => follows_pure _) (follows_pure _) state

/-! ### Asking for a port -/

/-- The body of the loop of `start_next` up to the moment at which `getopenport` asks. -/
def askPort (config : Config) (app : Text) : Program World PyError Moment := do
  rename (.queued, statFile app) (.running, statFile app)
  liftM (enterChkptDir config.chkpts app)
  observe config

/-- The states in which the loop of `start_next` asks for a port. -/
def loopRequests (config : Config) (runnable : AList fun _ : Text => Text) :
    List Text → World → List World
  | [], _ => []
  | app :: rest, world =>
    match (askPort config app).run world with
    | .error _ => []
    | .ok (_, asked) =>
      asked :: match (startApp config runnable app).run world with
        | .error _ => []
        | .ok (_, next) => loopRequests config runnable rest next

/-- The states in which the next step of the main loop asks for a port. -/
def portRequests (config : Config) (main : Main) : List World :=
  match main.pc with
  | .stopped nextRunnable =>
    let moment := config.schedule main.world.clock
    let seen := main.world.advance moment
    match getRunnableInstanceMap config.chkptsDir config.chkpts with
    | .error _ => []
    | .ok runnable =>
      loopRequests config runnable
        (toRestart moment.sample.order nextRunnable seen.runningApps) seen
  | _ => []

theorem follows_askPort (app : Text) : Follows (Subsides targets) (askPort config app) :=
  (follows_rename _ _).bind fun _ => (follows_liftExcept _).bind fun _ => follows_observe

/-- An app is started on a port that nobody has bound at the moment. -/
theorem startApp_launches {runnable : AList fun _ : Text => Text} {app : Text}
    (run : (startApp config runnable app).run world = .ok ((), world')) :
    ∃ moment asked image port, (askPort config app).run world = .ok (moment, asked) ∧
      port ∉ asked.boundPorts ∧ world' = asked.launch app image port := by
  rw [startApp, StateT.run_bind] at run
  obtain ⟨⟨⟨⟩, moved⟩, renames, run⟩ := bind_eq_ok_iff.mp run
  rw [StateT.run_bind] at run
  obtain ⟨⟨⟨⟩, entered⟩, enters, run⟩ := bind_eq_ok_iff.mp run
  rw [StateT.run_bind] at run
  obtain ⟨⟨port, asked⟩, asks, run⟩ := bind_eq_ok_iff.mp run
  rw [getopenport, StateT.run_bind] at asks
  obtain ⟨⟨moment, seen⟩, observes, answers⟩ := bind_eq_ok_iff.mp asks
  cases answers
  have asks : (askPort config app).run world = .ok (moment, seen) := by
    rw [askPort, StateT.run_bind]
    refine bind_eq_ok_iff.mpr ⟨_, renames, ?_⟩
    rw [StateT.run_bind]
    exact bind_eq_ok_iff.mpr ⟨_, enters, observes⟩
  cases found : runnable.lookup app with
  | none =>
    rw [found] at run
    cases run
  | some image =>
    rw [found] at run
    cases run
    refine ⟨moment, seen, image, _, asks, ?_, rfl⟩
    split
    · exact fun member => absurd (List.le_max_of_le' 0 member le_rfl) (Nat.not_succ_le_self _)
    · assumption

/-- A port that is in use and bound is not given out. -/
theorem Ported.launch {app image : Text} {port : Nat} (ported : Ported asked)
    (coordinated : Coordinated asked) (free : port ∉ asked.boundPorts) :
    Ported (asked.launch app image port) := by
  have old : ∀ pid < asked.procs.length,
      (asked.launch app image port).portOf pid = asked.portOf pid := by
    intro pid bound
    rw [World.portOf, World.launch, List.getElem?_append_left bound, World.portOf]
  have new : (asked.launch app image port).portOf asked.procs.length = some port := by
    rw [World.portOf, World.launch, List.getElem?_concat_length, Option.map_some]
  have started : ∀ pid, Held (asked.launch app image port) pid →
      pid < asked.procs.length ∧ Held asked pid ∨ pid = asked.procs.length := by
    intro pid held
    rcases held with ⟨entry, member, same⟩ | alive
    · rcases List.mem_append.mp member with listed | fresh
      · have found : asked.portOf pid = some entry.port := same ▸ ported.recorded entry listed
        obtain ⟨process, foundProcess, _⟩ := Option.map_eq_some_iff.mp found
        exact .inl ⟨(List.getElem?_eq_some_iff.mp foundProcess).1, .inl ⟨entry, listed, same⟩⟩
      · rw [List.mem_singleton.mp fresh] at same
        exact .inr same.symm
    · have running : (asked.launch app image port).phase pid = some .running := by
        simpa [World.alive] using alive
      obtain ⟨process, found, phase⟩ := Option.map_eq_some_iff.mp running
      rw [World.launch, List.getElem?_append] at found
      split at found
      · rename_i bound
        exact .inl ⟨bound, .inr (by simp [World.alive, World.phase, found, phase])⟩
      · have := (List.getElem?_eq_some_iff.mp found).1
        simp only [List.length_singleton] at this
        exact .inr (by omega)
  -- The new port differs from every port in use, since those are bound.
  have apart : ∀ pid < asked.procs.length, Held asked pid → asked.portOf pid ≠ some port := by
    intro pid bound held same
    obtain ⟨process, found, samePort⟩ := Option.map_eq_some_iff.mp same
    have listens := coordinated pid bound held
    rw [found, Option.any_some] at listens
    refine free (List.mem_map.mpr ⟨process, List.mem_filter.mpr ⟨?_, listens⟩, samePort⟩)
    exact List.mem_of_getElem? found
  constructor
  · intro entry member
    rcases List.mem_append.mp member with listed | fresh
    · have found := ported.recorded entry listed
      obtain ⟨process, foundProcess, _⟩ := Option.map_eq_some_iff.mp found
      rw [old _ (List.getElem?_eq_some_iff.mp foundProcess).1, found]
    · rw [List.mem_singleton.mp fresh]
      exact new
  · intro first second heldFirst heldSecond same
    rcases started first heldFirst with ⟨bound, held⟩ | rfl
    · rcases started second heldSecond with ⟨bound', held'⟩ | rfl
      · rw [old first bound, old second bound'] at same
        exact ported.distinct first second held held' same
      · rw [old first bound, new] at same
        exact absurd same (apart first bound held)
    · rcases started second heldSecond with ⟨bound, held⟩ | rfl
      · rw [old second bound, new] at same
        exact absurd same.symm (apart second bound held)
      · rfl

/-- The loop of `start_next`, when it asks in coordinated states only. -/
theorem Ported.startApps {runnable : AList fun _ : Text => Text} {apps : List Text}
    (ported : Ported world)
    (coordinated : ∀ asked ∈ loopRequests config runnable apps world, Coordinated asked)
    (run : (apps.forM (startApp config runnable)).run world = .ok ((), world')) :
    Ported world' := by
  induction apps generalizing world with
  | nil =>
    cases run
    exact ported
  | cons app rest inductionHypothesis =>
    have unfolded : (startApp config runnable app >>= fun _ =>
        rest.forM (startApp config runnable)).run world = .ok ((), world') := run
    rw [StateT.run_bind] at unfolded
    obtain ⟨⟨⟨⟩, next⟩, starts, continues⟩ := bind_eq_ok_iff.mp unfolded
    obtain ⟨moment, asked, image, port, asks, free, rfl⟩ := startApp_launches starts
    rw [loopRequests, asks, starts] at coordinated
    have subsides : Subsides [] world asked := (follows_askPort app world).of_run asks
    refine inductionHypothesis ?_ (fun later member => ?_) continues
    · exact (subsides.ported ported).launch (coordinated asked List.mem_cons_self) free
    · exact coordinated later (List.mem_cons_of_mem _ member)

/-! ### Whole runs -/

/-- The next step asks for a port while a coordinator whose port is in use has not bound it. -/
def AsksEarly (config : Config) (main : Main) : Prop :=
  ∃ asked ∈ portRequests config main, ¬ Coordinated asked

instance (main : Main) : Decidable (AsksEarly config main) :=
  inferInstanceAs (Decidable (∃ asked ∈ portRequests config main, ¬ Coordinated asked))

theorem Ported.step {next : Main} (ported : Ported main.world) (patient : ¬ AsksEarly config main)
    (stepped : mainStep config main = .ok next) : Ported next.world := by
  obtain ⟨pc, timer, world⟩ := main
  have subsided : ∀ {α : Type} {program : Program World PyError α} {value : α} {after : World},
      Follows (Subsides []) program → program.run world = .ok (value, after) → Ported after :=
    fun follows ran => Subsides.ported ((follows world).of_run ran) ported
  cases pc with
  | head =>
    simp only [mainStep] at stepped
    split at stepped
    · obtain ⟨⟨retval, after⟩, ran, result⟩ := bind_eq_ok_iff.mp stepped
      cases result
      exact subsided follows_cleanCompleted ran
    · cases stepped
      exact ported
  | cleaned retval =>
    simp only [mainStep] at stepped
    split at stepped
    · obtain ⟨⟨plan, after⟩, ran, result⟩ := bind_eq_ok_iff.mp stepped
      cases result
      exact subsided follows_getNextRunnableMap ran
    · cases stepped
      exact ported
  | planned plan =>
    obtain ⟨⟨⟨⟩, after⟩, ran, result⟩ := bind_eq_ok_iff.mp stepped
    cases result
    exact ((ensures_stopRunning_subsides plan).of_run ran).ported ported
  | stopped plan =>
    obtain ⟨⟨⟨⟩, after⟩, ran, result⟩ := bind_eq_ok_iff.mp stepped
    cases result
    have seen : Subsides [] world (world.advance (config.schedule world.clock)) :=
      subsides_advance world _
    rw [startNext, StateT.run_bind] at ran
    obtain ⟨⟨moment, observed⟩, observes, ran⟩ := bind_eq_ok_iff.mp ran
    cases observes
    rw [StateT.run_bind] at ran
    obtain ⟨⟨current, observed⟩, gets, ran⟩ := bind_eq_ok_iff.mp ran
    cases gets
    rw [StateT.run_bind] at ran
    obtain ⟨⟨runnable, observed⟩, mapped, ran⟩ := bind_eq_ok_iff.mp ran
    cases found : getRunnableInstanceMap config.chkptsDir config.chkpts with
    | error error =>
      rw [found] at mapped
      cases mapped
    | ok instances =>
      rw [found] at mapped
      cases mapped
      refine (seen.ported ported).startApps (fun asked member => ?_) ran
      by_contra early
      refine patient ⟨asked, ?_, early⟩
      simp only [portRequests, found]
      exact member
  | sleeping =>
    obtain ⟨⟨moment, after⟩, ran, result⟩ := bind_eq_ok_iff.mp stepped
    cases result
    exact subsided follows_observe ran
  | finished =>
    cases stepped
    exact ported

theorem ported_of_passes (enqueued : Enqueued ids world) {count : Nat}
    (run : Passes (mainStep config) (AsksEarly config) (Main.start world) count main) :
    count = 0 → Ported main.world := by
  induction run with
  | refl =>
    intro _
    constructor
    · simp [Main.start, enqueued.list]
    · intro first second held _ _
      rcases held with ⟨entry, member, _⟩ | alive
      · simp [Main.start, enqueued.list] at member
      · simp [World.alive, World.phase, Main.start, enqueued.procs] at alive
  | next _ patient stepped inductionHypothesis =>
    exact fun none => (inductionHypothesis none).step patient stepped
  | pass => exact fun impossible => by cases impossible

/-- The recorded ports are pairwise distinct, and whatever plan `stop_running` is given, the
commands it sends for an app go to a port that no other process has. -/
def PortsApart (config : Config) (world : World) : Prop :=
  (world.runningPidPort.map Entry.port).Nodup ∧
    ∀ plan after, (stopRunning config plan).run world = .ok ((), after) →
      ∀ command ∈ after.commands, command ∈ world.commands ∨
        ∀ pid, world.alive pid → world.portOf pid = some command.port → pid = command.pid

/-- In every run in which `start_next` asks for a port only when every coordinator whose port is
in use has bound it, the ports stay apart. -/
theorem ports_apart
    (plain : ∀ app ∈ ids, '.' ∉ app ∧ '/' ∉ app) (enqueued : Enqueued ids world)
    (run : Passes (mainStep config) (AsksEarly config) (Main.start world) 0 main) :
    PortsApart config main.world := by
  have ported := ported_of_passes enqueued run rfl
  obtain ⟨board, _, consistent⟩ := tracked_of_reachable plain enqueued run.reachable
  have samePort : ∀ first ∈ main.world.runningPidPort, ∀ second ∈ main.world.runningPidPort,
      first.port = second.port → first = second := by
    intro first member second member' same
    have samePid : first.pid = second.pid := by
      refine ported.distinct _ _ (.inl ⟨first, member, rfl⟩) (.inl ⟨second, member', rfl⟩) ?_
      rw [ported.recorded first member, ported.recorded second member', same]
    obtain ⟨process, found, app⟩ := consistent.entries first member
    obtain ⟨process', found', app'⟩ := consistent.entries second member'
    rw [← samePid, found] at found'
    cases found'
    exact List.inj_on_of_nodup_map consistent.nodup member member' (app.symm.trans app')
  constructor
  · exact (List.nodup_map_iff_inj_on consistent.list_nodup).mpr samePort
  · intro plan after stops command member
    have subsides := (ensures_stopRunning_subsides plan).of_run stops
    refine (subsides.commands command member).imp_right ?_
    rintro ⟨entry, listed, samePid, samePort⟩ pid alive found
    rw [samePid]
    refine ported.distinct pid entry.pid (.inr alive) (.inl ⟨entry, listed, rfl⟩) ?_
    rw [found, samePort, ported.recorded entry listed]

/-- No coordinator is up before the scheduler asks again, and port 7777 stays free. -/
def slowCoordinators : Config :=
  surroundings ["a".toList, "b".toList] (rule1 mixedMachine) fun _ => { port := 7777 }

/-- Two apps that are started together get the same port, and both of them run. -/
theorem port_given_twice :
    ∃ main, Reachable (mainStep slowCoordinators) (Main.start twoApps) main ∧
      main.world.runningPidPort = [⟨"a".toList, 0, 7777⟩, ⟨"b".toList, 1, 7777⟩] ∧
      main.world.alive 0 ∧ main.world.alive 1 ∧ ¬ PortsApart slowCoordinators main.world := by
  obtain ⟨main, reached, list, first, second⟩ := exists_reachable (mainStep slowCoordinators) 4
    (Main.start twoApps)
    (fun main => main.world.runningPidPort = [⟨"a".toList, 0, 7777⟩, ⟨"b".toList, 1, 7777⟩] ∧
      main.world.alive 0 = true ∧ main.world.alive 1 = true) (by decide +kernel)
  refine ⟨main, reached, list, first, second, fun apart => ?_⟩
  have distinct := apart.1
  rw [list] at distinct
  exact absurd distinct (by decide)

/-- Every coordinator is up before the scheduler asks again. -/
def promptCoordinators : Config :=
  surroundings ["a".toList, "b".toList] (rule1 mixedMachine) fun _ =>
    { events := [.bind 0, .bind 1], port := 7777 }

/-- Then the second app gets another port. -/
theorem ports_apart_sample :
    ∃ main, Passes (mainStep promptCoordinators) (AsksEarly promptCoordinators)
        (Main.start twoApps) 0 main ∧
      main.world.runningPidPort = [⟨"a".toList, 0, 7777⟩, ⟨"b".toList, 1, 7778⟩] ∧
      PortsApart promptCoordinators main.world := by
  obtain ⟨main, run, list⟩ := exists_passes (mainStep promptCoordinators)
    (AsksEarly promptCoordinators) (fun main =>
      main.world.runningPidPort = [⟨"a".toList, 0, 7777⟩, ⟨"b".toList, 1, 7778⟩]) 4
    (by decide +kernel) (Passes.refl : Passes _ _ (Main.start twoApps) 0 _)
  exact ⟨main, run, list, ports_apart (by decide) (enqueue_enqueued _) run⟩

end ClusterJobs
