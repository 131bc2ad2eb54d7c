/-
This file models the preempting scheduler `bin/parallel_dmtcp`.

The state is what the scheduler and the processes it starts share: the stat files in the four
directories, the list `running_pid_port`, the candidate table, the process table, and the
`dmtcp_command` calls made so far. The scheduler is not alone: between any two of its system
calls a process may end, a plugin may rewrite its stat file, a coordinator may bind its port.
All of that, and every answer the outside gives (what a command prints, which port is free,
what `top` reports), is fixed by a schedule that is read one moment at a time, so a property
that holds for every schedule holds for every interleaving.

The plugin of a process writes `running/<app>.stat` only while the process is listed in
`running_pid_port`. `stop_running` moves a stat file away before it takes the entry off the list, so
a write that falls in between brings the file back. `clean_completed` does the same to processes
that have ended and write nothing more; there the two are one step.

The operations have the names of the source. `mainStep` is the main loop, one operation at a
time; a run ends with the first operation that raises.
-/

import ClusterJobs.Checkpoints
import ClusterJobs.Process
import ClusterJobs.Rules

namespace ClusterJobs

open Python

/-! ### The shared state -/

/-- The four directories of stat files. -/
inductive Dir
  | queued
  | running
  | completed
  | noidea
  deriving DecidableEq, Repr

/-- A path below the stats directory. -/
abbrev Place := Dir × Text

/-- `app + '.stat'`. -/
def statFile (app : Text) : Text := app ++ ".stat".toList

/-- One element of `running_pid_port`: the app, its process and its coordinator's port. -/
structure Entry where
  app : Text
  pid : Nat
  port : Nat
  deriving DecidableEq, Repr

/-- A process the scheduler has started. Its number is its position in the process table. -/
structure Process where
  app : Text
  image : Text
  port : Nat
  phase : Phase
  bound : Bool

/-- `dmtcp_command -bc` and `dmtcp_command -k`. -/
inductive CommandKind
  | checkpoint
  | kill
  deriving DecidableEq, Repr

/-- A `dmtcp_command` call: the process it was meant for, whether that process had ended when
it was sent, and the lines it printed as errors. -/
structure Command where
  kind : CommandKind
  pid : Nat
  port : Nat
  ended : Bool
  stderr : List Text

structure World where
  files : AList fun _ : Place => Text
  runningPidPort : List Entry
  appStatsMap : StatsTable
  procs : List Process
  commands : List Command
  clock : Nat

/-! ### The environment -/

/-- What can happen beside the scheduler. -/
inductive Event
  | exit (pid : Nat) (status : Int)
  | write (pid : Nat) (content : Text)
  | bind (pid : Nat)
  | release (pid : Nat)

/-- What happens before one system call, and what the call is told. -/
structure Moment where
  events : List Event := []
  stderr : List Text := []
  port : Nat := 0
  timestamp : Text := []
  sample : Sample := {}

/-- The scheduler's surroundings: the checkpoint images, the rule it was started with, and the
schedule. -/
structure Config where
  chkptsDir : Text
  chkpts : ChkptTree
  rule : Rule
  schedule : Nat → Moment

namespace World

def phase (world : World) (pid : Nat) : Option Phase := (world.procs[pid]?).map Process.phase

/-- The process has not ended. -/
def alive (world : World) (pid : Nat) : Bool := world.phase pid == some .running

def changePhase (world : World) (pid : Nat) (change : Phase → Phase) : World :=
  { world with
    procs := world.procs.modify pid fun process => { process with phase := change process.phase } }

def setBound (world : World) (pid : Nat) (bound : Bool) : World :=
  { world with procs := world.procs.modify pid fun process => { process with bound := bound } }

/-- A plugin writes the stat file of its app; the process has to be listed. -/
def write (world : World) (pid : Nat) (content : Text) : World :=
  match world.runningPidPort.find? fun entry => entry.pid = pid with
  | none => world
  | some entry =>
    { world with files := world.files.insert (.running, statFile entry.app) content }

def applyEvent (world : World) : Event → World
  | .exit pid status => world.changePhase pid (Phase.exit status)
  | .write pid content => world.write pid content
  | .bind pid => world.setBound pid true
  | .release pid => if world.alive pid then world else world.setBound pid false

def advance (world : World) (moment : Moment) : World :=
  { moment.events.foldl applyEvent world with clock := world.clock + 1 }

/-- `os.listdir` of one of the four directories. -/
def listdir (world : World) (dir : Dir) : List Text :=
  (world.files.keys.filter fun place => place.1 = dir).map Prod.snd

/-- The ports on which a coordinator listens. -/
def boundPorts (world : World) : List Nat :=
  (world.procs.filter Process.bound).map Process.port

def runningApps (world : World) : List Text := world.runningPidPort.map Entry.app

end World

/-! ### System calls -/

/-- Let the environment act, and read what the next system call is told. -/
def observe (config : Config) : Program World PyError Moment := do
  let world ← get
  modify fun world => world.advance (config.schedule world.clock)
  pure (config.schedule world.clock)

/-- `process.poll()`. -/
def poll (config : Config) (pid : Nat) : Program World PyError (Option Int) := do
  let _ ← observe config
  let world ← get
  modify fun world => world.changePhase pid Phase.afterPoll
  pure ((world.phase pid).bind Phase.poll)

/-- `os.path.exists('/proc/' + str(pid))`. -/
def procExists (config : Config) (pid : Nat) : Program World PyError Bool := do
  let _ ← observe config
  let world ← get
  pure ((world.phase pid).any Phase.inProc)

/-- `os.rename`. -/
def rename (source target : Place) : Program World PyError Unit := do
  let world ← get
  match world.files.lookup source with
  | none => throw (.osError .rename)
  | some content =>
    modify fun world =>
      { world with files := (world.files.erase source).insert target content }

/-- `running_pid_port.remove(entry)`. -/
def removeEntry (entry : Entry) : Program World PyError Unit :=
  modify fun world => { world with runningPidPort := world.runningPidPort.erase entry }

/-- `app_stats_map.pop(app)`. -/
def popStats (app : Text) : Program World PyError Unit := do
  let world ← get
  if app ∈ world.appStatsMap then
    modify fun world => { world with appStatsMap := world.appStatsMap.erase app }
  else throw .keyError

/-- The state after a command: it is recorded, and a kill that reports no error ends the
process. -/
def World.command (world : World) (kind : CommandKind) (entry : Entry) (stderr : List Text) :
    World :=
  let recorded := { world with commands := world.commands ++
    [⟨kind, entry.pid, entry.port, !world.alive entry.pid, stderr⟩] }
  if kind = .kill ∧ stderr = [] then recorded.changePhase entry.pid Phase.kill else recorded

/-- `dmtcp_command` sent to the port of an entry; the result is what it printed as errors. -/
def dmtcpCommand (config : Config) (kind : CommandKind) (entry : Entry) :
    Program World PyError (List Text) := do
  let moment ← observe config
  modify fun world => world.command kind entry moment.stderr
  pure moment.stderr

/-- `getopenport`: any port on which nothing listens at the moment. -/
def getopenport (config : Config) : Program World PyError Nat := do
  let moment ← observe config
  let world ← get
  pure (if moment.port ∈ world.boundPorts then world.boundPorts.foldr max 0 + 1 else moment.port)

/-! ### The operations of the main loop -/

/-- `(app[1].poll() == 0) or (not os.path.exists('/proc/' + str(app[1].pid)))`. -/
def hasEnded (config : Config) (app : Entry) : Program World PyError Bool := do
  let status ← poll config app.pid
  if status = some 0 then pure true
  else do
    let present ← procExists config app.pid
    pure (!present)

/-- The body of the loop of `clean_completed`. -/
def cleanEntry (config : Config) (app : Entry) (flag : Bool) :
    Program World PyError (ForInStep Bool) := do
  let ended ← hasEnded config app
  if ended then do
    let moment ← observe config
    -- The process has ended, so it writes nothing between the rename and the removal.
    rename (.running, statFile app.app) (.completed, statFile app.app ++ moment.timestamp)
    removeEntry app
    popStats app.app
    pure (.yield true)
  else pure (.yield flag)

def cleanCompleted (config : Config) : Program World PyError Bool :=
  forEach World.runningPidPort (cleanEntry config) false

/-- `update_app_stats_map(app.split('.')[0], RUNNING_DIR + '/' + app)`. -/
def refreshStats (config : Config) (app : Text) : Program World PyError Unit := do
  let _ ← observe config
  let world ← get
  match world.files.lookup (.running, app) with
  | none => throw (.osError .open)
  | some content => do
    let table ← liftM (updateAppStatsMap ((app.splitOn '.').headD []) content world.appStatsMap)
    modify fun world => { world with appStatsMap := table }

def getNextRunnableMap (config : Config) : Program World PyError (List Text) := do
  let world ← get
  let runningapplist := world.runningApps
  (world.listdir .running).forM (refreshStats config)
  let moment ← observe config
  let world ← get
  liftM (config.rule moment.sample world.appStatsMap runningapplist)

/-- What `stop_running` does with an entry outside the plan, up to the rename of its stat file. -/
def moveAway (config : Config) (running : Entry) : Program World PyError Unit := do
  let error ← dmtcpCommand config .checkpoint running
  if error = [] then do
    let error ← dmtcpCommand config .kill running
    if error = [] then
      rename (.running, statFile running.app) (.queued, statFile running.app)
    else
      rename (.running, statFile running.app) (.noidea, statFile running.app)
  else
    rename (.running, statFile running.app) (.noidea, statFile running.app)

/-- What `stop_running` does with an entry outside the plan. The result is what happens between
the rename and the removal of the entry. -/
def preempt (config : Config) (running : Entry) : Program World PyError Moment := do
  moveAway config running
  let moment ← observe config
  removeEntry running
  pure moment

/-- The body of the loop of `stop_running`. -/
def stopEntry (config : Config) (nextRunnable : List Text) (running : Entry) (_ : Unit) :
    Program World PyError (ForInStep Unit) := do
  if running.app ∉ nextRunnable then do
    let _ ← preempt config running
    pure (.yield ())
  else pure (.yield ())

def stopRunning (config : Config) (nextRunnable : List Text) : Program World PyError Unit :=
  forEach World.runningPidPort (stopEntry config nextRunnable) ()

/-- Any order of a list: the items named first, in that order, then the others. -/
def reorder {α : Type} [DecidableEq α] (order items : List α) : List α :=
  order.foldr (fun item rest => if item ∈ rest then item :: rest.erase item else rest) items

/-- `list(set(next_runnable) - set([app[0] for app in running_pid_port]))`. A set has no order
of its own. -/
def toRestart (order nextRunnable : List Text) (runningapplist : List Text) : List Text :=
  reorder order (nextRunnable.dedup.filter fun app => app ∉ runningapplist)

/-- `Popen` of the restart command, and the new entry of `running_pid_port`. -/
def World.launch (world : World) (app image : Text) (port : Nat) : World :=
  { world with
    procs := world.procs ++ [⟨app, image, port, .running, false⟩]
    runningPidPort := world.runningPidPort ++ [⟨app, world.procs.length, port⟩] }

/-- The body of the loop of `start_next`. -/
def startApp (config : Config) (runnable : AList fun _ : Text => Text) (app : Text) :
    Program World PyError Unit := do
  rename (.queued, statFile app) (.running, statFile app)
  liftM (enterChkptDir config.chkpts app)
  let port ← getopenport config
  match runnable.lookup app with
  | none => throw .keyError
  | some image => modify fun world => world.launch app image port

def startNext (config : Config) (nextRunnable : List Text) : Program World PyError Unit := do
  let moment ← observe config
  let world ← get
  let runnable ← liftM (getRunnableInstanceMap config.chkptsDir config.chkpts)
  (toRestart moment.sample.order nextRunnable world.runningApps).forM (startApp config runnable)

/-! ### The main loop -/

/-- Where the main loop stands, with the values it has in hand. -/
inductive Pc
  | head
  | cleaned (retval : Bool)
  | planned (nextRunnable : List Text)
  | stopped (nextRunnable : List Text)
  | sleeping
  | finished
  deriving DecidableEq

structure Main where
  pc : Pc
  timer : Nat
  world : World

/-- One step of the main loop. -/
def mainStep (config : Config) (main : Main) : Except PyError Main :=
  match main.pc with
  | .head =>
    if (main.world.listdir .queued).length > 0 ∨ (main.world.listdir .running).length > 0 then do
      let (retval, world) ← (cleanCompleted config).run main.world
      .ok { main with pc := .cleaned retval, world := world }
    else .ok { main with pc := .finished }
  | .cleaned retval =>
    if retval ∨ main.timer % 60 = 0 then do
      let (nextRunnable, world) ← (getNextRunnableMap config).run main.world
      .ok {
        pc := .planned nextRunnable
        timer := if main.timer % 60 = 0 then 0 else main.timer
        world := world }
    else .ok { main with pc := .sleeping }
  | .planned nextRunnable => do
    let ((), world) ← (stopRunning config nextRunnable).run main.world
    .ok { main with pc := .stopped nextRunnable, world := world }
  | .stopped nextRunnable => do
    let ((), world) ← (startNext config nextRunnable).run main.world
    .ok { main with pc := .sleeping, world := world }
  | .sleeping => do
    let (_, world) ← (observe config).run main.world
    .ok { pc := .head, timer := main.timer + 5, world := world }
  | .finished => .ok main

/-- The main loop as it is entered. -/
def Main.start (world : World) : Main := ⟨.head, 0, world⟩

/-- The rule for the command line `parallel_dmtcp argument`. Without an argument, or with the
one for a random rule, the source calls a key of `RULES`, which is a text and not a rule. -/
def ruleOf (machine : Machine) (argument : Option Text) : Rule :=
  fun sample table runninglist =>
    match argument with
    | none => .error .typeError
    | some name =>
      if name = [] ∨ name = "-r".toList ∨ name = "--random".toList then .error .typeError
      else match (rules machine).lookup name with
        | none => .error .keyError
        | some rule => rule sample table runninglist

/-- Whatever the command line, the plan consists of keys of the table. -/
theorem ruleOf_selects (machine : Machine) (argument : Option Text) :
    Selects (ruleOf machine argument) := by
  intro sample table runninglist plan run
  unfold ruleOf at run
  cases argument with
  | none => cases run
  | some name =>
    simp only at run
    split at run
    · cases run
    · cases found : (rules machine).lookup name with
      | none =>
        rw [found] at run
        cases run
      | some rule =>
        rw [found] at run
        have listed : rule ∈ (rules machine).map Prod.snd := by
          obtain ⟨first, last, split, _⟩ := List.lookup_eq_some_iff.mp found
          rw [split]
          simp
        exact rules_selects machine rule listed sample table runninglist plan run

/-- The state in which `generate_stats_and_enqueue` leaves the scheduler: the stat file and the
table entry of every app, nothing started yet. -/
structure Enqueued (ids : List Text) (world : World) : Prop where
  files : ∀ place, place ∈ world.files ↔ ∃ app ∈ ids, place = (.queued, statFile app)
  table : ∀ app, app ∈ world.appStatsMap ↔ app ∈ ids
  list : world.runningPidPort = []
  procs : world.procs = []
  commands : world.commands = []

end ClusterJobs
