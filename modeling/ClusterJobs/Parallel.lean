/-
This file models `bin/parallel`, which runs app instances side by side: in the random mode as
many as fit into a number of threads, in the defined mode one group after another.

The global variables of the program are the state, together with the processes it has started
and the stat files it has opened. Processes end by themselves at any time; a schedule, read one
moment at a time, says when and with which status, and also which instance `random.choice`
picks. A negative status is that of a process ended by a signal.

Both modes are step functions, one step for each round of a loop, so that the head of every
loop is a state of the run. Logging is left out.
-/

import ClusterJobs.Process
import ClusterJobs.Rules

namespace ClusterJobs.Parallel

open Python

/-! ### The globals -/

/-- A process started by `Popen`. Its number is its position in the process table. -/
structure Child where
  appid : Text
  phase : Phase

/-- A stat file: its path, what was written to it, and whether the program has closed it. The
interpreter closes a file by itself once the list that holds it is dropped. -/
structure StatFile where
  path : Text
  content : Text
  closed : Bool

/-- `[status, statfile]`: a process and its stat file, by their numbers. -/
structure Running where
  status : Nat
  statfile : Nat
  deriving DecidableEq

/-- `[status, statfile, appid, appthreads]`. -/
structure Job extends Running where
  appid : Text
  appthreads : Int
  deriving DecidableEq

/-- The globals of the program, with the processes and the files it has made. The entries of
`app_statfile_list` differ between the modes. -/
structure Globals (Item : Type) where
  procs : List Child
  statfiles : List StatFile
  clock : Nat
  runnableMap : AList fun _ : Text => Text
  runnable : List Text
  appStatfileList : List Item
  groupthreads : Int

/-- What happens before one call: processes that end, with their status; the instance that is
picked; the time. -/
structure Instant where
  exits : List (Nat × Int) := []
  choice : Nat := 0
  timestamp : Text := []

variable {Item : Type}

def exitAll (procs : List Child) (exits : List (Nat × Int)) : List Child :=
  exits.foldl (fun procs exit => procs.modify exit.1 fun child =>
    { child with phase := child.phase.exit exit.2 }) procs

def Globals.phase (state : Globals Item) (pid : Nat) : Option Phase :=
  (state.procs[pid]?).map Child.phase

/-- The exit status of a process that has terminated. -/
def Globals.exitStatus (state : Globals Item) (pid : Nat) : Option Int :=
  (state.phase pid).bind Phase.exitStatus

/-! ### Calls -/

def observe (schedule : Nat → Instant) : Program (Globals Item) PyError Instant := do
  let state ← get
  let instant := schedule state.clock
  modify fun state =>
    { state with procs := exitAll state.procs instant.exits, clock := state.clock + 1 }
  pure instant

/-- `status.poll()`. -/
def poll (schedule : Nat → Instant) (status : Nat) :
    Program (Globals Item) PyError (Option Int) := do
  let _ ← observe schedule
  let state ← get
  modify fun state => { state with
    procs := state.procs.modify status fun child =>
      { child with phase := child.phase.afterPoll } }
  pure ((state.phase status).bind Phase.poll)

/-- The stat file of an instance is opened and gets the command, and the process is started. The
path is relative to the directory of the stats. -/
def launch (schedule : Nat → Instant) (directory timestamp appid : Text) :
    Program (Globals Item) PyError Running := do
  let _ ← observe schedule
  let state ← get
  match state.runnableMap.lookup appid with
  | none => throw .keyError
  | some command => do
    let path := directory ++ '/' :: appid ++ '_' :: timestamp ++ ".stat".toList
    modify fun state => { state with
      procs := state.procs ++ [⟨appid, .running⟩]
      statfiles := state.statfiles ++ [⟨path, command, false⟩] }
    pure ⟨state.procs.length, state.statfiles.length⟩

/-- `statfile.close()`. -/
def close (statfile : Nat) : Program (Globals Item) PyError Unit :=
  modify fun state => { state with
    statfiles := state.statfiles.modify statfile fun file => { file with closed := true } }

/-! ### The random mode -/

/-- `totalthreads` from `MAXTHREADS` and `TOVERCOMMIT` of `R.xml`; when both are given one of
them is picked. The program exits when it is zero. The product is exact here and a float in the
source, so they agree where no rounding crosses an integer: `1.4 * 45` is `63`, and `62` there. -/
def totalthreadsOf (maxthreads overcommitfactor : Option ℚ) (cpuCount choice : Nat) :
    Option Int :=
  let totalthreads := match maxthreads, overcommitfactor with
    | some threads, some factor => if choice % 2 = 0 then threads else factor * cpuCount
    | some threads, none => threads
    | none, some factor => factor * cpuCount
    | none, none => 0
  if truncate totalthreads = 0 then none else some (truncate totalthreads)

/-- What a run of the random mode depends on: the threads to share out, the `THREADS` of each
instance's XML file, and the schedule. -/
structure Batch where
  totalthreads : Int
  threads : Text → Except PyError Int
  schedule : Nat → Instant

/-- `runnable.remove(appid)`. -/
def removeRunnable (appid : Text) : Program (Globals Item) PyError Unit := do
  let state ← get
  if appid ∈ state.runnable then
    modify fun state => { state with runnable := state.runnable.erase appid }
  else throw .valueError

/-- The body of the fill loop; the result is what is left of `runnablea`. -/
def fill (batch : Batch) (runnablea : List Text) :
    Program (Globals Job) PyError (List Text) := do
  let instant ← observe batch.schedule
  match runnablea[instant.choice % runnablea.length]? with
  | none => throw .indexError
  | some appid => do
    let appthreads ← liftM (batch.threads appid)
    let state ← get
    if state.groupthreads + appthreads ≤ batch.totalthreads then do
      removeRunnable appid
      modify fun state => { state with groupthreads := state.groupthreads + appthreads }
      let running ← launch batch.schedule "R".toList instant.timestamp appid
      modify fun state => { state with
        appStatfileList := state.appStatfileList ++ [⟨running, appid, appthreads⟩] }
      pure (runnablea.erase appid)
    else pure (runnablea.erase appid)

/-- `runnable_map.pop(appid)`. -/
def popRunnableMap (appid : Text) : Program (Globals Item) PyError Unit := do
  let state ← get
  if appid ∈ state.runnableMap then
    modify fun state => { state with runnableMap := state.runnableMap.erase appid }
  else throw .keyError

/-- The body of the loop that looks for ended processes, with `flag` and `toberemoved`. -/
def sweepJob (batch : Batch) (found : Bool × List Job) (app : Job) :
    Program (Globals Job) PyError (Bool × List Job) := do
  let status ← poll batch.schedule app.status
  if status = some 0 then do
    popRunnableMap app.appid
    modify fun state => { state with groupthreads := state.groupthreads - app.appthreads }
    close app.statfile
    pure (true, found.2 ++ [app])
  else pure found

/-- `app_statfile_list.remove(app)`. -/
def removeJob (app : Job) : Program (Globals Job) PyError Unit := do
  let state ← get
  if app ∈ state.appStatfileList then
    modify fun state => { state with appStatfileList := state.appStatfileList.erase app }
  else throw .valueError

/-- One round of the wait loop; the result says whether it is left. -/
def waitRound (batch : Batch) : Program (Globals Job) PyError Bool := do
  let state ← get
  let found ← state.appStatfileList.foldlM (sweepJob batch) (false, [])
  if found.1 then do
    found.2.forM removeJob
    pure true
  else do
    let _ ← observe batch.schedule
    pure false

/-- The heads of the three loops, and the end. -/
inductive RandomPc
  | outer
  | fill (runnablea : List Text)
  | wait
  | done
  deriving DecidableEq

structure Random where
  pc : RandomPc
  globals : Globals Job

def randomStep (batch : Batch) (random : Random) : Except PyError Random :=
  match random.pc with
  | .outer =>
    if random.globals.runnableMap.keys.length > 0 then
      .ok { random with pc := .fill random.globals.runnable }
    else .ok { random with pc := .done }
  | .fill runnablea =>
    if runnablea.length > 0 ∧ random.globals.groupthreads < batch.totalthreads then do
      let (runnablea, globals) ← (fill batch runnablea).run random.globals
      .ok ⟨.fill runnablea, globals⟩
    else .ok { random with pc := .wait }
  | .wait => do
    let (flag, globals) ← (waitRound batch).run random.globals
    .ok ⟨if flag then .outer else .wait, globals⟩
  | .done => .ok random

/-- The globals before anything is started: `runnable` holds the keys of `runnable_map`. -/
def Globals.start (runnableMap : AList fun _ : Text => Text) : Globals Item where
  procs := []
  statfiles := []
  clock := 0
  runnableMap := runnableMap
  runnable := runnableMap.keys
  appStatfileList := []
  groupthreads := 0

def Random.start (runnableMap : AList fun _ : Text => Text) : Random := ⟨.outer, .start runnableMap⟩

/-! ### The defined mode -/

/-- The body of the loop of `group_exec_completed`: an ended process is taken off the list, the
first one that has not ended makes the answer `False`. -/
def completedEntry (schedule : Nat → Instant) (app : Running) (_ : Bool) :
    Program (Globals Running) PyError (ForInStep Bool) := do
  let status ← poll schedule app.status
  if status = some 0 then do
    close app.statfile
    modify fun state => { state with appStatfileList := state.appStatfileList.erase app }
    pure (.yield true)
  else pure (.done false)

def groupExecCompleted (schedule : Nat → Instant) : Program (Globals Running) PyError Bool :=
  forEach Globals.appStatfileList (completedEntry schedule) true

/-- The body of the loop that starts the apps of a group. -/
def startApp (schedule : Nat → Instant) (groupid timestamp appid : Text) :
    Program (Globals Running) PyError Unit := do
  let running ← launch schedule groupid timestamp appid
  modify fun state => { state with appStatfileList := state.appStatfileList ++ [running] }

/-- The apps of a group are started one after the other. -/
def startGroup (schedule : Nat → Instant) (groupid : Text) (apps : List Text) :
    Program (Globals Running) PyError Unit := do
  modify fun state => { state with appStatfileList := [] }
  let instant ← observe schedule
  apps.forM (startApp schedule groupid instant.timestamp)

/-- Between two groups, or waiting for the group in hand. -/
inductive DefinedPc
  | next
  | wait
  | done
  deriving DecidableEq

/-- A run of the defined mode, with the groups still to come. -/
structure Defined where
  pc : DefinedPc
  groups : List (Text × List Text)
  globals : Globals Running

def definedStep (schedule : Nat → Instant) (defined : Defined) : Except PyError Defined :=
  match defined.pc with
  | .next => match defined.groups with
    | [] => .ok { defined with pc := .done }
    | (groupid, apps) :: groups => do
      let ((), globals) ← (startGroup schedule groupid apps).run defined.globals
      .ok ⟨.wait, groups, globals⟩
  | .wait => do
    let (completed, globals) ← (groupExecCompleted schedule).run defined.globals
    if completed then .ok { defined with pc := .next, globals := globals }
    else do
      let (_, globals) ← (observe schedule).run globals
      .ok { defined with globals := globals }
  | .done => .ok defined

def Defined.start (runnableMap : AList fun _ : Text => Text) (groups : List (Text × List Text)) :
    Defined := ⟨.next, groups, .start runnableMap⟩

/-! ### Time passes -/

section Time

variable {schedule : Nat → Instant} {raised : PyError → Prop}

/-- Nothing but the processes has changed, and these have only got older. -/
structure Aged (before after : Globals Item) : Prop where
  statfiles : after.statfiles = before.statfiles
  runnableMap : after.runnableMap = before.runnableMap
  runnable : after.runnable = before.runnable
  list : after.appStatfileList = before.appStatfileList
  groupthreads : after.groupthreads = before.groupthreads
  appids : after.procs.map Child.appid = before.procs.map Child.appid
  exited : ∀ pid status, before.exitStatus pid = some status → after.exitStatus pid = some status

theorem aged_refl (state : Globals Item) : Aged state state :=
  ⟨rfl, rfl, rfl, rfl, rfl, rfl, fun _ _ exited => exited⟩

theorem Aged.trans {first second third : Globals Item} (before : Aged first second)
    (after : Aged second third) : Aged first third :=
  ⟨after.statfiles.trans before.statfiles, after.runnableMap.trans before.runnableMap,
    after.runnable.trans before.runnable, after.list.trans before.list,
    after.groupthreads.trans before.groupthreads, after.appids.trans before.appids,
    fun pid status exited => after.exited pid status (before.exited pid status exited)⟩

theorem Aged.length {before after : Globals Item} (aged : Aged before after) :
    after.procs.length = before.procs.length := by
  simpa using congrArg List.length aged.appids

/-- One process changes its phase, to a later one. -/
theorem aged_modify (state : Globals Item) (pid : Nat) (change : Phase → Phase)
    (settles : ∀ phase, Phase.Settles phase (change phase)) :
    Aged state { state with procs := state.procs.modify pid fun child =>
      { child with phase := change child.phase } } where
  statfiles := rfl
  runnableMap := rfl
  runnable := rfl
  list := rfl
  groupthreads := rfl
  appids := by
    refine List.ext_getElem? fun position => ?_
    simp only [List.getElem?_map, List.getElem?_modify]
    cases state.procs[position]? with
    | none => rfl
    | some child =>
      simp only [Option.map_some, Option.map_eq_map]
      split <;> rfl
  exited other status exited := by
    simp only [Globals.exitStatus, Globals.phase, List.getElem?_modify] at *
    cases found : state.procs[other]? with
    | none => simp [found] at exited
    | some child =>
      simp only [found, Option.map_some, Option.bind_some, Option.map_eq_map] at *
      split
      · exact (settles _).exited status exited
      · exact exited

theorem aged_exitAll (state : Globals Item) (exits : List (Nat × Int)) :
    Aged state { state with procs := exitAll state.procs exits } := by
  induction exits generalizing state with
  | nil => exact aged_refl state
  | cons exit exits inductionHypothesis =>
    have first := aged_modify state exit.1 (Phase.exit exit.2) fun phase =>
      Phase.settles_exit phase exit.2
    exact first.trans (inductionHypothesis _)

theorem ensures_observe {state : Globals Item} :
    Ensures (observe schedule) state (fun _ next => Aged state next) raised := by
  simp only [observe, ensures_bind, ensures_get, ensures_modify, ensures_pure]
  obtain ⟨statfiles, runnableMap, runnable, list, groupthreads, appids, exited⟩ :=
    aged_exitAll state (schedule state.clock).exits
  exact ⟨statfiles, runnableMap, runnable, list, groupthreads, appids, exited⟩

/-- `poll()` tells the exit status of a process that has terminated, and says 0 only then. -/
theorem ensures_poll {state : Globals Item} (pid : Nat) :
    Ensures (poll schedule pid) state (fun status next => Aged state next ∧
      (∀ value, state.exitStatus pid = some value → status = some value) ∧
      (status = some 0 → next.exitStatus pid = some 0)) raised := by
  simp only [poll, ensures_bind, ensures_get, ensures_modify, ensures_pure]
  refine ensures_observe.imp fun _ seen aged => ?_
  have polled := aged_modify seen pid Phase.afterPoll Phase.settles_afterPoll
  have told : ∀ value, seen.exitStatus pid = some value →
      (seen.phase pid).bind Phase.poll = some value := by
    intro value exited
    obtain ⟨phase, found, exited⟩ := Option.bind_eq_some_iff.mp exited
    rw [found, Option.bind_some]
    cases phase <;> simp_all [Phase.exitStatus, Phase.poll]
  refine ⟨aged.trans polled, fun value exited => told value (aged.exited pid value exited), ?_⟩
  intro zero
  refine polled.exited pid 0 ?_
  obtain ⟨phase, found, value⟩ := Option.bind_eq_some_iff.mp zero
  rw [Globals.exitStatus, found, Option.bind_some]
  cases phase <;> simp_all [Phase.exitStatus, Phase.poll]

/-! ### Processes that end at once -/

/-- A schedule under which some processes end with status 0 at the first opportunity, and the
others not at all. -/
def endsAtOnce (pids : List Nat) : Nat → Instant :=
  fun _ => { exits := pids.map fun pid => (pid, 0) }

/-- No process has ended other than with status 0. -/
def Ready (state : Globals Item) : Prop :=
  ∀ child ∈ state.procs, child.phase = .running ∨ child.phase.exitStatus = some 0

/-- A process that has just been started changes nothing about that. -/
theorem Ready.append {state next : Globals Item} (ready : Ready state) (appid : Text)
    (started : next.procs = state.procs ++ [⟨appid, .running⟩]) : Ready next := by
  intro child member
  rw [started] at member
  rcases List.mem_append.mp member with old | new
  · exact ready child old
  · rw [List.mem_singleton.mp new]
    exact Or.inl rfl

theorem getElem?_exitAll (procs : List Child) (pids : List Nat) (pid : Nat) :
    (exitAll procs (pids.map fun pid => (pid, (0 : Int))))[pid]? =
      (procs[pid]?).map fun child =>
        if pid ∈ pids then { child with phase := child.phase.exit 0 } else child := by
  induction pids generalizing procs with
  | nil => simp [exitAll]
  | cons first pids inductionHypothesis =>
    rw [List.map_cons, exitAll, List.foldl_cons, ← exitAll, inductionHypothesis,
      List.getElem?_modify]
    cases procs[pid]? with
    | none => rfl
    | some child =>
      have again : ∀ phase : Phase, (phase.exit 0).exit 0 = phase.exit 0 := by
        intro phase
        cases phase <;> rfl
      by_cases same : first = pid
      · subst same
        simp [again]
      · simp [same, Ne.symm same]

theorem ready_exitAll {state : Globals Item} (ready : Ready state) (pids : List Nat) :
    Ready { state with procs := exitAll state.procs (pids.map fun pid => (pid, (0 : Int))) } := by
  intro child member
  obtain ⟨pid, found⟩ := List.getElem?_of_mem member
  rw [getElem?_exitAll] at found
  obtain ⟨before, foundBefore, rfl⟩ := Option.map_eq_some_iff.mp found
  have fresh := ready before (List.mem_of_getElem? foundBefore)
  split
  · cases phase : before.phase <;> simp_all [Phase.exit, Phase.exitStatus]
  · exact fresh

theorem ready_afterPoll {state : Globals Item} (ready : Ready state) (pid : Nat) :
    Ready { state with procs := state.procs.modify pid fun child =>
      { child with phase := child.phase.afterPoll } } := by
  intro child member
  obtain ⟨position, found⟩ := List.getElem?_of_mem member
  rw [List.getElem?_modify] at found
  obtain ⟨before, foundBefore, rfl⟩ := Option.map_eq_some_iff.mp found
  have fresh := ready before (List.mem_of_getElem? foundBefore)
  split
  · cases phase : before.phase <;> simp_all [Phase.afterPoll, Phase.exitStatus]
  · exact fresh

/-- What a call does to the processes when some end at once. -/
structure Prompt (pids : List Nat) (before after : Globals Item) : Prop where
  aged : Aged before after
  ready : Ready after
  others : ∀ pid ∉ pids, before.phase pid = some .running → after.phase pid = some .running

theorem ensures_observe_prompt {state : Globals Item} {pids : List Nat} (ready : Ready state) :
    Ensures (observe (endsAtOnce pids)) state (fun _ next => Prompt pids state next ∧
      ∀ pid ∈ pids, pid < state.procs.length → (next.phase pid).bind Phase.poll = some 0)
      raised := by
  have observed : Ensures (observe (endsAtOnce pids)) state (fun _ next => Aged state next)
      raised := ensures_observe
  simp only [observe, ensures_bind, ensures_get, ensures_modify, ensures_pure] at *
  refine ⟨⟨observed, ready_exitAll ready pids, fun pid outside running => ?_⟩,
    fun pid inside known => ?_⟩
  · obtain ⟨child, found, phase⟩ := Option.map_eq_some_iff.mp running
    simp [Globals.phase, endsAtOnce, getElem?_exitAll, found, outside, phase]
  · have found := List.getElem?_eq_getElem known
    have fresh := ready _ (List.mem_of_getElem? found)
    simp only [Globals.phase, endsAtOnce, getElem?_exitAll, found, inside, if_true, Option.map_some,
      Option.bind_some]
    cases phase : (state.procs[pid]).phase <;> simp_all [Phase.exit, Phase.exitStatus, Phase.poll]

theorem ensures_poll_prompt {state : Globals Item} {pids : List Nat} (ready : Ready state)
    {pid : Nat} (known : pid < state.procs.length) :
    Ensures (poll (endsAtOnce pids) pid) state (fun status next => Prompt pids state next ∧
      (pid ∈ pids → status = some 0)) raised := by
  simp only [poll, ensures_bind, ensures_get, ensures_modify, ensures_pure]
  refine (ensures_observe_prompt ready).imp fun _ seen outcome => ?_
  obtain ⟨prompt, ended⟩ := outcome
  have polled := aged_modify seen pid Phase.afterPoll Phase.settles_afterPoll
  refine ⟨⟨prompt.aged.trans polled, ready_afterPoll prompt.ready pid,
    fun other outside running => ?_⟩, fun inside => ended pid inside known⟩
  have still := prompt.others other outside running
  obtain ⟨child, found, phase⟩ := Option.map_eq_some_iff.mp still
  simp only [Globals.phase, List.getElem?_modify, found, Option.map_some, Option.map_eq_map]
  split <;> simp [phase, Phase.afterPoll]

end Time

end ClusterJobs.Parallel
