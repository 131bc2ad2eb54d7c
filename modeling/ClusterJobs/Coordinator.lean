/-
This file models the checkpoint coordinator of DMTCP with the processes that are connected to it
(`dmtcp_coordinator.cpp`; `dmtcpworker.cpp` and `mtcpinterface.cpp` for the other end).

A checkpoint is a sequence of barriers. The coordinator tells every process to go on, each one
answers `DMT_OK` with the state it has reached, and when the least of the states it has on record
moves up the coordinator tells all of them to go on once more. It learns of a state only when it
reads the message, so what it has on record lags behind; in the other direction a process sees an
order only when it reads it. Both directions are queues here.

A client is the record of the coordinator together with the two queues and the process at the other
end. `act` is one thing that happens: the coordinator reads a message, accepts a connection, gets a
command or a time-out, or loses a client; a process reads an order or sends its answer. Any order of
these is a run. Sockets, the name service, the restart script and the log are left out, and so is a
process that calls `exec`.
-/

import Mathlib.Data.List.Basic
import Mathlib.Data.List.Nodup
import Mathlib.Tactic.Common

namespace ClusterJobs.Dmtcp

/-! ### Messages -/

/-- `WorkerState::eWorkerState`, in the order of the source. -/
inductive WorkerState
  | unknown
  | running
  | suspended
  | fdLeaderElection
  | drained
  | restarting
  | checkpointed
  | nameServiceDataRegistered
  | doneQuerying
  | refilled
  deriving DecidableEq, Repr

def WorkerState.value : WorkerState → Nat
  | .unknown => 0
  | .running => 1
  | .suspended => 2
  | .fdLeaderElection => 3
  | .drained => 4
  | .restarting => 5
  | .checkpointed => 6
  | .nameServiceDataRegistered => 7
  | .doneQuerying => 8
  | .refilled => 9

/-- The orders of the coordinator, with the prefix `DMT_` left out. -/
inductive DmtcpMessageType
  | doSuspend
  | doResume
  | doFdLeaderElection
  | doDrain
  | doCheckpoint
  | doRegisterNameServiceData
  | doSendQueries
  | doRefill
  | killPeer
  deriving DecidableEq, Repr

structure UniquePid where
  hostid : Nat
  pid : Nat
  time : Nat
  generation : Nat
  deriving DecidableEq, Repr

/-- `UniquePid(0,0,0)`. -/
def UniquePid.zero : UniquePid := ⟨0, 0, 0, 0⟩

/-- `UniquePid::operator==`: the generation is not compared. -/
def UniquePid.Same (first second : UniquePid) : Prop :=
  first.hostid = second.hostid ∧ first.pid = second.pid ∧ first.time = second.time

instance (first second : UniquePid) : Decidable (first.Same second) :=
  inferInstanceAs (Decidable (_ ∧ _ ∧ _))

structure DmtcpMessage where
  type : DmtcpMessageType
  compGroup : UniquePid
  numPeers : Nat
  deriving DecidableEq, Repr

/-- An assertion that fails ends the program it is in; the loop over the virtual pids may also go on
for ever. -/
inductive Fault
  | coordinator
  | worker
  | loop
  deriving DecidableEq, Repr

/-! ### The processes -/

/-- A checkpoint image: the computation it belongs to, and the number of its processes. -/
structure Image where
  compGroup : UniquePid
  numPeers : Nat
  deriving DecidableEq, Repr

/-- A process under the control of DMTCP. `reported` says that it has nothing to tell the
coordinator and waits for an order. -/
structure Worker where
  state : WorkerState
  reported : Bool
  compGroup : UniquePid
  numPeers : Nat
  image : Option Image
  exited : Bool
  deriving DecidableEq, Repr

/-- The order a process waits for in a state. -/
def WorkerState.awaits : WorkerState → Option DmtcpMessageType
  | .unknown => none
  | .running => some .doSuspend
  | .suspended => some .doFdLeaderElection
  | .fdLeaderElection => some .doDrain
  | .drained => some .doCheckpoint
  | .restarting => none
  | .checkpointed => some .doRegisterNameServiceData
  | .nameServiceDataRegistered => some .doSendQueries
  | .doneQuerying => some .doRefill
  | .refilled => some .doResume

/-- The state it is in afterwards, when it has done what it was told. -/
def WorkerState.next : WorkerState → WorkerState
  | .unknown => .running
  | .running => .suspended
  | .suspended => .fdLeaderElection
  | .fdLeaderElection => .drained
  | .drained => .checkpointed
  | .restarting => .checkpointed
  | .checkpointed => .nameServiceDataRegistered
  | .nameServiceDataRegistered => .doneQuerying
  | .doneQuerying => .refilled
  | .refilled => .running

/-- `waitForCoordinatorMsg`, from the moment the message is there. -/
def Worker.receive (worker : Worker) (message : DmtcpMessage) : Except Fault Worker :=
  if message.type = .killPeer then .ok { worker with exited := true }
  else if worker.state.awaits = some message.type then
    match message.type with
    | .doSuspend =>
      let compGroup := { worker.compGroup with generation := message.compGroup.generation }
      if compGroup = message.compGroup then
        .ok { worker with state := worker.state.next, reported := false, compGroup := compGroup }
      else .error .worker
    | .doFdLeaderElection => .ok { worker with
        state := worker.state.next
        reported := false
        compGroup := message.compGroup
        numPeers := message.numPeers }
    | _ => .ok { worker with state := worker.state.next, reported := false }
  else .error .worker

/-- The state in the next `DMT_OK`. A restarted process sets it to `CHECKPOINTED` first. -/
def Worker.reports (worker : Worker) : WorkerState :=
  if worker.state = .restarting then .checkpointed else worker.state

/-- The process sends `DMT_OK`. Before it reports `CHECKPOINTED` it has written its image; a
restarted one has the image it was made from, with the same contents. -/
def Worker.report (worker : Worker) : Worker :=
  { worker with
    state := worker.reports
    reported := true
    image := if worker.reports = .checkpointed then some ⟨worker.compGroup, worker.numPeers⟩
      else worker.image }

/-! ### The coordinator -/

/-- `CoordClient`: the state on record, the messages under way and the process. -/
structure CoordClient where
  state : WorkerState
  virtualPid : Nat
  incoming : List WorkerState
  outgoing : List DmtcpMessage
  worker : Worker
  deriving DecidableEq, Repr

inductive CoordCmdStatus
  | noerror
  | errorInvalidCommand
  | errorNotRunningState
  deriving DecidableEq, Repr

/-- `DMT_USER_CMD_RESULT`. -/
structure Reply where
  coordCmdStatus : CoordCmdStatus := .noerror
  numPeers : Nat := 0
  isRunning : Bool := false
  theCheckpointInterval : Option Nat := none
  deriving DecidableEq, Repr

/-- The first message of a process, and whether it sends `DMT_OK` once it has been accepted (a
program that is launched does, a forked one does not). -/
structure Hello where
  state : WorkerState
  sender : UniquePid
  compGroup : UniquePid
  numPeers : Nat
  theCheckpointInterval : Option Nat
  greets : Bool
  deriving DecidableEq, Repr

def initialVirtualPid : Nat := 40000

def maxVirtualPid : Nat := 400000000

/-- The globals of the coordinator. A connection of `dmtcp_command` is a number, and `replies` are
the answers given so far. -/
structure Coordinator where
  clients : List CoordClient := []
  virtualPids : List Nat := []
  nextVirtualPid : Nat := initialVirtualPid
  workersRunningAndSuspendMsgSent : Bool := false
  killInProgress : Bool := false
  blockUntilDone : Bool := false
  blockUntilDoneRemote : Option Nat := none
  exitAfterCkpt : Bool := false
  exitOnLast : Bool := false
  isRestarting : Bool := false
  compId : UniquePid := .zero
  numPeers : Int := -1
  theCheckpointInterval : Nat := 0
  theDefaultCheckpointInterval : Nat := 0
  replies : List (Nat × Reply) := []
  exited : Bool := false
  deriving DecidableEq, Repr

/-- `ComputationStatus`. -/
structure ComputationStatus where
  minimumState : WorkerState
  maximumState : WorkerState
  minimumStateUnanimous : Bool
  numPeers : Nat

/-- The variables of the loop of `getStatus`; `min` is `none` for `INITIAL_MIN`. -/
structure StatusScan where
  min : Option WorkerState := none
  max : WorkerState := .unknown
  count : Nat := 0
  unanimous : Bool := true

def StatusScan.add (scan : StatusScan) (state : WorkerState) : StatusScan where
  count := scan.count + 1
  unanimous := scan.unanimous && (scan.min == some state || scan.min == none)
  min := match scan.min with
    | none => some state
    | some min => if state.value < min.value then some state else some min
  max := if state.value > scan.max.value then state else scan.max

namespace Coordinator

def getStatus (coordinator : Coordinator) : ComputationStatus :=
  let scan := (coordinator.clients.map CoordClient.state).foldl StatusScan.add {}
  let minimumState := scan.min.getD .unknown
  { minimumState :=
      if minimumState = .checkpointed ∧ coordinator.isRestarting = true ∧
        (scan.count : Int) < coordinator.numPeers then .restarting else minimumState
    maximumState := scan.max
    minimumStateUnanimous := scan.unanimous
    numPeers := scan.count }

def minimumState (coordinator : Coordinator) : WorkerState := coordinator.getStatus.minimumState

/-- `broadcastMessage`. A message without a number of peers has 0 there. -/
def broadcastMessage (coordinator : Coordinator) (type : DmtcpMessageType) (numPeers : Nat) :
    Coordinator :=
  { coordinator with
    killInProgress := coordinator.killInProgress ||
      (type == .killPeer && decide (coordinator.clients.length > 0))
    workersRunningAndSuspendMsgSent := coordinator.workersRunningAndSuspendMsgSent &&
      type != .doFdLeaderElection
    clients := coordinator.clients.map fun client =>
      { client with outgoing := client.outgoing ++ [⟨type, coordinator.compId, numPeers⟩] } }

/-- The last barrier: everyone resumes, and a command that waits gets its answer. -/
def resumeAll (coordinator : Coordinator) : Coordinator :=
  let coordinator := coordinator.broadcastMessage .doResume 0
  let coordinator := { coordinator with isRestarting := false }
  if coordinator.blockUntilDone then
    { coordinator with
      replies := coordinator.replies ++
        (coordinator.blockUntilDoneRemote.map fun remote => (remote, ({} : Reply))).toList
      blockUntilDone := false
      blockUntilDoneRemote := none }
  else coordinator

def updateMinimumState (coordinator : Coordinator) (oldState : WorkerState) : Coordinator :=
  match oldState, coordinator.minimumState with
  | .running, .suspended =>
    coordinator.broadcastMessage .doFdLeaderElection coordinator.getStatus.numPeers
  | .suspended, .fdLeaderElection => coordinator.broadcastMessage .doDrain 0
  | .fdLeaderElection, .drained => coordinator.broadcastMessage .doCheckpoint 0
  | .drained, .checkpointed =>
    if coordinator.exitAfterCkpt then
      { coordinator.broadcastMessage .killPeer 0 with exitAfterCkpt := false }
    else coordinator.broadcastMessage .doRegisterNameServiceData 0
  | .restarting, .checkpointed => coordinator.broadcastMessage .doRegisterNameServiceData 0
  | .checkpointed, .nameServiceDataRegistered => coordinator.broadcastMessage .doSendQueries 0
  | .nameServiceDataRegistered, .doneQuerying => coordinator.broadcastMessage .doRefill 0
  | .doneQuerying, .refilled => coordinator.resumeAll
  | _, _ => coordinator

/-- `startCheckpoint`: the new state, and whether a checkpoint has been started. -/
def startCheckpoint (coordinator : Coordinator) : Coordinator × Bool :=
  let status := coordinator.getStatus
  if status.minimumState = .running ∧ status.minimumStateUnanimous = true ∧
      coordinator.workersRunningAndSuspendMsgSent = false then
    let coordinator := { coordinator with
      compId := { coordinator.compId with generation := coordinator.compId.generation + 1 } }
    ({ coordinator.broadcastMessage .doSuspend 0 with workersRunningAndSuspendMsgSent := true },
      true)
  else (coordinator, false)

/-- `updateCheckpointInterval`, without an interval for `DMTCPMESSAGE_SAME_CKPT_INTERVAL`. -/
def updateCheckpointInterval (coordinator : Coordinator) (interval : Option Nat) : Coordinator :=
  { coordinator with
    theCheckpointInterval := interval.getD coordinator.theCheckpointInterval }

def onTimeoutInterval (coordinator : Coordinator) : Coordinator :=
  if coordinator.theCheckpointInterval > 0 then coordinator.startCheckpoint.1 else coordinator

/-! ### Commands -/

/-- The command `q`: the coordinator ends. -/
def quit (coordinator : Coordinator) : Coordinator :=
  { coordinator.broadcastMessage .killPeer 0 with exited := true }

def handleUserCommand (coordinator : Coordinator) (cmd : Char) : Coordinator × Reply :=
  match cmd with
  | 'b' | 'B' => ({ coordinator with blockUntilDone := true }, {})
  | 'x' | 'X' => ({ coordinator with exitAfterCkpt := true }, {})
  | 'c' | 'C' =>
    let (coordinator, started) := coordinator.startCheckpoint
    if started then (coordinator, { numPeers := coordinator.getStatus.numPeers })
    else (coordinator, { coordCmdStatus := .errorNotRunningState })
  | 'i' | 'I' | 'l' | 'L' | 't' | 'T' | 'h' | 'H' | '?' => (coordinator, {})
  | 'q' | 'Q' => (coordinator.quit, {})
  | 'k' | 'K' => (coordinator.broadcastMessage .killPeer 0, {})
  | 's' | 'S' =>
    let status := coordinator.getStatus
    (coordinator, {
      numPeers := status.numPeers
      isRunning := status.minimumStateUnanimous && status.minimumState == .running
      theCheckpointInterval := some coordinator.theCheckpointInterval })
  | ' ' | '\t' | '\n' | '\r' => (coordinator, {})
  | _ => (coordinator, { coordCmdStatus := .errorInvalidCommand })

/-- `processDmtUserCmd`: a blocking checkpoint is answered later, anything else at once. -/
def processDmtUserCmd (coordinator : Coordinator) (remote : Nat) (coordCmd : Char) : Coordinator :=
  if coordinator.blockUntilDone = true ∧ coordinator.blockUntilDoneRemote = none ∧
      coordCmd = 'c' then
    (({ coordinator with blockUntilDoneRemote := some remote } : Coordinator).handleUserCommand
      coordCmd).1
  else
    let (coordinator, reply) := coordinator.handleUserCommand coordCmd
    if coordinator.exited then coordinator
    else { coordinator with replies := coordinator.replies ++ [(remote, reply)] }

/-! ### Connections -/

/-- One round of the loop of `getNewVirtualPid`. -/
def advancePid (pid : Nat) : Nat :=
  if pid + 1000 > maxVirtualPid then initialVirtualPid else pid + 1000

/-- How many pids the loop goes through before it is back at the first one. -/
def virtualPidCount : Nat := (maxVirtualPid - initialVirtualPid) / 1000 + 1

/-- The loop of `getNewVirtualPid`: a pid that is not in use, and where to go on next time. -/
def findVirtualPid (used : List Nat) : Nat → Nat → Option (Nat × Nat)
  | 0, _ => none
  | rounds + 1, pid =>
    if pid ∈ used then findVirtualPid used rounds (advancePid pid)
    else some (pid, advancePid pid)

def getNewVirtualPid (coordinator : Coordinator) : Except Fault (Nat × Coordinator) :=
  if coordinator.virtualPids.length < maxVirtualPid / 1000 then
    match findVirtualPid coordinator.virtualPids virtualPidCount coordinator.nextVirtualPid with
    | some (pid, next) => .ok (pid, { coordinator with nextVirtualPid := next })
    | none => .error .loop
  else .error .coordinator

def initializeComputation (coordinator : Coordinator) : Coordinator :=
  { coordinator with
    workersRunningAndSuspendMsgSent := false
    killInProgress := false
    theCheckpointInterval := coordinator.theDefaultCheckpointInterval
    compId := .zero
    numPeers := -1
    blockUntilDone := false }

/-- `validateNewWorkerProcess`: a rejected process is sent away, an accepted one may get
`DMT_DO_SUSPEND` at once. -/
def validateNewWorkerProcess (coordinator : Coordinator) (hello : Hello) (virtualPid : Nat) :
    Except Fault (Option (Coordinator × CoordClient)) :=
  let status := coordinator.getStatus
  let client (compId : UniquePid) (outgoing : List DmtcpMessage) : CoordClient :=
    ⟨hello.state, virtualPid, [], outgoing, ⟨.running, !hello.greets, compId, 0, none, false⟩⟩
  if coordinator.workersRunningAndSuspendMsgSent then
    if status.numPeers > 0 ∧ status.minimumState ≠ .suspended then
      .ok (some (coordinator, client coordinator.compId [⟨.doSuspend, coordinator.compId, 0⟩]))
    else .error .coordinator
  else if status.numPeers > 0 ∧ status.minimumState ≠ .running ∧
      status.minimumState ≠ .unknown then .ok none
  else if ¬ hello.compGroup.Same .zero then .ok none
  else if coordinator.compId.Same .zero then
    let compId := { hello.sender with pid := virtualPid }
    .ok (some ({ coordinator with compId := compId, numPeers := -1 }, client compId []))
  else .ok (some (coordinator, client coordinator.compId []))

/-- `validateRestartingWorkerProcess`. The process is one that an image has been made into. -/
def validateRestartingWorkerProcess (coordinator : Coordinator) (hello : Hello) :
    Except Fault (Option (Coordinator × CoordClient)) :=
  let client : CoordClient := ⟨hello.state, hello.sender.pid, [], [],
    ⟨.restarting, false, hello.compGroup, hello.numPeers,
      some ⟨hello.compGroup, hello.numPeers⟩, false⟩⟩
  if hello.state ≠ .restarting then .error .coordinator
  else if coordinator.compId.Same .zero then
    if coordinator.minimumState = .unknown then
      .ok (some ({ coordinator with compId := hello.compGroup, numPeers := hello.numPeers },
        client))
    else .error .coordinator
  else if coordinator.minimumState ≠ .restarting ∧ coordinator.minimumState ≠ .checkpointed then
    .ok none
  else if ¬ hello.compGroup.Same coordinator.compId then .ok none
  else .ok (some (coordinator, client))

/-- What `onConnect` does with an accepted client. -/
def addClient (coordinator : Coordinator) (hello : Hello) (client : CoordClient) : Coordinator :=
  { coordinator.updateCheckpointInterval hello.theCheckpointInterval with
    clients := coordinator.clients ++ [client]
    virtualPids := coordinator.virtualPids.insert client.virtualPid }

/-- The part of `onConnect` before a process is looked at. -/
def prepare (coordinator : Coordinator) : Coordinator :=
  if coordinator.clients.length = 0 then coordinator.initializeComputation else coordinator

/-- `onConnect` for `DMT_NEW_WORKER`. -/
def connectNewWorker (coordinator : Coordinator) (hello : Hello) : Except Fault Coordinator :=
  if coordinator.killInProgress then .ok coordinator
  else if hello.state ≠ .running ∧ hello.state ≠ .unknown then .error .coordinator
  else do
    let (virtualPid, coordinator) ← coordinator.prepare.getNewVirtualPid
    match ← coordinator.validateNewWorkerProcess hello virtualPid with
    | none => .ok coordinator
    | some (coordinator, client) => .ok (coordinator.addClient hello client)

/-- `onConnect` for `DMT_RESTART_WORKER`. -/
def connectRestartWorker (coordinator : Coordinator) (hello : Hello) :
    Except Fault Coordinator :=
  if coordinator.killInProgress then .ok coordinator
  else do
    match ← coordinator.prepare.validateRestartingWorkerProcess hello with
    | none => .ok coordinator.prepare
    | some (coordinator, client) =>
      .ok { coordinator.addClient hello client with isRestarting := true }

/-- `onDisconnect`, with the client already off the list. -/
def onDisconnect (coordinator : Coordinator) (client : CoordClient) : Coordinator :=
  let coordinator := { coordinator with
    virtualPids := coordinator.virtualPids.erase client.virtualPid }
  if coordinator.getStatus.numPeers < 1 then
    if coordinator.exitOnLast then coordinator.quit
    else { coordinator with
      killInProgress := false
      theCheckpointInterval := coordinator.theDefaultCheckpointInterval }
  else coordinator.updateMinimumState client.state

/-- `onData` for a `DMT_OK`. -/
def onData (coordinator : Coordinator) (index : Nat) (client : CoordClient) (state : WorkerState)
    (rest : List WorkerState) : Coordinator :=
  ({ coordinator with
      clients := coordinator.clients.set index { client with state := state, incoming := rest } } :
    Coordinator).updateMinimumState client.state

end Coordinator

/-! ### Runs -/

/-- One thing that happens. A client is named by its position in the list. -/
inductive Action
  | newWorker (hello : Hello)
  | restartWorker (hello : Hello)
  | command (remote : Nat) (coordCmd : Char) (interval : Option Nat)
  | timeout
  | read (index : Nat)
  | disconnect (index : Nat)
  | receive (index : Nat)
  | report (index : Nat)
  deriving DecidableEq, Repr

/-- What happens to a client that is there; an action for nobody changes nothing. -/
def Coordinator.withClient (coordinator : Coordinator) (index : Nat)
    (change : CoordClient → Except Fault Coordinator) : Except Fault Coordinator :=
  match coordinator.clients[index]? with
  | none => .ok coordinator
  | some client => change client

/-- The process at the other end reads an order, when it waits for one and there is one. -/
def CoordClient.receive (client : CoordClient) : Except Fault CoordClient :=
  match client.outgoing with
  | [] => .ok client
  | message :: rest =>
    if client.worker.exited = false ∧ client.worker.reported = true then do
      let worker ← client.worker.receive message
      .ok { client with worker := worker, outgoing := rest }
    else .ok client

/-- The process at the other end sends its `DMT_OK`, when it has one to send. -/
def CoordClient.report (client : CoordClient) : CoordClient :=
  if client.worker.exited = false ∧ client.worker.reported = false then
    { client with
      worker := client.worker.report
      incoming := client.incoming ++ [client.worker.reports] }
  else client

/-- The coordinator or one of the processes does something. -/
def step (coordinator : Coordinator) : Action → Except Fault Coordinator
  | .newWorker hello => coordinator.connectNewWorker hello
  | .restartWorker hello => coordinator.connectRestartWorker hello
  | .command remote coordCmd interval =>
    .ok ((coordinator.updateCheckpointInterval interval).processDmtUserCmd remote coordCmd)
  | .timeout => .ok coordinator.onTimeoutInterval
  | .read index => coordinator.withClient index fun client => match client.incoming with
    | [] => .ok coordinator
    | state :: rest => .ok (coordinator.onData index client state rest)
  | .disconnect index => coordinator.withClient index fun client =>
    .ok (({ coordinator with clients := coordinator.clients.eraseIdx index } :
      Coordinator).onDisconnect client)
  | .receive index => coordinator.withClient index fun client => do
    let client ← client.receive
    .ok { coordinator with clients := coordinator.clients.set index client }
  | .report index => coordinator.withClient index fun client =>
    .ok { coordinator with clients := coordinator.clients.set index client.report }

/-- The same, until the coordinator has ended. -/
def act (coordinator : Coordinator) (action : Action) : Except Fault Coordinator :=
  if coordinator.exited then .ok coordinator else step coordinator action

end ClusterJobs.Dmtcp
