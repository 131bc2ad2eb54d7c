/-
This file proves what holds in every run of the coordinator and its processes.

`Sound` is kept by everything that can happen, in any order, as long as those who join keep to a
promise (`Orderly`): a new process says it is running, there are fewer processes than virtual pids,
and the images of one checkpoint are restarted together and once each. Without the promise the code
has nothing to hold on to. It takes the word of a process for the state it is in, and it counts the
processes that have come back without looking at who they are.
-/

import ClusterJobs.Barrier
import ClusterJobs.VirtualPids

namespace ClusterJobs.Dmtcp

variable {coordinator next : Coordinator} {left : WorkerState} {restarted : Nat}

/-! ### What a round depends on -/

theorem Round.congr (round : Round left restarted coordinator)
    (clients : next.clients = coordinator.clients) (compId : next.compId = coordinator.compId)
    (sent : next.workersRunningAndSuspendMsgSent = coordinator.workersRunningAndSuspendMsgSent)
    (numPeers : next.numPeers = coordinator.numPeers)
    (isRestarting : next.isRestarting = coordinator.isRestarting) :
    Round left restarted next where
  nonempty := clients ▸ round.nonempty
  identified := compId ▸ round.identified
  known := round.known
  member := by
    rw [clients, compId]
    exact round.member
  suspends := sent ▸ round.suspends
  settled := numPeers ▸ round.settled
  resumed := by
    rw [isRestarting, numPeers]
    exact round.resumed
  rejoining := by
    rw [isRestarting, clients, numPeers]
    exact round.rejoining

theorem Behind.congr (behind : Behind left coordinator)
    (clients : next.clients = coordinator.clients)
    (numPeers : next.numPeers = coordinator.numPeers) : Behind left next := by
  unfold Behind
  rw [clients, numPeers]
  exact behind

/-- What the coordinator knows besides the round does not matter. -/
theorem Sound.congr (sound : Sound restarted coordinator)
    (clients : next.clients = coordinator.clients) (compId : next.compId = coordinator.compId)
    (sent : next.workersRunningAndSuspendMsgSent = coordinator.workersRunningAndSuspendMsgSent)
    (numPeers : next.numPeers = coordinator.numPeers)
    (isRestarting : next.isRestarting = coordinator.isRestarting)
    (kill : next.killInProgress = coordinator.killInProgress) : Sound restarted next := by
  cases sound with
  | alone nobody => exact .alone (clients.trans nobody)
  | doomed left killed settled doomed =>
    exact .doomed left (kill.trans killed) (numPeers ▸ settled) (clients ▸ doomed)
  | lockstep left spared lockstep =>
    exact .lockstep left (kill.trans spared)
      ⟨lockstep.toRound.congr clients compId sent numPeers isRestarting,
        lockstep.behind.congr clients numPeers⟩

/-- Something happens to one client, and it is still in the round. -/
theorem Round.set (round : Round left restarted coordinator) {index : Nat} {client : CoordClient}
    (member : Member left coordinator.compId client) :
    Round left restarted { coordinator with clients := coordinator.clients.set index client } where
  nonempty := by simpa using round.nonempty
  identified := round.identified
  known := round.known
  member := by
    intro other found
    rcases List.mem_or_eq_of_mem_set found with before | rfl
    · exact round.member other before
    · exact member
  suspends := round.suspends
  settled := round.settled
  resumed := round.resumed
  rejoining := by simpa using round.rejoining

/-- The one that it happens to is not further than before. -/
theorem Behind.set (behind : Behind left coordinator) {index : Nat} {client after : CoordClient}
    (there : coordinator.clients[index]? = some client) (same : after.state = client.state) :
    Behind left { coordinator with clients := coordinator.clients.set index after } := by
  rcases behind with last | lowest | ⟨restarting, missing⟩
  · exact .inl last
  · refine .inr (.inl (List.mem_map.mp ?_))
    rw [map_set_eq_map CoordClient.state there same]
    exact List.mem_map.mpr lowest
  · exact .inr (.inr ⟨restarting, by simpa using missing⟩)

/-- A client leaves, and others stay. -/
theorem Round.erase (round : Round left restarted coordinator) {index : Nat}
    {virtualPids : List Nat} (others : coordinator.clients.eraseIdx index ≠ []) :
    Round left restarted { coordinator with
      clients := coordinator.clients.eraseIdx index, virtualPids := virtualPids } where
  nonempty := others
  identified := round.identified
  known := round.known
  member := fun other found => round.member other (List.mem_of_mem_eraseIdx found)
  suspends := round.suspends
  settled := round.settled
  resumed := round.resumed
  rejoining := by
    intro restarting
    obtain ⟨flag, bound, total⟩ := round.rejoining restarting
    exact ⟨flag, le_trans (List.length_eraseIdx_le _ _) bound, total⟩

/-- The one that leaves was not behind. -/
theorem Behind.erase (behind : Behind left coordinator) {index : Nat} {client : CoordClient}
    {virtualPids : List Nat} (there : coordinator.clients[index]? = some client)
    (other : client.state ≠ left) :
    Behind left { coordinator with
      clients := coordinator.clients.eraseIdx index, virtualPids := virtualPids } := by
  rcases behind with last | ⟨lowest, found, here⟩ | ⟨restarting, missing⟩
  · exact .inl last
  · refine .inr (.inl ⟨lowest, ?_, here⟩)
    obtain ⟨position, place⟩ := List.mem_iff_getElem?.mp found
    refine List.mem_eraseIdx_iff_getElem?.mpr ⟨position, ?_, place⟩
    rintro rfl
    rw [there] at place
    exact other (by rw [Option.some.inj place, here])
  · refine .inr (.inr ⟨restarting, lt_of_le_of_lt ?_ missing⟩)
    exact_mod_cast List.length_eraseIdx_le _ _

/-! ### Orders -/

/-- The coordinator may have sent something to everyone; nothing else has happened to the
clients. -/
structure Follows (before after : Coordinator) : Prop where
  clients : ∃ messages, after.clients = before.clients.map fun client =>
    { client with outgoing := client.outgoing ++ messages }
  killed : before.killInProgress = true → after.killInProgress = true
  numPeers : after.numPeers = before.numPeers
  virtualPids : after.virtualPids = before.virtualPids
  nextVirtualPid : after.nextVirtualPid = before.nextVirtualPid

theorem follows_self (coordinator : Coordinator) : Follows coordinator coordinator :=
  ⟨⟨[], by simp⟩, id, rfl, rfl, rfl⟩

theorem follows_broadcastMessage (coordinator : Coordinator) (type : DmtcpMessageType)
    (numPeers : Nat) : Follows coordinator (coordinator.broadcastMessage type numPeers) :=
  ⟨⟨_, rfl⟩, fun killed => by simp [Coordinator.broadcastMessage, killed], rfl, rfl, rfl⟩

theorem follows_resumeAll (coordinator : Coordinator) :
    Follows coordinator coordinator.resumeAll := by
  obtain ⟨clients, killed, numPeers, virtualPids, nextVirtualPid⟩ :=
    follows_broadcastMessage coordinator .doResume 0
  unfold Coordinator.resumeAll
  dsimp only
  split <;> exact ⟨clients, killed, numPeers, virtualPids, nextVirtualPid⟩

theorem follows_updateMinimumState (coordinator : Coordinator) (oldState : WorkerState) :
    Follows coordinator (coordinator.updateMinimumState oldState) := by
  unfold Coordinator.updateMinimumState
  split
  case h_4 =>
    split
    · obtain ⟨clients, killed, numPeers, virtualPids, nextVirtualPid⟩ :=
        follows_broadcastMessage coordinator .killPeer 0
      exact ⟨clients, killed, numPeers, virtualPids, nextVirtualPid⟩
    · exact follows_broadcastMessage coordinator _ 0
  case h_8 => exact follows_resumeAll coordinator
  case h_9 => exact follows_self coordinator
  all_goals exact follows_broadcastMessage coordinator _ _

theorem follows_startCheckpoint (coordinator : Coordinator) :
    Follows coordinator coordinator.startCheckpoint.1 := by
  unfold Coordinator.startCheckpoint
  dsimp only
  split
  · exact ⟨⟨_, rfl⟩, fun killed => by simp [Coordinator.broadcastMessage, killed], rfl, rfl, rfl⟩
  · exact follows_self coordinator

theorem Follows.pidMap (follows : Follows coordinator next) (pids : PidMap coordinator) :
    PidMap next := by
  obtain ⟨messages, clients⟩ := follows.clients
  refine pids.congr follows.virtualPids ?_ follows.nextVirtualPid
  rw [clients, List.map_map]
  rfl

theorem Follows.alone (follows : Follows coordinator next) (nobody : coordinator.clients = []) :
    next.clients = [] := by
  obtain ⟨messages, clients⟩ := follows.clients
  rw [clients, nobody, List.map_nil]

/-- When there is nobody, or everyone is about to end, orders make no difference. -/
theorem Follows.sound (follows : Follows coordinator next) (sound : Sound restarted coordinator)
    (finished : coordinator.killInProgress = true ∨ coordinator.clients = []) :
    Sound restarted next := by
  cases sound with
  | alone nobody => exact .alone (follows.alone nobody)
  | doomed left killed settled doomed =>
    refine .doomed left (follows.killed killed) (follows.numPeers.symm ▸ settled)
      fun client found => ?_
    obtain ⟨messages, clients⟩ := follows.clients
    rw [clients] at found
    obtain ⟨before, isClient, rfl⟩ := List.mem_map.mp found
    exact (doomed before isClient).append messages
  | lockstep left spared lockstep =>
    rcases finished with killed | nobody
    · rw [spared] at killed
      cases killed
    · exact absurd nobody lockstep.nonempty

/-! ### What happens to one client -/

/-- Something happens at the other end of a connection that leaves the record alone. -/
theorem Sound.set (sound : Sound restarted coordinator) {index : Nat}
    {client after : CoordClient} (there : coordinator.clients[index]? = some client)
    (same : after.state = client.state)
    (doomed : ∀ left, Doomed left client → Doomed left after)
    (member : ∀ left compId, Member left compId client → Member left compId after) :
    Sound restarted { coordinator with clients := coordinator.clients.set index after } := by
  have isClient : client ∈ coordinator.clients := List.mem_of_getElem? there
  cases sound with
  | alone nobody =>
    rw [nobody] at isClient
    cases isClient
  | doomed left killed settled all =>
    refine .doomed left killed settled fun other found => ?_
    rcases List.mem_or_eq_of_mem_set found with before | rfl
    · exact all other before
    · exact doomed left (all client isClient)
  | lockstep left spared lockstep =>
    exact .lockstep left spared
      ⟨lockstep.toRound.set (member _ _ (lockstep.member client isClient)),
        lockstep.behind.set there same⟩

theorem Sound.report (sound : Sound restarted coordinator) {index : Nat} {client : CoordClient}
    (there : coordinator.clients[index]? = some client) :
    Sound restarted
      { coordinator with clients := coordinator.clients.set index client.report } := by
  refine sound.set there ?_ (fun _ doomed => doomed.report.1) fun _ _ member => member.report.1
  unfold CoordClient.report
  split <;> rfl

/-- No process reads an order that it does not wait for. -/
theorem Sound.receive (sound : Sound restarted coordinator) {index : Nat} {client : CoordClient}
    (there : coordinator.clients[index]? = some client) :
    ∃ after, client.receive = .ok after ∧ after.virtualPid = client.virtualPid ∧
      Sound restarted { coordinator with clients := coordinator.clients.set index after } := by
  have isClient : client ∈ coordinator.clients := List.mem_of_getElem? there
  have kept : ∀ after, client.receive = .ok after →
      after.virtualPid = client.virtualPid ∧ after.state = client.state := by
    intro after received
    unfold CoordClient.receive at received
    split at received
    · cases received
      exact ⟨rfl, rfl⟩
    · split at received
      · cases reply : client.worker.receive _ with
        | error fault => rw [reply] at received; cases received
        | ok worker => rw [reply] at received; cases received; exact ⟨rfl, rfl⟩
      · cases received
        exact ⟨rfl, rfl⟩
  have succeeds : ∃ after, client.receive = .ok after := by
    cases sound with
    | alone nobody =>
      rw [nobody] at isClient
      cases isClient
    | doomed left killed settled all =>
      obtain ⟨after, received, -⟩ := (all client isClient).receive
      exact ⟨after, received⟩
    | lockstep left spared lockstep =>
      obtain ⟨after, received, -⟩ := (lockstep.member client isClient).receive
      exact ⟨after, received⟩
  obtain ⟨after, received⟩ := succeeds
  obtain ⟨pid, state⟩ := kept after received
  refine ⟨after, received, pid, sound.set there state (fun left doomed => ?_)
    fun left compId member => ?_⟩
  · obtain ⟨other, receivedToo, isDoomed, -⟩ := doomed.receive
    rw [received] at receivedToo
    cases receivedToo
    exact isDoomed
  · obtain ⟨other, receivedToo, isMember, -⟩ := member.receive
    rw [received] at receivedToo
    cases receivedToo
    exact isMember

theorem Doomed.read {client : CoordClient} (doomed : Doomed left client) (state : WorkerState)
    (rest : List WorkerState) :
    Doomed left { client with state := state, incoming := rest } := doomed

/-- The coordinator reads a `DMT_OK`. -/
theorem Sound.onData (sound : Sound restarted coordinator) {index : Nat} {client : CoordClient}
    {state : WorkerState} {rest : List WorkerState}
    (there : coordinator.clients[index]? = some client)
    (queue : client.incoming = state :: rest) :
    Sound restarted (coordinator.onData index client state rest) := by
  have isClient : client ∈ coordinator.clients := List.mem_of_getElem? there
  unfold Coordinator.onData
  cases sound with
  | alone nobody =>
    rw [nobody] at isClient
    cases isClient
  | doomed left killed settled all =>
    refine (follows_updateMinimumState _ client.state).sound
      (.doomed left killed settled fun other found => ?_) (.inl killed)
    rcases List.mem_or_eq_of_mem_set found with before | rfl
    · exact all other before
    · exact (all client isClient).read state rest
  | lockstep left spared lockstep =>
    obtain ⟨member, moved⟩ := (lockstep.member client isClient).read queue
    refine (lockstep.toRound.set member).sound spared ?_
    rcases moved with same | ⟨here, -⟩
    · rcases (lockstep.member client isClient).state with here | here
      · exact .inl here
      · exact .inr ⟨here, lockstep.behind.set there same⟩
    · exact .inl here

/-- A connection is lost. -/
theorem Sound.onDisconnect (sound : Sound restarted coordinator) {index : Nat}
    {client : CoordClient} (there : coordinator.clients[index]? = some client) :
    Sound restarted (({ coordinator with clients := coordinator.clients.eraseIdx index } :
      Coordinator).onDisconnect client) := by
  have isClient : client ∈ coordinator.clients := List.mem_of_getElem? there
  unfold Coordinator.onDisconnect
  dsimp only
  rw [Coordinator.numPeers_getStatus]
  by_cases others : coordinator.clients.eraseIdx index = []
  · rw [if_pos (by simp [others])]
    split
    · exact .alone (by simp [Coordinator.quit, Coordinator.broadcastMessage, others])
    · exact .alone others
  · rw [if_neg (by simpa [List.length_eq_zero_iff] using others)]
    cases sound with
    | alone nobody =>
      rw [nobody] at isClient
      cases isClient
    | doomed left killed settled all =>
      exact (follows_updateMinimumState _ client.state).sound
        (.doomed left killed settled fun other found => all other (List.mem_of_mem_eraseIdx found))
        (.inl killed)
    | lockstep left spared lockstep =>
      refine (lockstep.toRound.erase others).sound spared ?_
      rcases (lockstep.member client isClient).state with here | here
      · exact .inl here
      · exact .inr ⟨here, lockstep.behind.erase there (here ▸ next_ne_self left)⟩

theorem PidMap.onDisconnect (pids : PidMap coordinator) {index : Nat} {client : CoordClient}
    (there : coordinator.clients[index]? = some client) :
    PidMap (({ coordinator with clients := coordinator.clients.eraseIdx index } :
      Coordinator).onDisconnect client) := by
  have erased := pids.erase there
  unfold Coordinator.onDisconnect
  dsimp only
  split
  · split
    · exact ((follows_broadcastMessage _ .killPeer 0).pidMap erased).congr rfl rfl rfl
    · exact erased.congr rfl rfl rfl
  · exact (follows_updateMinimumState _ client.state).pidMap erased

/-! ### Commands -/

/-- A process that runs is told to stop, for a checkpoint of a new generation. -/
theorem Member.suspend {client : CoordClient} (member : Member .refilled coordinator.compId client)
    (running : client.state = .running) (message : DmtcpMessage)
    (type : message.type = .doSuspend) (same : message.compGroup.Same coordinator.compId) :
    Member .running message.compGroup
      { client with outgoing := client.outgoing ++ [message] } := by
  have idle := member.idle running
  refine ⟨.inl ⟨running, idle.going message (by rw [running, type]; rfl)⟩, member.alive, ?_, ?_, ?_,
    member.saved⟩
  · intro other found
    rw [idle.outgoing, List.nil_append, List.mem_singleton] at found
    rw [found]
  · exact ⟨member.group.1.trans same.1.symm, member.group.2.1.trans same.2.1.symm,
      member.group.2.2.trans same.2.2.symm⟩
  · intro other
    exact absurd (idle.state.trans running) other

/-- `startCheckpoint` when everyone runs. -/
theorem Round.suspend (round : Round .refilled restarted coordinator)
    (running : ∀ client ∈ coordinator.clients, client.state = .running) (compId : UniquePid)
    (same : compId.Same coordinator.compId) :
    Lockstep .running restarted
      { ({ coordinator with compId := compId } : Coordinator).broadcastMessage .doSuspend 0 with
        workersRunningAndSuspendMsgSent := true } := by
  refine ⟨⟨?_, ?_, by decide, ?_, by simp, fun _ => round.settled (by decide),
    fun _ => round.resumed (by decide), by simp⟩, ?_⟩
  · simpa [Coordinator.broadcastMessage] using round.nonempty
  · intro zero
    exact round.identified ⟨same.1.symm.trans zero.1, same.2.1.symm.trans zero.2.1,
      same.2.2.symm.trans zero.2.2⟩
  · intro client found
    obtain ⟨before, isClient, rfl⟩ := List.mem_map.mp found
    exact (round.member before isClient).suspend (running before isClient)
      ⟨.doSuspend, compId, 0⟩ rfl same
  · obtain ⟨client, found⟩ := List.exists_mem_of_ne_nil _ round.nonempty
    exact .inr (.inl ⟨_, List.mem_map.mpr ⟨client, found, rfl⟩, running client found⟩)

/-- A checkpoint is started only when everyone runs, and then everyone is told. -/
theorem Sound.startCheckpoint (sound : Sound restarted coordinator) :
    Sound restarted coordinator.startCheckpoint.1 := by
  by_cases finished : coordinator.killInProgress = true ∨ coordinator.clients = []
  · exact (follows_startCheckpoint coordinator).sound sound finished
  cases sound with
  | alone nobody => exact absurd (.inr nobody) finished
  | doomed left killed => exact absurd (.inl killed) finished
  | lockstep left spared lockstep =>
    unfold Coordinator.startCheckpoint
    dsimp only
    split
    · rename_i ready
      obtain ⟨least, unanimous, silent⟩ := ready
      have notRunning : left ≠ .running := fun running => by
        rw [lockstep.suspends.mpr running] at silent
        cases silent
      have last : left = .refilled := by
        by_contra other
        rcases lockstep.toRound.minimumState_of_behind lockstep.behind other with same | same
        · exact notRunning (same.symm.trans least)
        · exact absurd (same.symm.trans least) (by decide)
      subst last
      have running : ∀ client ∈ coordinator.clients, client.state = .running := by
        intro client found
        refine (lockstep.member client found).state.resolve_left fun refilled => ?_
        have all : ∀ other ∈ coordinator.clients,
            other.state = .refilled ∨ other.state = .refilled := fun other foundOther =>
          .inl ((coordinator.unanimous_getStatus.mp unanimous other foundOther client found).trans
            refilled)
        rw [← Coordinator.minimumState,
          minimumState_of_two .refilled .refilled le_rfl all ⟨client, found, refilled⟩] at least
        cases least
      refine .lockstep .running ?_ (lockstep.toRound.suspend running _ ⟨rfl, rfl, rfl⟩)
      simpa [Coordinator.broadcastMessage] using spared
    · exact .lockstep left spared lockstep

theorem Sound.kill (sound : Sound restarted coordinator) :
    Sound restarted (coordinator.broadcastMessage .killPeer 0) := by
  by_cases finished : coordinator.killInProgress = true ∨ coordinator.clients = []
  · exact (follows_broadcastMessage coordinator _ _).sound sound finished
  cases sound with
  | alone nobody => exact absurd (.inr nobody) finished
  | doomed left killed => exact absurd (.inl killed) finished
  | lockstep left spared lockstep =>
    obtain ⟨killed, doomed⟩ := lockstep.toRound.doom 0
    exact .doomed left killed lockstep.settled doomed

/-- What a command can do. -/
inductive Commanded (coordinator : Coordinator) : Coordinator → Prop
  | nothing : Commanded coordinator coordinator
  | block : Commanded coordinator { coordinator with blockUntilDone := true }
  | exit : Commanded coordinator { coordinator with exitAfterCkpt := true }
  | checkpoint : Commanded coordinator coordinator.startCheckpoint.1
  | kill : Commanded coordinator (coordinator.broadcastMessage .killPeer 0)
  | quit : Commanded coordinator coordinator.quit

theorem commanded_handleUserCommand (coordinator : Coordinator) (cmd : Char) :
    Commanded coordinator (coordinator.handleUserCommand cmd).1 := by
  unfold Coordinator.handleUserCommand
  split
  case h_5 | h_6 =>
    dsimp only
    split <;> exact .checkpoint
  all_goals first
    | exact .nothing
    | exact .block
    | exact .exit
    | exact .kill
    | exact .quit

theorem Commanded.follows (commanded : Commanded coordinator next) : Follows coordinator next := by
  cases commanded with
  | nothing => exact follows_self coordinator
  | block | exit => exact ⟨⟨[], by simp⟩, id, rfl, rfl, rfl⟩
  | checkpoint => exact follows_startCheckpoint coordinator
  | kill => exact follows_broadcastMessage coordinator .killPeer 0
  | quit =>
    obtain ⟨clients, killed, numPeers, virtualPids, nextVirtualPid⟩ :=
      follows_broadcastMessage coordinator .killPeer 0
    exact ⟨clients, killed, numPeers, virtualPids, nextVirtualPid⟩

theorem Commanded.sound (commanded : Commanded coordinator next)
    (sound : Sound restarted coordinator) : Sound restarted next := by
  cases commanded with
  | nothing => exact sound
  | block | exit => exact sound.congr rfl rfl rfl rfl rfl rfl
  | checkpoint => exact sound.startCheckpoint
  | kill => exact sound.kill
  | quit => exact sound.kill.congr rfl rfl rfl rfl rfl rfl

/-- A command from `dmtcp_command`: what it does is done to the coordinator as it was, apart from
who is to get an answer. -/
theorem processDmtUserCmd_cases (coordinator : Coordinator) (remote : Nat) (coordCmd : Char) :
    ∃ waiting commanded replies,
      Commanded { coordinator with blockUntilDoneRemote := waiting } commanded ∧
      coordinator.processDmtUserCmd remote coordCmd = { commanded with replies := replies } := by
  unfold Coordinator.processDmtUserCmd
  split
  · exact ⟨_, _, _, commanded_handleUserCommand _ coordCmd, rfl⟩
  · refine ⟨coordinator.blockUntilDoneRemote, _,
      if (coordinator.handleUserCommand coordCmd).1.exited then
        (coordinator.handleUserCommand coordCmd).1.replies
      else (coordinator.handleUserCommand coordCmd).1.replies ++
        [(remote, (coordinator.handleUserCommand coordCmd).2)],
      commanded_handleUserCommand coordinator coordCmd, ?_⟩
    dsimp only
    split <;> rfl

theorem Sound.processDmtUserCmd (sound : Sound restarted coordinator) (remote : Nat)
    (coordCmd : Char) : Sound restarted (coordinator.processDmtUserCmd remote coordCmd) := by
  obtain ⟨waiting, commanded, replies, isCommand, result⟩ :=
    processDmtUserCmd_cases coordinator remote coordCmd
  rw [result]
  exact (isCommand.sound (sound.congr rfl rfl rfl rfl rfl rfl)).congr rfl rfl rfl rfl rfl rfl

theorem PidMap.processDmtUserCmd (pids : PidMap coordinator) (remote : Nat) (coordCmd : Char) :
    PidMap (coordinator.processDmtUserCmd remote coordCmd) := by
  obtain ⟨waiting, commanded, replies, isCommand, result⟩ :=
    processDmtUserCmd_cases coordinator remote coordCmd
  rw [result]
  exact (isCommand.follows.pidMap (pids.congr rfl rfl rfl)).congr rfl rfl rfl

/-! ### Those who join -/

theorem same_refl (compId : UniquePid) : compId.Same compId := ⟨rfl, rfl, rfl⟩

/-- A new process, as it is put on the list. -/
def newClient (virtualPid : Nat) (greets : Bool) (compId : UniquePid)
    (outgoing : List DmtcpMessage) : CoordClient :=
  ⟨.running, virtualPid, [], outgoing, ⟨.running, !greets, compId, 0, none, false⟩⟩

theorem idle_newClient (virtualPid : Nat) (greets : Bool) (compId : UniquePid) :
    Idle (newClient virtualPid greets compId []) := by
  cases greets with
  | false => exact .waiting rfl rfl (.inl rfl) rfl
  | true => exact .new rfl rfl rfl rfl rfl

/-- It joins a computation that runs. -/
theorem member_newClient (virtualPid : Nat) (greets : Bool) (compId : UniquePid) :
    Member .refilled compId (newClient virtualPid greets compId []) where
  place := .inr ⟨rfl, idle_newClient virtualPid greets compId⟩
  alive := rfl
  stamped := fun message found => absurd found (List.not_mem_nil)
  group := same_refl compId
  joined := fun other => absurd rfl other
  saved := by simp [Saved, newClient]

/-- It joins one that has just been told to stop, and is told as well. -/
theorem member_newClient_suspend (virtualPid : Nat) (greets : Bool) (compId : UniquePid) :
    Member .running compId
      (newClient virtualPid greets compId [⟨.doSuspend, compId, 0⟩]) where
  place := .inl ⟨rfl, (idle_newClient virtualPid greets compId).going
    ⟨.doSuspend, compId, 0⟩ rfl⟩
  alive := rfl
  stamped := by simp [newClient]
  group := same_refl compId
  joined := fun other => absurd rfl other
  saved := by simp [Saved, newClient]

/-- A process made from an image, as it is put on the list. -/
def restartedClient (hello : Hello) : CoordClient :=
  ⟨.restarting, hello.sender.pid, [], [], ⟨.restarting, false, hello.compGroup, hello.numPeers,
    some ⟨hello.compGroup, hello.numPeers⟩, false⟩⟩

theorem member_restartedClient (hello : Hello) :
    Member .restarting hello.compGroup (restartedClient hello) where
  place := .inl ⟨rfl, .working rfl (iff_of_true rfl rfl) rfl (.inl rfl) rfl⟩
  alive := rfl
  stamped := fun message found => absurd found (List.not_mem_nil)
  group := same_refl hello.compGroup
  joined := fun _ => rfl
  saved := by simp [Saved, restartedClient]

/-- One more member. -/
theorem Lockstep.join (lockstep : Lockstep left restarted coordinator) {hello : Hello}
    {client : CoordClient} (member : Member left coordinator.compId client) {joined : Nat}
    (count : restarted ≤ joined)
    (isRestarting : left = .restarting → client.state = .restarting ∧ restarted < joined ∧
      (joined : Int) ≤ coordinator.numPeers) :
    Lockstep left joined (coordinator.addClient hello client) := by
  refine ⟨⟨?_, lockstep.identified, lockstep.known, ?_, lockstep.suspends, ?_, lockstep.resumed,
    ?_⟩, ?_⟩
  · simp [Coordinator.addClient]
  · intro other found
    rcases List.mem_append.mp found with before | last
    · exact lockstep.member other before
    · rw [List.mem_singleton.mp last]
      exact member
  · intro other
    have bound : coordinator.numPeers ≤ (restarted : Int) := lockstep.settled other
    show coordinator.numPeers ≤ (joined : Int)
    omega
  · intro restarting
    obtain ⟨flag, length, -⟩ := lockstep.rejoining restarting
    obtain ⟨-, more, total⟩ := isRestarting restarting
    refine ⟨flag, ?_, total⟩
    show (coordinator.clients ++ [client]).length ≤ joined
    rw [List.length_append, List.length_singleton]
    omega
  · rcases lockstep.behind with last | ⟨lowest, found, here⟩ | ⟨restarting, -⟩
    · exact .inl last
    · exact .inr (.inl ⟨lowest, List.mem_append_left _ found, here⟩)
    · refine .inr (.inl ⟨client, List.mem_append_right _ (List.mem_singleton_self client), ?_⟩)
      rw [(isRestarting restarting).1, restarting]

/-- The first process of a computation. -/
theorem lockstep_newClient {hello : Hello} {virtualPid : Nat}
    (nobody : coordinator.clients = []) (isPid : virtualPid ≠ 0)
    (silent : coordinator.workersRunningAndSuspendMsgSent = false)
    (compId : coordinator.compId = { hello.sender with pid := virtualPid })
    (numPeers : coordinator.numPeers = -1) :
    Lockstep .refilled restarted (coordinator.addClient hello
      (newClient virtualPid hello.greets coordinator.compId [])) where
  nonempty := by simp [Coordinator.addClient]
  identified := by
    intro zero
    have pid := zero.2.1
    rw [show (coordinator.addClient hello _).compId = coordinator.compId from rfl, compId] at pid
    exact isPid pid
  known := by decide
  member := by
    intro client found
    simp only [Coordinator.addClient, nobody, List.nil_append, List.mem_singleton] at found
    rw [found]
    exact member_newClient virtualPid hello.greets coordinator.compId
  suspends := by simp [Coordinator.addClient, Coordinator.updateCheckpointInterval, silent]
  settled := by
    intro _
    show coordinator.numPeers ≤ _
    omega
  resumed := fun _ => .inr numPeers
  rejoining := by simp
  behind := .inl rfl

/-- The first process of a restart. -/
theorem lockstep_restartedClient {hello : Hello} (nobody : coordinator.clients = [])
    (silent : coordinator.workersRunningAndSuspendMsgSent = false)
    (identified : ¬ hello.compGroup.Same .zero) (somebody : 0 < hello.numPeers)
    (compId : coordinator.compId = hello.compGroup)
    (numPeers : coordinator.numPeers = hello.numPeers) :
    Lockstep .restarting 1
      { coordinator.addClient hello (restartedClient hello) with isRestarting := true } where
  nonempty := by simp [Coordinator.addClient]
  identified := by
    show ¬ coordinator.compId.Same .zero
    rw [compId]
    exact identified
  known := by decide
  member := by
    intro client found
    simp only [Coordinator.addClient, nobody, List.nil_append, List.mem_singleton] at found
    rw [found]
    show Member .restarting coordinator.compId _
    rw [compId]
    exact member_restartedClient hello
  suspends := by simp [Coordinator.addClient, Coordinator.updateCheckpointInterval, silent]
  settled := fun other => absurd rfl other
  resumed := fun outside => absurd (by decide) outside
  rejoining := by
    intro _
    refine ⟨rfl, by simp [Coordinator.addClient, nobody], ?_⟩
    show ((1 : Nat) : Int) ≤ coordinator.numPeers
    rw [numPeers]
    omega
  behind := .inr (.inl ⟨restartedClient hello, by simp [Coordinator.addClient], rfl⟩)

/-- A process that comes first is sent away, or begins a computation. -/
theorem validateNewWorkerProcess_of_nil (coordinator : Coordinator) {hello : Hello}
    (virtualPid : Nat)
    (isRunning : hello.state = .running) (nobody : coordinator.clients = [])
    (silent : coordinator.workersRunningAndSuspendMsgSent = false)
    (compId : coordinator.compId = .zero) :
    coordinator.validateNewWorkerProcess hello virtualPid = .ok none ∨
      coordinator.validateNewWorkerProcess hello virtualPid = .ok (some
        ({ coordinator with compId := { hello.sender with pid := virtualPid }, numPeers := -1 },
          newClient virtualPid hello.greets { hello.sender with pid := virtualPid } [])) := by
  have nobodyCounted : ¬ (coordinator.getStatus.numPeers > 0 ∧
      coordinator.getStatus.minimumState ≠ .running ∧
      coordinator.getStatus.minimumState ≠ .unknown) := by
    rw [Coordinator.numPeers_getStatus, nobody]
    simp
  unfold Coordinator.validateNewWorkerProcess
  rw [silent, compId]
  simp only [Bool.false_eq_true, if_false, if_neg nobodyCounted]
  by_cases wrong : ¬ hello.compGroup.Same .zero
  · exact .inl (if_pos wrong)
  · right
    rw [if_neg wrong, if_pos (same_refl _), isRunning]
    rfl

/-- A process that comes to a computation is sent away, or becomes a member. -/
theorem Lockstep.validateNewWorkerProcess (lockstep : Lockstep left restarted coordinator)
    {hello : Hello} (isRunning : hello.state = .running) (virtualPid : Nat) :
    coordinator.validateNewWorkerProcess hello virtualPid = .ok none ∨
      ∃ client, coordinator.validateNewWorkerProcess hello virtualPid =
          .ok (some (coordinator, client)) ∧
        Member left coordinator.compId client ∧ left ≠ .restarting := by
  have somebody : coordinator.getStatus.numPeers > 0 := by
    rw [Coordinator.numPeers_getStatus]
    exact List.length_pos_iff.mpr lockstep.nonempty
  unfold Coordinator.validateNewWorkerProcess
  by_cases sent : coordinator.workersRunningAndSuspendMsgSent = true
  · have running := lockstep.suspends.mp sent
    subst running
    have waits : coordinator.getStatus.minimumState ≠ .suspended := by
      rcases lockstep.toRound.minimumState_of_behind lockstep.behind (by decide) with same | same
      · rw [← Coordinator.minimumState, same]
        decide
      · rw [← Coordinator.minimumState, same]
        decide
    right
    refine ⟨_, ?_, member_newClient_suspend virtualPid hello.greets coordinator.compId, by decide⟩
    simp only [if_pos sent, if_pos (And.intro somebody waits), isRunning]
    rfl
  · simp only [if_neg sent]
    by_cases busy : coordinator.getStatus.numPeers > 0 ∧
        coordinator.getStatus.minimumState ≠ .running ∧
        coordinator.getStatus.minimumState ≠ .unknown
    · exact .inl (if_pos busy)
    · rw [if_neg busy]
      by_cases wrong : ¬ hello.compGroup.Same .zero
      · exact .inl (if_pos wrong)
      · rw [if_neg wrong, if_neg lockstep.identified, isRunning]
        have last : left = .refilled := by
          by_contra other
          have least := lockstep.toRound.minimumState_of_behind lockstep.behind other
          refine busy ⟨somebody, ?_, ?_⟩ <;> rw [← Coordinator.minimumState]
          · rcases least with same | same <;> rw [same]
            · exact fun running => sent (lockstep.suspends.mpr running)
            · decide
          · rcases least with same | same <;> rw [same]
            · exact lockstep.known
            · decide
        subst last
        exact .inr ⟨_, rfl, member_newClient virtualPid hello.greets coordinator.compId, by decide⟩

/-- `onConnect` for a new process. -/
theorem Sound.connectNewWorker (sound : Sound restarted coordinator) (pids : PidMap coordinator)
    {hello : Hello} (isRunning : hello.state = .running)
    (few : coordinator.clients.length < Coordinator.virtualPidCount) :
    ∃ next, coordinator.connectNewWorker hello = .ok next ∧ Sound restarted next ∧
      PidMap next := by
  unfold Coordinator.connectNewWorker
  by_cases killed : coordinator.killInProgress = true
  · exact ⟨coordinator, if_pos killed, sound, pids⟩
  have spared : coordinator.killInProgress = false := by simpa using killed
  rw [if_neg killed, if_neg fun both => both.1 isRunning]
  have prepared : coordinator.prepare.virtualPids = coordinator.virtualPids ∧
      coordinator.prepare.nextVirtualPid = coordinator.nextVirtualPid ∧
      coordinator.prepare.clients = coordinator.clients := by
    unfold Coordinator.prepare
    split <;> exact ⟨rfl, rfl, rfl⟩
  have pidsPrepared : PidMap coordinator.prepare :=
    pids.congr prepared.1 (by rw [prepared.2.2]) prepared.2.1
  obtain ⟨pid, nextPid, got, -, isPid, isNext⟩ := getNewVirtualPid_ok pidsPrepared.next
    (lt_of_le_of_lt pidsPrepared.length_le (prepared.2.2 ▸ few))
  have pidsGot : PidMap { coordinator.prepare with nextVirtualPid := nextPid } :=
    ⟨pidsPrepared.nodup, pidsPrepared.subset, isNext⟩
  rw [got]
  simp only [Bind.bind, Except.bind]
  cases sound with
  | alone nobody =>
    have isPrepared : coordinator.prepare = coordinator.initializeComputation := by
      rw [Coordinator.prepare, if_pos (by rw [nobody]; rfl)]
    have stillNobody : coordinator.prepare.clients = [] := prepared.2.2.trans nobody
    rcases validateNewWorkerProcess_of_nil { coordinator.prepare with nextVirtualPid := nextPid }
      pid isRunning stillNobody (by rw [isPrepared]; rfl) (by rw [isPrepared]; rfl) with
      rejected | accepted
    · rw [rejected]
      exact ⟨_, rfl, .alone stillNobody, pidsGot⟩
    · rw [accepted]
      refine ⟨_, rfl, .lockstep .refilled ?_ ?_, ?_⟩
      · show coordinator.prepare.killInProgress = false
        rw [isPrepared]
        rfl
      · exact lockstep_newClient stillNobody isPid.ne_zero (by rw [isPrepared]; rfl) rfl rfl
      · refine PidMap.addClient ?_ hello _
        exact pidsGot.congr rfl rfl rfl
  | doomed left isKilled => exact absurd isKilled killed
  | lockstep left _ lockstep =>
    have isPrepared : coordinator.prepare = coordinator := by
      rw [Coordinator.prepare, if_neg (by simpa using lockstep.nonempty)]
    rw [isPrepared] at pidsGot ⊢
    have still : Lockstep left restarted { coordinator with nextVirtualPid := nextPid } :=
      ⟨lockstep.toRound.congr rfl rfl rfl rfl rfl, lockstep.behind.congr rfl rfl⟩
    rcases still.validateNewWorkerProcess isRunning pid with
      rejected | ⟨client, accepted, member, other⟩
    · rw [rejected]
      exact ⟨_, rfl, .lockstep left spared still, pidsGot⟩
    · rw [accepted]
      exact ⟨_, rfl, .lockstep left spared
        (still.join member le_rfl fun restarting => absurd restarting other),
        pidsGot.addClient hello client⟩

/-- What those who join promise. The images of one checkpoint belong to one computation, and each of
them is restarted once. -/
def Orderly (restarted : Nat) (coordinator : Coordinator) : Action → Prop
  | .newWorker hello =>
    hello.state = .running ∧ coordinator.clients.length < Coordinator.virtualPidCount
  | .restartWorker hello =>
    hello.state = .restarting ∧ ¬ hello.compGroup.Same .zero ∧ 0 < hello.numPeers ∧
      (coordinator.clients ≠ [] → hello.compGroup.Same coordinator.compId →
        hello.compGroup = coordinator.compId ∧ (restarted : Int) < coordinator.numPeers)
  | _ => True

/-- How many processes have been restarted in the computation that is there. -/
def restartedBy (restarted : Nat) (coordinator next : Coordinator) : Action → Nat
  | .restartWorker _ =>
    if coordinator.clients = [] then next.clients.length
    else restarted + (next.clients.length - coordinator.clients.length)
  | _ => restarted

/-- When nothing happens, nobody is restarted. -/
theorem Sound.unchanged (sound : Sound restarted coordinator) (action : Action) :
    Sound (restartedBy restarted coordinator coordinator action) coordinator := by
  cases action with
  | restartWorker hello =>
    unfold restartedBy
    dsimp only
    split
    · rename_i nobody
      exact .alone nobody
    · rwa [Nat.sub_self, Nat.add_zero]
  | _ => exact sound

/-- An image that comes first begins a restart. -/
theorem validateRestartingWorkerProcess_of_nil (coordinator : Coordinator) {hello : Hello}
    (isRestarting : hello.state = .restarting) (nobody : coordinator.clients = [])
    (compId : coordinator.compId = .zero) :
    coordinator.validateRestartingWorkerProcess hello = .ok (some
      ({ coordinator with compId := hello.compGroup, numPeers := hello.numPeers },
        restartedClient hello)) := by
  unfold Coordinator.validateRestartingWorkerProcess
  rw [if_neg (by simpa using isRestarting), if_pos (compId ▸ same_refl _),
    if_pos (Coordinator.minimumState_of_nil nobody), isRestarting]
  rfl

/-- An image that comes to a computation is sent away, or takes part in the restart. -/
theorem Lockstep.validateRestartingWorkerProcess (lockstep : Lockstep left restarted coordinator)
    {hello : Hello} (orderly : Orderly restarted coordinator (.restartWorker hello)) :
    coordinator.validateRestartingWorkerProcess hello = .ok none ∨
      coordinator.validateRestartingWorkerProcess hello =
          .ok (some (coordinator, restartedClient hello)) ∧
        Lockstep .restarting (restarted + 1)
          { coordinator.addClient hello (restartedClient hello) with isRestarting := true } := by
  obtain ⟨isRestarting, -, -, together⟩ := orderly
  unfold Coordinator.validateRestartingWorkerProcess
  rw [if_neg (by simpa using isRestarting), if_neg lockstep.identified, isRestarting]
  by_cases busy : coordinator.minimumState ≠ .restarting ∧
      coordinator.minimumState ≠ .checkpointed
  · exact .inl (if_pos busy)
  rw [if_neg busy]
  by_cases wrong : ¬ hello.compGroup.Same coordinator.compId
  · exact .inl (if_pos wrong)
  rw [if_neg wrong]
  obtain ⟨sameGroup, missing⟩ := together lockstep.nonempty (not_not.mp wrong)
  have restarting : left = .restarting := by
    by_contra other
    have settled := lockstep.settled other
    omega
  subst restarting
  have member : Member .restarting coordinator.compId (restartedClient hello) :=
    sameGroup ▸ member_restartedClient hello
  have joined : Lockstep .restarting (restarted + 1)
      (coordinator.addClient hello (restartedClient hello)) :=
    lockstep.join member (by omega) fun _ => ⟨rfl, by omega, by omega⟩
  exact .inr ⟨rfl, joined.toRound.congr rfl rfl rfl rfl (joined.rejoining rfl).1.symm,
    joined.behind.congr rfl rfl⟩

/-- `onConnect` for a process that has been made from an image. -/
theorem Sound.connectRestartWorker (sound : Sound restarted coordinator)
    (pids : PidMap coordinator) {hello : Hello}
    (orderly : Orderly restarted coordinator (.restartWorker hello)) :
    ∃ next, coordinator.connectRestartWorker hello = .ok next ∧
      Sound (restartedBy restarted coordinator next (.restartWorker hello)) next ∧
      PidMap next := by
  unfold Coordinator.connectRestartWorker
  cases sound with
  | alone nobody =>
    by_cases killed : coordinator.killInProgress = true
    · exact ⟨coordinator, if_pos killed, .alone nobody, pids⟩
    obtain ⟨isRestarting, identified, somebody, -⟩ := orderly
    have isPrepared : coordinator.prepare = coordinator.initializeComputation := by
      rw [Coordinator.prepare, if_pos (by rw [nobody]; rfl)]
    rw [if_neg killed, isPrepared, validateRestartingWorkerProcess_of_nil
      coordinator.initializeComputation isRestarting nobody rfl]
    refine ⟨_, rfl, ?_, ?_⟩
    · have count : ∀ next : Coordinator, next.clients.length = 1 →
          restartedBy restarted coordinator next (.restartWorker hello) = 1 := by
        intro next one
        simp [restartedBy, nobody, one]
      rw [count _ (by simp [Coordinator.addClient, Coordinator.initializeComputation, nobody])]
      exact .lockstep .restarting rfl
        (lockstep_restartedClient nobody rfl identified somebody rfl rfl)
    · have fresh : PidMap { coordinator.initializeComputation with
          compId := hello.compGroup, numPeers := hello.numPeers } := pids.congr rfl rfl rfl
      exact (fresh.addClient hello (restartedClient hello)).congr rfl rfl rfl
  | doomed left killed settled doomed =>
    exact ⟨coordinator, if_pos killed,
      Sound.unchanged (.doomed left killed settled doomed) (.restartWorker hello), pids⟩
  | lockstep left spared lockstep =>
    have isPrepared : coordinator.prepare = coordinator := by
      rw [Coordinator.prepare, if_neg (by simpa using lockstep.nonempty)]
    rw [if_neg (by simp [spared]), isPrepared]
    rcases lockstep.validateRestartingWorkerProcess orderly with rejected | ⟨accepted, joined⟩
    · rw [rejected]
      refine ⟨coordinator, rfl, ?_, pids⟩
      simpa [restartedBy, lockstep.nonempty] using .lockstep left spared lockstep
    · rw [accepted]
      refine ⟨_, rfl, ?_, (pids.addClient hello (restartedClient hello)).congr rfl rfl rfl⟩
      have count : restartedBy restarted coordinator
          { coordinator.addClient hello (restartedClient hello) with isRestarting := true }
          (.restartWorker hello) = restarted + 1 := by
        simp [restartedBy, lockstep.nonempty, Coordinator.addClient]
      rw [count]
      exact .lockstep .restarting spared joined

end ClusterJobs.Dmtcp
