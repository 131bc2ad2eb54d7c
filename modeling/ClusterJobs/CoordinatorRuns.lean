/-
This file draws the conclusions about the runs of the coordinator and its processes.

In every orderly run nobody fails; no process runs while another one is in the middle of a
checkpoint; a command that waits for a checkpoint is answered when every process has its image; and
a checkpoint that has been started comes to its end, however the messages are ordered.
-/

import ClusterJobs.Computation
import Mathlib.Algebra.Order.BigOperators.Group.List

namespace ClusterJobs.Dmtcp

variable {coordinator next : Coordinator} {left : WorkerState} {restarted : Nat} {action : Action}

/-! ### Runs -/

/-- Everything that can happen keeps the invariant, and nobody fails. -/
theorem act_sound (sound : Sound restarted coordinator) (pids : PidMap coordinator)
    (orderly : Orderly restarted coordinator action) :
    ∃ next, act coordinator action = .ok next ∧
      Sound (restartedBy restarted coordinator next action) next ∧ PidMap next := by
  have stays : ∃ next, (Except.ok coordinator : Except Fault Coordinator) = .ok next ∧
      Sound (restartedBy restarted coordinator next action) next ∧ PidMap next :=
    ⟨coordinator, rfl, sound.unchanged action, pids⟩
  unfold act
  split
  · exact stays
  cases action with
  | newWorker hello => exact sound.connectNewWorker pids orderly.1 orderly.2
  | restartWorker hello => exact sound.connectRestartWorker pids orderly
  | command remote coordCmd interval =>
    refine ⟨_, rfl, Sound.processDmtUserCmd ?_ remote coordCmd,
      PidMap.processDmtUserCmd ?_ remote coordCmd⟩
    · exact sound.congr rfl rfl rfl rfl rfl rfl
    · exact pids.congr rfl rfl rfl
  | timeout =>
    refine ⟨_, rfl, ?_⟩
    unfold Coordinator.onTimeoutInterval
    split
    · exact ⟨sound.startCheckpoint, (follows_startCheckpoint coordinator).pidMap pids⟩
    · exact ⟨sound, pids⟩
  | read index =>
    rw [step, Coordinator.withClient]
    cases there : coordinator.clients[index]? with
    | none => exact stays
    | some client =>
      cases queue : client.incoming with
      | nil => simpa only [queue] using stays
      | cons state rest =>
        simp only [queue]
        exact ⟨_, rfl, sound.onData there queue,
          (follows_updateMinimumState _ client.state).pidMap (pids.set there rfl)⟩
  | disconnect index =>
    rw [step, Coordinator.withClient]
    cases there : coordinator.clients[index]? with
    | none => exact stays
    | some client => exact ⟨_, rfl, sound.onDisconnect there, pids.onDisconnect there⟩
  | receive index =>
    rw [step, Coordinator.withClient]
    cases there : coordinator.clients[index]? with
    | none => exact stays
    | some client =>
      obtain ⟨after, received, pid, still⟩ := sound.receive there
      simp only [received, Bind.bind, Except.bind]
      exact ⟨_, rfl, still, pids.set there pid⟩
  | report index =>
    rw [step, Coordinator.withClient]
    cases there : coordinator.clients[index]? with
    | none => exact stays
    | some client =>
      refine ⟨_, rfl, sound.report there, pids.set there ?_⟩
      unfold CoordClient.report
      split <;> rfl

/-- What an orderly run of the coordinator and its processes gets to, with the number of processes
that have been restarted. -/
inductive Reached : Nat → Coordinator → Prop
  | start (exitOnLast : Bool) (interval : Nat) :
    Reached 0
      { exitOnLast := exitOnLast
        theCheckpointInterval := interval
        theDefaultCheckpointInterval := interval }
  | act {restarted : Nat} {coordinator next : Coordinator} {action : Action}
      (before : Reached restarted coordinator) (orderly : Orderly restarted coordinator action)
      (acts : act coordinator action = .ok next) :
      Reached (restartedBy restarted coordinator next action) next

instance decidableOrderly (restarted : Nat) (coordinator : Coordinator) (action : Action) :
    Decidable (Orderly restarted coordinator action) :=
  match action with
  | .newWorker _ => inferInstanceAs (Decidable (_ ∧ _))
  | .restartWorker _ => inferInstanceAs (Decidable (_ ∧ _ ∧ _ ∧ (_ → _ → _ ∧ _)))
  | .command _ _ _ | .timeout | .read _ | .disconnect _ | .receive _ | .report _ =>
    inferInstanceAs (Decidable True)

/-- A run, as long as it is orderly. -/
def perform (restarted : Nat) (coordinator : Coordinator) :
    List Action → Option (Nat × Coordinator)
  | [] => some (restarted, coordinator)
  | action :: actions =>
    if Orderly restarted coordinator action then
      match act coordinator action with
      | .ok next => perform (restartedBy restarted coordinator next action) next actions
      | .error _ => none
    else none

theorem Reached.perform (reached : Reached restarted coordinator) (actions : List Action)
    {count : Nat} (result : perform restarted coordinator actions = some (count, next)) :
    Reached count next := by
  induction actions generalizing restarted coordinator with
  | nil =>
    cases result
    exact reached
  | cons action actions inductionHypothesis =>
    rw [Dmtcp.perform] at result
    split at result
    · rename_i orderly
      split at result
      · rename_i after acts
        exact inductionHypothesis (reached.act orderly acts) result
      · cases result
    · cases result

theorem Reached.sound (reached : Reached restarted coordinator) :
    Sound restarted coordinator ∧ PidMap coordinator := by
  induction reached with
  | start => exact ⟨.alone rfl, List.nodup_nil, by simp, isVirtualPid_initial⟩
  | act before orderly acts inductionHypothesis =>
    obtain ⟨next, result, sound, pids⟩ :=
      act_sound inductionHypothesis.1 inductionHypothesis.2 orderly
    rw [acts] at result
    cases result
    exact ⟨sound, pids⟩

/-- A computation that is there and not being killed is in a round. -/
theorem Reached.lockstep (reached : Reached restarted coordinator)
    (spared : coordinator.killInProgress = false) (somebody : coordinator.clients ≠ []) :
    ∃ left, Lockstep left restarted coordinator := by
  cases reached.sound.1 with
  | alone nobody => exact absurd nobody somebody
  | doomed left killed =>
    rw [spared] at killed
    cases killed
  | lockstep left _ lockstep => exact ⟨left, lockstep⟩

/-- Two processes, the first of which has seen that everyone has stopped. -/
def twoStopped : List Action :=
  [.newWorker ⟨.running, ⟨1, 2, 3, 0⟩, .zero, 0, none, true⟩,
    .newWorker ⟨.running, ⟨1, 2, 3, 0⟩, .zero, 0, none, false⟩, .report 0, .timeout,
    .command 7 'c' none, .receive 1, .receive 0, .report 1, .read 1, .read 0, .report 0, .read 0,
    .receive 0]

/-- Everyone who is alive is in the same round. -/
theorem Sound.placed (sound : Sound restarted coordinator) :
    ∃ left, ∀ client ∈ coordinator.clients,
      client.worker.exited = false → Placed left client := by
  cases sound with
  | alone nobody => exact ⟨.running, by simp [nobody]⟩
  | doomed left killed settled doomed =>
    refine ⟨left, fun client found alive => ?_⟩
    rcases doomed client found with ⟨exited, -⟩ | ⟨-, placed⟩
    · rw [alive] at exited
      cases exited
    · exact placed
  | lockstep left spared lockstep =>
    exact ⟨left, fun client found _ => (lockstep.member client found).placed⟩

/-- The states from the barrier after the threads have been stopped to the one before they go on. -/
def duringCheckpoint : List WorkerState :=
  [.fdLeaderElection, .drained, .checkpointed, .nameServiceDataRegistered, .doneQuerying]

/-- While a process is between the first and the last barrier of a checkpoint nobody runs. When it
writes its image the others write theirs, have written it or are about to, with their connections
drained. -/
theorem nobody_runs_duringCheckpoint (reached : Reached restarted coordinator)
    {first second : CoordClient} (isFirst : first ∈ coordinator.clients)
    (isSecond : second ∈ coordinator.clients) (firstAlive : first.worker.exited = false)
    (secondAlive : second.worker.exited = false)
    (during : first.worker.state ∈ duringCheckpoint) :
    second.worker.state ≠ .running ∧
      (first.worker.state = .checkpointed → first.worker.reported = false →
        second.worker.state = .drained ∧ second.worker.reported = true ∨
          second.worker.state = .checkpointed) := by
  obtain ⟨left, placed⟩ := reached.sound.1.placed
  have firstPlaced := placed first isFirst firstAlive
  have secondPlaced := placed second isSecond secondAlive
  constructor
  · intro running
    have there := secondPlaced.state
    rw [running] at there
    rcases firstPlaced.state with here | here
    all_goals
      rw [here] at during
      revert during there
      cases left <;> decide
  · intro checkpointed unreported
    have drained : left = .drained := by
      rcases firstPlaced with ⟨here, ready, -⟩ | ⟨reports, -, origin⟩
      · have running : left = .running := ready.resolve_left (by simp [unreported])
        rw [checkpointed, running] at here
        cases here
      · rw [checkpointed] at origin
        have notRestarting : left ≠ .restarting := fun restarting =>
          absurd (origin.mpr ⟨restarting, unreported⟩) (by decide)
        rw [reports_of_ne (by rw [checkpointed]; decide), checkpointed] at reports
        revert reports notRestarting
        cases left <;> decide
    subst drained
    rcases secondPlaced with ⟨here, ready, -⟩ | ⟨reports, -, origin⟩
    · exact .inl ⟨here, ready.resolve_right (by decide)⟩
    · have notRestarting : second.worker.state ≠ .restarting := fun restarting =>
        absurd (origin.mp restarting).1 (by decide)
      exact .inr ((reports_of_ne notRestarting).symm.trans reports)

theorem nobody_runs_duringCheckpoint_twoStopped :
    ∃ coordinator first second, perform 0 {} twoStopped = some (0, coordinator) ∧
      coordinator.clients = [first, second] ∧ first.worker.state = .fdLeaderElection ∧
      second.worker.state ≠ .running := by
  refine ⟨_, _, _, rfl, rfl, rfl, ?_⟩
  exact (nobody_runs_duringCheckpoint ((Reached.start false 0).perform twoStopped rfl)
    (List.mem_cons_self) (List.mem_cons_of_mem _ List.mem_cons_self) rfl rfl (by decide)).1

/-- Everyone stands where the round is, also those who have been told to end. -/
theorem Sound.stands (sound : Sound restarted coordinator) {client : CoordClient}
    (found : client ∈ coordinator.clients) :
    ∃ left, (client.worker.state = left ∨ client.worker.state = left.next) ∧
      (left ≠ .restarting → coordinator.numPeers ≤ restarted) := by
  cases sound with
  | alone nobody =>
    rw [nobody] at found
    cases found
  | doomed left killed settled doomed => exact ⟨left, (doomed client found).state, settled⟩
  | lockstep left spared lockstep =>
    exact ⟨left, (lockstep.member client found).placed.state, lockstep.settled⟩

/-- A restart goes on only when all the processes of the checkpoint are back: none of them gets
beyond the state that its image was written in before, not even when they are being killed. -/
theorem restart_waits (reached : Reached restarted coordinator) {client : CoordClient}
    (found : client ∈ coordinator.clients) (started : client.worker.state ≠ .restarting)
    (beyond : client.worker.state ≠ .checkpointed) : coordinator.numPeers ≤ restarted := by
  obtain ⟨left, state, settled⟩ := reached.sound.1.stands found
  refine settled fun restarting => ?_
  rw [restarting] at state
  exact state.elim started beyond

/-- Two processes are restarted; the first has been told to go on. -/
def twoRestarted : List Action :=
  [.restartWorker ⟨.restarting, ⟨1, 40000, 3, 1⟩, ⟨1, 40000, 3, 1⟩, 2, none, false⟩, .report 0,
    .read 0, .restartWorker ⟨.restarting, ⟨1, 41000, 3, 1⟩, ⟨1, 40000, 3, 1⟩, 2, none, false⟩,
    .report 1, .read 1, .receive 0]

theorem restart_waits_twoRestarted :
    ∃ coordinator first second, perform 0 {} twoRestarted = some (2, coordinator) ∧
      coordinator.clients = [first, second] ∧
      first.worker.state = .nameServiceDataRegistered ∧ coordinator.numPeers ≤ (2 : Nat) := by
  refine ⟨_, _, _, rfl, rfl, rfl, ?_⟩
  exact restart_waits ((Reached.start false 0).perform twoRestarted rfl) List.mem_cons_self
    (by decide) (by decide)

/-! ### Commands that wait -/

/-- Nobody but the last barrier lets a waiting command go. -/
theorem blockUntilDone_updateMinimumState (coordinator : Coordinator) (oldState : WorkerState) :
    (coordinator.updateMinimumState oldState).blockUntilDone = coordinator.blockUntilDone ∨
      coordinator.updateMinimumState oldState = coordinator.resumeAll ∧
        coordinator.minimumState = .refilled := by
  unfold Coordinator.updateMinimumState
  split
  case h_4 =>
    split
    · exact .inl rfl
    · exact .inl rfl
  case h_8 => exact .inr ⟨rfl, ‹_›⟩
  all_goals exact .inl rfl

theorem blockUntilDone_startCheckpoint (coordinator : Coordinator) :
    coordinator.startCheckpoint.1.blockUntilDone = coordinator.blockUntilDone := by
  unfold Coordinator.startCheckpoint
  dsimp only
  split <;> rfl

theorem blockUntilDone_processDmtUserCmd (waits : coordinator.blockUntilDone = true)
    (remote : Nat) (coordCmd : Char) :
    (coordinator.processDmtUserCmd remote coordCmd).blockUntilDone = true := by
  obtain ⟨waiting, commanded, replies, isCommand, result⟩ :=
    processDmtUserCmd_cases coordinator remote coordCmd
  rw [result]
  cases isCommand with
  | nothing | exit | kill | quit => exact waits
  | block => rfl
  | checkpoint => exact (blockUntilDone_startCheckpoint _).trans waits

/-- The command that waits is the same, and nobody has got an answer. -/
def SameWait (before after : Coordinator) : Prop :=
  after.blockUntilDone = before.blockUntilDone ∧ after.replies = before.replies

theorem sameWait_getNewVirtualPid {virtualPid : Nat}
    (result : coordinator.getNewVirtualPid = .ok (virtualPid, next)) :
    SameWait coordinator next := by
  unfold Coordinator.getNewVirtualPid at result
  split at result
  · split at result
    · cases result
      exact ⟨rfl, rfl⟩
    · cases result
  · cases result

theorem sameWait_validateNewWorkerProcess {hello : Hello} {virtualPid : Nat}
    {client : CoordClient}
    (result : coordinator.validateNewWorkerProcess hello virtualPid = .ok (some (next, client))) :
    SameWait coordinator next := by
  unfold Coordinator.validateNewWorkerProcess at result
  dsimp only at result
  repeat' split at result
  all_goals
    cases result
    try exact ⟨rfl, rfl⟩

theorem sameWait_connectNewWorker {hello : Hello}
    (result : coordinator.connectNewWorker hello = .ok next) :
    SameWait coordinator next ∨ SameWait coordinator.prepare next := by
  unfold Coordinator.connectNewWorker at result
  split at result
  · cases result
    exact .inl ⟨rfl, rfl⟩
  right
  split at result
  · cases result
  cases got : coordinator.prepare.getNewVirtualPid with
  | error fault => rw [got] at result; cases result
  | ok pair =>
    obtain ⟨virtualPid, numbered⟩ := pair
    have kept := sameWait_getNewVirtualPid got
    rw [got] at result
    cases checked : numbered.validateNewWorkerProcess hello virtualPid with
    | error fault => simp [Bind.bind, Except.bind, checked] at result
    | ok accepted =>
      simp only [Bind.bind, Except.bind, checked] at result
      cases accepted with
      | none =>
        cases result
        exact kept
      | some joined =>
        cases result
        have validated := sameWait_validateNewWorkerProcess checked
        exact ⟨validated.1.trans kept.1, validated.2.trans kept.2⟩

theorem sameWait_connectRestartWorker {hello : Hello}
    (result : coordinator.connectRestartWorker hello = .ok next) :
    SameWait coordinator next ∨ SameWait coordinator.prepare next := by
  unfold Coordinator.connectRestartWorker Coordinator.validateRestartingWorkerProcess at result
  dsimp only at result
  repeat' split at result
  all_goals
    cases result
    try first
      | exact .inl ⟨rfl, rfl⟩
      | exact .inr ⟨rfl, rfl⟩

/-- The first process of a computation makes the coordinator forget that a command waits. -/
theorem wait_of_connect (connected : SameWait coordinator next ∨ SameWait coordinator.prepare next)
    (waits : coordinator.blockUntilDone = true) :
    next.blockUntilDone = true ∨
      coordinator.clients = [] ∧ next.replies = coordinator.replies := by
  rcases connected with same | same
  · exact .inl (same.1.trans waits)
  · by_cases nobody : coordinator.clients.length = 0
    · rw [Coordinator.prepare, if_pos nobody] at same
      exact .inr ⟨List.length_eq_zero_iff.mp nobody, same.2⟩
    · rw [Coordinator.prepare, if_neg nobody] at same
      exact .inl (same.1.trans waits)

/-- A process that waits after a checkpoint has an image of it. -/
theorem Round.image (round : Round .doneQuerying restarted coordinator)
    (complete : ¬ Behind .doneQuerying coordinator) :
    ∀ client ∈ coordinator.clients, ∃ image, client.worker.image = some image ∧
      image.compGroup = coordinator.compId := by
  intro client found
  have here := round.all_left complete client found
  have member := round.member client found
  have state : client.worker.state = .refilled := (member.idle here).state.trans here
  obtain ⟨image, isImage, group⟩ := member.saved (.inr (.inr (.inr state)))
  exact ⟨image, isImage, group.trans (member.joined (by rw [state]; decide))⟩

/-- What the coordinator learns lets a waiting command go only when all have their images. -/
theorem Round.answered (round : Round left restarted coordinator) {oldState : WorkerState}
    (old : oldState = left ∨ oldState = left.next)
    (waits : coordinator.blockUntilDone = true)
    (released : (coordinator.updateMinimumState oldState).blockUntilDone = false) :
    (coordinator.updateMinimumState oldState).compId = coordinator.compId ∧
      (coordinator.updateMinimumState oldState).replies = coordinator.replies ++
        (coordinator.blockUntilDoneRemote.map fun remote => (remote, ({} : Reply))).toList ∧
      ∀ client ∈ (coordinator.updateMinimumState oldState).clients,
        ∃ image, client.worker.image = some image ∧ image.compGroup = coordinator.compId := by
  have complete : ¬ Behind left coordinator := by
    intro behind
    rw [round.updateMinimumState_of_behind behind old, waits] at released
    cases released
  rcases blockUntilDone_updateMinimumState coordinator oldState with same | ⟨resumed, least⟩
  · rw [same, waits] at released
    cases released
  have last : left = .doneQuerying := by
    rw [round.minimumState_of_complete complete] at least
    have known := round.known
    revert least known
    cases left <;> decide
  subst last
  have resuming : coordinator.resumeAll = { coordinator.broadcastMessage .doResume 0 with
      isRestarting := false
      replies := coordinator.replies ++
        (coordinator.blockUntilDoneRemote.map fun remote => (remote, ({} : Reply))).toList
      blockUntilDone := false
      blockUntilDoneRemote := none } := if_pos waits
  rw [resumed, resuming]
  refine ⟨rfl, rfl, fun client found => ?_⟩
  obtain ⟨before, isClient, rfl⟩ := List.mem_map.mp found
  exact round.image complete before isClient

/-- The coordinator learns something of a client that was on record with a state: that it has gone
on, or that it is gone. -/
inductive Learns (coordinator : Coordinator) : Coordinator → WorkerState → Prop
  | read {index : Nat} {client : CoordClient} {state : WorkerState} {rest : List WorkerState}
      (there : coordinator.clients[index]? = some client)
      (queue : client.incoming = state :: rest) :
      Learns coordinator
        { coordinator with clients :=
            coordinator.clients.set index { client with state := state, incoming := rest } }
        client.state
  | lost {index : Nat} {client : CoordClient} (there : coordinator.clients[index]? = some client)
      (others : coordinator.clients.eraseIdx index ≠ []) :
      Learns coordinator
        { coordinator with
          clients := coordinator.clients.eraseIdx index
          virtualPids := coordinator.virtualPids.erase client.virtualPid }
        client.state

theorem Lockstep.learns (lockstep : Lockstep left restarted coordinator) {oldState : WorkerState}
    (learns : Learns coordinator next oldState) :
    Round left restarted next ∧ (oldState = left ∨ oldState = left.next) := by
  cases learns with
  | read there queue =>
    have member := lockstep.member _ (List.mem_of_getElem? there)
    exact ⟨lockstep.toRound.set (member.read queue).1, member.state⟩
  | lost there others =>
    exact ⟨lockstep.toRound.erase others,
      (lockstep.member _ (List.mem_of_getElem? there)).state⟩

/-- Nobody is there, or the client changes. -/
theorem withClient_eq_ok {index : Nat} {change : CoordClient → Except Fault Coordinator}
    (acts : coordinator.withClient index change = .ok next) :
    next = coordinator ∨
      ∃ client, coordinator.clients[index]? = some client ∧ change client = .ok next := by
  unfold Coordinator.withClient at acts
  split at acts
  · exact .inl (Except.ok.inj acts).symm
  · rename_i client there
    exact .inr ⟨client, there, acts⟩

/-- A command that waits goes on waiting, except when a first process comes or the coordinator
learns something. -/
theorem act_blockUntilDone (acts : act coordinator action = .ok next)
    (waits : coordinator.blockUntilDone = true) :
    next.blockUntilDone = true ∨
      coordinator.clients = [] ∧ next.replies = coordinator.replies ∨
      ∃ changed oldState, Learns coordinator changed oldState ∧
        next = changed.updateMinimumState oldState := by
  unfold act at acts
  split at acts
  · cases acts
    exact .inl waits
  cases action with
  | newWorker hello =>
    exact (wait_of_connect (sameWait_connectNewWorker acts) waits).imp_right .inl
  | restartWorker hello =>
    exact (wait_of_connect (sameWait_connectRestartWorker acts) waits).imp_right .inl
  | command remote coordCmd interval =>
    obtain rfl := Except.ok.inj acts
    have still : (coordinator.updateCheckpointInterval interval).blockUntilDone = true := waits
    exact .inl (blockUntilDone_processDmtUserCmd still remote coordCmd)
  | timeout =>
    obtain rfl := Except.ok.inj acts
    left
    unfold Coordinator.onTimeoutInterval
    split
    · exact (blockUntilDone_startCheckpoint coordinator).trans waits
    · exact waits
  | read index =>
    rcases withClient_eq_ok acts with rfl | ⟨client, there, acts⟩
    · exact .inl waits
    split at acts
    · cases acts
      exact .inl waits
    · rename_i state rest queue
      cases acts
      exact .inr (.inr ⟨_, _, .read there queue, rfl⟩)
  | disconnect index =>
    rcases withClient_eq_ok acts with rfl | ⟨client, there, acts⟩
    · exact .inl waits
    obtain rfl := Except.ok.inj acts
    unfold Coordinator.onDisconnect
    dsimp only
    rw [Coordinator.numPeers_getStatus]
    by_cases others : coordinator.clients.eraseIdx index = []
    · rw [if_pos (by simp [others])]
      left
      split <;> exact waits
    · rw [if_neg (by simpa [List.length_eq_zero_iff] using others)]
      exact .inr (.inr ⟨_, _, .lost there others, rfl⟩)
  | receive index =>
    rcases withClient_eq_ok acts with rfl | ⟨client, there, acts⟩
    · exact .inl waits
    cases received : client.receive with
    | error fault => simp [received, Bind.bind, Except.bind] at acts
    | ok after =>
      simp only [received, Bind.bind, Except.bind] at acts
      cases acts
      exact .inl waits
  | report index =>
    rcases withClient_eq_ok acts with rfl | ⟨client, there, acts⟩
    · exact .inl waits
    · cases acts
      exact .inl waits

theorem Learns.somebody {oldState : WorkerState} (learns : Learns coordinator next oldState) :
    coordinator.clients ≠ [] := by
  cases learns with
  | read there => exact List.ne_nil_of_mem (List.mem_of_getElem? there)
  | lost there => exact List.ne_nil_of_mem (List.mem_of_getElem? there)

/-- While nobody is being killed, a command that waits for a checkpoint is let go at the end of one:
it gets its answer, and every process of the computation has an image of it, of the generation that
the coordinator is at. Or it is forgotten without an answer, when a first process comes. -/
theorem blockUntilDone_answered (reached : Reached restarted coordinator)
    (spared : coordinator.killInProgress = false)
    (acts : act coordinator action = .ok next) (waits : coordinator.blockUntilDone = true)
    (released : next.blockUntilDone = false) :
    coordinator.clients = [] ∧ next.replies = coordinator.replies ∨
      next.replies = coordinator.replies ++
          (coordinator.blockUntilDoneRemote.map fun remote => (remote, ({} : Reply))).toList ∧
        next.compId = coordinator.compId ∧
        ∀ client ∈ next.clients,
          ∃ image, client.worker.image = some image ∧ image.compGroup = coordinator.compId := by
  rcases act_blockUntilDone acts waits with still | forgotten | ⟨changed, oldState, learns, rfl⟩
  · rw [released] at still
    cases still
  · exact .inl forgotten
  · right
    obtain ⟨left, lockstep⟩ := reached.lockstep spared learns.somebody
    obtain ⟨round, old⟩ := lockstep.learns learns
    have same : changed.blockUntilDone = coordinator.blockUntilDone ∧
        changed.compId = coordinator.compId ∧ changed.replies = coordinator.replies ∧
        changed.blockUntilDoneRemote = coordinator.blockUntilDoneRemote := by
      cases learns <;> exact ⟨rfl, rfl, rfl, rfl⟩
    obtain ⟨compId, replies, images⟩ := round.answered old (same.1.trans waits) released
    rw [same.2.1] at compId images
    rw [same.2.2.1, same.2.2.2] at replies
    exact ⟨replies, compId, images⟩

/-- A blocking checkpoint of one process, up to the last message that the coordinator reads. -/
def blockingCheckpoint : List Action :=
  [.newWorker ⟨.running, ⟨1, 2, 3, 0⟩, .zero, 0, none, false⟩, .command 6 'b' none,
    .command 7 'c' none] ++
  (List.replicate 6 [.receive 0, .report 0, .read 0]).flatten ++ [.receive 0, .report 0]

/-- What it leads to. -/
def lastAnswer : Coordinator where
  clients := [⟨.doneQuerying, 40000, [.refilled], [],
    ⟨.refilled, true, ⟨1, 40000, 3, 1⟩, 1, some ⟨⟨1, 40000, 3, 1⟩, 1⟩, false⟩⟩]
  virtualPids := [40000]
  nextVirtualPid := 41000
  blockUntilDone := true
  blockUntilDoneRemote := some 7
  compId := ⟨1, 40000, 3, 1⟩
  replies := [(6, {})]

theorem reached_lastAnswer : Reached 0 lastAnswer :=
  (Reached.start false 0).perform blockingCheckpoint (by decide +kernel)

theorem blockUntilDone_answered_lastAnswer :
    ∃ next, act lastAnswer (.read 0) = .ok next ∧ next.replies = [(6, {}), (7, {})] := by
  refine ⟨_, rfl, ?_⟩
  have acts : act lastAnswer (.read 0) = .ok _ := rfl
  have answered := blockUntilDone_answered reached_lastAnswer rfl acts rfl rfl
  exact (answered.resolve_left fun nobody => List.cons_ne_nil _ _ nobody.1).1

/-- A command that finds nobody running gets no answer and stays on record. The next one is then
answered at once, with no image written. -/
example : (perform 0 {} [.command 6 'b' none, .command 7 'c' none,
    .newWorker ⟨.running, ⟨1, 2, 3, 0⟩, .zero, 0, none, false⟩, .command 8 'b' none,
    .command 9 'c' none]).map
      (fun result => (result.2.replies, result.2.clients.map fun client => client.worker.image)) =
    some ([(6, {}), (8, {}), (9, { numPeers := 1 })], [none]) := by
  decide +kernel

/-! ### A checkpoint comes to its end -/

/-- The rounds that lie before a process that waits in a state. -/
def WorkerState.rounds : WorkerState → Nat
  | .unknown => 0
  | .running => 0
  | .suspended => 7
  | .fdLeaderElection => 6
  | .drained => 5
  | .restarting => 5
  | .checkpointed => 4
  | .nameServiceDataRegistered => 3
  | .doneQuerying => 2
  | .refilled => 1

/-- How much is still to happen to a client: it reads an order, answers it, and the answer is read,
in this round and in those that follow. -/
def CoordClient.work (client : CoordClient) : Nat :=
  client.incoming.length + (if client.worker.reported = true then 0 else 2) +
    (if client.outgoing = [] then 4 * client.worker.reports.rounds
      else 3 + 4 * client.worker.state.next.rounds)

/-- The same for a client that has been told to end. It reads what comes before that order. -/
def CoordClient.lastWork (client : CoordClient) : Nat :=
  client.incoming.length +
    (if client.worker.exited = true then 0
      else (if client.worker.reported = true then 0 else 2) + 3 * client.unread.length + 1)

def Coordinator.workOf (coordinator : Coordinator) (client : CoordClient) : Nat :=
  if coordinator.killInProgress = true then client.lastWork else client.work

def Coordinator.work (coordinator : Coordinator) : Nat :=
  (coordinator.clients.map coordinator.workOf).sum

/-- Messages are read and answered, and nothing comes from outside. -/
inductive Internal : Action → Prop
  | read (index : Nat) : Internal (.read index)
  | receive (index : Nat) : Internal (.receive index)
  | report (index : Nat) : Internal (.report index)

/-- Nothing is under way to or from anyone who is alive, and nobody has anything to say. -/
def Quiet (coordinator : Coordinator) : Prop :=
  ∀ client ∈ coordinator.clients, client.incoming = [] ∧
    (client.worker.exited = false → client.outgoing = [] ∧ client.worker.reported = true)

/-- Everyone runs; or a restart waits for the processes that are missing; or all have ended. -/
def Settled (coordinator : Coordinator) : Prop :=
  (∀ client ∈ coordinator.clients, client.state = .running ∧ client.worker.state = .running) ∨
    (coordinator.isRestarting = true ∧
      (coordinator.clients.length : Int) < coordinator.numPeers ∧
      ∀ client ∈ coordinator.clients,
        client.state = .checkpointed ∧ client.worker.state = .checkpointed) ∨
    ∀ client ∈ coordinator.clients, client.worker.exited = true

theorem Member.idle_of_quiet {compId : UniquePid} {client : CoordClient}
    (member : Member left compId client) (incoming : client.incoming = [])
    (outgoing : client.outgoing = []) (reported : client.worker.reported = true) :
    client.state = left.next ∧ client.worker.state = left.next := by
  rcases member.place with ⟨-, going⟩ | ⟨here, idle⟩
  · cases going with
    | new _ _ unreported => rw [reported] at unreported; cases unreported
    | told _ _ _ told =>
      obtain ⟨message, under, -⟩ := told
      rw [outgoing] at under
      cases under
    | working _ _ unreported => rw [reported] at unreported; cases unreported
    | answered _ _ answer =>
      obtain ⟨queue, -, under⟩ := answer
      rw [incoming] at under
      cases queue <;> cases under
  · exact ⟨here, idle.state.trans here⟩

/-- There is no deadlock: when nothing is under way, everyone runs. -/
theorem Lockstep.settled_of_quiet (lockstep : Lockstep left restarted coordinator)
    (quiet : Quiet coordinator) : Settled coordinator := by
  have idle : ∀ client ∈ coordinator.clients,
      client.state = left.next ∧ client.worker.state = left.next := by
    intro client found
    have member := lockstep.member client found
    obtain ⟨incoming, rest⟩ := quiet client found
    obtain ⟨outgoing, reported⟩ := rest member.alive
    exact member.idle_of_quiet incoming outgoing reported
  rcases lockstep.behind with rfl | ⟨client, found, here⟩ | ⟨rfl, missing⟩
  · exact .inl idle
  · exact absurd ((idle client found).1.symm.trans here) (next_ne_self left)
  · exact .inr (.inl ⟨(lockstep.rejoining rfl).1, missing, idle⟩)

/-- Nor when they are being killed: nobody waits who has not read the order to end. -/
theorem Sound.settled_of_quiet (sound : Sound restarted coordinator) (quiet : Quiet coordinator) :
    Settled coordinator := by
  cases sound with
  | alone nobody => exact .inl (by simp [nobody])
  | doomed left killed settled doomed =>
    refine .inr (.inr fun client found => ?_)
    by_contra alive
    obtain ⟨outgoing, -⟩ := (quiet client found).2 (by simpa using alive)
    rcases doomed client found with ⟨exited, -⟩ | ⟨⟨message, unread, -⟩, -⟩
    · exact alive exited
    · rw [outgoing] at unread
      cases unread
  | lockstep left spared lockstep => exact lockstep.settled_of_quiet quiet

theorem work_of_nil {client : CoordClient} (nothing : client.outgoing = []) :
    client.work = client.incoming.length + (if client.worker.reported = true then 0 else 2) +
      4 * client.worker.reports.rounds := by
  rw [CoordClient.work, if_pos nothing]

theorem work_of_ne_nil {client : CoordClient} (something : client.outgoing ≠ []) :
    client.work = client.incoming.length + (if client.worker.reported = true then 0 else 2) +
      (3 + 4 * client.worker.state.next.rounds) := by
  rw [CoordClient.work, if_neg something]

/-- An order at the end of a round leaves less to do. -/
theorem Member.work_advance {compId : UniquePid} {client : CoordClient}
    (member : Member left compId client) (here : client.state = left.next)
    (known : left ≠ .unknown) (other : left ≠ .refilled) (messages : List DmtcpMessage) :
    ({ client with outgoing := client.outgoing ++ messages } : CoordClient).work ≤
      client.work := by
  have idle := member.idle here
  cases messages with
  | nil => simp
  | cons message messages =>
    have state : client.worker.state = left.next := idle.state.trans here
    have less : 3 + 4 * left.next.next.rounds ≤ 4 * left.next.rounds := by
      revert known other
      cases left <;> decide
    rw [work_of_nil idle.outgoing, work_of_ne_nil (by simp),
      reports_of_ne (state ▸ next_ne_restarting _), state]
    exact Nat.add_le_add_left less _

/-- A process that has something to say says it. -/
theorem Member.work_report {compId : UniquePid} {client : CoordClient}
    (member : Member left compId client) (unreported : client.worker.reported = false) :
    client.report.work < client.work := by
  have reporting : client.report = { client with
      worker := client.worker.report
      incoming := client.incoming ++ [client.worker.reports] } :=
    if_pos ⟨member.alive, unreported⟩
  have reports : client.worker.report.reports = client.worker.reports :=
    reports_of_ne (reports_ne_restarting _)
  by_cases nothing : client.outgoing = []
  · have after : client.report.work =
        client.incoming.length + 1 + 4 * client.worker.reports.rounds := by
      rw [reporting]
      simp only [CoordClient.work, if_pos nothing, reports, List.length_append]
      rfl
    rw [after, work_of_nil nothing, unreported]
    simp
  · have same : client.worker.reports = client.worker.state := by
      rcases member.place with ⟨-, going⟩ | ⟨-, idle⟩
      · cases going with
        | new state same => exact reports_of_ne (by rw [same, state]; decide)
        | told _ reported => rw [unreported] at reported; cases reported
        | working _ _ _ _ outgoing => exact absurd outgoing nothing
        | answered _ _ _ outgoing => exact absurd outgoing nothing
      · exact absurd idle.outgoing nothing
    have after : client.report.work =
        client.incoming.length + 1 + (3 + 4 * client.worker.state.next.rounds) := by
      rw [reporting]
      simp only [CoordClient.work, if_neg nothing, Worker.report, same, List.length_append]
      rfl
    rw [after, work_of_ne_nil nothing, unreported]
    simp

/-- A process that waits reads what is there for it. -/
theorem Member.work_receive {compId : UniquePid} {client after : CoordClient}
    (member : Member left compId client) (something : client.outgoing ≠ [])
    (reported : client.worker.reported = true) (received : client.receive = .ok after) :
    after.work < client.work := by
  obtain ⟨message, rest, queue⟩ := List.exists_cons_of_ne_nil something
  obtain ⟨-, same, -, nothing, awaited⟩ := member.told reported queue
  have stamp : message.compGroup = compId :=
    member.stamped message (by rw [queue]; exact List.mem_cons_self)
  obtain ⟨worker, result, state, unreported, -⟩ :=
    receive_awaited client.worker message (same ▸ awaited) (stamp ▸ member.group)
  have goesOn : after = { client with worker := worker, outgoing := rest } := by
    rw [CoordClient.receive, queue] at received
    simp only [member.alive, reported, and_self, if_true, result] at received
    exact (Except.ok.inj received).symm
  rw [goesOn, work_of_nil nothing, work_of_ne_nil something, unreported, reported,
    reports_of_ne (state ▸ next_ne_restarting _), state]
  simp
  omega

theorem set_of_getElem? {α : Type} {list : List α} {index : Nat} {value : α}
    (there : list[index]? = some value) : list.set index value = list := by
  obtain ⟨bound, rfl⟩ := List.getElem?_eq_some_iff.mp there
  exact List.set_getElem_self bound

/-- In a list of numbers, one of them gets smaller. -/
theorem sum_map_set_lt {α : Type} (f : α → Nat) {list : List α} {index : Nat} {before after : α}
    (there : list[index]? = some before) (less : f after < f before) :
    ((list.set index after).map f).sum < (list.map f).sum := by
  induction list generalizing index with
  | nil => cases there
  | cons head tail inductionHypothesis =>
    cases index with
    | zero =>
      obtain rfl := Option.some.inj there
      simpa using less
    | succ index =>
      have inTail : tail[index]? = some before := there
      simpa using inductionHypothesis inTail

theorem Coordinator.work_set_lt {index : Nat} {client after : CoordClient}
    (there : coordinator.clients[index]? = some client)
    (less : coordinator.workOf after < coordinator.workOf client) :
    ({ coordinator with clients := coordinator.clients.set index after } : Coordinator).work <
      coordinator.work := sum_map_set_lt coordinator.workOf there less

/-- Reading a message leaves one less to read. -/
theorem Coordinator.workOf_read {client : CoordClient} {state : WorkerState}
    {rest : List WorkerState} (queue : client.incoming = state :: rest) :
    coordinator.workOf { client with state := state, incoming := rest } <
      coordinator.workOf client := by
  unfold Coordinator.workOf
  split
  · simp [CoordClient.lastWork, CoordClient.unread, queue]
  · simp [CoordClient.work, queue]

/-- Orders to everyone leave no more to do when they leave no more to do for anyone. -/
theorem Coordinator.work_le {messages : List DmtcpMessage}
    (clients : next.clients = coordinator.clients.map fun client =>
      { client with outgoing := client.outgoing ++ messages })
    (less : ∀ client ∈ coordinator.clients,
      next.workOf { client with outgoing := client.outgoing ++ messages } ≤
        coordinator.workOf client) : next.work ≤ coordinator.work := by
  rw [Coordinator.work, Coordinator.work, clients, List.map_map]
  exact List.sum_le_sum less

/-! ### When they are being killed -/

theorem Doomed.lastWork_append {client : CoordClient} (doomed : Doomed left client)
    (messages : List DmtcpMessage) :
    ({ client with outgoing := client.outgoing ++ messages } : CoordClient).lastWork =
      client.lastWork := by
  rcases doomed with ⟨exited, -⟩ | ⟨kill, -⟩
  · simp [CoordClient.lastWork, exited]
  · simp only [CoordClient.lastWork, unread_append kill]

theorem lastWork_report {client : CoordClient} (alive : client.worker.exited = false)
    (unreported : client.worker.reported = false) : client.report.lastWork < client.lastWork := by
  have reporting : client.report = { client with
      worker := client.worker.report
      incoming := client.incoming ++ [client.worker.reports] } :=
    if_pos ⟨alive, unreported⟩
  rw [reporting]
  simp [CoordClient.lastWork, CoordClient.unread, Worker.report, alive, unreported]
  omega

theorem receive_other {worker after : Worker} {message : DmtcpMessage}
    (other : message.type ≠ .killPeer) (received : worker.receive message = .ok after) :
    after.exited = worker.exited ∧ after.reported = false := by
  unfold Worker.receive at received
  rw [if_neg other] at received
  dsimp only at received
  repeat' split at received
  all_goals
    cases received
    try exact ⟨rfl, rfl⟩

/-- A process that is to end reads an order before that one, or ends. -/
theorem Doomed.lastWork_receive {client after : CoordClient}
    (alive : client.worker.exited = false) (reported : client.worker.reported = true)
    (something : client.outgoing ≠ []) (received : client.receive = .ok after) :
    after.lastWork < client.lastWork := by
  obtain ⟨message, rest, queue⟩ := List.exists_cons_of_ne_nil something
  rw [CoordClient.receive, queue] at received
  simp only [alive, reported, and_self, if_true] at received
  cases result : client.worker.receive message with
  | error fault => rw [result] at received; cases received
  | ok worker =>
    rw [result] at received
    obtain rfl := (Except.ok.inj received).symm
    by_cases isKill : message.type = .killPeer
    · rw [Worker.receive, if_pos isKill] at result
      obtain rfl := (Except.ok.inj result).symm
      simp [CoordClient.lastWork, alive, reported]
    · obtain ⟨exited, unreported⟩ := receive_other isKill result
      simp [CoordClient.lastWork, CoordClient.unread, queue, exited, unreported, alive, reported,
        isKill]
      omega

/-! ### Less and less to do -/

/-- Whatever happens to a client leaves less to do. -/
structure Lessens (coordinator : Coordinator) : Prop where
  read : ∀ {index : Nat} {client : CoordClient} {state : WorkerState} {rest : List WorkerState},
    coordinator.clients[index]? = some client → client.incoming = state :: rest →
      (coordinator.onData index client state rest).work < coordinator.work
  receive : ∀ client ∈ coordinator.clients, client.worker.exited = false →
    client.worker.reported = true → client.outgoing ≠ [] →
      ∃ after, client.receive = .ok after ∧
        coordinator.workOf after < coordinator.workOf client
  report : ∀ client ∈ coordinator.clients, client.worker.exited = false →
    client.worker.reported = false → coordinator.workOf client.report < coordinator.workOf client

/-- The coordinator begins to kill the processes at the end of a checkpoint, or does not. -/
theorem killInProgress_updateMinimumState (coordinator : Coordinator) (oldState : WorkerState) :
    (coordinator.updateMinimumState oldState).killInProgress = coordinator.killInProgress ∨
      coordinator.minimumState = .checkpointed ∧ coordinator.updateMinimumState oldState =
        { coordinator.broadcastMessage .killPeer 0 with exitAfterCkpt := false } := by
  unfold Coordinator.updateMinimumState
  split
  case h_4 =>
    split
    · exact .inr ⟨‹_›, rfl⟩
    · exact .inl (by simp [Coordinator.broadcastMessage])
  case h_8 =>
    left
    unfold Coordinator.resumeAll
    dsimp only
    split <;> simp [Coordinator.broadcastMessage]
  case h_9 => exact .inl rfl
  all_goals exact .inl (by simp [Coordinator.broadcastMessage])

/-- A member that has written its image and is told to end has less to do. -/
theorem Member.lastWork_kill {compId : UniquePid} {client : CoordClient}
    (member : Member left compId client) (here : client.state = left.next)
    (checkpoint : left.next = .checkpointed) {message : DmtcpMessage}
    (isKill : message.type = .killPeer) :
    ({ client with outgoing := client.outgoing ++ [message] } : CoordClient).lastWork ≤
      client.work := by
  have idle := member.idle here
  have state : client.worker.state = .checkpointed := (idle.state.trans here).trans checkpoint
  have reports : client.worker.reports = .checkpointed :=
    (reports_of_ne (by rw [state]; decide)).trans state
  rw [CoordClient.lastWork, unread_append_kill isKill member.no_kill, idle.outgoing,
    work_of_nil idle.outgoing, reports]
  simp only [member.alive, Bool.false_eq_true, if_false, List.length_nil, WorkerState.rounds]
  omega

/-- What the coordinator does at the end of a round leaves no more to do. -/
theorem Round.work_le (round : Round left restarted coordinator)
    (spared : coordinator.killInProgress = false) (complete : ¬ Behind left coordinator)
    (oldState : WorkerState) :
    (coordinator.updateMinimumState oldState).work ≤ coordinator.work := by
  have workOf : ∀ client, coordinator.workOf client = client.work := fun client =>
    if_neg (by simp [spared])
  rcases killInProgress_updateMinimumState coordinator oldState with same | ⟨least, killing⟩
  · obtain ⟨messages, clients⟩ := (follows_updateMinimumState coordinator oldState).clients
    refine Coordinator.work_le clients fun client found => ?_
    rw [workOf, Coordinator.workOf, if_neg (by simp [same, spared])]
    exact (round.member client found).work_advance (round.all_left complete client found)
      round.known (fun last => complete (.inl last)) messages
  · rw [killing]
    have checkpoint := (round.minimumState_of_complete complete).symm.trans least
    refine Coordinator.work_le rfl fun client found => ?_
    rw [workOf, Coordinator.workOf, if_pos (round.doom 0).1]
    exact (round.member client found).lastWork_kill (round.all_left complete client found)
      checkpoint rfl

/-- What the coordinator does when it has learnt something leaves no more to do. -/
theorem Lockstep.work_learns (lockstep : Lockstep left restarted coordinator)
    (spared : coordinator.killInProgress = false) {oldState : WorkerState}
    (learns : Learns coordinator next oldState) :
    (next.updateMinimumState oldState).work ≤ next.work := by
  obtain ⟨round, old⟩ := lockstep.learns learns
  have still : next.killInProgress = false := by cases learns <;> exact spared
  by_cases behind : Behind left next
  · rw [round.updateMinimumState_of_behind behind old]
  · exact round.work_le still behind oldState

theorem Lockstep.lessens (lockstep : Lockstep left restarted coordinator)
    (spared : coordinator.killInProgress = false) : Lessens coordinator := by
  have workOf : ∀ client, coordinator.workOf client = client.work := fun client =>
    if_neg (by simp [spared])
  refine ⟨fun there queue => ?_, fun client found alive reported something => ?_,
    fun client found alive unreported => ?_⟩
  · exact lt_of_le_of_lt (lockstep.work_learns spared (.read there queue))
      (Coordinator.work_set_lt there (Coordinator.workOf_read queue))
  · have member := lockstep.member client found
    obtain ⟨after, received, -⟩ := member.receive
    rw [workOf client]
    exact ⟨after, received, workOf after ▸ member.work_receive something reported received⟩
  · rw [workOf, workOf]
    exact (lockstep.member client found).work_report unreported

theorem lessens_of_doomed (killed : coordinator.killInProgress = true)
    (doomed : ∀ client ∈ coordinator.clients, Doomed left client) : Lessens coordinator := by
  have workOf : ∀ client, coordinator.workOf client = client.lastWork := fun client =>
    if_pos killed
  refine ⟨fun {index client state rest} there queue => ?_,
    fun client found alive reported something => ?_, fun client found alive unreported => ?_⟩
  · refine lt_of_le_of_lt ?_ (Coordinator.work_set_lt there (Coordinator.workOf_read queue))
    have follows := follows_updateMinimumState
      { coordinator with clients :=
          coordinator.clients.set index { client with state := state, incoming := rest } }
      client.state
    obtain ⟨messages, clients⟩ := follows.clients
    refine Coordinator.work_le clients fun other found => ?_
    have isDoomed : Doomed left other := by
      rcases List.mem_or_eq_of_mem_set found with before | rfl
      · exact doomed other before
      · exact (doomed client (List.mem_of_getElem? there)).read state rest
    have after : (coordinator.onData index client state rest).workOf
        { other with outgoing := other.outgoing ++ messages } = _ := if_pos (follows.killed killed)
    rw [after, isDoomed.lastWork_append]
    exact le_of_eq (workOf other).symm
  · obtain ⟨after, received, -⟩ := (doomed client found).receive
    rw [workOf client]
    exact ⟨after, received,
      workOf after ▸ Doomed.lastWork_receive alive reported something received⟩
  · rw [workOf, workOf]
    exact lastWork_report alive unreported

theorem Sound.lessens (sound : Sound restarted coordinator) : Lessens coordinator := by
  cases sound with
  | alone nobody =>
    refine ⟨fun there => ?_, fun client found => ?_, fun client found => ?_⟩
    · rw [nobody] at there
      cases there
    all_goals
      rw [nobody] at found
      cases found
  | doomed left killed settled doomed => exact lessens_of_doomed killed doomed
  | lockstep left spared lockstep => exact lockstep.lessens spared

/-- Everything that happens inside leaves less to do, or changes nothing. -/
theorem Lessens.act (lessens : Lessens coordinator) (internal : Internal action)
    (acts : act coordinator action = .ok next) :
    next = coordinator ∨ next.work < coordinator.work := by
  unfold Dmtcp.act at acts
  split at acts
  · exact .inl (Except.ok.inj acts).symm
  cases internal with
  | read index =>
    rcases withClient_eq_ok acts with same | ⟨client, there, acts⟩
    · exact .inl same
    split at acts
    · exact .inl (Except.ok.inj acts).symm
    · rename_i state rest queue
      obtain rfl := Except.ok.inj acts
      exact .inr (lessens.read there queue)
  | receive index =>
    rcases withClient_eq_ok acts with same | ⟨client, there, acts⟩
    · exact .inl same
    by_cases ready : client.worker.exited = false ∧ client.worker.reported = true ∧
        client.outgoing ≠ []
    · obtain ⟨after, received, less⟩ := lessens.receive client (List.mem_of_getElem? there)
        ready.1 ready.2.1 ready.2.2
      simp only [received, Bind.bind, Except.bind] at acts
      obtain rfl := Except.ok.inj acts
      exact .inr (Coordinator.work_set_lt there less)
    · have waiting : client.receive = .ok client := by
        unfold CoordClient.receive
        split
        · rfl
        · rename_i message rest queue
          exact if_neg fun both => ready ⟨both.1, both.2, by simp [queue]⟩
      simp only [waiting, Bind.bind, Except.bind, set_of_getElem? there] at acts
      exact .inl (Except.ok.inj acts).symm
  | report index =>
    rcases withClient_eq_ok acts with same | ⟨client, there, acts⟩
    · exact .inl same
    obtain rfl := Except.ok.inj acts
    by_cases speaks : client.worker.exited = false ∧ client.worker.reported = false
    · exact .inr (Coordinator.work_set_lt there
        (lessens.report client (List.mem_of_getElem? there) speaks.1 speaks.2))
    · left
      have silent : client.report = client := if_neg speaks
      rw [silent, set_of_getElem? there]

/-- When nothing can happen, nothing is under way. -/
theorem Lessens.quiet (lessens : Lessens coordinator) (running : coordinator.exited = false)
    (stuck : ∀ action after, Internal action → Dmtcp.act coordinator action = .ok after →
      after = coordinator) : Quiet coordinator := by
  have impossible : ∀ {action after}, Internal action → Dmtcp.act coordinator action = .ok after →
      after.work < coordinator.work → False := by
    intro action after internal acts less
    rw [stuck action after internal acts] at less
    exact lt_irrefl _ less
  intro client found
  obtain ⟨index, there⟩ := List.mem_iff_getElem?.mp found
  refine ⟨?_, fun alive => ?_⟩
  · cases queue : client.incoming with
    | nil => rfl
    | cons state rest =>
      refine (impossible (.read index) ?_ (lessens.read there queue)).elim
      simp [Dmtcp.act, running, step, Coordinator.withClient, there, queue]
  · have reported : client.worker.reported = true := by
      by_contra unreported
      refine impossible (.report index) ?_ (Coordinator.work_set_lt there
        (lessens.report client found alive (by simpa using unreported)))
      simp [Dmtcp.act, running, step, Coordinator.withClient, there]
    refine ⟨?_, reported⟩
    by_contra something
    obtain ⟨after, received, less⟩ := lessens.receive client found alive reported something
    refine impossible (.receive index) ?_ (Coordinator.work_set_lt there less)
    simp [Dmtcp.act, running, step, Coordinator.withClient, there, received, Bind.bind, Except.bind]

/-- A run in which nothing comes from outside, with the number of things that have happened. -/
inductive Proceeds (coordinator : Coordinator) : Nat → Coordinator → Prop
  | start : Proceeds coordinator 0 coordinator
  | step {count : Nat} {before after : Coordinator} {action : Action}
      (proceeds : Proceeds coordinator count before) (internal : Internal action)
      (acts : act before action = .ok after) (changes : after ≠ before) :
      Proceeds coordinator (count + 1) after

theorem Internal.orderly (internal : Internal action) : Orderly restarted coordinator action := by
  cases internal <;> trivial

theorem Internal.restartedBy (internal : Internal action) :
    restartedBy restarted coordinator next action = restarted := by
  cases internal <;> rfl

/-- Each thing that happens leaves less to do. -/
theorem Proceeds.work {count : Nat} (proceeds : Proceeds coordinator count next)
    (reached : Reached restarted coordinator) :
    Reached restarted next ∧ count + next.work ≤ coordinator.work := by
  induction proceeds with
  | start => exact ⟨reached, by omega⟩
  | step proceeds internal acts changes inductionHypothesis =>
    obtain ⟨reachedBefore, bound⟩ := inductionHypothesis
    have less := (reachedBefore.sound.1.lessens.act internal acts).resolve_left changes
    refine ⟨?_, by omega⟩
    have reachedAfter := reachedBefore.act internal.orderly acts
    rwa [internal.restartedBy] at reachedAfter

/-- A checkpoint that has been started comes to its end. Whatever the order in which the messages
are read, there are only so many of them, and when the last one has been read everyone runs again;
a restart may wait for those who are missing, and those who have been told to end have ended. -/
theorem checkpoint_settles (reached : Reached restarted coordinator) {count : Nat}
    (proceeds : Proceeds coordinator count next) :
    count ≤ coordinator.work ∧
      (next.exited = false →
        (∀ action after, Internal action → act next action = .ok after → after = next) →
        Settled next) := by
  obtain ⟨reachedNext, bound⟩ := proceeds.work reached
  refine ⟨by omega, fun running stuck => ?_⟩
  have sound := reachedNext.sound.1
  exact sound.settled_of_quiet (sound.lessens.quiet running stuck)

theorem checkpoint_settles_lastAnswer :
    ∃ next, Proceeds lastAnswer 4 next ∧ 4 ≤ lastAnswer.work ∧ Settled next := by
  have proceeds : Proceeds lastAnswer 4 _ :=
    .step (.step (.step (.step .start (.read 0) rfl (by decide)) (.receive 0) rfl (by decide))
      (.report 0) rfl (by decide)) (.read 0) rfl (by decide)
  obtain ⟨bound, settles⟩ := checkpoint_settles reached_lastAnswer proceeds
  refine ⟨_, proceeds, bound, settles rfl fun action after internal acts => ?_⟩
  cases internal with
  | read index => cases index <;> exact (Except.ok.inj acts).symm
  | receive index => cases index <;> exact (Except.ok.inj acts).symm
  | report index => cases index <;> exact (Except.ok.inj acts).symm

end ClusterJobs.Dmtcp
