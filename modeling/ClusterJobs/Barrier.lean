/-
This file proves the barriers of a checkpoint.

The processes of a computation stay within one step of each other. `Lockstep` says so: in the round
in which the state `left` is left, every client is on record with `left` or with the state after it;
those on record with `left` have been told to go on, and the others wait. A round ends when the last
one leaves, and that is the moment the coordinator gives the next order, so no process ever reads an
order it does not wait for. When the processes are being killed the rounds do not go on, and what a
process still reads is what it had been sent before.

The processes that come and go are subject to a promise (`Orderly`): a new process says it is
running, and the images of one checkpoint are restarted once each.
-/

import ClusterJobs.Coordinator
import Mathlib.Data.List.TakeWhile
import Mathlib.Order.Nat

namespace ClusterJobs.Dmtcp

/-! ### The status -/

/-- What the loop of `getStatus` knows of the states it has seen. -/
structure Scanned (seen : List WorkerState) (scan : StatusScan) : Prop where
  count : scan.count = seen.length
  empty : scan.min = none ↔ seen = []
  least : ∀ min, scan.min = some min → min ∈ seen ∧ ∀ state ∈ seen, min.value ≤ state.value
  unanimous : scan.unanimous = true ↔ ∀ first ∈ seen, ∀ second ∈ seen, first = second

theorem scanned_start : Scanned [] {} :=
  ⟨rfl, by simp, fun _ found => absurd found (by simp), by simp⟩

theorem Scanned.add {seen : List WorkerState} {scan : StatusScan} (scanned : Scanned seen scan)
    (state : WorkerState) : Scanned (seen ++ [state]) (scan.add state) := by
  cases found : scan.min with
  | none =>
    have nothing := scanned.empty.mp found
    subst nothing
    have unanimous : scan.unanimous = true := scanned.unanimous.mpr (by simp)
    refine ⟨by simp [StatusScan.add, scanned.count], by simp [StatusScan.add, found], ?_, ?_⟩
    · intro min least
      simp only [StatusScan.add, found, Option.some.injEq] at least
      simp [← least]
    · simp [StatusScan.add, found, unanimous]
  | some least =>
    obtain ⟨member, lower⟩ := scanned.least least found
    refine ⟨by simp [StatusScan.add, scanned.count], ?_, ?_, ?_⟩
    · simp only [StatusScan.add, found]
      split <;> simp
    · intro min isMin
      simp only [StatusScan.add, found] at isMin
      split at isMin
      · rename_i below
        obtain rfl := Option.some.inj isMin
        refine ⟨by simp, fun other seenOther => ?_⟩
        rcases List.mem_append.mp seenOther with earlier | last
        · exact le_trans below.le (lower other earlier)
        · rw [List.mem_singleton.mp last]
      · rename_i notBelow
        obtain rfl := Option.some.inj isMin
        refine ⟨List.mem_append_left _ member, fun other seenOther => ?_⟩
        rcases List.mem_append.mp seenOther with earlier | last
        · exact lower other earlier
        · rw [List.mem_singleton.mp last]
          exact not_lt.mp notBelow
    · simp only [StatusScan.add, found, Bool.and_eq_true, Bool.or_eq_true, beq_iff_eq,
        Option.some.injEq, reduceCtorEq, or_false]
      constructor
      · rintro ⟨agreed, rfl⟩ first inFirst second inSecond
        have same : ∀ other ∈ seen ++ [least], other = least := by
          intro other seenOther
          rcases List.mem_append.mp seenOther with earlier | last
          · exact scanned.unanimous.mp agreed other earlier least member
          · exact List.mem_singleton.mp last
        rw [same first inFirst, same second inSecond]
      · intro agreed
        refine ⟨scanned.unanimous.mpr fun first inFirst second inSecond =>
          agreed first (List.mem_append_left _ inFirst) second
            (List.mem_append_left _ inSecond), ?_⟩
        exact agreed least (List.mem_append_left _ member) state (by simp)

theorem scanned_foldl (states : List WorkerState) {seen : List WorkerState} {scan : StatusScan}
    (scanned : Scanned seen scan) :
    Scanned (seen ++ states) (states.foldl StatusScan.add scan) := by
  induction states generalizing seen scan with
  | nil => simpa using scanned
  | cons state states inductionHypothesis =>
    rw [List.foldl_cons, List.append_cons]
    exact inductionHypothesis (scanned.add state)

/-- The states on record. -/
def Coordinator.states (coordinator : Coordinator) : List WorkerState :=
  coordinator.clients.map CoordClient.state

theorem Coordinator.scanned (coordinator : Coordinator) :
    Scanned coordinator.states (coordinator.states.foldl StatusScan.add {}) :=
  scanned_foldl coordinator.states scanned_start

theorem Coordinator.numPeers_getStatus (coordinator : Coordinator) :
    coordinator.getStatus.numPeers = coordinator.clients.length := by
  have count := coordinator.scanned.count
  rw [Coordinator.states, List.length_map] at count
  exact count

theorem Coordinator.unanimous_getStatus (coordinator : Coordinator) :
    coordinator.getStatus.minimumStateUnanimous = true ↔
      ∀ first ∈ coordinator.clients, ∀ second ∈ coordinator.clients,
        first.state = second.state := by
  refine coordinator.scanned.unanimous.trans ?_
  simp [Coordinator.states]

theorem Coordinator.minimumState_of_nil {coordinator : Coordinator}
    (nobody : coordinator.clients = []) : coordinator.minimumState = .unknown := by
  simp [Coordinator.minimumState, Coordinator.getStatus, nobody]

/-- The least state decides, except that a restart waits for the processes that are missing. -/
theorem Coordinator.minimumState_eq {coordinator : Coordinator} {least : WorkerState}
    (member : least ∈ coordinator.states)
    (lower : ∀ state ∈ coordinator.states, least.value ≤ state.value) :
    coordinator.minimumState =
      if least = .checkpointed ∧ coordinator.isRestarting = true ∧
        (coordinator.clients.length : Int) < coordinator.numPeers then .restarting else least := by
  have scanned := coordinator.scanned
  have value_injective : ∀ first second : WorkerState, first.value = second.value →
      first = second := by
    intro first second
    cases first <;> cases second <;> simp [WorkerState.value]
  have found : (coordinator.states.foldl StatusScan.add {}).min = some least := by
    cases min : (coordinator.states.foldl StatusScan.add {}).min with
    | none => rw [scanned.empty.mp min] at member; cases member
    | some other =>
      obtain ⟨memberOther, lowerOther⟩ := scanned.least other min
      rw [value_injective other least
        (le_antisymm (lowerOther least member) (lower other memberOther))]
  have count : (coordinator.states.foldl StatusScan.add {}).count =
      coordinator.clients.length := coordinator.numPeers_getStatus
  show (if (coordinator.states.foldl StatusScan.add {}).min.getD .unknown = .checkpointed ∧
    coordinator.isRestarting = true ∧
      ((coordinator.states.foldl StatusScan.add {}).count : Int) < coordinator.numPeers then
        WorkerState.restarting
      else (coordinator.states.foldl StatusScan.add {}).min.getD .unknown) = _
  rw [found, count, Option.getD_some]

/-! ### Where a client stands in a round -/

/-- What may be under way from a client that nobody has told anything yet: a new process says that
it is running. -/
def Greeting (state : WorkerState) (queue : List WorkerState) : Prop :=
  queue = [] ∨ state = .running ∧ queue = [.running]

/-- The order to leave the state on record is under way. -/
def Told (client : CoordClient) : Prop :=
  ∃ message, client.outgoing = [message] ∧ client.state.awaits = some message.type

/-- The client waits in the state on record. -/
inductive Idle (client : CoordClient) : Prop
  | new (state : client.state = .running) (same : client.worker.state = client.state)
      (reported : client.worker.reported = false) (incoming : client.incoming = [])
      (outgoing : client.outgoing = [])
  | waiting (same : client.worker.state = client.state) (reported : client.worker.reported = true)
      (incoming : Greeting client.state client.incoming) (outgoing : client.outgoing = [])

/-- The client has been told to leave the state on record. A process made from an image leaves
`RESTARTING` when it reports for the first time. -/
inductive Going (client : CoordClient) : Prop
  | new (state : client.state = .running) (same : client.worker.state = client.state)
      (reported : client.worker.reported = false) (incoming : client.incoming = [])
      (told : Told client)
  | told (same : client.worker.state = client.state) (reported : client.worker.reported = true)
      (incoming : Greeting client.state client.incoming) (told : Told client)
  | working (reports : client.worker.reports = client.state.next)
      (origin : client.worker.state = .restarting ↔ client.state = .restarting)
      (reported : client.worker.reported = false)
      (incoming : Greeting client.state client.incoming) (outgoing : client.outgoing = [])
  | answered (same : client.worker.state = client.state.next)
      (reported : client.worker.reported = true)
      (incoming : ∃ queue, Greeting client.state queue ∧
        client.incoming = queue ++ [client.state.next])
      (outgoing : client.outgoing = [])

/-- A process that has reached a checkpoint has an image of it. -/
def Saved (worker : Worker) : Prop :=
  (worker.state = .checkpointed ∧ worker.reported = true ∨
      worker.state = .nameServiceDataRegistered ∨ worker.state = .doneQuerying ∨
      worker.state = .refilled) →
    ∃ image, worker.image = some image ∧ image.compGroup = worker.compGroup

/-- A client in the round in which a state is left. -/
structure Member (left : WorkerState) (compId : UniquePid) (client : CoordClient) : Prop where
  place : client.state = left ∧ Going client ∨ client.state = left.next ∧ Idle client
  alive : client.worker.exited = false
  stamped : ∀ message ∈ client.outgoing, message.compGroup = compId
  group : client.worker.compGroup.Same compId
  joined : client.worker.state ≠ .running → client.worker.compGroup = compId
  saved : Saved client.worker

section Client

variable {client : CoordClient} {left : WorkerState} {compId : UniquePid}

theorem next_ne_self (state : WorkerState) : state.next ≠ state := by
  cases state <;> decide

theorem next_ne_restarting (state : WorkerState) : state.next ≠ .restarting := by
  cases state <;> decide

theorem reports_of_ne {worker : Worker} (other : worker.state ≠ .restarting) :
    worker.reports = worker.state := if_neg other

theorem reports_ne_restarting (worker : Worker) : worker.reports ≠ .restarting := by
  unfold Worker.reports
  split
  · decide
  · assumption

/-- A process that reads the order it waits for goes on. -/
theorem receive_awaited (worker : Worker) (message : DmtcpMessage)
    (awaited : worker.state.awaits = some message.type)
    (group : worker.compGroup.Same message.compGroup) :
    ∃ next, worker.receive message = .ok next ∧ next.state = worker.state.next ∧
      next.reported = false ∧ next.exited = worker.exited ∧ next.image = worker.image ∧
      (next.compGroup = message.compGroup ∨
        worker.state ≠ .running ∧ next.compGroup = worker.compGroup) := by
  have notKill : message.type ≠ .killPeer := by
    intro kill
    rw [kill] at awaited
    revert awaited
    cases worker.state <;> decide
  have updated : (⟨worker.compGroup.hostid, worker.compGroup.pid, worker.compGroup.time,
      message.compGroup.generation⟩ : UniquePid) = message.compGroup := by
    rw [group.1, group.2.1, group.2.2]
  have isRunning : message.type ≠ .doSuspend → worker.state ≠ .running := by
    intro other running
    rw [running] at awaited
    exact other (Option.some.inj awaited).symm
  unfold Worker.receive
  rw [if_neg notKill, if_pos awaited]
  cases type : message.type with
  | doSuspend =>
    rw [if_pos updated]
    exact ⟨_, rfl, rfl, rfl, rfl, rfl, .inl updated⟩
  | doFdLeaderElection => exact ⟨_, rfl, rfl, rfl, rfl, rfl, .inl rfl⟩
  | killPeer => exact absurd type notKill
  | doResume | doDrain | doCheckpoint | doRegisterNameServiceData | doSendQueries | doRefill =>
    exact ⟨_, rfl, rfl, rfl, rfl, rfl, .inr ⟨isRunning (by rw [type]; decide), rfl⟩⟩

/-- A process keeps its image while it goes on to the next checkpoint. -/
theorem Saved.receive {worker next : Worker} (saved : Saved worker)
    (reported : worker.reported = true) (state : next.state = worker.state.next)
    (unreported : next.reported = false) (image : next.image = worker.image)
    (group : next.state ≠ .suspended → next.state ≠ .fdLeaderElection →
      next.compGroup = worker.compGroup) : Saved next := by
  intro reached
  rw [state, unreported] at reached
  have before : worker.state = .checkpointed ∨ worker.state = .nameServiceDataRegistered ∨
      worker.state = .doneQuerying := by
    revert reached
    cases worker.state <;> simp [WorkerState.next]
  have same : next.compGroup = worker.compGroup := by
    apply group <;> rw [state] <;> rcases before with same | same | same <;> rw [same] <;> decide
  rw [image, same]
  refine saved ?_
  rcases before with same | same | same
  · exact .inl ⟨same, reported⟩
  · exact .inr (.inl same)
  · exact .inr (.inr (.inl same))

theorem Saved.report {worker : Worker} (saved : Saved worker) : Saved worker.report := by
  intro reached
  by_cases checkpoint : worker.reports = .checkpointed
  · exact ⟨_, if_pos checkpoint, rfl⟩
  · have state : worker.state ≠ .restarting := fun restarting =>
      checkpoint (if_pos restarting)
    have same : worker.report.state = worker.state := reports_of_ne state
    have image : worker.report.image = worker.image := if_neg checkpoint
    rw [image]
    refine saved ?_
    rw [same] at reached
    rcases reached with ⟨atCheckpoint, -⟩ | later
    · exact absurd (by rw [reports_of_ne state, atCheckpoint]) checkpoint
    · exact .inr later

theorem Greeting.head {state head : WorkerState} {rest : List WorkerState}
    (greeting : Greeting state (head :: rest)) : head = state ∧ rest = [] := by
  rcases greeting with nothing | ⟨rfl, same⟩
  · cases nothing
  · cases same
    exact ⟨rfl, rfl⟩

/-- A member that is on record with the next state waits there. -/
theorem Member.idle (member : Member left compId client) (here : client.state = left.next) :
    Idle client := by
  rcases member.place with ⟨before, -⟩ | ⟨-, idle⟩
  · exact absurd (here.symm.trans before) (next_ne_self left)
  · exact idle

/-- Somebody who waits and has an order before him has been told to leave. -/
theorem Member.told (member : Member left compId client) {message : DmtcpMessage}
    {rest : List DmtcpMessage} (reported : client.worker.reported = true)
    (queue : client.outgoing = message :: rest) :
    client.state = left ∧ client.worker.state = client.state ∧
      Greeting client.state client.incoming ∧ rest = [] ∧
      client.state.awaits = some message.type := by
  have told : Told client → rest = [] ∧ client.state.awaits = some message.type := by
    rintro ⟨other, outgoing, awaited⟩
    rw [queue] at outgoing
    cases outgoing
    exact ⟨rfl, awaited⟩
  rcases member.place with ⟨here, going⟩ | ⟨-, idle⟩
  · cases going with
    | new _ _ unreported => rw [unreported] at reported; cases reported
    | told same _ incoming isTold => exact ⟨here, same, incoming, told isTold⟩
    | working _ _ unreported => rw [unreported] at reported; cases reported
    | answered _ _ _ outgoing => rw [queue] at outgoing; cases outgoing
  · cases idle with
    | new _ _ unreported => rw [unreported] at reported; cases reported
    | waiting _ _ _ outgoing => rw [queue] at outgoing; cases outgoing

/-- The process of a member reads what is there for it. -/
theorem Member.receive (member : Member left compId client) :
    ∃ next, client.receive = .ok next ∧ Member left compId next ∧ next.state = client.state := by
  cases queue : client.outgoing with
  | nil =>
    refine ⟨client, ?_, member, rfl⟩
    rw [CoordClient.receive, queue]
  | cons message rest =>
    by_cases reported : client.worker.reported = true
    · obtain ⟨left', same, greeting, outgoing, awaited⟩ := member.told reported queue
      have stamp : message.compGroup = compId :=
        member.stamped message (by rw [queue]; exact List.mem_cons_self)
      obtain ⟨next, received, state, unreported, exited, image, group⟩ :=
        receive_awaited client.worker message (same ▸ awaited)
          (stamp ▸ member.group)
      have joined : next.compGroup = compId := by
        rcases group with fresh | ⟨other, kept⟩
        · exact fresh.trans stamp
        · exact kept.trans (member.joined other)
      refine ⟨{ client with worker := next, outgoing := rest }, ?_, ?_, rfl⟩
      · rw [CoordClient.receive, queue]
        simp only [member.alive, reported, and_self, if_true, received]
        rfl
      · refine ⟨.inl ⟨left', .working ?_ ?_ unreported greeting outgoing⟩,
          exited.trans member.alive, fun other found => ?_, joined ▸ ⟨rfl, rfl, rfl⟩,
          fun _ => joined,
          member.saved.receive reported state unreported image fun notFirst notSecond => ?_⟩
        · show next.reports = client.state.next
          rw [reports_of_ne (state ▸ next_ne_restarting _), state, same]
        · refine iff_of_false (state ▸ next_ne_restarting _) fun restarting => ?_
          rw [restarting] at awaited
          cases awaited
        · rw [outgoing] at found
          cases found
        · rw [joined]
          refine (member.joined fun running => notFirst ?_).symm
          rw [state, running]
          rfl
    · refine ⟨client, ?_, member, rfl⟩
      rw [CoordClient.receive, queue]
      exact if_neg fun both => reported both.2

/-- The process of a member says what it has to say. -/
theorem Member.report (member : Member left compId client) :
    Member left compId client.report ∧ client.report.state = client.state := by
  by_cases unreported : client.worker.reported = false
  · have reporting : client.report = { client with
        worker := client.worker.report
        incoming := client.incoming ++ [client.worker.reports] } :=
      if_pos ⟨member.alive, unreported⟩
    rw [reporting]
    refine ⟨⟨?_, member.alive, member.stamped, member.group,
      fun other => member.joined fun running => other ?_, member.saved.report⟩, rfl⟩
    · have fresh : client.state = .running → client.worker.state = client.state →
          client.worker.reports = client.state := by
        intro running same
        rw [reports_of_ne (by rw [same, running]; decide), same]
      have greets : client.state = .running → client.worker.state = client.state →
          client.incoming = [] → Greeting client.state
            (client.incoming ++ [client.worker.reports]) := by
        intro running same incoming
        rw [fresh running same, incoming, running]
        exact .inr ⟨rfl, rfl⟩
      rcases member.place with ⟨here, going⟩ | ⟨here, idle⟩
      · refine .inl ⟨here, ?_⟩
        cases going with
        | new running same _ incoming told =>
          exact .told (fresh running same) rfl (greets running same incoming) told
        | told _ reported => rw [unreported] at reported; cases reported
        | working reports _ _ incoming outgoing =>
          exact .answered reports rfl ⟨_, incoming, by rw [← reports]⟩ outgoing
        | answered _ reported => rw [unreported] at reported; cases reported
      · refine .inr ⟨here, ?_⟩
        cases idle with
        | new running same _ incoming outgoing =>
          exact .waiting (fresh running same) rfl (greets running same incoming) outgoing
        | waiting _ reported => rw [unreported] at reported; cases reported
    · show client.worker.reports = .running
      rw [reports_of_ne (by rw [running]; decide), running]
  · have silent : client.report = client := if_neg fun both => unreported both.2
    rw [silent]
    exact ⟨member, rfl⟩

/-- The coordinator reads a message of a member: its greeting, or that it has left. -/
theorem Member.read (member : Member left compId client) {state : WorkerState}
    {rest : List WorkerState} (queue : client.incoming = state :: rest) :
    Member left compId { client with state := state, incoming := rest } ∧
      (state = client.state ∨ client.state = left ∧ state = left.next) := by
  have greeted : Greeting client.state client.incoming → state = client.state ∧ rest = [] := by
    intro greeting
    rw [queue] at greeting
    exact greeting.head
  rcases member.place with ⟨here, going⟩ | ⟨here, idle⟩
  · cases going with
    | new _ _ _ incoming => rw [queue] at incoming; cases incoming
    | told same reported incoming told =>
      obtain ⟨rfl, rfl⟩ := greeted incoming
      exact ⟨⟨.inl ⟨here, .told same reported (.inl rfl) told⟩, member.alive, member.stamped,
        member.group, member.joined, member.saved⟩, .inl rfl⟩
    | working reports origin reported incoming outgoing =>
      obtain ⟨rfl, rfl⟩ := greeted incoming
      exact ⟨⟨.inl ⟨here, .working reports origin reported (.inl rfl) outgoing⟩, member.alive,
        member.stamped, member.group, member.joined, member.saved⟩, .inl rfl⟩
    | answered same reported incoming outgoing =>
      obtain ⟨greeting, isGreeting, split⟩ := incoming
      rw [queue] at split
      rcases isGreeting with rfl | ⟨running, rfl⟩
      · cases split
        rw [here] at same ⊢
        exact ⟨⟨.inr ⟨rfl, .waiting same reported (.inl rfl) outgoing⟩, member.alive,
          member.stamped, member.group, member.joined, member.saved⟩, .inr ⟨rfl, rfl⟩⟩
      · cases split
        refine ⟨⟨.inl ⟨running ▸ here, .answered (running ▸ same) reported
          ⟨[], .inl rfl, by rw [running]; rfl⟩ outgoing⟩, member.alive, member.stamped,
          member.group, member.joined, member.saved⟩, .inl running.symm⟩
  · cases idle with
    | new _ _ _ incoming => rw [queue] at incoming; cases incoming
    | waiting same reported incoming outgoing =>
      obtain ⟨rfl, rfl⟩ := greeted incoming
      exact ⟨⟨.inr ⟨here, .waiting same reported (.inl rfl) outgoing⟩, member.alive,
        member.stamped, member.group, member.joined, member.saved⟩, .inl rfl⟩

/-- A member that waits is told to go on. -/
theorem Idle.going (idle : Idle client) (message : DmtcpMessage)
    (awaited : client.state.awaits = some message.type) :
    Going { client with outgoing := client.outgoing ++ [message] } := by
  cases idle with
  | new state same reported incoming outgoing =>
    exact .new state same reported incoming ⟨message, by rw [outgoing]; rfl, awaited⟩
  | waiting same reported incoming outgoing =>
    exact .told same reported incoming ⟨message, by rw [outgoing]; rfl, awaited⟩

theorem Idle.outgoing (idle : Idle client) : client.outgoing = [] := by
  cases idle with
  | new _ _ _ _ outgoing => exact outgoing
  | waiting _ _ _ outgoing => exact outgoing

/-- Nothing under way to a member is an order to end. -/
theorem Member.no_kill (member : Member left compId client) :
    ∀ message ∈ client.outgoing, message.type ≠ .killPeer := by
  have told : Told client → ∀ message ∈ client.outgoing, message.type ≠ .killPeer := by
    rintro ⟨message, outgoing, awaited⟩ other found kill
    rw [outgoing, List.mem_singleton] at found
    rw [found] at kill
    rw [kill] at awaited
    revert awaited
    cases client.state <;> decide
  rcases member.place with ⟨-, going⟩ | ⟨-, idle⟩
  · cases going with
    | new _ _ _ _ isTold => exact told isTold
    | told _ _ _ isTold => exact told isTold
    | working _ _ _ _ outgoing => simp [outgoing]
    | answered _ _ _ outgoing => simp [outgoing]
  · simp [idle.outgoing]

theorem Idle.state (idle : Idle client) : client.worker.state = client.state := by
  cases idle with
  | new _ same => exact same
  | waiting same => exact same

/-! ### Where a process stands -/

/-- What a process will still read: the orders before the one to end. -/
def CoordClient.unread (client : CoordClient) : List DmtcpMessage :=
  client.outgoing.takeWhile fun message => message.type != .killPeer

/-- The process is in the state that is left, with the order to leave it before it, or has left. -/
def Placed (left : WorkerState) (client : CoordClient) : Prop :=
  client.worker.state = left ∧ (client.worker.reported = true ∨ left = .running) ∧
      (∃ message, client.unread = [message] ∧ left.awaits = some message.type ∧
        client.worker.compGroup.Same message.compGroup) ∨
    client.worker.reports = left.next ∧ client.unread = [] ∧
      (client.worker.state = .restarting ↔ left = .restarting ∧ client.worker.reported = false)

/-- A client that has been told to end, in whatever round that was. -/
def Doomed (left : WorkerState) (client : CoordClient) : Prop :=
  client.worker.exited = true ∧ (client.worker.state = left ∨ client.worker.state = left.next) ∨
    (∃ message ∈ client.outgoing, message.type = .killPeer) ∧ Placed left client

theorem Placed.state (placed : Placed left client) :
    client.worker.state = left ∨ client.worker.state = left.next := by
  rcases placed with ⟨here, -⟩ | ⟨reports, -, origin⟩
  · exact .inl here
  · by_cases restarting : client.worker.state = .restarting
    · exact .inl (restarting.trans (origin.mp restarting).1.symm)
    · exact .inr ((reports_of_ne restarting).symm.trans reports)

theorem Doomed.state (doomed : Doomed left client) :
    client.worker.state = left ∨ client.worker.state = left.next := by
  rcases doomed with ⟨-, state⟩ | ⟨-, placed⟩
  · exact state
  · exact placed.state

theorem unread_append {messages : List DmtcpMessage}
    (kill : ∃ other ∈ client.outgoing, other.type = .killPeer) :
    ({ client with outgoing := client.outgoing ++ messages } : CoordClient).unread =
      client.unread := by
  obtain ⟨other, found, isKill⟩ := kill
  have short : client.unread.length ≠ client.outgoing.length := by
    intro whole
    have same : client.unread = client.outgoing := (List.takeWhile_prefix _).eq_of_length whole
    rw [← same] at found
    simpa [isKill] using List.mem_takeWhile_imp found
  show List.takeWhile _ (client.outgoing ++ messages) = client.unread
  rw [List.takeWhile_append]
  exact if_neg short

theorem unread_append_kill {message : DmtcpMessage} (isKill : message.type = .killPeer)
    (none : ∀ other ∈ client.outgoing, other.type ≠ .killPeer) :
    ({ client with outgoing := client.outgoing ++ [message] } : CoordClient).unread =
      client.outgoing := by
  show List.takeWhile _ (client.outgoing ++ [message]) = client.outgoing
  rw [List.takeWhile_append_of_pos (by simpa using none)]
  simp [isKill]

theorem Member.unread (member : Member left compId client) :
    client.unread = client.outgoing := by
  rw [CoordClient.unread, List.takeWhile_eq_self_iff]
  simpa using member.no_kill

/-- Where a member stands, as far as its process is concerned. -/
theorem Member.placed (member : Member left compId client) : Placed left client := by
  have told : Told client → client.state = left →
      ∃ message, client.unread = [message] ∧ left.awaits = some message.type ∧
        client.worker.compGroup.Same message.compGroup := by
    rintro ⟨message, outgoing, awaited⟩ rfl
    refine ⟨message, member.unread.trans outgoing, awaited, ?_⟩
    rw [member.stamped message (by simp [outgoing])]
    exact member.group
  have settled : client.worker.state = left.next →
      (left = .restarting → client.worker.reported = true) → client.outgoing = [] →
      client.worker.reports = left.next ∧ client.unread = [] ∧
        (client.worker.state = .restarting ↔
          left = .restarting ∧ client.worker.reported = false) := by
    intro same silent outgoing
    refine ⟨by rw [reports_of_ne (same ▸ next_ne_restarting _), same],
      member.unread.trans outgoing, iff_of_false (same ▸ next_ne_restarting _) ?_⟩
    rintro ⟨restarting, unreported⟩
    rw [silent restarting] at unreported
    cases unreported
  rcases member.place with ⟨here, going⟩ | ⟨here, idle⟩
  · cases going with
    | new running same _ _ isTold =>
      exact .inl ⟨same.trans here, .inr (here ▸ running), told isTold here⟩
    | told same reported _ isTold =>
      exact .inl ⟨same.trans here, .inl reported, told isTold here⟩
    | working reports origin unreported _ outgoing =>
      subst here
      exact .inr ⟨reports, member.unread.trans outgoing,
        origin.trans (and_iff_left unreported).symm⟩
    | answered same reported _ outgoing =>
      exact .inr (settled (here ▸ same) (fun _ => reported) outgoing)
  · refine .inr (settled (idle.state.trans here) ?_ idle.outgoing)
    rintro rfl
    cases idle with
    | new running => rw [here] at running; cases running
    | waiting _ reported => exact reported

theorem Member.doomed (member : Member left compId client) {message : DmtcpMessage}
    (isKill : message.type = .killPeer) :
    Doomed left { client with outgoing := client.outgoing ++ [message] } := by
  have same : ({ client with outgoing := client.outgoing ++ [message] } : CoordClient).unread =
      client.unread := (unread_append_kill isKill member.no_kill).trans member.unread.symm
  refine .inr ⟨⟨message, by simp, isKill⟩, ?_⟩
  unfold Placed
  rw [same]
  exact member.placed

theorem Doomed.append (doomed : Doomed left client) (messages : List DmtcpMessage) :
    Doomed left { client with outgoing := client.outgoing ++ messages } := by
  rcases doomed with exited | ⟨kill, placed⟩
  · exact .inl exited
  · refine .inr ⟨?_, ?_⟩
    · obtain ⟨other, found, isKill⟩ := kill
      exact ⟨other, List.mem_append_left _ found, isKill⟩
    · unfold Placed
      rw [unread_append kill]
      exact placed

theorem Doomed.receive (doomed : Doomed left client) :
    ∃ next, client.receive = .ok next ∧ Doomed left next ∧ next.state = client.state := by
  cases queue : client.outgoing with
  | nil =>
    refine ⟨client, ?_, doomed, rfl⟩
    rw [CoordClient.receive, queue]
  | cons message rest =>
    by_cases reads : client.worker.exited = false ∧ client.worker.reported = true
    · rcases doomed with ⟨exited, -⟩ | ⟨kill, placed⟩
      · rw [reads.1] at exited
        cases exited
      by_cases isKill : message.type = .killPeer
      · refine ⟨{ client with worker := { client.worker with exited := true }, outgoing := rest },
          ?_, .inl ⟨rfl, placed.state⟩, rfl⟩
        rw [CoordClient.receive, queue]
        simp only [if_pos reads, Worker.receive, if_pos isKill]
        rfl
      · have unread : client.unread = message ::
            rest.takeWhile fun message => message.type != .killPeer := by
          rw [CoordClient.unread, queue, List.takeWhile_cons_of_pos (by simpa using isKill)]
        rcases placed with ⟨state, -, other, single, awaited, group⟩ | ⟨-, nothing, -⟩
        · rw [unread] at single
          obtain ⟨rfl, nothing⟩ := List.cons.inj single
          obtain ⟨next, received, nextState, unreported, exited, -⟩ :=
            receive_awaited client.worker message (state ▸ awaited) group
          refine ⟨{ client with worker := next, outgoing := rest }, ?_,
            .inr ⟨?_, .inr ⟨?_, ?_, ?_⟩⟩, rfl⟩
          · rw [CoordClient.receive, queue]
            simp only [if_pos reads, received]
            rfl
          · obtain ⟨last, found, isLast⟩ := kill
            rw [queue] at found
            rcases List.mem_cons.mp found with rfl | later
            · exact absurd isLast isKill
            · exact ⟨last, later, isLast⟩
          · show next.reports = left.next
            rw [reports_of_ne (nextState ▸ next_ne_restarting _), nextState, state]
          · exact nothing
          · refine iff_of_false (nextState ▸ next_ne_restarting _) fun both => ?_
            rw [both.1] at awaited
            cases awaited
        · rw [unread] at nothing
          cases nothing
    · refine ⟨client, ?_, doomed, rfl⟩
      rw [CoordClient.receive, queue]
      exact if_neg reads

theorem Doomed.report (doomed : Doomed left client) :
    Doomed left client.report ∧ client.report.state = client.state := by
  by_cases speaks : client.worker.exited = false ∧ client.worker.reported = false
  · rw [CoordClient.report, if_pos speaks]
    refine ⟨?_, rfl⟩
    rcases doomed with ⟨exited, -⟩ | ⟨kill, placed⟩
    · rw [speaks.1] at exited
      cases exited
    · refine .inr ⟨kill, ?_⟩
      have again : client.worker.report.reports = client.worker.reports :=
        reports_of_ne (reports_ne_restarting _)
      rcases placed with ⟨state, ready, unread⟩ | ⟨reports, unread, -⟩
      · have running : left = .running := by
          rcases ready with reported | running
          · rw [speaks.2] at reported
            cases reported
          · exact running
        refine .inl ⟨?_, .inl rfl, unread⟩
        show client.worker.reports = left
        rw [reports_of_ne (by rw [state, running]; decide), state]
      · exact .inr ⟨again.trans reports, unread,
          iff_of_false (reports_ne_restarting _) fun both => by cases both.2⟩
  · rw [CoordClient.report, if_neg speaks]
    exact ⟨doomed, rfl⟩

end Client

/-! ### Rounds -/

/-- The rounds that a restart goes through, before everyone resumes. -/
def restartRounds : List WorkerState :=
  [.restarting, .checkpointed, .nameServiceDataRegistered, .doneQuerying]

/-- Some client is still to leave the state, or is still missing in a restart. The state before
`RUNNING` is left by everyone in his own time. -/
def Behind (left : WorkerState) (coordinator : Coordinator) : Prop :=
  left = .refilled ∨ (∃ client ∈ coordinator.clients, client.state = left) ∨
    left = .restarting ∧ (coordinator.clients.length : Int) < coordinator.numPeers

/-- What holds from the beginning of a round to its end, the order that ends it not yet given. -/
structure Round (left : WorkerState) (restarted : Nat) (coordinator : Coordinator) : Prop where
  nonempty : coordinator.clients ≠ []
  identified : ¬ coordinator.compId.Same .zero
  known : left ≠ .unknown
  member : ∀ client ∈ coordinator.clients, Member left coordinator.compId client
  suspends : coordinator.workersRunningAndSuspendMsgSent = true ↔ left = .running
  settled : left ≠ .restarting → coordinator.numPeers ≤ restarted
  resumed : left ∉ restartRounds → coordinator.isRestarting = false ∨ coordinator.numPeers = -1
  rejoining : left = .restarting → coordinator.isRestarting = true ∧
    coordinator.clients.length ≤ restarted ∧ (restarted : Int) ≤ coordinator.numPeers

/-- The computation is in the round in which a state is left. -/
structure Lockstep (left : WorkerState) (restarted : Nat) (coordinator : Coordinator) : Prop
    extends Round left restarted coordinator where
  behind : Behind left coordinator

/-- There is nobody; or the processes are being killed; or they are in a round. -/
inductive Sound (restarted : Nat) (coordinator : Coordinator) : Prop
  | alone (nobody : coordinator.clients = [])
  | doomed (left : WorkerState) (killed : coordinator.killInProgress = true)
      (settled : left ≠ .restarting → coordinator.numPeers ≤ restarted)
      (doomed : ∀ client ∈ coordinator.clients, Doomed left client)
  | lockstep (left : WorkerState) (spared : coordinator.killInProgress = false)
      (lockstep : Lockstep left restarted coordinator)

section Rounds

variable {coordinator next : Coordinator} {left : WorkerState} {restarted : Nat}

theorem Member.state {compId : UniquePid} {client : CoordClient}
    (member : Member left compId client) : client.state = left ∨ client.state = left.next :=
  member.place.imp And.left And.left

/-- The least state of a computation in which two states are on record. -/
theorem minimumState_of_two (low high : WorkerState) (order : low.value ≤ high.value)
    (states : ∀ client ∈ coordinator.clients, client.state = low ∨ client.state = high)
    (lowest : ∃ client ∈ coordinator.clients, client.state = low) :
    coordinator.minimumState =
      if low = .checkpointed ∧ coordinator.isRestarting = true ∧
        (coordinator.clients.length : Int) < coordinator.numPeers then .restarting else low := by
  refine Coordinator.minimumState_eq (List.mem_map.mpr lowest) fun state found => ?_
  obtain ⟨client, member, rfl⟩ := List.mem_map.mp found
  rcases states client member with same | same
  · rw [same]
  · rw [same]
    exact order

/-- While somebody is behind, the least state is the one that is left. -/
theorem Round.minimumState_of_behind (round : Round left restarted coordinator)
    (behind : Behind left coordinator) (other : left ≠ .refilled) :
    coordinator.minimumState = left ∨ coordinator.minimumState = .restarting := by
  rcases behind with refilled | lowest | ⟨rfl, missing⟩
  · exact absurd refilled other
  · have order : left.value ≤ left.next.value := by
      revert other
      cases left <;> decide
    rw [minimumState_of_two left left.next order
      (fun client found => (round.member client found).state) lowest]
    split
    · exact .inr rfl
    · exact .inl rfl
  · by_cases lowest : ∃ client ∈ coordinator.clients, client.state = .restarting
    · rw [minimumState_of_two .restarting .checkpointed (by decide)
        (fun client found => (round.member client found).state) lowest]
      exact .inl (if_neg fun both => absurd both.1 (by decide))
    · have states : ∀ client ∈ coordinator.clients, client.state = .checkpointed := by
        intro client found
        exact (round.member client found).state.resolve_left fun here =>
          lowest ⟨client, found, here⟩
      obtain ⟨client, found⟩ := List.exists_mem_of_ne_nil _ round.nonempty
      rw [minimumState_of_two .checkpointed .checkpointed le_rfl
        (fun client found => .inl (states client found)) ⟨client, found, states client found⟩]
      exact .inl (if_pos ⟨rfl, (round.rejoining rfl).1, missing⟩)

/-- In the last round everyone goes back to `RUNNING` in his own time. -/
theorem Round.minimumState_of_refilled (round : Round .refilled restarted coordinator) :
    coordinator.minimumState = .running ∨ coordinator.minimumState = .refilled := by
  have states : ∀ client ∈ coordinator.clients,
      client.state = .running ∨ client.state = .refilled := fun client found =>
    (round.member client found).place.symm.imp And.left And.left
  by_cases lowest : ∃ client ∈ coordinator.clients, client.state = .running
  · rw [minimumState_of_two .running .refilled (by decide) states lowest]
    exact .inl (if_neg fun both => absurd both.1 (by decide))
  · obtain ⟨client, found⟩ := List.exists_mem_of_ne_nil _ round.nonempty
    have all : ∀ client ∈ coordinator.clients,
        client.state = .refilled ∨ client.state = .refilled := fun client found =>
      .inl ((states client found).resolve_left fun here => lowest ⟨client, found, here⟩)
    rw [minimumState_of_two .refilled .refilled le_rfl all
      ⟨client, found, (all client found).elim id id⟩]
    exact .inr (if_neg fun both => absurd both.1 (by decide))

/-- When nobody is behind any more, the least state is the next one. -/
theorem Round.minimumState_of_complete (round : Round left restarted coordinator)
    (complete : ¬ Behind left coordinator) : coordinator.minimumState = left.next := by
  have states : ∀ client ∈ coordinator.clients, client.state = left.next := by
    intro client found
    exact (round.member client found).state.resolve_left fun here =>
      complete (.inr (.inl ⟨client, found, here⟩))
  obtain ⟨client, found⟩ := List.exists_mem_of_ne_nil _ round.nonempty
  rw [minimumState_of_two left.next left.next le_rfl
    (fun client found => .inl (states client found)) ⟨client, found, states client found⟩]
  refine if_neg ?_
  rintro ⟨checkpointed, restarting, missing⟩
  have cases : left = .drained ∨ left = .restarting := by
    revert checkpointed
    cases left <;> simp [WorkerState.next]
  rcases cases with rfl | rfl
  · rcases round.resumed (by decide) with finished | unknown
    · rw [finished] at restarting
      cases restarting
    · omega
  · exact complete (.inr (.inr ⟨rfl, missing⟩))

/-- The coordinator gives no order unless the least state is the one after the old state. -/
theorem updateMinimumState_eq_self {oldState : WorkerState}
    (other : oldState = .refilled ∨ coordinator.minimumState ≠ oldState.next) :
    coordinator.updateMinimumState oldState = coordinator := by
  unfold Coordinator.updateMinimumState
  split <;> simp_all [WorkerState.next]

/-! ### The end of a round -/

theorem next_next_ne_self (state : WorkerState) (known : state ≠ .unknown) :
    state.next.next ≠ state := by
  cases state <;> simp_all [WorkerState.next]

/-- A member that has left is told to go on. -/
theorem Member.advance {client : CoordClient} {message : DmtcpMessage}
    (member : Member left coordinator.compId client) (here : client.state = left.next)
    (awaited : left.next.awaits = some message.type)
    (stamp : message.compGroup = coordinator.compId) :
    Member left.next coordinator.compId
      { client with outgoing := client.outgoing ++ [message] } := by
  have idle := member.idle here
  refine ⟨.inl ⟨here, idle.going message (by rw [here]; exact awaited)⟩, member.alive, ?_,
    member.group, member.joined, member.saved⟩
  intro other found
  rw [idle.outgoing, List.nil_append, List.mem_singleton] at found
  rw [found, stamp]

/-- When nobody is behind any more, everyone waits in the next state. -/
theorem Round.all_left (round : Round left restarted coordinator)
    (complete : ¬ Behind left coordinator) :
    ∀ client ∈ coordinator.clients, client.state = left.next := fun client found =>
  (round.member client found).state.resolve_left fun here =>
    complete (.inr (.inl ⟨client, found, here⟩))

/-- The next round, after the order that begins it. -/
theorem Round.begin_next (round : Round left restarted coordinator)
    (complete : ¬ Behind left coordinator) (message : DmtcpMessage)
    (awaited : left.next.awaits = some message.type)
    (stamp : message.compGroup = coordinator.compId)
    (clients : next.clients = coordinator.clients.map fun client =>
      { client with outgoing := client.outgoing ++ [message] })
    (compId : next.compId = coordinator.compId) (numPeers : next.numPeers = coordinator.numPeers)
    (sent : next.workersRunningAndSuspendMsgSent = false)
    (finished : left.next ∉ restartRounds →
      next.isRestarting = false ∨ left ∉ restartRounds ∧
        next.isRestarting = coordinator.isRestarting) :
    Lockstep left.next restarted next := by
  have states := round.all_left complete
  have notLast : left ≠ .refilled := fun refilled => complete (.inl refilled)
  have notRunning : left.next ≠ .running := by
    have known := round.known
    revert notLast known
    cases left <;> simp [WorkerState.next]
  refine ⟨⟨?_, ?_, ?_, ?_, ?_, ?_, ?_, ?_⟩, ?_⟩
  · rw [clients]
    simpa using round.nonempty
  · rw [compId]
    exact round.identified
  · cases left <;> decide
  · intro client found
    rw [clients] at found
    obtain ⟨before, member, rfl⟩ := List.mem_map.mp found
    rw [compId]
    exact (round.member before member).advance (states before member) awaited stamp
  · simp [sent, notRunning]
  · intro _
    rw [numPeers]
    by_cases restarting : left = .restarting
    · have enough : ¬ (coordinator.clients.length : Int) < coordinator.numPeers := fun missing =>
        complete (.inr (.inr ⟨restarting, missing⟩))
      have bound := (round.rejoining restarting).2.1
      omega
    · exact round.settled restarting
  · intro outside
    rcases finished outside with done | ⟨before, same⟩
    · exact .inl done
    · rw [same, numPeers]
      exact round.resumed before
  · intro restarting
    exact absurd restarting (next_ne_restarting left)
  · obtain ⟨client, found⟩ := List.exists_mem_of_ne_nil _ round.nonempty
    refine .inr (.inl ⟨{ client with outgoing := client.outgoing ++ [message] }, ?_,
      states client found⟩)
    rw [clients]
    exact List.mem_map.mpr ⟨client, found, rfl⟩

/-- An order to all of them, at the end of a round. -/
theorem Round.broadcast (round : Round left restarted coordinator)
    (complete : ¬ Behind left coordinator) {type : DmtcpMessageType} (numPeers : Nat)
    (awaited : left.next.awaits = some type) (other : type ≠ .doResume)
    (sent : left = .running → type = .doFdLeaderElection) :
    Lockstep left.next restarted (coordinator.broadcastMessage type numPeers) ∧
      (coordinator.broadcastMessage type numPeers).killInProgress =
        coordinator.killInProgress := by
  have notKill : type ≠ .killPeer := by
    rintro rfl
    revert awaited
    cases left <;> decide
  refine ⟨round.begin_next complete ⟨type, coordinator.compId, numPeers⟩ awaited rfl
    rfl rfl rfl ?_ fun outside => .inr ⟨?_, rfl⟩, ?_⟩
  · show (coordinator.workersRunningAndSuspendMsgSent && type != .doFdLeaderElection) = false
    by_cases running : left = .running
    · simp [sent running]
    · have silent : coordinator.workersRunningAndSuspendMsgSent = false := by
        simpa using fun flag => running (round.suspends.mp flag)
      simp [silent]
  · revert outside awaited
    cases left <;> simp [WorkerState.next, WorkerState.awaits, restartRounds, other.symm]
  · show (coordinator.killInProgress || (type == .killPeer && _)) = _
    simp [notKill]

theorem Round.resumeAll (round : Round .doneQuerying restarted coordinator)
    (complete : ¬ Behind .doneQuerying coordinator) :
    Lockstep .refilled restarted coordinator.resumeAll ∧
      coordinator.resumeAll.killInProgress = coordinator.killInProgress := by
  have silent : coordinator.workersRunningAndSuspendMsgSent = false := by
    simpa using round.suspends
  refine ⟨round.begin_next complete ⟨.doResume, coordinator.compId, 0⟩ rfl rfl
    ?_ ?_ ?_ ?_ fun _ => .inl ?_, ?_⟩
  all_goals
    unfold Coordinator.resumeAll
    dsimp only
    split <;> simp [Coordinator.broadcastMessage, silent]

/-- The processes are told to end. -/
theorem Round.doom (round : Round left restarted coordinator) (numPeers : Nat) :
    (coordinator.broadcastMessage .killPeer numPeers).killInProgress = true ∧
      ∀ client ∈ (coordinator.broadcastMessage .killPeer numPeers).clients,
        Doomed left client := by
  constructor
  · simp [Coordinator.broadcastMessage, List.length_pos_iff.mpr round.nonempty]
  · intro client found
    obtain ⟨before, member, rfl⟩ := List.mem_map.mp found
    exact (round.member before member).doomed rfl

/-- The coordinator learns that the last one has left. -/
theorem Round.sound_of_complete (round : Round left restarted coordinator)
    (complete : ¬ Behind left coordinator) (spared : coordinator.killInProgress = false) :
    Sound restarted (coordinator.updateMinimumState left) := by
  have goesOn : ∀ {type : DmtcpMessageType} (numPeers : Nat),
      left.next.awaits = some type → type ≠ .doResume →
        (left = .running → type = .doFdLeaderElection) →
          Sound restarted (coordinator.broadcastMessage type numPeers) := by
    intro type numPeers awaited other sent
    obtain ⟨lockstep, same⟩ := round.broadcast complete numPeers awaited other sent
    exact .lockstep left.next (same.trans spared) lockstep
  have least := round.minimumState_of_complete complete
  unfold Coordinator.updateMinimumState
  rw [least]
  cases left with
  | unknown => exact absurd rfl round.known
  | running => exact goesOn _ rfl (by decide) fun _ => rfl
  | suspended => exact goesOn _ rfl (by decide) (by simp)
  | fdLeaderElection => exact goesOn _ rfl (by decide) (by simp)
  | drained =>
    show Sound restarted (if coordinator.exitAfterCkpt then _ else _)
    split
    · obtain ⟨killed, doomed⟩ := round.doom 0
      exact .doomed .drained killed round.settled doomed
    · exact goesOn _ rfl (by decide) (by simp)
  | restarting => exact goesOn _ rfl (by decide) (by simp)
  | checkpointed => exact goesOn _ rfl (by decide) (by simp)
  | nameServiceDataRegistered => exact goesOn _ rfl (by decide) (by simp)
  | doneQuerying =>
    obtain ⟨lockstep, same⟩ := round.resumeAll complete
    exact .lockstep .refilled (same.trans spared) lockstep
  | refilled => exact absurd (.inl rfl) complete

/-- While somebody is behind, nothing that the coordinator learns makes it give an order. -/
theorem Round.updateMinimumState_of_behind (round : Round left restarted coordinator)
    (behind : Behind left coordinator) {oldState : WorkerState}
    (old : oldState = left ∨ oldState = left.next) :
    coordinator.updateMinimumState oldState = coordinator := by
  by_cases last : left = .refilled
  · subst last
    rcases old with rfl | rfl
    · exact updateMinimumState_eq_self (.inl rfl)
    · refine updateMinimumState_eq_self (.inr ?_)
      rcases round.minimumState_of_refilled with same | same <;> rw [same] <;> decide
  · refine updateMinimumState_eq_self (.inr ?_)
    have least := round.minimumState_of_behind behind last
    rcases old with rfl | rfl
    · rcases least with same | same <;> rw [same]
      · exact (next_ne_self _).symm
      · exact (next_ne_restarting _).symm
    · rcases least with same | same <;> rw [same]
      · exact (next_next_ne_self _ round.known).symm
      · exact (next_ne_restarting _).symm

/-- The coordinator learns something of a client that was on record with one of the two states. -/
theorem Round.sound (round : Round left restarted coordinator)
    (spared : coordinator.killInProgress = false) {oldState : WorkerState}
    (old : oldState = left ∨ oldState = left.next ∧ Behind left coordinator) :
    Sound restarted (coordinator.updateMinimumState oldState) := by
  by_cases behind : Behind left coordinator
  · rw [round.updateMinimumState_of_behind behind (old.imp_right And.left)]
    exact .lockstep left spared ⟨round, behind⟩
  · rcases old with rfl | ⟨-, still⟩
    · exact round.sound_of_complete behind spared
    · exact absurd still behind

end Rounds

end ClusterJobs.Dmtcp
