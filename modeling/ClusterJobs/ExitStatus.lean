/-
This file asks what `bin/parallel` makes of processes that do not end with status 0.

Both loops that look for ended processes test `poll() == 0`. A process that fails or is ended by a
signal passes for one that still runs: the random mode never gives its threads back, and a group
whose first entry it is never counts as completed. Further back in a group it may be stepped over,
since `group_exec_completed` takes entries off the list that it iterates over; `halted` is what one
call leaves of the list.
-/

import ClusterJobs.RandomMode
import ClusterJobs.DefinedMode

namespace ClusterJobs.Parallel

open Python

variable {schedule : Nat → Instant} {batch : Batch}

/-! ### The wait loop of the random mode -/

/-- A round of the wait loop retires every job whose process has terminated: it is taken off the
list and out of `runnable_map`, and the threads in use are those of the jobs still listed. -/
def RetiresEnded (batch : Batch) (state : Globals Job) : Prop :=
  ∃ flag next, (waitRound batch).run state = .ok (flag, next) ∧
    (∀ job ∈ state.appStatfileList, (state.exitStatus job.status).isSome →
      job ∉ next.appStatfileList ∧ job.appid ∉ next.runnableMap) ∧
    next.groupthreads = (next.appStatfileList.map Job.appthreads).sum

/-- A job taken off the list has left `runnable_map` too. -/
theorem Swept.unmapped {ids : List Text} {state next : Globals Job} {removed : List Job}
    (swept : Swept batch ids state next removed)
    (balanced : Balanced batch ids state.appStatfileList state) {job : Job}
    (listed : job ∈ state.appStatfileList) (gone : job ∉ next.appStatfileList) :
    job.appid ∉ next.runnableMap := by
  obtain ⟨_, distinct, disjoint⟩ := List.nodup_append.mp balanced.distinct
  rw [swept.balanced.keys, swept.runnable, not_or]
  constructor
  · exact fun runnable => disjoint _ runnable _ (List.mem_map_of_mem listed) rfl
  · intro mapped
    obtain ⟨other, member, same⟩ := List.mem_map.mp mapped
    have before : other ∈ state.appStatfileList := by
      rw [swept.list] at member
      exact List.diff_subset _ _ member
    exact gone (List.inj_on_of_nodup_map distinct before listed same ▸ member)

theorem retiresEnded_iff {ids : List Text} {state : Globals Job}
    (balanced : Balanced batch ids state.appStatfileList state) :
    RetiresEnded batch state ↔ ∀ job ∈ state.appStatfileList, ∀ status,
      state.exitStatus job.status = some status → status = 0 := by
  obtain ⟨flag, next, ran, removed, _, _, swept⟩ := (ensures_waitRound balanced).returns
  have left : ∀ job ∈ state.appStatfileList, job ∉ next.appStatfileList ↔ job ∈ removed := by
    intro job listed
    rw [swept.list, List.Nodup.mem_sdiff_iff balanced.jobs_nodup]
    simp [listed]
  constructor
  · rintro ⟨flag', next', ran', retired, _⟩ job listed status exited
    rw [ran] at ran'
    cases ran'
    have gone := (retired job listed (by rw [exited]; rfl)).1
    have zero := swept.zero job ((left job listed).mp gone)
    rw [swept.exited _ _ exited] at zero
    exact Option.some.inj zero
  · intro zero
    refine ⟨flag, next, ran, fun job listed ended => ?_, swept.balanced.threads⟩
    obtain ⟨status, exited⟩ := Option.isSome_iff_exists.mp ended
    have gone : job ∉ next.appStatfileList := by
      rw [left job listed]
      by_contra kept
      refine swept.others job listed kept ?_
      rw [exited, zero job listed status exited]
    exact ⟨gone, swept.unmapped balanced listed gone⟩

/-! ### The wait loop of the defined mode -/

/-- The `while True` loop around `group_exec_completed`, for a number of calls. -/
def awaitGroup (schedule : Nat → Instant) : Nat → Program (Globals Running) PyError Bool
  | 0 => pure false
  | calls + 1 => do
    if ← groupExecCompleted schedule then pure true
    else do
      let _ ← observe schedule
      awaitGroup schedule calls

/-- Finitely many calls of `group_exec_completed` end in `True`. -/
def Completes (schedule : Nat → Instant) (group : Globals Running) : Prop :=
  ∃ calls last, (awaitGroup schedule calls).run group = .ok (true, last)

/-- The process of an entry has ended with status 0. -/
def EndedWell (group : Globals Running) (app : Running) : Prop :=
  group.exitStatus app.status = some 0

instance (group : Globals Running) : DecidablePred (EndedWell group) := fun app =>
  inferInstanceAs (Decidable (group.exitStatus app.status = some 0))

/-- Since a state, processes have kept their exit statuses. -/
def StatusesKept (group state : Globals Running) : Prop :=
  ∀ pid status, group.exitStatus pid = some status → state.exitStatus pid = some status

theorem StatusesKept.aged {group state next : Globals Running} (kept : StatusesKept group state)
    (aged : Aged state next) : StatusesKept group next := fun pid status exited =>
  aged.exited pid status (kept pid status exited)

/-- One call, when all processes of the list have ended. -/
theorem ensures_groupExecCompleted_ended {group state : Globals Running}
    (kept : StatusesKept group state) (nodup : state.appStatfileList.Nodup)
    (ended : ∀ app ∈ state.appStatfileList, (group.exitStatus app.status).isSome) :
    Ensures (groupExecCompleted schedule) state (fun completed next =>
      StatusesKept group next ∧
      (completed = true ↔ AllReady (EndedWell group) state.appStatfileList) ∧
      next.appStatfileList = halted (EndedWell group) state.appStatfileList) fun _ => False := by
  refine ensures_halting (StatusesKept group) nodup ?_ kept
  intro completed app current member keeps
  obtain ⟨value, exited⟩ := Option.isSome_iff_exists.mp (ended app member)
  refine (ensures_completedEntry _ completed (ensures_poll app.status)).imp ?_
  rintro step _ ⟨status, seen, ⟨aged, told, _⟩, outcome⟩
  have polled : status = some value := told value (keeps app.status value exited)
  rcases outcome with ⟨zero, rfl, rfl⟩ | ⟨nonzero, rfl, rfl⟩
  · have keepsSeen : StatusesKept group seen := keeps.aged aged
    refine ⟨keepsSeen, .inl ⟨exited.trans (polled.symm.trans zero), rfl, ?_⟩⟩
    rw [Globals.delist, aged.list]
  · refine ⟨keeps.aged aged, .inr ⟨fun zero => nonzero ?_, rfl, aged.list⟩⟩
    exact polled.trans (exited.symm.trans zero)

/-- Some number of calls: each takes entries off, and one that finds all it looks at ended with
status 0 answers `True`. -/
theorem ensures_awaitGroup {group : Globals Running} (calls : Nat) :
    ∀ state : Globals Running, StatusesKept group state → state.appStatfileList.Nodup →
      (∀ app ∈ state.appStatfileList, (group.exitStatus app.status).isSome) →
      Ensures (awaitGroup schedule calls) state (fun completed _ => completed = true ↔
        ∃ count < calls, AllReady (EndedWell group)
          ((halted (EndedWell group))^[count] state.appStatfileList)) fun _ => False := by
  induction calls with
  | zero => exact fun state _ _ _ => (ensures_pure ..).mpr (by simp)
  | succ calls inductionHypothesis =>
    intro state kept nodup ended
    simp only [awaitGroup, ensures_bind]
    refine (ensures_groupExecCompleted_ended kept nodup ended).imp ?_
    rintro completed next ⟨keptNext, answer, list⟩
    cases completed with
    | true => exact iff_of_true rfl ⟨0, Nat.succ_pos _, answer.mp rfl⟩
    | false =>
      simp only [Bool.false_eq_true, if_false, ensures_bind]
      refine ensures_observe.imp fun _ slept aged => ?_
      have sub : slept.appStatfileList.Sublist state.appStatfileList := by
        rw [aged.list, list]
        exact halted_sublist _ _
      refine (inductionHypothesis slept (keptNext.aged aged) (nodup.sublist sub)
        fun app member => ended app (sub.subset member)).imp ?_
      rintro completed _ answers
      rw [answers, aged.list, list]
      constructor
      · rintro ⟨count, bound, ready⟩
        exact ⟨count + 1, Nat.succ_lt_succ bound, ready⟩
      · rintro ⟨count, bound, ready⟩
        cases count with
        | zero => exact absurd (answer.mpr ready) Bool.false_ne_true
        | succ count => exact ⟨count, Nat.lt_of_succ_lt_succ bound, ready⟩

/-- A group whose processes have all ended completes exactly when, after some calls and no more than
there are entries, all entries that are then looked at have ended with status 0. -/
theorem completes_iff {group : Globals Running} (nodup : group.appStatfileList.Nodup)
    (ended : ∀ app ∈ group.appStatfileList, (group.exitStatus app.status).isSome) :
    Completes schedule group ↔ ∃ calls ≤ group.appStatfileList.length,
      AllReady (EndedWell group) ((halted (EndedWell group))^[calls] group.appStatfileList) := by
  rw [← exists_allReady_iff]
  have awaited : ∀ calls, Ensures (awaitGroup schedule calls) group _ _ := fun calls =>
    ensures_awaitGroup calls group (fun _ _ exited => exited) nodup ended
  constructor
  · rintro ⟨calls, last, ran⟩
    obtain ⟨count, _, ready⟩ := ((awaited calls).of_run ran).mp rfl
    exact ⟨count, ready⟩
  · rintro ⟨count, ready⟩
    obtain ⟨completed, last, ran, answers⟩ := (awaited (count + 1)).returns
    rw [answers.mpr ⟨count, Nat.lt_succ_self _, ready⟩] at ran
    exact ⟨count + 1, last, ran⟩

/-! ### The entries of a group -/

/-- The entries of the list are different processes that have been started. -/
structure Entered (state : Globals Running) : Prop where
  distinct : (state.appStatfileList.map Running.status).Nodup
  started : ∀ app ∈ state.appStatfileList, app.status < state.procs.length

theorem entered_of_nil {state : Globals Running} (none : state.appStatfileList = []) :
    Entered state :=
  ⟨by simp [none], by simp [none]⟩

theorem Entered.aged {state next : Globals Running} (entered : Entered state)
    (aged : Aged state next) : Entered next := by
  refine ⟨?_, ?_⟩
  · rw [aged.list]
    exact entered.distinct
  · rw [aged.list, aged.length]
    exact entered.started

theorem Entered.delist {state : Globals Running} (entered : Entered state) (app : Running) :
    Entered (state.delist app) where
  distinct := entered.distinct.sublist (List.erase_sublist.map _)
  started other member := entered.started other (List.mem_of_mem_erase member)

theorem Entered.enlist {state : Globals Running} (entered : Entered state) (appid : Text)
    (file : StatFile) : Entered (state.enlist appid file) where
  distinct := by
    rw [Globals.enlist, List.map_append, List.map_singleton]
    refine List.nodup_append.mpr ⟨entered.distinct, List.nodup_singleton _, ?_⟩
    rintro status old _ new rfl
    obtain ⟨app, member, rfl⟩ := List.mem_map.mp old
    have started := entered.started app member
    rw [List.mem_singleton.mp new] at started
    exact lt_irrefl _ started
  started app member := by
    rw [Globals.enlist, List.length_append, List.length_singleton]
    rcases List.mem_append.mp member with old | new
    · exact Nat.lt_succ_of_lt (entered.started app old)
    · rw [List.mem_singleton.mp new]
      exact Nat.lt_succ_self _

theorem Entered.completed {state : Globals Running} (entered : Entered state) :
    Ensures (groupExecCompleted schedule) state (fun _ next => Entered next) fun _ => True := by
  refine ensures_forEach (fun _ _ current => Entered current) ?_ (fun _ _ _ holds _ => holds)
    entered
  intro index completed app current holds found
  refine (ensures_completedEntry _ completed (ensures_poll app.status)).imp ?_
  rintro step _ ⟨status, seen, ⟨aged, _, _⟩, ⟨_, rfl, rfl⟩ | ⟨_, rfl, rfl⟩⟩
  · refine ⟨(holds.aged aged).delist app, ?_⟩
    rw [Globals.delist, aged.list]
    exact List.length_erase_le
  · exact holds.aged aged

theorem Entered.step {defined after : Defined} (entered : Entered defined.globals)
    (stepped : definedStep schedule defined = .ok after) : Entered after.globals := by
  obtain ⟨pc, groups, state⟩ := defined
  have sleeps : ∀ state : Globals Running, Entered state →
      Ensures (observe schedule) state (fun _ next => Entered next) fun _ => True :=
    fun state entered => ensures_observe.imp fun _ _ aged => entered.aged aged
  cases pc with
  | next =>
    cases groups with
    | nil =>
      cases stepped
      exact entered
    | cons group groups =>
      obtain ⟨⟨_, globals⟩, ran, result⟩ := bind_eq_ok_iff.mp stepped
      cases result
      have starts : Ensures (startGroup schedule group.1 group.2) state
          (fun _ next => Entered next) fun _ => True := by
        refine ensures_startGroup (fun _ current => Entered current)
          (sleeps _ (entered_of_nil rfl)) ?_
        intro timestamp appid rest current entered
        refine (ensures_startApp (fun _ => True) (ensures_observe.imp fun _ _ _ => trivial)).mono
          ?_ fun _ _ => trivial
        rintro _ _ ⟨_, seen, file, _, aged, rfl⟩
        exact (entered.aged aged).enlist appid file
      exact starts.of_run ran
  | wait =>
    obtain ⟨⟨completed, globals⟩, ran, result⟩ := bind_eq_ok_iff.mp stepped
    have enteredNext : Entered globals := entered.completed.of_run ran
    cases completed with
    | true =>
      cases result
      exact enteredNext
    | false =>
      obtain ⟨⟨_, slept⟩, ran', result'⟩ := bind_eq_ok_iff.mp result
      cases result'
      exact (sleeps globals enteredNext).of_run ran'
  | done =>
    cases stepped
    exact entered

theorem entered_of_reachable {runnableMap : AList fun _ : Text => Text}
    {groups : List (Text × List Text)} {defined : Defined}
    (reached : Reachable (definedStep schedule) (.start runnableMap groups) defined) :
    Entered defined.globals :=
  reached.invariant (fun defined => Entered defined.globals) (entered_of_nil rfl)
    fun _ _ entered stepped => entered.step stepped

/-! ### Terminations -/

/-- A round of the wait loop retires all processes that have terminated exactly when these have
ended with status 0. A group all of whose processes have terminated completes exactly when after
some calls, no more than there are entries, all entries left at the positions 0, 2, 4 and so on have
ended with status 0; each call takes off those at these positions up to the first one that has
failed. -/
theorem terminations_recognised_iff {runnableMap : AList fun _ : Text => Text}
    {groups : List (Text × List Text)} {random : Random} {defined : Defined}
    (sized : Sized batch runnableMap.keys)
    (randomReached : Reachable (randomStep batch) (.start runnableMap) random)
    (definedReached : Reachable (definedStep schedule) (.start runnableMap groups) defined)
    (ended : ∀ app ∈ defined.globals.appStatfileList,
      (defined.globals.exitStatus app.status).isSome) :
    (RetiresEnded batch random.globals ↔ ∀ job ∈ random.globals.appStatfileList, ∀ status,
      random.globals.exitStatus job.status = some status → status = 0) ∧
    (Completes schedule defined.globals ↔ ∃ calls ≤ defined.globals.appStatfileList.length,
      AllReady (EndedWell defined.globals)
        ((halted (EndedWell defined.globals))^[calls] defined.globals.appStatfileList)) :=
  ⟨retiresEnded_iff (randomInv_of_reachable sized randomReached).1,
    completes_iff ((entered_of_reachable definedReached).distinct.of_map _) ended⟩

/-- The process of the first instance ends with the given status, as soon as it is looked at. -/
def endsWith (status : Int) : Batch :=
  ⟨3, instanceThreads, fun _ => { exits := [(0, status)] }⟩

/-- The process of a group of one app ends with the given status while the program sleeps. -/
def endsAsleep (status : Int) : Nat → Instant :=
  fun clock => if clock = 3 then { exits := [(0, status)] } else { }

def oneGroup : List (Text × List Text) := [("g".toList, ["a".toList])]

/-- A process that has ended with status 1 is not retired, and its group never completes. -/
theorem failed_process_blocks :
    (∃ random, Reachable (randomStep (endsWith 1)) (.start twoInstances) random ∧
      random.pc = .wait ∧
      (random.globals.appStatfileList.map fun job => random.globals.exitStatus job.status) =
        [some 1] ∧ ¬ RetiresEnded (endsWith 1) random.globals) ∧
    ∃ defined, Reachable (definedStep (endsAsleep 1)) (.start twoInstances oneGroup) defined ∧
      defined.pc = .wait ∧
      (defined.globals.appStatfileList.map fun app => defined.globals.exitStatus app.status) =
        [some 1] ∧ ¬ Completes (endsAsleep 1) defined.globals := by
  constructor
  · obtain ⟨random, reached, waiting, statuses⟩ := exists_reachable (randomStep (endsWith 1)) 4
      (.start twoInstances) (fun random => random.pc = .wait ∧
        (random.globals.appStatfileList.map fun job => random.globals.exitStatus job.status) =
          [some 1]) (by decide +kernel)
    refine ⟨random, reached, waiting, statuses, fun retires => ?_⟩
    obtain ⟨job, list, exited⟩ := List.map_eq_singleton_iff.mp statuses
    have balanced := (randomInv_of_reachable (fun id _ => instanceThreads_positive id) reached).1
    have zero := (retiresEnded_iff balanced).mp retires job (by simp [list]) 1 exited
    exact absurd zero (by decide)
  · obtain ⟨defined, reached, waiting, statuses⟩ := exists_reachable
      (definedStep (endsAsleep 1)) 2 (.start twoInstances oneGroup)
      (fun defined => defined.pc = .wait ∧
        (defined.globals.appStatfileList.map fun app => defined.globals.exitStatus app.status) =
          [some 1]) (by decide +kernel)
    refine ⟨defined, reached, waiting, statuses, fun completes => ?_⟩
    obtain ⟨app, list, exited⟩ := List.map_eq_singleton_iff.mp statuses
    obtain ⟨calls, _, ready⟩ :=
      (completes_iff (by simp [list]) (by simp [list, exited])).mp completes
    have failed : ¬ EndedWell defined.globals app := by simp [EndedWell, exited]
    have stuck : (halted (EndedWell defined.globals))^[calls] defined.globals.appStatfileList =
        [app] := by
      rw [list]
      exact Function.iterate_fixed (halted_of_not_ready failed []) calls
    rw [stuck] at ready
    exact failed (ready 0 app rfl)

/-- The processes of a group of two apps end while the program sleeps, the second one with
status 1. -/
def secondFails : Nat → Instant := fun clock =>
  if clock = 4 then { exits := [(0, 0), (1, 1)] } else { }

def groupOfTwo : List (Text × List Text) := [("g".toList, ["a".toList, "b".toList])]

/-- The wait loop recognises a process that ends with status 0, and the group completes without a
look at its second entry. -/
theorem terminations_recognised_sample :
    ∃ random defined, Reachable (randomStep (endsWith 0)) (.start twoInstances) random ∧
      Reachable (definedStep secondFails) (.start twoInstances groupOfTwo) defined ∧
      (defined.globals.appStatfileList.map fun app => defined.globals.exitStatus app.status) =
        [some 0, some 1] ∧
      RetiresEnded (endsWith 0) random.globals ∧ Completes secondFails defined.globals := by
  obtain ⟨random, reached, _, statuses⟩ := exists_reachable (randomStep (endsWith 0)) 4
    (.start twoInstances) (fun random => random.pc = .wait ∧
      (random.globals.appStatfileList.map fun job => random.globals.exitStatus job.status) =
        [some 0]) (by decide +kernel)
  obtain ⟨defined, reached', _, statuses'⟩ := exists_reachable
    (definedStep secondFails) 2 (.start twoInstances groupOfTwo)
    (fun defined => defined.pc = .wait ∧
      (defined.globals.appStatfileList.map fun app => defined.globals.exitStatus app.status) =
        [some 0, some 1]) (by decide +kernel)
  obtain ⟨job, list, exited⟩ := List.map_eq_singleton_iff.mp statuses
  obtain ⟨first, rest, list', exitedFirst, others⟩ := List.map_eq_cons_iff.mp statuses'
  obtain ⟨second, rfl, exitedSecond⟩ := List.map_eq_singleton_iff.mp others
  have recognised := terminations_recognised_iff (fun id _ => instanceThreads_positive id) reached
    reached' (by simp [list', exitedFirst, exitedSecond])
  refine ⟨random, defined, reached, reached', statuses', recognised.1.mpr ?_,
    recognised.2.mpr ⟨0, Nat.zero_le _, ?_⟩⟩
  · simp [list, exited]
  · rw [Function.iterate_zero, id, list']
    rintro (_ | half) app found
    · cases found
      exact exitedFirst
    · simp [Nat.mul_add] at found

end ClusterJobs.Parallel
