/-
This file proves that both modes of `bin/parallel` come to their end when all processes end with
status 0.

The processes end in any order and at any time. While the program waits the clock goes on, so that
at some round a process in the list has ended; each retired job makes the rest of the work smaller.
In the random mode this needs every instance to fit on its own. One that does not fit is never
started, and the mode does not end.
-/

import ClusterJobs.RandomMode
import ClusterJobs.DefinedMode

namespace ClusterJobs.Parallel

open Python

variable {Item : Type} {schedule : Nat → Instant}

/-! ### Processes that end in time -/

/-- Every process ends after some time, and with status 0. -/
structure Ends (schedule : Nat → Instant) : Prop where
  zero : ∀ time, ∀ exit ∈ (schedule time).exits, exit.2 = 0
  later : ∀ pid time, ∃ after, time ≤ after ∧ (pid, 0) ∈ (schedule after).exits

/-- A schedule under which process `n` ends from time `n + 1` on. -/
def oneByOne (time : Nat) : Instant :=
  { exits := (List.range time).map fun pid => (pid, 0) }

theorem ends_oneByOne : Ends oneByOne where
  zero time exit member := by
    obtain ⟨pid, _, rfl⟩ := List.mem_map.mp member
    rfl
  later pid time := by
    refine ⟨max time (pid + 1), le_max_left _ _, List.mem_map.mpr ⟨pid, ?_, rfl⟩⟩
    exact List.mem_range.mpr (Nat.lt_of_succ_le (le_max_right _ _))

/-- Time has passed: processes that were to end in it have ended. -/
structure Elapsed (schedule : Nat → Instant) (before after : Globals Item) : Prop where
  clock : before.clock ≤ after.clock
  length : before.procs.length ≤ after.procs.length
  ready : Ready before → Ready after
  exited : ∀ pid status, before.exitStatus pid = some status → after.exitStatus pid = some status
  ended : Ready before → ∀ time, before.clock ≤ time → time < after.clock →
    ∀ pid, pid < before.procs.length → (pid, 0) ∈ (schedule time).exits →
    after.exitStatus pid = some 0

instance : IsPreorder (Globals Item) (Elapsed schedule) where
  refl state := ⟨le_rfl, le_rfl, id, fun _ _ exited => exited,
    fun _ _ start stop => absurd stop (Nat.not_lt.mpr start)⟩
  trans first second third before after := by
    refine ⟨before.clock.trans after.clock, before.length.trans after.length,
      fun ready => after.ready (before.ready ready),
      fun pid status exited => after.exited pid status (before.exited pid status exited), ?_⟩
    intro ready time start stop pid known listed
    by_cases early : time < second.clock
    · exact after.exited pid 0 (before.ended ready time start early pid known listed)
    · exact after.ended (before.ready ready) time (Nat.not_lt.mp early) stop pid
        (lt_of_lt_of_le known before.length) listed

/-- A change at one moment, in which no process is lost. -/
theorem elapsed_of_clock {before after : Globals Item} (clock : after.clock = before.clock)
    (length : before.procs.length ≤ after.procs.length) (ready : Ready before → Ready after)
    (exited : ∀ pid status, before.exitStatus pid = some status →
      after.exitStatus pid = some status) : Elapsed schedule before after := by
  refine ⟨clock.ge, length, ready, exited, ?_⟩
  intro _ time start stop
  omega

/-- A change that leaves the processes alone. -/
theorem elapsed_of_procs {before after : Globals Item} (clock : after.clock = before.clock)
    (procs : after.procs = before.procs) : Elapsed schedule before after := by
  refine elapsed_of_clock clock (by rw [procs]) (fun ready => ?_) fun pid status exited => ?_
  · unfold Ready
    rwa [procs]
  · rwa [Globals.exitStatus, Globals.phase, procs]

/-- A process is started. -/
theorem elapsed_of_started {before after : Globals Item} {appid : Text}
    (clock : after.clock = before.clock)
    (started : after.procs = before.procs ++ [⟨appid, .running⟩]) :
    Elapsed schedule before after := by
  refine elapsed_of_clock clock (by simp [started]) (fun ready => ready.append appid started) ?_
  intro pid status exited
  obtain ⟨phase, found, ended⟩ := Option.bind_eq_some_iff.mp exited
  obtain ⟨child, listed, rfl⟩ := Option.map_eq_some_iff.mp found
  have known := (List.getElem?_eq_some_iff.mp listed).1
  rw [Globals.exitStatus, Globals.phase, started, List.getElem?_append_left known, listed]
  exact ended

theorem exitStatus_exitAll {state : Globals Item} (ready : Ready state) {pids : List Nat}
    {pid : Nat} (known : pid < state.procs.length) (listed : pid ∈ pids) (clock : Nat) :
    Globals.exitStatus { state with
      procs := exitAll state.procs (pids.map fun pid => (pid, (0 : Int))), clock := clock } pid =
        some 0 := by
  have found := List.getElem?_eq_getElem known
  have fresh := ready _ (List.mem_of_getElem? found)
  simp only [Globals.exitStatus, Globals.phase, getElem?_exitAll, found, listed, if_true,
    Option.map_some, Option.bind_some]
  cases phase : (state.procs[pid]).phase <;> simp_all [Phase.exit, Phase.exitStatus]

theorem ensures_observe_elapsed {state : Globals Item} {raised : PyError → Prop}
    (zero : ∀ time, ∀ exit ∈ (schedule time).exits, exit.2 = 0) :
    Ensures (observe schedule) state (fun _ next => Aged state next ∧
      Elapsed schedule state next ∧ state.clock < next.clock) raised := by
  have aged : Ensures (observe schedule) state (fun _ next => Aged state next) raised :=
    ensures_observe
  simp only [observe, ensures_bind, ensures_get, ensures_modify, ensures_pure] at *
  have zeros : (schedule state.clock).exits =
      ((schedule state.clock).exits.map Prod.fst).map fun pid => (pid, (0 : Int)) := by
    rw [List.map_map]
    refine (List.map_id _).symm.trans (List.map_congr_left fun exit found => ?_)
    exact Prod.ext rfl (zero state.clock exit found)
  refine ⟨aged, ⟨Nat.le_succ _, aged.length.ge, fun ready => ?_, aged.exited, ?_⟩,
    Nat.lt_succ_self _⟩
  · rw [zeros]
    exact ready_exitAll ready _
  · intro ready time start stop pid known listed
    obtain rfl : time = state.clock := by
      dsimp only at stop
      omega
    rw [zeros]
    exact exitStatus_exitAll ready known (List.mem_map.mpr ⟨(pid, 0), listed, rfl⟩) _

theorem follows_observe (zero : ∀ time, ∀ exit ∈ (schedule time).exits, exit.2 = 0) :
    Follows (Elapsed schedule) (observe schedule : Program (Globals Item) PyError Instant) :=
  fun _ => (ensures_observe_elapsed zero).imp fun _ _ observed => observed.2.1

theorem follows_modify_of_procs (schedule : Nat → Instant)
    {change : Globals Item → Globals Item}
    (clock : ∀ state, (change state).clock = state.clock)
    (procs : ∀ state, (change state).procs = state.procs) :
    Follows (Elapsed schedule) (modify change : Program (Globals Item) PyError PUnit) :=
  follows_modify fun state => elapsed_of_procs (clock state) (procs state)

theorem follows_removeRunnable (schedule : Nat → Instant) (appid : Text) :
    Follows (Elapsed schedule) (removeRunnable appid : Program (Globals Item) PyError Unit) :=
  follows_get.bind fun _ =>
    Follows.ite (follows_modify_of_procs schedule (fun _ => rfl) fun _ => rfl) (follows_throw _)

theorem follows_popRunnableMap (schedule : Nat → Instant) (appid : Text) :
    Follows (Elapsed schedule) (popRunnableMap appid : Program (Globals Item) PyError Unit) :=
  follows_get.bind fun _ =>
    Follows.ite (follows_modify_of_procs schedule (fun _ => rfl) fun _ => rfl) (follows_throw _)

theorem follows_removeJob (schedule : Nat → Instant) (app : Job) :
    Follows (Elapsed schedule) (removeJob app) :=
  follows_get.bind fun _ =>
    Follows.ite (follows_modify_of_procs schedule (fun _ => rfl) fun _ => rfl) (follows_throw _)

section Calls

variable (zero : ∀ time, ∀ exit ∈ (schedule time).exits, exit.2 = 0)

include zero

theorem follows_poll (pid : Nat) :
    Follows (Elapsed schedule)
      (poll schedule pid : Program (Globals Item) PyError (Option Int)) := by
  refine (follows_observe zero).bind fun _ => follows_get.bind fun _ => ?_
  refine (follows_modify fun state => ?_).bind fun _ => follows_pure _
  have aged := aged_modify state pid Phase.afterPoll Phase.settles_afterPoll
  exact elapsed_of_clock rfl aged.length.ge (fun ready => ready_afterPoll ready pid) aged.exited

theorem follows_launch (directory timestamp appid : Text) :
    Follows (Elapsed schedule)
      (launch schedule directory timestamp appid : Program (Globals Item) PyError Running) := by
  refine (follows_observe zero).bind fun _ => follows_get.bind fun state => ?_
  cases state.runnableMap.lookup appid with
  | none => exact follows_throw _
  | some command =>
    refine (follows_modify fun state => ?_).bind fun _ => follows_pure _
    exact elapsed_of_started rfl rfl

end Calls

/-! ### The random mode -/

section RandomMode

variable {batch : Batch} {ids : List Text} {state : Globals Job} {random : Random}

theorem follows_fill (zero : ∀ time, ∀ exit ∈ (batch.schedule time).exits, exit.2 = 0)
    (runnablea : List Text) : Follows (Elapsed batch.schedule) (fill batch runnablea) := by
  refine (follows_observe zero).bind fun instant => ?_
  cases runnablea[instant.choice % runnablea.length]? with
  | none => exact follows_throw _
  | some appid =>
    refine (follows_liftExcept _).bind fun appthreads => follows_get.bind fun state => ?_
    refine Follows.ite ?_ (follows_pure _)
    refine (follows_removeRunnable batch.schedule appid).bind fun _ => ?_
    refine Follows.bind (follows_modify_of_procs _ (fun _ => rfl) fun _ => rfl) fun _ => ?_
    refine (follows_launch zero _ _ _).bind fun _ => ?_
    exact Follows.bind (follows_modify_of_procs _ (fun _ => rfl) fun _ => rfl) fun _ =>
      follows_pure _

theorem follows_sweepJob (zero : ∀ time, ∀ exit ∈ (batch.schedule time).exits, exit.2 = 0)
    (found : Bool × List Job) (app : Job) :
    Follows (Elapsed batch.schedule) (sweepJob batch found app) := by
  refine (follows_poll zero _).bind fun status => Follows.ite ?_ (follows_pure _)
  refine (follows_popRunnableMap batch.schedule app.appid).bind fun _ => ?_
  refine Follows.bind (follows_modify_of_procs _ (fun _ => rfl) fun _ => rfl) fun _ => ?_
  exact Follows.bind (follows_modify_of_procs _ (fun _ => rfl) fun _ => rfl) fun _ =>
    follows_pure _

/-- A round of the wait loop that finds nothing takes some time. -/
theorem ensures_waitRound_elapsed
    (zero : ∀ time, ∀ exit ∈ (batch.schedule time).exits, exit.2 = 0) :
    Ensures (waitRound batch) state (fun flag next => Elapsed batch.schedule state next ∧
      (flag = false → state.clock < next.clock)) fun _ => True := by
  simp only [waitRound, ensures_bind, ensures_get]
  refine (Follows.foldlM (follows_sweepJob zero) _ _ state).imp fun found swept elapsed => ?_
  simp only [ensures_ite, ensures_bind, ensures_pure]
  refine ⟨fun _ => ?_, fun _ => ?_⟩
  · refine (Follows.forM (follows_removeJob batch.schedule) _ swept).imp fun _ next later => ?_
    exact ⟨trans_of (Elapsed batch.schedule) elapsed later, fun impossible => by cases impossible⟩
  · refine (ensures_observe_elapsed zero).imp ?_
    rintro _ next ⟨_, later, clock⟩
    exact ⟨trans_of (Elapsed batch.schedule) elapsed later,
      fun _ => lt_of_le_of_lt elapsed.clock clock⟩

/-- A run with nothing in its way: the mode goes by its invariant, and no process has failed. -/
structure Going (batch : Batch) (ids : List Text) (random : Random) : Prop where
  holds : RandomInv batch ids random
  busy : Busy random
  ready : Ready random.globals

/-- What is left to do: the instances to be started and those to be waited for. -/
def Globals.remaining (state : Globals Job) : Nat :=
  state.runnable.length + state.appStatfileList.length

section Progress

variable (sized : Sized batch ids) (ends : Ends batch.schedule)
  (fit : ∀ id ∈ ids, ∀ threads, batch.threads id = .ok threads → threads ≤ batch.totalthreads)

include sized ends fit

theorem Going.step (going : Going batch ids random) :
    ∃ next, randomStep batch random = .ok next ∧ RandomAdvance batch ids random next ∧
      Going batch ids next ∧ Elapsed batch.schedule random.globals next.globals ∧
      (random.pc = .wait → next.pc = .wait → random.globals.clock < next.globals.clock) := by
  obtain ⟨next, stepped, holds, advance⟩ := randomStep_spec sized going.holds
  have busy := advance.busy sized fit going.holds going.busy
  have elapsed : Elapsed batch.schedule random.globals next.globals ∧
      (random.pc = .wait → next.pc = .wait → random.globals.clock < next.globals.clock) := by
    obtain ⟨pc, state⟩ := random
    cases pc with
    | outer =>
      refine ⟨?_, fun impossible => by cases impossible⟩
      cases advance <;> exact refl_of (Elapsed batch.schedule) state
    | fill runnablea =>
      refine ⟨?_, fun impossible => by cases impossible⟩
      simp only [randomStep] at stepped
      split at stepped
      · obtain ⟨⟨rest, globals⟩, ran, result⟩ := bind_eq_ok_iff.mp stepped
        cases result
        exact (follows_fill ends.zero runnablea state).of_run ran
      · cases stepped
        exact refl_of (Elapsed batch.schedule) state
    | wait =>
      obtain ⟨⟨flag, globals⟩, ran, result⟩ := bind_eq_ok_iff.mp stepped
      cases result
      obtain ⟨elapsed, clock⟩ := (ensures_waitRound_elapsed ends.zero).of_run ran
      refine ⟨elapsed, fun _ waits => clock ?_⟩
      cases flag with
      | true => cases waits
      | false => rfl
    | done =>
      cases stepped
      exact ⟨refl_of (Elapsed batch.schedule) state, fun impossible => by cases impossible⟩
  exact ⟨next, stepped, advance, ⟨holds, busy, elapsed.1.ready going.ready⟩, elapsed⟩

/-- The fill loop ends, and leaves as much to do as before. -/
theorem Going.fill_ends {runnablea : List Text}
    (going : Going batch ids ⟨.fill runnablea, state⟩) :
    ∃ last, Reachable (randomStep batch) ⟨.fill runnablea, state⟩ ⟨.wait, last⟩ ∧
      Going batch ids ⟨.wait, last⟩ ∧ last.remaining = state.remaining := by
  induction length : runnablea.length generalizing runnablea state with
  | zero =>
    obtain ⟨next, stepped, advance, goingNext, _⟩ := going.step sized ends fit
    cases advance with
    | pick _ member _ _ =>
      rw [List.eq_nil_of_length_eq_zero length] at member
      cases member
    | leave _ => exact ⟨state, Reachable.refl.next stepped, goingNext, rfl⟩
  | succ size inductionHypothesis =>
    obtain ⟨next, stepped, advance, goingNext, _⟩ := going.step sized ends fit
    cases advance with
    | @pick _ next _ appid appthreads _ member _ picked =>
      have shorter : (runnablea.erase appid).length = size := by
        rw [List.length_erase_of_mem member]
        omega
      obtain ⟨last, reached, goingLast, same⟩ := inductionHypothesis goingNext shorter
      refine ⟨last, (Reachable.refl.next stepped).trans reached, goingLast, same.trans ?_⟩
      unfold Globals.remaining
      cases picked with
      | starts _ _ runnable list =>
        have runnableBefore := going.holds.2.2 appid member
        have positive := List.length_pos_of_mem runnableBefore
        rw [runnable, list, List.length_erase_of_mem runnableBefore, List.length_append,
          List.length_singleton]
        omega
      | waits _ aged => rw [aged.runnable, aged.list]
    | leave _ => exact ⟨state, Reachable.refl.next stepped, goingNext, rfl⟩

/-- The wait loop is left once a process it waits for has ended. The induction is on the time
until then. -/
theorem Going.wait_until {job : Job} {time : Nat} (going : Going batch ids ⟨.wait, state⟩)
    (listed : job ∈ state.appStatfileList) (exits : (job.status, 0) ∈ (batch.schedule time).exits)
    (passed : time < state.clock → state.exitStatus job.status = some 0) :
    ∃ last, Reachable (randomStep batch) ⟨.wait, state⟩ ⟨.outer, last⟩ ∧
      Going batch ids ⟨.outer, last⟩ ∧ last.remaining < state.remaining := by
  induction left : time + 1 - state.clock using Nat.strong_induction_on generalizing state with
  | _ left inductionHypothesis =>
    obtain ⟨next, stepped, advance, goingNext, elapsed, clock⟩ := going.step sized ends fit
    cases advance with
    | @retire _ next removed sublist some swept =>
      refine ⟨next, Reachable.refl.next stepped, goingNext, ?_⟩
      have positive := List.length_pos_iff.mpr some
      have split := (List.subperm_append_diff_self_of_count_le fun job _ =>
        sublist.count_le job).length_eq
      rw [List.length_append, ← swept.list] at split
      rw [Globals.remaining, Globals.remaining, swept.runnable]
      omega
    | @sleep _ next swept =>
      have running := swept.others job listed List.not_mem_nil
      have early : state.clock ≤ time := Nat.not_lt.mp fun late => running (passed late)
      have later : state.clock < next.clock := clock rfl rfl
      have same : next.appStatfileList = state.appStatfileList := by
        rw [swept.list, List.diff_nil]
      obtain ⟨last, reached, goingLast, fewer⟩ := inductionHypothesis (time + 1 - next.clock)
        (by omega) goingNext (same ▸ listed)
        (fun late => elapsed.ended going.ready time early late job.status
          (going.holds.1.started job listed) exits) rfl
      refine ⟨last, (Reachable.refl.next stepped).trans reached, goingLast, ?_⟩
      have unchanged : next.remaining = state.remaining := by
        rw [Globals.remaining, same, swept.runnable, Globals.remaining]
      exact unchanged ▸ fewer

/-- The wait loop is left with less to do. -/
theorem Going.wait_ends (going : Going batch ids ⟨.wait, state⟩) :
    ∃ last, Reachable (randomStep batch) ⟨.wait, state⟩ ⟨.outer, last⟩ ∧
      Going batch ids ⟨.outer, last⟩ ∧ last.remaining < state.remaining := by
  obtain ⟨job, rest, list⟩ := List.exists_cons_of_ne_nil going.busy
  obtain ⟨time, after, exits⟩ := ends.later job.status state.clock
  exact going.wait_until sized ends fit (list ▸ List.mem_cons_self) exits
    fun late => absurd after (Nat.not_le.mpr late)

/-- Each round of the outer loop has less to do than the one before. -/
theorem Going.finishes (going : Going batch ids ⟨.outer, state⟩) :
    ∃ last, Reachable (randomStep batch) ⟨.outer, state⟩ ⟨.done, last⟩ := by
  induction left : state.remaining using Nat.strong_induction_on generalizing state with
  | _ left inductionHypothesis =>
    obtain ⟨next, stepped, advance, goingNext, _⟩ := going.step sized ends fit
    cases advance with
    | finish _ => exact ⟨state, Reachable.refl.next stepped⟩
    | enter _ =>
      obtain ⟨filled, toWait, goingFilled, same⟩ := goingNext.fill_ends sized ends fit
      obtain ⟨after, toOuter, goingAfter, fewer⟩ := goingFilled.wait_ends sized ends fit
      obtain ⟨last, toDone⟩ := inductionHypothesis after.remaining (by omega) goingAfter rfl
      exact ⟨last, (((Reachable.refl.next stepped).trans toWait).trans toOuter).trans toDone⟩

end Progress

/-- An instance that does not fit on its own stays among the runnable ones. -/
theorem RandomAdvance.waiting {big : Text} {bigthreads : Int} {next : Random}
    (bigger : batch.threads big = .ok bigthreads) (tooBig : batch.totalthreads < bigthreads)
    (holds : RandomInv batch ids random) (advance : RandomAdvance batch ids random next)
    (waiting : big ∈ random.globals.runnable) : big ∈ next.globals.runnable := by
  cases advance with
  | @pick state _ _ appid appthreads _ _ threads picked =>
    cases picked with
    | starts _ fits runnable _ =>
      rw [runnable]
      refine (List.mem_erase_of_ne ?_).mpr waiting
      rintro rfl
      have nonneg : 0 ≤ state.groupthreads := holds.1.groupthreads_nonneg
      have same : appthreads = bigthreads := Except.ok.inj (threads.symm.trans bigger)
      omega
    | waits _ aged => exact aged.runnable ▸ waiting
  | retire _ _ swept => exact swept.runnable ▸ waiting
  | sleep swept => exact swept.runnable ▸ waiting
  | enter _ => exact waiting
  | finish _ => exact waiting
  | leave _ => exact waiting
  | stay => exact waiting

theorem waiting_of_reachable {runnableMap : AList fun _ : Text => Text} {big : Text}
    {bigthreads : Int} (sized : Sized batch runnableMap.keys) (known : big ∈ runnableMap)
    (bigger : batch.threads big = .ok bigthreads) (tooBig : batch.totalthreads < bigthreads)
    (reached : Reachable (randomStep batch) (.start runnableMap) random) :
    big ∈ random.globals.runnable := by
  refine (reached.invariant (fun random => RandomInv batch runnableMap.keys random ∧
    big ∈ random.globals.runnable) ⟨randomInv_start _ _, AList.mem_keys.mp known⟩ ?_).2
  rintro state next ⟨holds, waiting⟩ stepped
  obtain ⟨next', stepped', holds', advance⟩ := randomStep_spec sized holds
  rw [stepped] at stepped'
  cases stepped'
  exact ⟨holds', advance.waiting bigger tooBig holds waiting⟩

/-- At the end every instance has been started once. -/
theorem launched_of_done {runnableMap : AList fun _ : Text => Text}
    (sized : Sized batch runnableMap.keys)
    (reached : Reachable (randomStep batch) (.start runnableMap) random)
    (done : random.pc = .done) :
    (random.globals.procs.map Child.appid).Perm runnableMap.keys := by
  obtain ⟨pc, state⟩ := random
  obtain rfl : pc = .done := done
  obtain ⟨balanced, empty⟩ := randomInv_of_reachable sized reached
  have none : state.runnable = [] := by
    rw [List.eq_nil_iff_forall_not_mem]
    intro id waiting
    have mapped := (balanced.keys id).mpr (Or.inl waiting)
    rw [AList.mem_keys, show state.runnableMap.keys = [] from empty] at mapped
    cases mapped
  simpa [none] using balanced.launched

/-- When all processes end with status 0, in whatever order and after whatever time, the random
mode comes to its end exactly when every instance fits into `totalthreads` on its own. Whenever it
is at its end, every instance has been started once. -/
theorem random_mode_finishes_iff {runnableMap : AList fun _ : Text => Text}
    (sized : Sized batch runnableMap.keys) (ends : Ends batch.schedule) :
    ((∃ random, Reachable (randomStep batch) (.start runnableMap) random ∧ random.pc = .done) ↔
      ∀ id ∈ runnableMap, ∀ threads, batch.threads id = .ok threads →
        threads ≤ batch.totalthreads) ∧
    ∀ random, Reachable (randomStep batch) (.start runnableMap) random → random.pc = .done →
      (random.globals.procs.map Child.appid).Perm runnableMap.keys := by
  refine ⟨⟨?_, fun fit => ?_⟩, fun random reached done => launched_of_done sized reached done⟩
  · rintro ⟨⟨pc, state⟩, reached, rfl⟩ id known threads read
    by_contra tooBig
    have waiting := waiting_of_reachable sized known read (Int.not_le.mp tooBig) reached
    obtain ⟨balanced, empty⟩ := randomInv_of_reachable sized reached
    have mapped := (balanced.keys id).mpr (Or.inl waiting)
    rw [AList.mem_keys, show state.runnableMap.keys = [] from empty] at mapped
    cases mapped
  · have going : Going batch runnableMap.keys (.start runnableMap) :=
      ⟨randomInv_start batch runnableMap, trivial,
        fun _ impossible => absurd impossible List.not_mem_nil⟩
    obtain ⟨last, reached⟩ :=
      going.finishes sized ends fun id known => fit id (AList.mem_keys.mpr known)
    exact ⟨⟨.done, last⟩, reached, rfl⟩

/-- With four threads both instances are started and done; with two threads the mode does not
end, though every process does. -/
theorem random_mode_finishes_sample :
    (∃ random, Reachable (randomStep ⟨4, instanceThreads, oneByOne⟩) (.start twoInstances) random ∧
      random.pc = .done ∧
      (random.globals.procs.map Child.appid).Perm ["a".toList, "b".toList]) ∧
    ¬ ∃ random, Reachable (randomStep ⟨2, instanceThreads, oneByOne⟩) (.start twoInstances) random ∧
      random.pc = .done := by
  have sized : ∀ totalthreads, Sized ⟨totalthreads, instanceThreads, oneByOne⟩ twoInstances.keys :=
    fun _ id _ => instanceThreads_positive id
  constructor
  · obtain ⟨finishes, launched⟩ := random_mode_finishes_iff (sized 4) ends_oneByOne
    obtain ⟨random, reached, done⟩ := finishes.mpr fun id _ threads read => by
      rw [← Except.ok.inj read]
      split <;> decide
    exact ⟨random, reached, done, launched random reached done⟩
  · intro finishes
    have fits := (random_mode_finishes_iff (sized 2) ends_oneByOne).1.mp finishes
    exact absurd (fits "b".toList (by decide) 4 (by decide)) (by decide)

end RandomMode

/-! ### The defined mode -/

section DefinedMode

variable {runnableMap : AList fun _ : Text => Text} {groups : List (Text × List Text)}
  {state : Globals Running} {defined : Defined}

/-- What waiting for a group does: time passes, and entries leave the list. -/
structure Awaited (schedule : Nat → Instant) (before after : Globals Running) : Prop where
  elapsed : Elapsed schedule before after
  appids : after.procs.map Child.appid = before.procs.map Child.appid
  mapped : after.runnableMap = before.runnableMap
  list : after.appStatfileList.Sublist before.appStatfileList

theorem awaited_refl (schedule : Nat → Instant) (state : Globals Running) :
    Awaited schedule state state :=
  ⟨refl_of (Elapsed schedule) state, rfl, rfl, List.Sublist.refl _⟩

theorem Awaited.aged {before middle after : Globals Running}
    (awaited : Awaited schedule before middle)
    (elapsed : Elapsed schedule middle after) (aged : Aged middle after) :
    Awaited schedule before after where
  elapsed := trans_of (Elapsed schedule) awaited.elapsed elapsed
  appids := aged.appids.trans awaited.appids
  mapped := aged.runnableMap.trans awaited.mapped
  list := by
    rw [aged.list]
    exact awaited.list

theorem Awaited.delist {before after : Globals Running} (awaited : Awaited schedule before after)
    (app : Running) : Awaited schedule before (after.delist app) where
  elapsed := by
    have closed : Elapsed schedule after (after.delist app) := elapsed_of_procs rfl rfl
    exact trans_of (Elapsed schedule) awaited.elapsed closed
  appids := awaited.appids
  mapped := awaited.mapped
  list := List.erase_sublist.trans awaited.list

/-- The answer is `True` once all processes on the list have ended. -/
theorem ensures_groupExecCompleted_elapsed
    (zero : ∀ time, ∀ exit ∈ (schedule time).exits, exit.2 = 0) (state : Globals Running) :
    Ensures (groupExecCompleted schedule) state (fun completed next =>
      Awaited schedule state next ∧
      ((∀ app ∈ state.appStatfileList, state.exitStatus app.status = some 0) → completed = true))
      fun _ => False := by
  refine ensures_forEach (fun _ completed current => Awaited schedule state current ∧
    completed = true) ?_ (fun _ _ _ holds _ => ⟨holds.1, fun _ => holds.2⟩)
    ⟨awaited_refl schedule state, rfl⟩
  rintro index completed app current ⟨awaited, _⟩ found
  have ages : Ensures (poll schedule app.status) current (fun status next => Aged current next ∧
      (∀ value, current.exitStatus app.status = some value → status = some value) ∧
      (status = some 0 → next.exitStatus app.status = some 0)) fun _ => False :=
    ensures_poll app.status
  refine (ensures_completedEntry _ completed ((follows_poll zero app.status current).and
    ages)).mono ?_ fun _ both => both.2
  rintro step _ ⟨status, seen, ⟨elapsed, aged, told, _⟩, ⟨_, rfl, rfl⟩ | ⟨nonzero, rfl, rfl⟩⟩
  · refine ⟨⟨(awaited.aged elapsed aged).delist app, rfl⟩, ?_⟩
    rw [← aged.list]
    exact List.length_erase_le
  · refine ⟨awaited.aged elapsed aged, fun ended => absurd (told 0 ?_) nonzero⟩
    have listed := awaited.list.subset (List.mem_of_getElem? found)
    exact awaited.elapsed.exited _ _ (ended app listed)

/-- All apps of a group are started, in their order, unless one is missing in `runnable_map`. -/
theorem ensures_startGroup_elapsed (zero : ∀ time, ∀ exit ∈ (schedule time).exits, exit.2 = 0)
    (groupid : Text) (apps : List Text) (state : Globals Running) :
    Ensures (startGroup schedule groupid apps) state (fun _ next =>
      Elapsed schedule state next ∧ next.runnableMap = state.runnableMap ∧
      (∀ app ∈ next.appStatfileList, app.status < next.procs.length) ∧
      (∀ appid ∈ apps, appid ∈ state.runnableMap) ∧
      next.procs.map Child.appid = state.procs.map Child.appid ++ apps)
      fun _ => ∃ appid ∈ apps, appid ∉ state.runnableMap := by
  refine (ensures_startGroup (fun rest current => Elapsed schedule state current ∧
    current.runnableMap = state.runnableMap ∧
    (∀ app ∈ current.appStatfileList, app.status < current.procs.length) ∧
    ∃ started, apps = started ++ rest ∧ (∀ appid ∈ started, appid ∈ state.runnableMap) ∧
      current.procs.map Child.appid = state.procs.map Child.appid ++ started) ?_ ?_).imp ?_
  · have cleared : Elapsed schedule state { state with appStatfileList := [] } :=
      elapsed_of_procs rfl rfl
    refine (ensures_observe_elapsed zero).imp ?_
    rintro _ seen ⟨aged, elapsed, _⟩
    refine ⟨trans_of (Elapsed schedule) cleared elapsed, aged.runnableMap, ?_, [], rfl,
      fun _ impossible => absurd impossible List.not_mem_nil, ?_⟩
    · rw [aged.list]
      exact fun _ impossible => absurd impossible List.not_mem_nil
    · rw [List.append_nil]
      exact aged.appids
  · rintro timestamp appid rest current ⟨elapsed, mapped, known, started, split, present, appids⟩
    refine (ensures_startApp (Elapsed schedule current)
      ((ensures_observe_elapsed zero).imp fun _ _ observed => observed.2.1)).mono ?_ ?_
    · rintro _ _ ⟨found, seen, file, seenLater, aged, rfl⟩
      have launched : Elapsed schedule seen (seen.enlist appid file) :=
        elapsed_of_started rfl rfl
      refine ⟨trans_of (Elapsed schedule) elapsed
        (trans_of (Elapsed schedule) seenLater launched), aged.runnableMap.trans mapped, ?_,
        started ++ [appid], by simp [split], ?_, ?_⟩
      · intro app member
        rw [Globals.enlist, List.length_append, List.length_singleton]
        rcases List.mem_append.mp member with old | new
        · have bound := known app (aged.list ▸ old)
          rw [← aged.length] at bound
          omega
        · rw [List.mem_singleton.mp new]
          exact Nat.lt_succ_self _
      · intro other member
        rcases List.mem_append.mp member with old | new
        · exact present other old
        · rw [List.mem_singleton.mp new]
          exact mapped ▸ found
      · rw [Globals.enlist, List.map_append, aged.appids, appids, List.append_assoc]
        rfl
    · intro _ missing
      refine ⟨appid, ?_, mapped ▸ missing⟩
      rw [split]
      exact List.mem_append_right _ List.mem_cons_self
  · rintro _ last ⟨elapsed, mapped, known, started, split, present, appids⟩
    rw [List.append_nil] at split
    exact split ▸ ⟨elapsed, mapped, known, present, appids⟩

/-- The invariant of a run of the defined mode: the groups before those to come have been started,
in their order. -/
structure InTurn (runnableMap : AList fun _ : Text => Text) (groups : List (Text × List Text))
    (defined : Defined) : Prop where
  mapped : defined.globals.runnableMap = runnableMap
  ready : Ready defined.globals
  known : ∀ app ∈ defined.globals.appStatfileList, app.status < defined.globals.procs.length
  passed : ∃ before, groups = before ++ defined.groups ∧
    (∀ group ∈ before, ∀ appid ∈ group.2, appid ∈ runnableMap) ∧
    defined.globals.procs.map Child.appid = before.flatMap Prod.snd
  last : defined.pc = .done → defined.groups = []

theorem inTurn_start (runnableMap : AList fun _ : Text => Text)
    (groups : List (Text × List Text)) :
    InTurn runnableMap groups (.start runnableMap groups) where
  mapped := rfl
  ready _ impossible := absurd impossible List.not_mem_nil
  known _ impossible := absurd impossible List.not_mem_nil
  passed := ⟨[], rfl, fun _ impossible => absurd impossible List.not_mem_nil, rfl⟩
  last impossible := by cases impossible

/-- Waiting for a group keeps the invariant. -/
theorem InTurn.awaited {rest : List (Text × List Text)} {pc : DefinedPc} {after : Globals Running}
    (inTurn : InTurn runnableMap groups ⟨.wait, rest, state⟩)
    (awaited : Awaited schedule state after) (goesOn : pc ≠ .done) :
    InTurn runnableMap groups ⟨pc, rest, after⟩ where
  mapped := awaited.mapped.trans inTurn.mapped
  ready := awaited.elapsed.ready inTurn.ready
  known app listed :=
    lt_of_lt_of_le (inTurn.known app (awaited.list.subset listed)) awaited.elapsed.length
  passed := by
    obtain ⟨before, split, mapped, appids⟩ := inTurn.passed
    exact ⟨before, split, mapped, awaited.appids.trans appids⟩
  last done := absurd done goesOn

section Progress

variable (ends : Ends schedule)

include ends

/-- A step that waits for a group. When all processes on the list have ended, the group is
completed; until then time passes. -/
theorem definedStep_wait (rest : List (Text × List Text)) (state : Globals Running) :
    ∃ pc after, definedStep schedule ⟨.wait, rest, state⟩ = .ok ⟨pc, rest, after⟩ ∧
      Awaited schedule state after ∧ (pc = .next ∨ pc = .wait ∧ state.clock < after.clock) ∧
      ((∀ app ∈ state.appStatfileList, state.exitStatus app.status = some 0) → pc = .next) := by
  obtain ⟨completed, middle, ran, awaited, complete⟩ :=
    (ensures_groupExecCompleted_elapsed ends.zero state).returns
  cases completed with
  | true =>
    exact ⟨.next, middle, bind_eq_ok_iff.mpr ⟨(true, middle), ran, rfl⟩, awaited, Or.inl rfl,
      fun _ => rfl⟩
  | false =>
    have sleeps : Ensures (observe schedule) middle (fun _ after => Aged middle after ∧
        Elapsed schedule middle after ∧ middle.clock < after.clock) fun _ => False :=
      ensures_observe_elapsed ends.zero
    obtain ⟨instant, after, slept, aged, elapsed, clock⟩ := sleeps.returns
    refine ⟨.wait, after, ?_, awaited.aged elapsed aged,
      Or.inr ⟨rfl, lt_of_le_of_lt awaited.elapsed.clock clock⟩, fun ended => ?_⟩
    · exact bind_eq_ok_iff.mpr ⟨(false, middle), ran, bind_eq_ok_iff.mpr ⟨_, slept, rfl⟩⟩
    · cases complete ended

theorem InTurn.step {after : Defined} (inTurn : InTurn runnableMap groups defined)
    (stepped : definedStep schedule defined = .ok after) : InTurn runnableMap groups after := by
  obtain ⟨pc, rest, state⟩ := defined
  cases pc with
  | next =>
    obtain ⟨mapped, ready, _, ⟨before, split, present, appids⟩, _⟩ := inTurn
    cases rest with
    | nil =>
      cases stepped
      exact ⟨mapped, ready, ‹_›, ⟨before, split, present, appids⟩, fun _ => rfl⟩
    | cons group rest =>
      obtain ⟨⟨_, globals⟩, ran, result⟩ := bind_eq_ok_iff.mp stepped
      cases result
      obtain ⟨elapsed, same, known, found, started⟩ :=
        (ensures_startGroup_elapsed ends.zero group.1 group.2 state).of_run ran
      refine ⟨same.trans mapped, elapsed.ready ready, known, ⟨before ++ [group], by simp [split],
        ?_, ?_⟩, fun impossible => by cases impossible⟩
      · intro other member
        rcases List.mem_append.mp member with old | new
        · exact present other old
        · rw [List.mem_singleton.mp new]
          exact fun appid inside => mapped ▸ found appid inside
      · rw [started, appids]
        simp
  | wait =>
    obtain ⟨pc, last, stepped', awaited, goesOn, _⟩ := definedStep_wait ends rest state
    rw [stepped] at stepped'
    cases stepped'
    refine inTurn.awaited awaited fun done => ?_
    rcases goesOn with next | ⟨wait, _⟩ <;> simp_all
  | done =>
    cases stepped
    exact inTurn

/-- A group is completed once all its processes have ended. The induction is on the time until
then. -/
theorem InTurn.wait_until {rest : List (Text × List Text)} (time : Nat)
    (inTurn : InTurn runnableMap groups ⟨.wait, rest, state⟩)
    (exits : ∀ app ∈ state.appStatfileList, ∃ moment < time,
      (app.status, 0) ∈ (schedule moment).exits ∧
      (moment < state.clock → state.exitStatus app.status = some 0)) :
    ∃ last, Reachable (definedStep schedule) ⟨.wait, rest, state⟩ ⟨.next, rest, last⟩ ∧
      InTurn runnableMap groups ⟨.next, rest, last⟩ := by
  induction left : time - state.clock using Nat.strong_induction_on generalizing state with
  | _ left inductionHypothesis =>
    obtain ⟨pc, after, stepped, awaited, goesOn, complete⟩ := definedStep_wait ends rest state
    rcases goesOn with rfl | ⟨rfl, clock⟩
    · exact ⟨after, Reachable.refl.next stepped, inTurn.awaited awaited (by decide)⟩
    · have early : state.clock < time := by
        by_contra late
        have ended : ∀ app ∈ state.appStatfileList, state.exitStatus app.status = some 0 := by
          intro app listed
          obtain ⟨moment, before, _, passed⟩ := exits app listed
          exact passed (by omega)
        cases complete ended
      have exitsAfter : ∀ app ∈ after.appStatfileList, ∃ moment < time,
          (app.status, 0) ∈ (schedule moment).exits ∧
          (moment < after.clock → after.exitStatus app.status = some 0) := by
        intro app listed
        have listedBefore := awaited.list.subset listed
        obtain ⟨moment, before, exit, passed⟩ := exits app listedBefore
        refine ⟨moment, before, exit, fun past => ?_⟩
        by_cases already : moment < state.clock
        · exact awaited.elapsed.exited _ _ (passed already)
        · exact awaited.elapsed.ended inTurn.ready moment (Nat.not_lt.mp already) past app.status
            (inTurn.known app listedBefore) exit
      obtain ⟨last, reached, inTurnLast⟩ := inductionHypothesis (time - after.clock) (by omega)
        (inTurn.awaited awaited (by decide)) exitsAfter rfl
      exact ⟨last, (Reachable.refl.next stepped).trans reached, inTurnLast⟩

/-- After some time all of finitely many processes have ended. -/
theorem exists_time_exits (pids : List Nat) (clock : Nat) :
    ∃ time, ∀ pid ∈ pids, ∃ moment < time, clock ≤ moment ∧
      (pid, 0) ∈ (schedule moment).exits := by
  induction pids with
  | nil => exact ⟨0, fun _ impossible => absurd impossible List.not_mem_nil⟩
  | cons pid pids inductionHypothesis =>
    obtain ⟨time, others⟩ := inductionHypothesis
    obtain ⟨moment, after, exit⟩ := ends.later pid clock
    refine ⟨max time (moment + 1), fun other member => ?_⟩
    rcases List.mem_cons.mp member with rfl | later
    · exact ⟨moment, by omega, after, exit⟩
    · obtain ⟨moment', before, after', exit'⟩ := others other later
      exact ⟨moment', by omega, after', exit'⟩

theorem InTurn.wait_ends {rest : List (Text × List Text)}
    (inTurn : InTurn runnableMap groups ⟨.wait, rest, state⟩) :
    ∃ last, Reachable (definedStep schedule) ⟨.wait, rest, state⟩ ⟨.next, rest, last⟩ ∧
      InTurn runnableMap groups ⟨.next, rest, last⟩ := by
  obtain ⟨time, exits⟩ :=
    exists_time_exits ends (state.appStatfileList.map Running.status) state.clock
  refine inTurn.wait_until ends time fun app listed => ?_
  obtain ⟨moment, before, after, exit⟩ := exits app.status (List.mem_map_of_mem listed)
  exact ⟨moment, before, exit, fun past => absurd after (Nat.not_le.mpr past)⟩

/-- One group after the other is started and waited for. -/
theorem InTurn.finishes {rest : List (Text × List Text)}
    (inTurn : InTurn runnableMap groups ⟨.next, rest, state⟩)
    (present : ∀ group ∈ rest, ∀ appid ∈ group.2, appid ∈ runnableMap) :
    ∃ last, Reachable (definedStep schedule) ⟨.next, rest, state⟩ ⟨.done, [], last⟩ := by
  induction rest generalizing state with
  | nil => exact ⟨state, Reachable.refl.next rfl⟩
  | cons group rest inductionHypothesis =>
    have starts := ensures_startGroup_elapsed ends.zero group.1 group.2 state
    have mapped : state.runnableMap = runnableMap := inTurn.mapped
    obtain ⟨globals, ran⟩ :
        ∃ globals, (startGroup schedule group.1 group.2).run state = .ok ((), globals) := by
      cases outcome : (startGroup schedule group.1 group.2).run state with
      | ok result => exact ⟨result.2, rfl⟩
      | error error =>
        obtain ⟨appid, inside, missing⟩ := starts.of_error outcome
        exact absurd (mapped ▸ present group List.mem_cons_self appid inside) missing
    have stepped : definedStep schedule ⟨.next, group :: rest, state⟩ =
        .ok ⟨.wait, rest, globals⟩ := bind_eq_ok_iff.mpr ⟨_, ran, rfl⟩
    obtain ⟨middle, toNext, inTurnMiddle⟩ := (inTurn.step ends stepped).wait_ends ends
    obtain ⟨last, toDone⟩ := inductionHypothesis inTurnMiddle fun other member =>
      present other (List.mem_cons_of_mem _ member)
    exact ⟨last, ((Reachable.refl.next stepped).trans toNext).trans toDone⟩

end Progress

/-- When all processes end with status 0, in whatever order and after whatever time, the defined
mode comes to its end exactly when `runnable_map` has every app of every group. Whenever it is at
its end, the apps have been started group by group, in the order the groups give them. -/
theorem defined_mode_finishes_iff (ends : Ends schedule) :
    ((∃ defined, Reachable (definedStep schedule) (.start runnableMap groups) defined ∧
      defined.pc = .done) ↔
      ∀ group ∈ groups, ∀ appid ∈ group.2, appid ∈ runnableMap) ∧
    ∀ defined, Reachable (definedStep schedule) (.start runnableMap groups) defined →
      defined.pc = .done →
      defined.globals.procs.map Child.appid = groups.flatMap Prod.snd := by
  -- At the end no group is left.
  have passed : ∀ defined, Reachable (definedStep schedule) (.start runnableMap groups) defined →
      defined.pc = .done → (∀ group ∈ groups, ∀ appid ∈ group.2, appid ∈ runnableMap) ∧
        defined.globals.procs.map Child.appid = groups.flatMap Prod.snd := by
    intro defined reached done
    have holds : InTurn runnableMap groups defined := reached.invariant _
      (inTurn_start runnableMap groups) fun _ _ holds stepped => holds.step ends stepped
    obtain ⟨before, split, present, appids⟩ := holds.passed
    rw [holds.last done, List.append_nil] at split
    exact split ▸ ⟨present, appids⟩
  refine ⟨⟨?_, fun present => ?_⟩, fun defined reached done => (passed defined reached done).2⟩
  · rintro ⟨defined, reached, done⟩
    exact (passed defined reached done).1
  · obtain ⟨last, reached⟩ := (inTurn_start runnableMap groups).finishes ends present
    exact ⟨_, reached, rfl⟩

/-- Two groups are run to the end; a group with an unknown app is not. -/
theorem defined_mode_finishes_sample :
    (∃ defined, Reachable (definedStep oneByOne) (.start threeApps twoGroups) defined ∧
      defined.pc = .done ∧
      defined.globals.procs.map Child.appid = ["a".toList, "b".toList, "c".toList]) ∧
    ¬ ∃ defined, Reachable (definedStep oneByOne)
        (.start threeApps [("g".toList, ["d".toList])]) defined ∧ defined.pc = .done := by
  constructor
  · obtain ⟨finishes, launched⟩ := defined_mode_finishes_iff ends_oneByOne
    have present : ∀ group ∈ twoGroups, ∀ appid ∈ group.2, appid ∈ threeApps := by decide
    obtain ⟨defined, reached, done⟩ := finishes.mpr present
    exact ⟨defined, reached, done, launched defined reached done⟩
  · intro finishes
    have present := (defined_mode_finishes_iff ends_oneByOne).1.mp finishes
    exact absurd (present _ List.mem_cons_self "d".toList List.mem_cons_self) (by decide)

end DefinedMode

end ClusterJobs.Parallel
