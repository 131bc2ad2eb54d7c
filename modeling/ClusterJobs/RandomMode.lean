/-
This file verifies the random mode of `bin/parallel`.

The mode keeps five structures in step: `runnable` and its working copy, `runnable_map`,
`app_statfile_list` and `groupthreads`. `Balanced` says what holds between them at the head of
every loop, relative to the jobs still to be accounted for; the sweep of the wait loop accounts
for its jobs one by one and takes them off the list only afterwards.

The accounts are right in every run. What is not guaranteed is that the wait loop has something
to wait for: an instance with more threads than `totalthreads` is never started, and once the
others are done the loop waits on an empty list.
-/

import ClusterJobs.Parallel
import Mathlib.Algebra.Order.BigOperators.Group.List
import Mathlib.Data.List.Perm.Subperm

namespace ClusterJobs.Parallel

open Python

variable {batch : Batch} {ids : List Text} {jobs : List Job} {state next : Globals Job}
  {raised : PyError → Prop}

/-! ### The accounts -/

/-- Every instance has a positive number of threads. -/
def Sized (batch : Batch) (ids : List Text) : Prop :=
  ∀ id ∈ ids, ∃ threads, batch.threads id = .ok threads ∧ 0 < threads

/-- The accounts balance for a list of jobs: their threads are those in use, and every instance
is runnable, one of the jobs, or done with, and has been started at most once. -/
structure Balanced (batch : Batch) (ids : List Text) (jobs : List Job) (state : Globals Job) :
    Prop where
  threads : state.groupthreads = (jobs.map Job.appthreads).sum
  sized : ∀ job ∈ jobs, batch.threads job.appid = .ok job.appthreads ∧ 0 < job.appthreads
  bounded : 0 ≤ batch.totalthreads → state.groupthreads ≤ batch.totalthreads
  keys : ∀ id, id ∈ state.runnableMap ↔ id ∈ state.runnable ∨ id ∈ jobs.map Job.appid
  distinct : (state.runnable ++ jobs.map Job.appid).Nodup
  launched : (state.procs.map Child.appid ++ state.runnable).Perm ids
  started : ∀ job ∈ jobs, job.status < state.procs.length

theorem balanced_start (batch : Batch) (runnableMap : AList fun _ : Text => Text) :
    Balanced batch runnableMap.keys [] (.start runnableMap) where
  threads := rfl
  sized _ member := absurd member List.not_mem_nil
  bounded positive := positive
  keys id := by simp [Globals.start, AList.mem_keys]
  distinct := by
    rw [List.map_nil, List.append_nil]
    exact runnableMap.keys_nodup
  launched := List.Perm.refl _
  started _ member := absurd member List.not_mem_nil

namespace Balanced

theorem jobs_nodup (balanced : Balanced batch ids jobs state) : jobs.Nodup :=
  (List.nodup_append.mp balanced.distinct).2.1.of_map _

theorem aged (balanced : Balanced batch ids jobs state) (aged : Aged state next) :
    Balanced batch ids jobs next where
  threads := aged.groupthreads.trans balanced.threads
  sized := balanced.sized
  bounded := by
    rw [aged.groupthreads]
    exact balanced.bounded
  keys id := by
    rw [aged.runnableMap, aged.runnable]
    exact balanced.keys id
  distinct := by
    rw [aged.runnable]
    exact balanced.distinct
  launched := by
    rw [aged.appids, aged.runnable]
    exact balanced.launched
  started job member := by
    rw [aged.length]
    exact balanced.started job member

theorem groupthreads_nonneg (balanced : Balanced batch ids jobs state) :
    0 ≤ state.groupthreads := by
  rw [balanced.threads]
  refine List.sum_nonneg fun threads member => ?_
  obtain ⟨job, inJobs, rfl⟩ := List.mem_map.mp member
  exact (balanced.sized job inJobs).2.le

/-- An instance that fits is started. -/
theorem launch (balanced : Balanced batch ids jobs state) {appid : Text} {appthreads : Int}
    {running : Running} (runnable : appid ∈ state.runnable)
    (sized : batch.threads appid = .ok appthreads) (positive : 0 < appthreads)
    (fits : state.groupthreads + appthreads ≤ batch.totalthreads)
    (mapped : next.runnableMap = state.runnableMap)
    (removed : next.runnable = state.runnable.erase appid)
    (taken : next.groupthreads = state.groupthreads + appthreads)
    (appids : next.procs.map Child.appid = state.procs.map Child.appid ++ [appid])
    (last : running.status = state.procs.length) :
    Balanced batch ids (jobs ++ [⟨running, appid, appthreads⟩]) next := by
  have split : (state.runnable.erase appid ++ appid :: jobs.map Job.appid).Perm
      (state.runnable ++ jobs.map Job.appid) :=
    List.perm_middle.trans ((List.perm_cons_erase runnable).symm.append_right _)
  have moved : (next.runnable ++
      (jobs ++ [(⟨running, appid, appthreads⟩ : Job)]).map Job.appid).Perm
      (state.runnable ++ jobs.map Job.appid) := by
    rw [removed, List.map_append, List.map_singleton]
    have last : (jobs.map Job.appid ++ [appid]).Perm (appid :: jobs.map Job.appid) :=
      List.perm_append_comm
    exact (last.append_left _).trans split
  have length : next.procs.length = state.procs.length + 1 := by
    simpa using congrArg List.length appids
  refine ⟨?_, ?_, fun _ => taken ▸ fits, fun id => ?_, ?_, ?_, ?_⟩
  · simp [taken, balanced.threads]
  · intro job member
    rcases List.mem_append.mp member with old | new
    · exact balanced.sized job old
    · rw [List.mem_singleton.mp new]
      exact ⟨sized, positive⟩
  · rw [mapped, balanced.keys, ← List.mem_append, ← List.mem_append]
    exact moved.mem_iff.symm
  · exact moved.nodup_iff.mpr balanced.distinct
  · rw [appids, removed, List.append_assoc]
    exact ((List.perm_cons_erase runnable).symm.append_left _).trans balanced.launched
  · intro job member
    rcases List.mem_append.mp member with old | new
    · have := balanced.started job old
      omega
    · rw [List.mem_singleton.mp new]
      simp only
      omega

/-- A job that has ended gives its threads back and leaves `runnable_map`. -/
theorem retire (balanced : Balanced batch ids jobs state) {app : Job} (member : app ∈ jobs)
    (statfiles : List StatFile) :
    Balanced batch ids (jobs.erase app)
      { state with
        runnableMap := state.runnableMap.erase app.appid
        groupthreads := state.groupthreads - app.appthreads
        statfiles := statfiles } := by
  have ids := (List.perm_cons_erase member).map Job.appid
  have distinct : (app.appid :: (state.runnable ++ (jobs.erase app).map Job.appid)).Nodup := by
    refine (List.Perm.nodup_iff ?_).mp balanced.distinct
    exact (ids.append_left _).trans List.perm_middle
  have sum := ((List.perm_cons_erase member).map Job.appthreads).sum_eq
  rw [List.map_cons, List.sum_cons] at sum
  refine ⟨?_, ?_, fun positive => ?_, fun id => ?_, (List.nodup_cons.mp distinct).2,
    balanced.launched, ?_⟩
  · have := balanced.threads
    simp only
    omega
  · exact fun job inJobs => balanced.sized job (List.mem_of_mem_erase inJobs)
  · have := balanced.bounded positive
    have := (balanced.sized app member).2
    simp only
    omega
  · rw [AList.mem_erase, balanced.keys, ids.mem_iff, List.map_cons, List.mem_cons]
    have absent := (List.nodup_cons.mp distinct).1
    rw [List.mem_append, not_or] at absent
    constructor
    · rintro ⟨different, runnable | same | other⟩
      · exact Or.inl runnable
      · exact absurd same different
      · exact Or.inr other
    · rintro (runnable | other)
      · exact ⟨fun same => absent.1 (same ▸ runnable), Or.inl runnable⟩
      · exact ⟨fun same => absent.2 (same ▸ other), Or.inr (Or.inr other)⟩
  · exact fun job inJobs => balanced.started job (List.mem_of_mem_erase inJobs)

end Balanced

/-! ### The fill loop -/

/-- What a round of the fill loop makes of the instance it draws: it starts it, or passes over
it. -/
inductive Drawn (batch : Batch) (state : Globals Job) (appid : Text) (appthreads : Int)
    (next : Globals Job) : Prop
  | starts (running : Running) : state.groupthreads + appthreads ≤ batch.totalthreads →
      running.status = state.procs.length → next.runnableMap = state.runnableMap →
      next.runnable = state.runnable.erase appid →
      next.groupthreads = state.groupthreads + appthreads →
      next.procs.map Child.appid = state.procs.map Child.appid ++ [appid] →
      next.appStatfileList = state.appStatfileList ++ [⟨running, appid, appthreads⟩] →
      Drawn batch state appid appthreads next
  | waits : batch.totalthreads < state.groupthreads + appthreads → Aged state next →
      Drawn batch state appid appthreads next

/-- A round of the fill loop draws one instance of the working copy. It does not raise when the
instances of the copy are runnable, have a command and a number of threads. -/
theorem ensures_fill_drawn {runnablea : List Text} (nonempty : 0 < runnablea.length)
    (copied : ∀ id ∈ runnablea, id ∈ state.runnable)
    (mapped : ∀ id ∈ runnablea, id ∈ state.runnableMap)
    (read : ∀ id ∈ runnablea, ∃ appthreads, batch.threads id = .ok appthreads) :
    Ensures (fill batch runnablea) state (fun rest next => ∃ appid ∈ runnablea, ∃ appthreads,
      batch.threads appid = .ok appthreads ∧ rest = runnablea.erase appid ∧
      Drawn batch state appid appthreads next) fun _ => False := by
  simp only [fill, ensures_bind]
  refine ensures_observe.imp fun instant seen aged => ?_
  have bound := Nat.mod_lt instant.choice nonempty
  rw [List.getElem?_eq_getElem bound]
  have member := List.getElem_mem bound
  generalize runnablea[instant.choice % runnablea.length] = appid at member
  have runnable : appid ∈ seen.runnable := by
    rw [aged.runnable]
    exact copied appid member
  obtain ⟨appthreads, threads⟩ := read appid member
  obtain ⟨command, found⟩ :=
    Option.isSome_iff_exists.mp (AList.lookup_isSome.mpr (mapped appid member))
  simp only [threads, ensures_bind, ensures_liftExcept, ensures_get, ensures_ite,
    Except.ok.injEq, forall_eq', reduceCtorEq, false_implies, implies_true, and_true]
  refine ⟨fun fits => ?_, fun full => ?_⟩
  · simp only [removeRunnable, launch, ensures_bind, ensures_get, ensures_ite, ensures_modify,
      ensures_throw]
    refine ⟨fun _ => ?_, fun absent => absurd runnable absent⟩
    refine ensures_observe.imp fun instant' last aged' => ?_
    have mapped' : last.runnableMap = state.runnableMap :=
      aged'.runnableMap.trans aged.runnableMap
    simp only [mapped', found, ensures_bind, ensures_modify, ensures_pure]
    refine ⟨appid, member, appthreads, threads, rfl, .starts
      ⟨last.procs.length, last.statfiles.length⟩ (aged.groupthreads ▸ fits)
      (aged'.length.trans aged.length) rfl ?_ ?_ ?_ ?_⟩
    · rw [← aged.runnable]
      exact aged'.runnable
    · rw [← aged.groupthreads]
      exact aged'.groupthreads
    · rw [List.map_append, aged'.appids, ← aged.appids]
      rfl
    · rw [aged'.list, aged.list]
  · exact ⟨appid, member, appthreads, threads, rfl,
      .waits (by rw [← aged.groupthreads]; omega) aged⟩

/-- What a round of the fill loop does with the instance it picks. -/
inductive Picked (batch : Batch) (state : Globals Job) (appid : Text) (appthreads : Int)
    (next : Globals Job) : Prop
  | starts (running : Running) : state.groupthreads + appthreads ≤ batch.totalthreads →
      next.runnable = state.runnable.erase appid →
      next.appStatfileList = state.appStatfileList ++ [⟨running, appid, appthreads⟩] →
      Picked batch state appid appthreads next
  | waits : batch.totalthreads < state.groupthreads + appthreads → Aged state next →
      Picked batch state appid appthreads next

/-- A round of the fill loop keeps the accounts and considers one instance. -/
theorem ensures_fill {runnablea : List Text} (sized : Sized batch ids)
    (balanced : Balanced batch ids state.appStatfileList state)
    (copied : ∀ id ∈ runnablea, id ∈ state.runnable) (nonempty : 0 < runnablea.length) :
    Ensures (fill batch runnablea) state (fun rest next =>
      Balanced batch ids next.appStatfileList next ∧ ∃ appid ∈ runnablea, ∃ appthreads,
        batch.threads appid = .ok appthreads ∧ rest = runnablea.erase appid ∧
        Picked batch state appid appthreads next) fun _ => False := by
  have known : ∀ id ∈ runnablea, ∃ appthreads, batch.threads id = .ok appthreads ∧
      0 < appthreads := fun id member =>
    sized id (balanced.launched.subset (List.mem_append_right _ (copied id member)))
  refine (ensures_fill_drawn nonempty copied
    (fun id member => (balanced.keys id).mpr (Or.inl (copied id member)))
    fun id member => (known id member).imp fun _ holds => holds.1).imp ?_
  rintro rest next ⟨appid, member, appthreads, threads, rfl, drawn⟩
  have positive : 0 < appthreads := by
    obtain ⟨_, threads', positive⟩ := known appid member
    rw [threads] at threads'
    cases threads'
    exact positive
  refine ⟨?_, appid, member, appthreads, threads, rfl, ?_⟩
  · cases drawn with
    | starts running fits last mapped removed taken appids list =>
      rw [list]
      exact balanced.launch (copied appid member) threads positive fits mapped removed taken appids
        last
    | waits full aged =>
      rw [aged.list]
      exact balanced.aged aged
  · cases drawn with
    | starts running fits _ _ removed _ _ list => exact .starts running fits removed list
    | waits full aged => exact .waits full aged

/-! ### The wait loop -/

/-- What a sweep leaves as it is. -/
structure Kept (before after : Globals Job) : Prop where
  runnable : after.runnable = before.runnable
  list : after.appStatfileList = before.appStatfileList
  exited : ∀ pid status, before.exitStatus pid = some status → after.exitStatus pid = some status

theorem Kept.trans {first second third : Globals Job} (before : Kept first second)
    (after : Kept second third) : Kept first third :=
  ⟨after.runnable.trans before.runnable, after.list.trans before.list,
    fun pid status exited => after.exited pid status (before.exited pid status exited)⟩

theorem Aged.kept (aged : Aged state next) : Kept state next :=
  ⟨aged.runnable, aged.list, aged.exited⟩

/-- Looking at one job: it is retired when its process has ended with status 0, and only then. -/
theorem ensures_sweepJob (found : Bool × List Job) {app : Job}
    (balanced : Balanced batch ids jobs state) (member : app ∈ jobs) :
    Ensures (sweepJob batch found app) state (fun found' next => Kept state next ∧
      (found' = (true, found.2 ++ [app]) ∧ Balanced batch ids (jobs.erase app) next ∧
          next.exitStatus app.status = some 0 ∨
        found' = found ∧ Balanced batch ids jobs next ∧ state.exitStatus app.status ≠ some 0))
      fun _ => False := by
  simp only [sweepJob, ensures_bind]
  refine (ensures_poll app.status).imp fun status polled outcome => ?_
  obtain ⟨aged, told, ended⟩ := outcome
  have balancedPolled := balanced.aged aged
  simp only [ensures_ite, ensures_bind]
  refine ⟨fun zero => ?_, fun nonzero => ?_⟩
  · have mapped : app.appid ∈ polled.runnableMap :=
      (balancedPolled.keys _).mpr (Or.inr (List.mem_map_of_mem member))
    simp only [popRunnableMap, close, ensures_bind, ensures_get, ensures_ite, ensures_modify,
      ensures_pure, ensures_throw]
    refine ⟨fun _ => ?_, fun absent => absurd mapped absent⟩
    refine ⟨⟨aged.runnable, aged.list, aged.exited⟩, Or.inl ⟨trivial, ?_, ended zero⟩⟩
    exact balancedPolled.retire member _
  · refine ⟨aged.kept, Or.inr ⟨rfl, balancedPolled, fun exited => nonzero (told 0 exited)⟩⟩

/-- What a round of the wait loop leaves behind: the jobs whose processes it saw ended with
status 0 are gone. -/
structure Swept (batch : Batch) (ids : List Text) (state next : Globals Job)
    (removed : List Job) : Prop where
  balanced : Balanced batch ids next.appStatfileList next
  list : next.appStatfileList = state.appStatfileList.diff removed
  runnable : next.runnable = state.runnable
  exited : ∀ pid status, state.exitStatus pid = some status → next.exitStatus pid = some status
  zero : ∀ job ∈ removed, next.exitStatus job.status = some 0
  others : ∀ job ∈ state.appStatfileList, job ∉ removed → state.exitStatus job.status ≠ some 0

theorem ensures_removeJobs {list removed : List Job} (nodup : list.Nodup)
    (sublist : removed.Sublist list) (same : state.appStatfileList = list) :
    Ensures (removed.forM removeJob) state (fun _ next =>
      next = { state with appStatfileList := list.diff removed }) fun _ => False := by
  refine (ensures_forM (fun rest current => current.appStatfileList.Nodup ∧
    rest.Sublist current.appStatfileList ∧
    current = { state with appStatfileList := current.appStatfileList } ∧
    current.appStatfileList.diff rest = list.diff removed) ?_ _ _
    ⟨same ▸ nodup, same ▸ sublist, rfl, by rw [same]⟩).imp ?_
  · rintro app rest current ⟨distinct, listed, others, left⟩
    simp only [removeJob, ensures_bind, ensures_get, ensures_ite, ensures_modify, ensures_throw]
    have member : app ∈ current.appStatfileList := listed.subset List.mem_cons_self
    refine ⟨fun _ => ⟨distinct.erase _, ?_, ?_, ?_⟩, fun absent => absurd member absent⟩
    · have erased := listed.erase app
      rwa [List.erase_cons_head] at erased
    · rw [others]
    · rw [← left, List.diff_cons]
  · rintro _ next ⟨_, _, others, left⟩
    rw [others, ← left, List.diff_nil]

/-- A round of the wait loop keeps the accounts, and is left when a job was retired. -/
theorem ensures_waitRound (balanced : Balanced batch ids state.appStatfileList state) :
    Ensures (waitRound batch) state (fun flag next => ∃ removed,
      removed.Sublist state.appStatfileList ∧ (flag = true ↔ removed ≠ []) ∧
      Swept batch ids state next removed) fun _ => False := by
  have nodup := balanced.jobs_nodup
  simp only [waitRound, ensures_bind, ensures_get]
  -- The list stays as it is during the sweep; the jobs accounted for are those not yet found.
  refine (ensures_foldlM (fun rest found current => ∃ passed,
    state.appStatfileList = passed ++ rest ∧ found.2.Sublist passed ∧
    (found.1 = true ↔ found.2 ≠ []) ∧ Kept state current ∧
    Balanced batch ids (state.appStatfileList.diff found.2) current ∧
    (∀ job ∈ found.2, current.exitStatus job.status = some 0) ∧
    ∀ job ∈ passed, job ∉ found.2 → state.exitStatus job.status ≠ some 0) ?_ _ _ _ ?_).imp ?_
  · rintro app rest found current ⟨passed, split, sublist, flag, kept, accounted, zero, others⟩
    rw [split] at nodup
    have fresh : app ∉ passed := fun member =>
      (List.nodup_append.mp nodup).2.2 app member app List.mem_cons_self rfl
    have member : app ∈ state.appStatfileList.diff found.2 := by
      rw [split, List.Nodup.mem_sdiff_iff nodup]
      exact ⟨List.mem_append_right _ List.mem_cons_self,
        fun absent => fresh (sublist.subset absent)⟩
    refine (ensures_sweepJob found accounted member).imp ?_
    rintro found' next ⟨keeps, ⟨rfl, retired, ended⟩ | ⟨rfl, same, unended⟩⟩
    · refine ⟨passed ++ [app], by simp [split], sublist.append (List.Sublist.refl _), by simp,
        kept.trans keeps, ?_, ?_, ?_⟩
      · rwa [List.diff_append, List.diff_cons, List.diff_nil]
      · intro job found
        rcases List.mem_append.mp found with old | new
        · exact keeps.exited _ _ (zero job old)
        · rw [List.mem_singleton.mp new]
          exact ended
      · intro job looked unfound
        rw [List.mem_append, not_or] at unfound
        rcases List.mem_append.mp looked with old | new
        · exact others job old unfound.1
        · exact absurd new unfound.2
    · refine ⟨passed ++ [app], by simp [split], sublist.trans (List.sublist_append_left _ _), flag,
        kept.trans keeps, same, fun job found => keeps.exited _ _ (zero job found), ?_⟩
      intro job looked unfound
      rcases List.mem_append.mp looked with old | new
      · exact others job old unfound
      · rw [List.mem_singleton.mp new]
        exact fun exited => unended (kept.exited _ _ exited)
  · refine ⟨[], rfl, List.Sublist.refl _, by simp, ⟨rfl, rfl, fun _ _ exited => exited⟩, ?_, ?_, ?_⟩
    · rwa [List.diff_nil]
    · exact fun job impossible => absurd impossible List.not_mem_nil
    · exact fun job impossible => absurd impossible List.not_mem_nil
  · rintro ⟨flag, removed⟩ last ⟨passed, split, sublist, flagged, kept, accounted, zero, others⟩
    rw [List.append_nil] at split
    subst split
    simp only [ensures_ite, ensures_bind, ensures_pure]
    refine ⟨fun left => ?_, fun stay => ?_⟩
    · refine (ensures_removeJobs nodup sublist kept.list).imp ?_
      rintro _ _ rfl
      refine ⟨removed, sublist, by simpa using flagged.mp left, ?_, rfl, kept.runnable,
        kept.exited, zero, others⟩
      obtain ⟨threads, sized, bounded, keys, distinct, launched, started⟩ := accounted
      exact ⟨threads, sized, bounded, keys, distinct, launched, started⟩
    · have none : removed = [] := by
        by_contra some
        exact stay (flagged.mpr some)
      subst none
      refine ensures_observe.imp fun _ next aged => ?_
      rw [List.diff_nil] at accounted
      refine ⟨[], List.nil_sublist _, by simp, ?_, ?_, ?_, ?_, ?_, others⟩
      · rw [aged.list, kept.list]
        exact accounted.aged aged
      · rw [aged.list, kept.list, List.diff_nil]
      · rw [aged.runnable, kept.runnable]
      · exact fun pid status exited => aged.exited _ _ (kept.exited _ _ exited)
      · exact fun job impossible => absurd impossible List.not_mem_nil

/-! ### One step -/

/-- The working copy of the fill loop holds runnable instances, each once; and the outer loop
ends when `runnable_map` is empty. -/
def PcOk : Random → Prop
  | ⟨.fill runnablea, state⟩ => runnablea.Nodup ∧ ∀ id ∈ runnablea, id ∈ state.runnable
  | ⟨.done, state⟩ => state.runnableMap.keys = []
  | _ => True

/-- The invariant of the random mode, at the head of every loop. -/
def RandomInv (batch : Batch) (ids : List Text) (random : Random) : Prop :=
  Balanced batch ids random.globals.appStatfileList random.globals ∧ PcOk random

/-- What one step of the random mode does. -/
inductive RandomAdvance (batch : Batch) (ids : List Text) : Random → Random → Prop
  | enter {state : Globals Job} : state.runnableMap.keys ≠ [] →
      RandomAdvance batch ids ⟨.outer, state⟩ ⟨.fill state.runnable, state⟩
  | finish {state : Globals Job} : state.runnableMap.keys = [] →
      RandomAdvance batch ids ⟨.outer, state⟩ ⟨.done, state⟩
  | pick {state next : Globals Job} {runnablea : List Text} {appid : Text} {appthreads : Int} :
      state.groupthreads < batch.totalthreads → appid ∈ runnablea →
      batch.threads appid = .ok appthreads → Picked batch state appid appthreads next →
      RandomAdvance batch ids ⟨.fill runnablea, state⟩ ⟨.fill (runnablea.erase appid), next⟩
  | leave {state : Globals Job} {runnablea : List Text} :
      (runnablea ≠ [] → batch.totalthreads ≤ state.groupthreads) →
      RandomAdvance batch ids ⟨.fill runnablea, state⟩ ⟨.wait, state⟩
  | retire {state next : Globals Job} {removed : List Job} :
      removed.Sublist state.appStatfileList → removed ≠ [] → Swept batch ids state next removed →
      RandomAdvance batch ids ⟨.wait, state⟩ ⟨.outer, next⟩
  | sleep {state next : Globals Job} : Swept batch ids state next [] →
      RandomAdvance batch ids ⟨.wait, state⟩ ⟨.wait, next⟩
  | stay {state : Globals Job} : RandomAdvance batch ids ⟨.done, state⟩ ⟨.done, state⟩

/-- An instance that is picked leaves the working copy, and `runnable` if it is started. -/
theorem Picked.copied {appid : Text} {appthreads : Int} {runnablea : List Text}
    (picked : Picked batch state appid appthreads next) (distinct : runnablea.Nodup)
    (copied : ∀ id ∈ runnablea, id ∈ state.runnable) :
    ∀ id ∈ runnablea.erase appid, id ∈ next.runnable := by
  intro id member
  obtain ⟨different, inCopy⟩ := distinct.mem_erase_iff.mp member
  cases picked with
  | starts _ _ runnable _ =>
    rw [runnable]
    exact (List.mem_erase_of_ne different).mpr (copied id inCopy)
  | waits _ aged =>
    rw [aged.runnable]
    exact copied id inCopy

/-- No step raises, and every step keeps the invariant. -/
theorem randomStep_spec {random : Random} (sized : Sized batch ids)
    (holds : RandomInv batch ids random) :
    ∃ next, randomStep batch random = .ok next ∧ RandomInv batch ids next ∧
      RandomAdvance batch ids random next := by
  obtain ⟨pc, state⟩ := random
  obtain ⟨balanced, pcOk⟩ := holds
  cases pc with
  | outer =>
    by_cases empty : state.runnableMap.keys = []
    · exact ⟨⟨.done, state⟩, by simp [randomStep, empty], ⟨balanced, empty⟩, .finish empty⟩
    · refine ⟨⟨.fill state.runnable, state⟩, ?_, ⟨balanced, ?_, fun _ member => member⟩,
        .enter empty⟩
      · simp [randomStep, List.length_pos_iff.mpr empty]
      · exact (List.nodup_append.mp balanced.distinct).1
  | fill runnablea =>
    by_cases goesOn : runnablea.length > 0 ∧ state.groupthreads < batch.totalthreads
    · obtain ⟨rest, next, ran, balancedNext, appid, member, appthreads, threads, rfl, picked⟩ :=
        (ensures_fill sized balanced pcOk.2 goesOn.1).returns
      refine ⟨⟨.fill (runnablea.erase appid), next⟩, ?_, ⟨balancedNext, pcOk.1.erase _,
        picked.copied pcOk.1 pcOk.2⟩, .pick goesOn.2 member threads picked⟩
      simp only [randomStep, if_pos goesOn]
      rw [ran]
      rfl
    · refine ⟨⟨.wait, state⟩, by simp only [randomStep, if_neg goesOn], ⟨balanced, trivial⟩,
        .leave fun nonempty => ?_⟩
      have := List.length_pos_iff.mpr nonempty
      omega
  | wait =>
    obtain ⟨flag, next, ran, removed, sublist, flagged, swept⟩ :=
      (ensures_waitRound balanced).returns
    have stepped : randomStep batch ⟨.wait, state⟩ =
        .ok ⟨if flag then .outer else .wait, next⟩ := by
      simp only [randomStep]
      rw [ran]
      rfl
    refine ⟨_, stepped, ⟨swept.balanced, ?_⟩, ?_⟩
    · cases flag <;> exact trivial
    · cases flag with
      | true => exact .retire sublist (flagged.mp rfl) swept
      | false =>
        have none : removed = [] := by
          by_contra some
          cases flagged.mpr some
        exact .sleep (none ▸ swept)
  | done => exact ⟨⟨.done, state⟩, rfl, ⟨balanced, pcOk⟩, .stay⟩

theorem randomInv_start (batch : Batch) (runnableMap : AList fun _ : Text => Text) :
    RandomInv batch runnableMap.keys (.start runnableMap) :=
  ⟨balanced_start batch runnableMap, trivial⟩

theorem randomInv_of_reachable {runnableMap : AList fun _ : Text => Text} {random : Random}
    (sized : Sized batch runnableMap.keys)
    (reached : Reachable (randomStep batch) (.start runnableMap) random) :
    RandomInv batch runnableMap.keys random := by
  refine reached.invariant _ (randomInv_start batch runnableMap) ?_
  intro state next holds stepped
  obtain ⟨next', stepped', holds', _⟩ := randomStep_spec sized holds
  rw [stepped] at stepped'
  cases stepped'
  exact holds'

/-! ### Thread accounting -/

/-- At the head of every loop the threads in use are those of the listed jobs and within the
limit; the runnable and the listed instances are distinct and make up `runnable_map`; and no
instance is started twice. At the end every instance was started exactly once, and nothing is
left in the list or in the accounts. -/
theorem thread_accounts {runnableMap : AList fun _ : Text => Text} {random : Random}
    (sized : Sized batch runnableMap.keys) (positive : 0 < batch.totalthreads)
    (reached : Reachable (randomStep batch) (.start runnableMap) random) :
    random.globals.groupthreads =
        (random.globals.appStatfileList.map Job.appthreads).sum ∧
      (∀ job ∈ random.globals.appStatfileList, batch.threads job.appid = .ok job.appthreads) ∧
      random.globals.groupthreads ≤ batch.totalthreads ∧
      (random.globals.runnable ++ random.globals.appStatfileList.map Job.appid).Nodup ∧
      (∀ id, id ∈ random.globals.runnableMap ↔ id ∈ random.globals.runnable ∨
        id ∈ random.globals.appStatfileList.map Job.appid) ∧
      (random.globals.procs.map Child.appid).Nodup ∧
      (random.pc = .done → (random.globals.procs.map Child.appid).Perm runnableMap.keys ∧
        random.globals.appStatfileList = [] ∧ random.globals.groupthreads = 0) := by
  obtain ⟨balanced, pcOk⟩ := randomInv_of_reachable sized reached
  have once : (random.globals.procs.map Child.appid ++ random.globals.runnable).Nodup :=
    balanced.launched.nodup_iff.mpr runnableMap.keys_nodup
  refine ⟨balanced.threads, fun job member => (balanced.sized job member).1,
    balanced.bounded positive.le, balanced.distinct, balanced.keys,
    (List.nodup_append.mp once).1, fun done => ?_⟩
  obtain ⟨pc, state⟩ := random
  cases done
  have empty : state.runnableMap.keys = [] := pcOk
  have gone : ∀ id, id ∉ state.runnable ∧ id ∉ state.appStatfileList.map Job.appid := by
    intro id
    rw [← not_or, ← balanced.keys, AList.mem_keys, empty]
    exact List.not_mem_nil
  have unlisted : state.appStatfileList = [] := by
    rw [← List.map_eq_nil_iff (f := Job.appid), List.eq_nil_iff_forall_not_mem]
    exact fun id => (gone id).2
  have exhausted : state.runnable = [] := List.eq_nil_iff_forall_not_mem.mpr fun id => (gone id).1
  refine ⟨?_, unlisted, ?_⟩
  · have launched := balanced.launched
    rwa [exhausted, List.append_nil] at launched
  · have threads := balanced.threads
    rw [unlisted] at threads
    exact threads

/-- Two instances, with two and with four threads. -/
def twoInstances : AList fun _ : Text => Text :=
  (AList.singleton "b".toList "./b 4".toList).insert "a".toList "./a 2".toList

def instanceThreads (appid : Text) : Except PyError Int :=
  .ok (if appid = "b".toList then 4 else 2)

theorem instanceThreads_positive (id : Text) :
    ∃ count, instanceThreads id = .ok count ∧ 0 < count := by
  refine ⟨_, rfl, ?_⟩
  split <;> decide

/-- Every process ends with status 0 as soon as it is looked at. -/
def promptly (totalthreads : Int) : Batch :=
  ⟨totalthreads, instanceThreads, fun _ => { exits := [(0, 0), (1, 0)] }⟩

/-- With four threads one instance runs after the other, and both are done. -/
theorem thread_accounts_sample :
    ∃ random, Reachable (randomStep (promptly 4)) (.start twoInstances) random ∧
      random.pc = .done ∧ random.globals.appStatfileList = [] ∧
      random.globals.groupthreads = 0 := by
  obtain ⟨random, reached, done⟩ := exists_reachable (randomStep (promptly 4)) 10
    (.start twoInstances) (fun random => random.pc = .done) (by decide +kernel)
  obtain ⟨_, _, _, _, _, _, ended⟩ :=
    thread_accounts (fun id _ => instanceThreads_positive id) (by decide) reached
  exact ⟨random, reached, done, (ended done).2⟩

/-! ### Waiting -/

/-- While every instance fits on its own, the fill loop starts the first one it considers. -/
def Busy : Random → Prop
  | ⟨.fill runnablea, state⟩ => state.appStatfileList = [] →
      runnablea = state.runnable ∧ state.runnable ≠ []
  | ⟨.wait, state⟩ => state.appStatfileList ≠ []
  | _ => True

theorem Balanced.groupthreads_eq_zero (balanced : Balanced batch ids jobs state)
    (empty : jobs = []) : state.groupthreads = 0 := by
  rw [balanced.threads, empty]
  rfl

theorem RandomAdvance.busy {random random' : Random} (sized : Sized batch ids)
    (fit : ∀ id ∈ ids, ∀ threads, batch.threads id = .ok threads → threads ≤ batch.totalthreads)
    (holds : RandomInv batch ids random) (advance : RandomAdvance batch ids random random')
    (busy : Busy random) : Busy random' := by
  obtain ⟨balanced, pcOk⟩ := holds
  have known : ∀ id ∈ random.globals.runnable, id ∈ ids := fun id member =>
    balanced.launched.subset (List.mem_append_right _ member)
  cases advance with
  | @enter state nonempty =>
    intro empty
    refine ⟨rfl, fun none => nonempty ?_⟩
    rw [List.eq_nil_iff_forall_not_mem]
    intro id member
    have listed := (balanced.keys id).mp (AList.mem_keys.mpr member)
    simp [none, empty] at listed
  | finish _ => trivial
  | @pick state next runnablea appid appthreads _ member threads picked =>
    intro empty
    cases picked with
    | starts _ _ _ list =>
      rw [list] at empty
      simp at empty
    | waits full aged =>
      rw [aged.list] at empty
      have unused : state.groupthreads = 0 := balanced.groupthreads_eq_zero empty
      have := fit appid (known appid (pcOk.2 appid member)) appthreads threads
      omega
  | @leave state runnablea filled =>
    intro empty
    obtain ⟨rfl, nonempty⟩ := busy empty
    have unused : state.groupthreads = 0 := balanced.groupthreads_eq_zero empty
    obtain ⟨id, rest, first⟩ := List.exists_cons_of_ne_nil nonempty
    have enlisted : id ∈ ids := known id (by simp [first])
    obtain ⟨threads, read, positive⟩ := sized id enlisted
    have := fit id enlisted threads read
    have := filled nonempty
    omega
  | retire _ _ _ => trivial
  | sleep swept =>
    show _ ≠ []
    rw [swept.list, List.diff_nil]
    exact busy
  | stay => trivial

/-! ### A run in which every process ends at once -/

theorem ensures_fill_ready {pids : List Nat} {runnablea : List Text}
    (prompt : batch.schedule = endsAtOnce pids) (ready : Ready state) :
    Ensures (fill batch runnablea) state (fun _ next => Ready next) fun _ => True := by
  simp only [fill, prompt, ensures_bind]
  refine (ensures_observe_prompt ready).imp fun instant seen outcome => ?_
  obtain ⟨first, _⟩ := outcome
  split
  · exact (ensures_throw ..).mpr trivial
  · simp only [removeRunnable, launch, ensures_bind, ensures_liftExcept, ensures_get, ensures_ite,
      ensures_modify, ensures_throw, ensures_pure, implies_true, and_true]
    rename_i appid _
    intro appthreads _
    refine ⟨fun _ _ => ?_, fun _ => first.ready⟩
    have before : Ready { seen with
      runnable := seen.runnable.erase appid, groupthreads := seen.groupthreads + appthreads } :=
      first.ready
    refine (ensures_observe_prompt before).imp fun instant' last outcome => ?_
    obtain ⟨second, _⟩ := outcome
    split
    · exact (ensures_throw ..).mpr trivial
    · simp only [ensures_bind, ensures_modify, ensures_pure]
      exact second.ready.append appid rfl

/-- A round of the wait loop then retires every job. -/
theorem ensures_waitRound_prompt {pids : List Nat} (prompt : batch.schedule = endsAtOnce pids)
    (ready : Ready state) (nodup : state.appStatfileList.Nodup)
    (started : ∀ job ∈ state.appStatfileList, job.status < state.procs.length ∧ job.status ∈ pids) :
    Ensures (waitRound batch) state (fun _ next => Ready next ∧
      (state.appStatfileList ≠ [] → next.appStatfileList = [])) fun _ => True := by
  simp only [waitRound, ensures_bind, ensures_get]
  refine (ensures_foldlM (fun rest found current =>
    (found.2 ++ rest = state.appStatfileList ∧ (found.1 = true ↔ found.2 ≠ [])) ∧
    Ready current ∧ current.procs.length = state.procs.length ∧
    current.appStatfileList = state.appStatfileList) ?_ _ _ _
    ⟨⟨rfl, by simp⟩, ready, rfl, rfl⟩).imp ?_
  · rintro app rest found current ⟨⟨split, flag⟩, readyNow, length, list⟩
    have member : app ∈ state.appStatfileList := by simp [← split]
    obtain ⟨known, inside⟩ := started app member
    simp only [sweepJob, prompt, ensures_bind]
    refine (ensures_poll_prompt readyNow (length ▸ known)).imp ?_
    rintro status seen ⟨next, zero⟩
    simp only [popRunnableMap, close, ensures_bind, ensures_get, ensures_ite, ensures_modify,
      ensures_throw, ensures_pure, implies_true, and_true]
    refine ⟨fun _ _ => ⟨⟨by simp [← split], by simp⟩, next.ready,
      next.aged.length.trans length, ?_⟩,
      fun nonzero => absurd (zero inside) nonzero⟩
    exact next.aged.list.trans list
  · rintro ⟨flag, removed⟩ last ⟨⟨split, flagged⟩, readyLast, length, list⟩
    rw [List.append_nil] at split
    simp only [ensures_ite, ensures_bind, ensures_pure] at *
    refine ⟨fun left => ?_, fun stay => ?_⟩
    · refine (ensures_removeJobs nodup (split ▸ List.Sublist.refl _) list).mono ?_
        fun _ _ => trivial
      rintro _ _ rfl
      refine ⟨readyLast, fun _ => ?_⟩
      rw [split, List.eq_nil_iff_forall_not_mem]
      intro job member
      obtain ⟨listed, unremoved⟩ := (List.Nodup.mem_sdiff_iff nodup).mp member
      exact unremoved listed
    · rw [prompt]
      refine (ensures_observe_prompt readyLast).imp fun _ next outcome => ?_
      obtain ⟨slept, _⟩ := outcome
      refine ⟨slept.ready, fun nonempty => ?_⟩
      exact absurd (flagged.mpr (split ▸ nonempty)) stay

/-- The invariant of such a run, with an instance that does not fit. -/
structure Stuck (batch : Batch) (ids : List Text) (big : Text) (random : Random) : Prop where
  holds : RandomInv batch ids random
  ready : Ready random.globals
  waiting : big ∈ random.globals.runnable

theorem Stuck.started {big : Text} {random : Random} (stuck : Stuck batch ids big random) :
    ∀ job ∈ random.globals.appStatfileList, job.status < random.globals.procs.length ∧
      job.status ∈ List.range ids.length := by
  intro job member
  have known := stuck.holds.1.started job member
  have total := stuck.holds.1.launched.length_eq
  rw [List.length_append, List.length_map] at total
  exact ⟨known, List.mem_range.mpr (by omega)⟩

section Run

variable {big : Text} {bigthreads : Int} (sized : Sized batch ids)
  (prompt : batch.schedule = endsAtOnce (List.range ids.length))
  (bigger : batch.threads big = .ok bigthreads) (tooBig : batch.totalthreads < bigthreads)

include sized prompt bigger tooBig

/-- Each step keeps the instance that does not fit among the runnable ones, and a round of the
wait loop empties a list that is not empty. -/
theorem Stuck.step {random : Random} (stuck : Stuck batch ids big random) :
    ∃ next, randomStep batch random = .ok next ∧ RandomAdvance batch ids random next ∧
      Stuck batch ids big next ∧ (random.pc = .wait → random.globals.appStatfileList ≠ [] →
        next.globals.appStatfileList = []) := by
  obtain ⟨next, stepped, holds, advance⟩ := randomStep_spec sized stuck.holds
  have waiting : big ∈ next.globals.runnable := by
    cases advance with
    | @pick state _ _ appid _ _ _ threads picked =>
      cases picked with
      | starts _ fits runnable _ =>
        have nonneg : 0 ≤ state.groupthreads := stuck.holds.1.groupthreads_nonneg
        have different : big ≠ appid := by
          rintro rfl
          rw [bigger] at threads
          cases threads
          omega
        rw [runnable]
        exact (List.mem_erase_of_ne different).mpr stuck.waiting
      | waits _ aged =>
        rw [aged.runnable]
        exact stuck.waiting
    | retire _ _ swept =>
      rw [swept.runnable]
      exact stuck.waiting
    | sleep swept =>
      rw [swept.runnable]
      exact stuck.waiting
    | _ => exact stuck.waiting
  have rest : Ready next.globals ∧ (random.pc = .wait → random.globals.appStatfileList ≠ [] →
      next.globals.appStatfileList = []) := by
    obtain ⟨pc, state⟩ := random
    cases pc with
    | outer =>
      refine ⟨?_, fun impossible => by cases impossible⟩
      cases advance <;> exact stuck.ready
    | fill runnablea =>
      refine ⟨?_, fun impossible => by cases impossible⟩
      simp only [randomStep] at stepped
      split at stepped
      · obtain ⟨⟨rest, globals⟩, ran, result⟩ := bind_eq_ok_iff.mp stepped
        cases result
        exact (ensures_fill_ready prompt stuck.ready).of_run ran
      · cases stepped
        exact stuck.ready
    | wait =>
      obtain ⟨⟨flag, globals⟩, ran, result⟩ := bind_eq_ok_iff.mp stepped
      cases result
      obtain ⟨ready, emptied⟩ := (ensures_waitRound_prompt prompt stuck.ready
        stuck.holds.1.jobs_nodup stuck.started).of_run ran
      exact ⟨ready, fun _ => emptied⟩
    | done =>
      cases stepped
      exact ⟨stuck.ready, fun impossible => by cases impossible⟩
  exact ⟨next, stepped, advance, ⟨holds, rest.1, waiting⟩, rest.2⟩

/-- The fill loop ends, with an empty list or with fewer runnable instances. -/
theorem Stuck.fill_ends {runnablea : List Text}
    (stuck : Stuck batch ids big ⟨.fill runnablea, state⟩) :
    ∃ last, Reachable (randomStep batch) ⟨.fill runnablea, state⟩ ⟨.wait, last⟩ ∧
      Stuck batch ids big ⟨.wait, last⟩ ∧ last.runnable.length ≤ state.runnable.length ∧
      (last.appStatfileList = state.appStatfileList ∨
        last.runnable.length < state.runnable.length) := by
  induction length : runnablea.length generalizing runnablea state with
  | zero =>
    obtain ⟨next, stepped, advance, stuckNext, _⟩ := stuck.step sized prompt bigger tooBig
    cases advance with
    | pick _ member _ _ =>
      rw [List.eq_nil_of_length_eq_zero length] at member
      cases member
    | leave _ => exact ⟨state, Reachable.refl.next stepped, stuckNext, le_rfl, Or.inl rfl⟩
  | succ size inductionHypothesis =>
    obtain ⟨next, stepped, advance, stuckNext, _⟩ := stuck.step sized prompt bigger tooBig
    cases advance with
    | @pick _ next _ appid appthreads _ member _ picked =>
      have shorter : (runnablea.erase appid).length = size := by
        rw [List.length_erase_of_mem member]
        omega
      obtain ⟨last, reached, stuckLast, fewer, changed⟩ := inductionHypothesis stuckNext shorter
      have first : Reachable (randomStep batch) ⟨.fill runnablea, state⟩
          ⟨.fill (runnablea.erase appid), next⟩ := Reachable.refl.next stepped
      refine ⟨last, first.trans reached, stuckLast, ?_⟩
      cases picked with
      | starts _ _ runnable _ =>
        have erased : (state.runnable.erase appid).length < state.runnable.length := by
          have runnableBefore := stuck.holds.2.2 appid member
          have positive := List.length_pos_of_mem runnableBefore
          rw [List.length_erase_of_mem runnableBefore]
          omega
        rw [runnable] at fewer changed
        exact ⟨by omega, Or.inr (by omega)⟩
      | waits _ aged =>
        rw [aged.runnable] at fewer changed
        rw [aged.list] at changed
        exact ⟨fewer, changed⟩
    | leave _ => exact ⟨state, Reachable.refl.next stepped, stuckNext, le_rfl, Or.inl rfl⟩

/-- From the outer loop with an empty list, the wait loop is entered with an empty list. -/
theorem Stuck.waits_for_nothing (stuck : Stuck batch ids big ⟨.outer, state⟩)
    (empty : state.appStatfileList = []) :
    ∃ last, Reachable (randomStep batch) ⟨.outer, state⟩ ⟨.wait, last⟩ ∧
      last.appStatfileList = [] := by
  induction length : state.runnable.length using Nat.strong_induction_on generalizing state with
  | _ size inductionHypothesis =>
    obtain ⟨next, stepped, advance, stuckNext, _⟩ := stuck.step sized prompt bigger tooBig
    cases advance with
    | finish none =>
      have mapped := (stuck.holds.1.keys big).mpr (Or.inl stuck.waiting)
      rw [AList.mem_keys, none] at mapped
      cases mapped
    | enter _ =>
      obtain ⟨filled, reached, stuckFilled, _, changed⟩ :=
        stuckNext.fill_ends sized prompt bigger tooBig
      have before := (Reachable.refl.next stepped).trans reached
      by_cases none : filled.appStatfileList = []
      · exact ⟨filled, before, none⟩
      · obtain ⟨after, stepped', advance', stuckAfter, emptied⟩ :=
          stuckFilled.step sized prompt bigger tooBig
        have cleared := emptied rfl none
        cases advance' with
        | @retire _ next _ _ _ swept =>
          have fewer : next.runnable.length < size := by
            rw [swept.runnable, ← length]
            exact changed.resolve_left fun same => none (same.trans empty)
          obtain ⟨last, later, result⟩ := inductionHypothesis _ fewer stuckAfter cleared rfl
          exact ⟨last, (before.next stepped').trans later, result⟩
        | sleep swept =>
          rw [swept.list, List.diff_nil] at cleared
          exact absurd cleared none

end Run

/-- The wait loop always has a process to wait for exactly when every instance fits into
`totalthreads` on its own. -/
theorem never_waits_for_nothing_iff {runnableMap : AList fun _ : Text => Text}
    {threads : Text → Except PyError Int} {totalthreads : Int}
    (sized : ∀ id ∈ runnableMap, ∃ count, threads id = .ok count ∧ 0 < count) :
    (∀ schedule random,
      Reachable (randomStep ⟨totalthreads, threads, schedule⟩) (.start runnableMap) random →
      random.pc = .wait → random.globals.appStatfileList ≠ []) ↔
    ∀ id ∈ runnableMap, ∀ count, threads id = .ok count → count ≤ totalthreads := by
  constructor
  · intro busy big member count read
    by_contra tooBig
    let batch : Batch := ⟨totalthreads, threads, endsAtOnce (List.range runnableMap.keys.length)⟩
    have stuck : Stuck batch runnableMap.keys big (.start runnableMap) :=
      ⟨randomInv_start batch runnableMap, fun _ impossible => absurd impossible List.not_mem_nil,
        AList.mem_keys.mp member⟩
    obtain ⟨last, reached, empty⟩ := stuck.waits_for_nothing
      (fun id known => sized id (AList.mem_keys.mpr known)) rfl read (Int.not_le.mp tooBig) rfl
    exact busy _ _ reached rfl empty
  · intro fit schedule random reached waiting
    have sizedKeys : Sized ⟨totalthreads, threads, schedule⟩ runnableMap.keys :=
      fun id known => sized id (AList.mem_keys.mpr known)
    have busy : Busy random := by
      refine (reached.invariant (fun random => RandomInv ⟨totalthreads, threads, schedule⟩
        runnableMap.keys random ∧ Busy random) ⟨randomInv_start _ _, trivial⟩ ?_).2
      rintro state next ⟨holds, busy⟩ stepped
      obtain ⟨next', stepped', holds', advance⟩ := randomStep_spec sizedKeys holds
      rw [stepped] at stepped'
      cases stepped'
      exact ⟨holds', advance.busy sizedKeys
        (fun id known => fit id (AList.mem_keys.mpr known)) holds busy⟩
    obtain ⟨pc, state⟩ := random
    cases waiting
    exact busy

/-- With `MAXTHREADS` 2 the instance with four threads is never started. -/
theorem big_instance_waits_forever :
    totalthreadsOf (some 2) none 1 0 = some 2 ∧
      ∃ random, Reachable (randomStep (promptly 2)) (.start twoInstances) random ∧
        random.pc = .wait ∧ random.globals.appStatfileList = [] := by
  refine ⟨by decide +kernel, ?_⟩
  exact exists_reachable (randomStep (promptly 2)) 7 (.start twoInstances)
    (fun random => random.pc = .wait ∧ random.globals.appStatfileList = []) (by decide +kernel)

/-- With four threads both instances fit. -/
theorem never_waits_for_nothing_sample :
    instanceThreads "b".toList = .ok 4 ∧ ∀ schedule random,
      Reachable (randomStep ⟨4, instanceThreads, schedule⟩) (.start twoInstances) random →
      random.pc = .wait → random.globals.appStatfileList ≠ [] := by
  refine ⟨by decide, (never_waits_for_nothing_iff fun id _ => instanceThreads_positive id).mpr ?_⟩
  intro id _ count read
  rw [← Except.ok.inj read]
  split <;> decide

end ClusterJobs.Parallel
