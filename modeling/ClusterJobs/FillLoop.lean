/-
This file verifies the fill loop of the random mode of `bin/parallel` as a whole.

The loop draws instances from a copy of `runnable` in any order, starts those that fit and passes
over the others. An instance it passed over is not drawn again, and it need not be: threads are only
taken while the loop runs, so what did not fit once does not fit later. The list may hold an
instance several times, so the copy and the list are compared by how often each instance occurs.
-/

import ClusterJobs.RandomMode

namespace ClusterJobs.Parallel

open Python

variable {batch : Batch} {start state next : Globals Job} {runnablea launched : List Text}
  {appid : Text} {appthreads : Int}

/-- The instance has more threads than are left. -/
def TooBig (batch : Batch) (state : Globals Job) (appid : Text) : Prop :=
  ∃ appthreads, batch.threads appid = .ok appthreads ∧
    batch.totalthreads < state.groupthreads + appthreads

/-- The fill loop in between: what it has launched is no longer runnable, and what is runnable is
still in the copy or has been found too big. -/
structure Filling (batch : Batch) (start state : Globals Job) (runnablea launched : List Text) :
    Prop where
  bounded : state.groupthreads ≤ batch.totalthreads
  mapped : state.runnableMap = start.runnableMap
  procs : state.procs.map Child.appid = start.procs.map Child.appid ++ launched
  jobs : state.appStatfileList.map Job.appid = start.appStatfileList.map Job.appid ++ launched
  launched : (launched ++ state.runnable).Perm start.runnable
  copied : ∀ appid, runnablea.count appid ≤ state.runnable.count appid
  passed : ∀ appid, runnablea.count appid = state.runnable.count appid ∨ TooBig batch state appid

theorem filling_start (bounded : start.groupthreads ≤ batch.totalthreads) :
    Filling batch start start start.runnable [] :=
  ⟨bounded, rfl, (List.append_nil _).symm, (List.append_nil _).symm, List.Perm.refl _,
    fun _ => le_rfl, fun _ => Or.inl rfl⟩

theorem Filling.runnable (filling : Filling batch start state runnablea launched)
    (member : appid ∈ runnablea) : appid ∈ state.runnable :=
  List.count_pos_iff.mp ((List.count_pos_iff.mpr member).trans_le (filling.copied appid))

theorem Filling.known (filling : Filling batch start state runnablea launched)
    (member : appid ∈ state.runnable) : appid ∈ start.runnable :=
  filling.launched.subset (List.mem_append_right _ member)

/-- An instance that fits is started. It fits, so no occurrence of it has been passed over. -/
theorem Filling.starts (filling : Filling batch start state runnablea launched)
    (member : appid ∈ runnablea) (positive : 0 < appthreads) {running : Running}
    (fits : state.groupthreads + appthreads ≤ batch.totalthreads)
    (mapped : next.runnableMap = state.runnableMap)
    (removed : next.runnable = state.runnable.erase appid)
    (taken : next.groupthreads = state.groupthreads + appthreads)
    (procs : next.procs.map Child.appid = state.procs.map Child.appid ++ [appid])
    (list : next.appStatfileList = state.appStatfileList ++ [⟨running, appid, appthreads⟩]) :
    Filling batch start next (runnablea.erase appid) (launched ++ [appid]) := by
  have runnable := filling.runnable member
  refine ⟨taken ▸ fits, mapped.trans filling.mapped, ?_, ?_, ?_, fun other => ?_, fun other => ?_⟩
  · rw [procs, filling.procs, List.append_assoc]
  · rw [list, List.map_append, filling.jobs, List.append_assoc]
    rfl
  · rw [removed, List.append_assoc]
    exact ((List.perm_cons_erase runnable).symm.append_left _).trans filling.launched
  · rw [removed, List.count_erase, List.count_erase]
    exact Nat.sub_le_sub_right (filling.copied other) _
  · rw [removed, List.count_erase, List.count_erase]
    rcases filling.passed other with same | ⟨otherthreads, read, tooBig⟩
    · exact Or.inl (by rw [same])
    · exact Or.inr ⟨otherthreads, read, by rw [taken]; omega⟩

/-- An instance that does not fit is passed over. -/
theorem Filling.waits (filling : Filling batch start state runnablea launched)
    (threads : batch.threads appid = .ok appthreads)
    (full : batch.totalthreads < state.groupthreads + appthreads) (aged : Aged state next) :
    Filling batch start next (runnablea.erase appid) launched := by
  refine ⟨?_, aged.runnableMap.trans filling.mapped, aged.appids.trans filling.procs, ?_, ?_,
    fun other => ?_, fun other => ?_⟩
  · rw [aged.groupthreads]
    exact filling.bounded
  · rw [aged.list]
    exact filling.jobs
  · rw [aged.runnable]
    exact filling.launched
  · rw [aged.runnable]
    exact (List.erase_sublist.count_le other).trans (filling.copied other)
  · rw [aged.runnable]
    by_cases same : other = appid
    · subst same
      exact Or.inr ⟨appthreads, threads, by rwa [aged.groupthreads]⟩
    · rw [List.count_erase_of_ne same]
      refine (filling.passed other).imp_right fun ⟨otherthreads, read, tooBig⟩ => ?_
      exact ⟨otherthreads, read, by rwa [aged.groupthreads]⟩

theorem Filling.draw (filling : Filling batch start state runnablea launched)
    (sized : Sized batch start.runnable) (member : appid ∈ runnablea)
    (threads : batch.threads appid = .ok appthreads)
    (drawn : Drawn batch state appid appthreads next) :
    ∃ launched', Filling batch start next (runnablea.erase appid) launched' := by
  cases drawn with
  | starts running fits _ mapped removed taken procs list =>
    obtain ⟨_, threads', positive⟩ := sized appid (filling.known (filling.runnable member))
    rw [threads] at threads'
    cases threads'
    exact ⟨_, filling.starts member positive fits mapped removed taken procs list⟩
  | waits full aged => exact ⟨_, filling.waits threads full aged⟩

/-- When the loop is left nothing fits: the copy is empty, so that everything runnable was passed
over, or all threads are taken. -/
theorem Filling.nothing_fits (filling : Filling batch start state runnablea launched)
    (sized : Sized batch start.runnable)
    (left : ¬ (runnablea.length > 0 ∧ state.groupthreads < batch.totalthreads))
    (member : appid ∈ state.runnable) : TooBig batch state appid := by
  obtain ⟨appthreads, threads, positive⟩ := sized appid (filling.known member)
  by_cases full : state.groupthreads < batch.totalthreads
  · have none : runnablea = [] := by
      by_contra some
      exact left ⟨List.length_pos_iff.mpr some, full⟩
    refine (filling.passed appid).resolve_left fun same => ?_
    rw [none, List.count_nil] at same
    exact List.count_pos_iff.mpr member |>.ne same
  · exact ⟨appthreads, threads, by omega⟩

/-- The run of the fill loop: each round shortens the copy by one. -/
theorem Filling.ends (filling : Filling batch start state runnablea launched)
    (sized : Sized batch start.runnable)
    (mapped : ∀ appid ∈ start.runnable, appid ∈ start.runnableMap) {before : Random}
    (run : Passes (randomStep batch) (fun random => random.pc = .wait) before 0
      ⟨.fill runnablea, state⟩) :
    ∃ last launched', Passes (randomStep batch) (fun random => random.pc = .wait) before 0
      ⟨.wait, last⟩ ∧ ∃ runnablea', Filling batch start last runnablea' launched' ∧
        ¬ (runnablea'.length > 0 ∧ last.groupthreads < batch.totalthreads) := by
  induction length : runnablea.length generalizing runnablea state launched with
  | zero =>
    have left : ¬ (runnablea.length > 0 ∧ state.groupthreads < batch.totalthreads) := by omega
    refine ⟨state, launched, run.next (by simp) ?_, runnablea, filling, left⟩
    simp only [randomStep, if_neg left]
  | succ size inductionHypothesis =>
    by_cases goesOn : runnablea.length > 0 ∧ state.groupthreads < batch.totalthreads
    · have known : ∀ id ∈ runnablea, id ∈ start.runnable := fun id member =>
        filling.known (filling.runnable member)
      have read : ∀ id ∈ runnablea, ∃ appthreads, batch.threads id = .ok appthreads :=
        fun id member => (sized id (known id member)).imp fun _ holds => holds.1
      obtain ⟨_, next, ran, appid, member, appthreads, threads, rfl, drawn⟩ :=
        (ensures_fill_drawn goesOn.1 (fun id member => filling.runnable member)
          (fun id member => filling.mapped ▸ mapped id (known id member)) read).returns
      obtain ⟨launched', fillingNext⟩ := filling.draw sized member threads drawn
      have stepped : randomStep batch ⟨.fill runnablea, state⟩ =
          .ok ⟨.fill (runnablea.erase appid), next⟩ := by
        simp only [randomStep, if_pos goesOn]
        rw [ran]
        rfl
      refine inductionHypothesis fillingNext (run.next (by simp) stepped) ?_
      rw [List.length_erase_of_mem member, length]
      rfl
    · refine ⟨state, launched, run.next (by simp) ?_, runnablea, filling, goesOn⟩
      simp only [randomStep, if_neg goesOn]

/-- For every schedule, and with it every sequence of choices, the fill loop ends. It launches
exactly the instances it takes out of `runnable`, never takes more threads than there are, and
leaves no instance that would fit. -/
theorem fill_loop_work_conserving (sized : Sized batch start.runnable)
    (mapped : ∀ appid ∈ start.runnable, appid ∈ start.runnableMap)
    (bounded : start.groupthreads ≤ batch.totalthreads) :
    ∃ last launched,
      Passes (randomStep batch) (fun random => random.pc = .wait) ⟨.fill start.runnable, start⟩ 0
        ⟨.wait, last⟩ ∧
      last.groupthreads ≤ batch.totalthreads ∧
      last.procs.map Child.appid = start.procs.map Child.appid ++ launched ∧
      last.appStatfileList.map Job.appid = start.appStatfileList.map Job.appid ++ launched ∧
      (launched ++ last.runnable).Perm start.runnable ∧
      ∀ appid ∈ last.runnable, ∀ appthreads, batch.threads appid = .ok appthreads →
        batch.totalthreads < last.groupthreads + appthreads := by
  obtain ⟨last, launched, run, runnablea, filling, left⟩ :=
    (filling_start bounded).ends sized mapped .refl
  refine ⟨last, launched, run, filling.bounded, filling.procs, filling.jobs, filling.launched, ?_⟩
  intro appid member appthreads threads
  obtain ⟨_, threads', tooBig⟩ := filling.nothing_fits sized left member
  rw [threads] at threads'
  cases threads'
  exact tooBig

/-- Two instances of which one fits into three threads, before the loop is entered. -/
def twoRunnable : Globals Job := .start twoInstances

/-- One of the two is left. -/
theorem fill_loop_work_conserving_sample :
    ∃ last launched,
      Passes (randomStep (promptly 3)) (fun random => random.pc = .wait)
        ⟨.fill twoRunnable.runnable, twoRunnable⟩ 0 ⟨.wait, last⟩ ∧
      last.groupthreads ≤ 3 ∧ (launched ++ last.runnable).Perm twoInstances.keys := by
  have sized : Sized (promptly 3) twoRunnable.runnable := fun id _ => instanceThreads_positive id
  obtain ⟨last, launched, run, bounded, _, _, perm, _⟩ :=
    fill_loop_work_conserving sized (fun _ member => AList.mem_keys.mpr member) (by decide)
  exact ⟨last, launched, run, bounded, perm⟩

end ClusterJobs.Parallel
