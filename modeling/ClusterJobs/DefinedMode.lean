/-
This file verifies the defined mode of `bin/parallel`, which runs one group of apps after the
other and is meant to keep the groups apart.

`group_exec_completed` takes the entries it finds ended off the very list it iterates over, so a
call looks at every second entry only, and answers `True` when those have ended. Groups of at
most one app are kept apart in every run. A group of two is not: when its first process has
ended, the group counts as completed, and the second process runs on into the next group, which
begins while its stat file is open.
-/

import ClusterJobs.Parallel
import ClusterJobs.Sweep
import Mathlib.Data.List.TakeWhile

namespace ClusterJobs.Parallel

open Python

variable {schedule : Nat → Instant} {runnableMap : AList fun _ : Text => Text}
  {state next : Globals Running} {raised : PyError → Prop}

/-! ### Keeping groups apart -/

/-- Every process started so far has ended. -/
def AllEnded (state : Globals Running) : Prop :=
  ∀ child ∈ state.procs, child.phase.exitStatus.isSome

/-- Every stat file opened so far has been closed. -/
def AllClosed (state : Globals Running) : Prop := ∀ file ∈ state.statfiles, file.closed = true

/-- In every run `group_exec_completed` answers `True` only when the processes have ended, and
when a further group begins the processes before it have ended and their stat files are
closed. -/
structure Isolated (runnableMap : AList fun _ : Text => Text) (groups : List (Text × List Text)) :
    Prop where
  completed : ∀ schedule defined next,
    Reachable (definedStep schedule) (.start runnableMap groups) defined → defined.pc = .wait →
    (groupExecCompleted schedule).run defined.globals = .ok (true, next) → AllEnded next
  separate : ∀ schedule defined,
    Reachable (definedStep schedule) (.start runnableMap groups) defined → defined.pc = .next →
    defined.groups ≠ [] → AllEnded defined.globals ∧ AllClosed defined.globals

/-- The groups before the first one that names an app `runnable_map` does not have; that one
ends the program. -/
def startable (runnableMap : AList fun _ : Text => Text) (groups : List (Text × List Text)) :
    List (Text × List Text) :=
  groups.takeWhile fun group => group.2.all fun appid => appid ∈ runnableMap

theorem allEnded_iff (state : Globals Running) :
    AllEnded state ↔ ∀ pid < state.procs.length, (state.exitStatus pid).isSome := by
  constructor
  · intro ended pid known
    have found := List.getElem?_eq_getElem known
    rw [Globals.exitStatus, Globals.phase, found]
    exact ended _ (List.getElem_mem known)
  · intro ended child member
    obtain ⟨pid, found⟩ := List.getElem?_of_mem member
    have exited := ended pid (List.getElem?_eq_some_iff.mp found).1
    rwa [Globals.exitStatus, Globals.phase, found] at exited

theorem AllEnded.not_running (ended : AllEnded state) (pid : Nat) :
    state.phase pid ≠ some .running := by
  intro running
  obtain ⟨child, found, phase⟩ := Option.map_eq_some_iff.mp running
  have exited := ended child (List.mem_of_getElem? found)
  rw [phase] at exited
  cases exited

theorem startable_mapped {groups : List (Text × List Text)} {group : Text × List Text}
    (started : group ∈ startable runnableMap groups) :
    ∀ appid ∈ group.2, appid ∈ runnableMap := by
  intro appid inside
  have all := List.mem_takeWhile_imp started
  exact of_decide_eq_true (List.all_eq_true.mp all appid inside)

/-! ### What the calls do -/

/-- The state with one more app started and listed. -/
def Globals.enlist (state : Globals Running) (appid : Text) (file : StatFile) : Globals Running :=
  { state with
    procs := state.procs ++ [⟨appid, .running⟩]
    statfiles := state.statfiles ++ [file]
    appStatfileList := state.appStatfileList ++ [⟨state.procs.length, state.statfiles.length⟩] }

/-- The state with the stat file of an entry closed and the entry taken off the list. -/
def Globals.delist (state : Globals Running) (app : Running) : Globals Running :=
  { state with
    statfiles := state.statfiles.modify app.statfile fun file => { file with closed := true }
    appStatfileList := state.appStatfileList.erase app }

/-- An app that `runnable_map` has is started and listed, after whatever happens before the call;
any other ends the program. -/
theorem ensures_startApp (post : Globals Running → Prop) {groupid timestamp appid : Text}
    (observed : Ensures (observe schedule) state (fun _ seen => post seen) fun _ => False) :
    Ensures (startApp schedule groupid timestamp appid) state (fun _ next =>
      appid ∈ state.runnableMap ∧ ∃ seen file, post seen ∧ Aged state seen ∧
        next = seen.enlist appid file)
      fun _ => appid ∉ state.runnableMap := by
  simp only [startApp, launch, ensures_bind, ensures_get]
  have ages : Ensures (observe schedule) state (fun _ seen => Aged state seen) fun _ => False :=
    ensures_observe
  refine (observed.and ages).mono ?_ fun _ impossible => impossible.1.elim
  rintro _ seen ⟨holds, aged⟩
  have mapped : (seen.runnableMap.lookup appid).isSome ↔ appid ∈ state.runnableMap := by
    rw [← aged.runnableMap]
    exact AList.lookup_isSome
  cases found : seen.runnableMap.lookup appid with
  | none =>
    rw [found] at mapped
    exact fun member => by cases mapped.mpr member
  | some command =>
    rw [found] at mapped
    simp only [ensures_bind, ensures_modify, ensures_pure]
    exact ⟨mapped.mp rfl, seen, _, holds, aged, rfl⟩

/-- The rule for starting a group: the invariant speaks of the apps still to be started. -/
theorem ensures_startGroup (inv : List Text → Globals Running → Prop) {groupid : Text}
    {apps : List Text}
    (first : Ensures (observe schedule) { state with appStatfileList := [] }
      (fun _ seen => inv apps seen) raised)
    (round : ∀ timestamp appid rest current, inv (appid :: rest) current →
      Ensures (startApp schedule groupid timestamp appid) current (fun _ next => inv rest next)
        raised) :
    Ensures (startGroup schedule groupid apps) state (fun _ next => inv [] next) raised := by
  simp only [startGroup, ensures_bind, ensures_modify]
  refine first.imp fun instant seen holds => ?_
  exact ensures_forM inv (round instant.timestamp) apps seen holds

/-- An entry whose process has ended with status 0 is taken off the list, and any other ends the
loop. -/
theorem ensures_completedEntry (post : Option Int → Globals Running → Prop) {app : Running}
    (completed : Bool) (polled : Ensures (poll schedule app.status) state post raised) :
    Ensures (completedEntry schedule app completed) state (fun step next => ∃ status seen,
      post status seen ∧ (status = some 0 ∧ step = .yield true ∧ next = seen.delist app ∨
        status ≠ some 0 ∧ step = .done false ∧ next = seen)) raised := by
  simp only [completedEntry, close, ensures_bind]
  refine polled.imp fun status seen holds => ?_
  simp only [ensures_ite, ensures_bind, ensures_modify, ensures_pure]
  refine ⟨fun zero => ?_, fun nonzero => ?_⟩
  · exact ⟨status, seen, holds, Or.inl ⟨zero, trivial, rfl⟩⟩
  · exact ⟨status, seen, holds, Or.inr ⟨nonzero, trivial, rfl⟩⟩

/-! ### Groups of one app -/

/-- What is not on the list is over: its process has ended and its stat file is closed. -/
structure Settled (state : Globals Running) : Prop where
  ended : ∀ pid < state.procs.length,
    (state.exitStatus pid).isSome ∨ ∃ app ∈ state.appStatfileList, app.status = pid
  closed : ∀ number file, state.statfiles[number]? = some file →
    file.closed = true ∨ ∃ app ∈ state.appStatfileList, app.statfile = number

theorem Settled.aged (settled : Settled state) (aged : Aged state next) : Settled next where
  ended pid known := by
    rw [aged.list]
    refine (settled.ended pid (aged.length ▸ known)).imp_left fun exited => ?_
    obtain ⟨status, exited⟩ := Option.isSome_iff_exists.mp exited
    rw [aged.exited pid status exited]
    rfl
  closed number file found := by
    rw [aged.list]
    exact settled.closed number file (aged.statfiles ▸ found)

theorem Settled.allEnded (settled : Settled state) (none : state.appStatfileList = []) :
    AllEnded state := by
  refine (allEnded_iff state).mpr fun pid known => (settled.ended pid known).resolve_right ?_
  simp [none]

theorem Settled.allClosed (settled : Settled state) (none : state.appStatfileList = []) :
    AllClosed state := by
  intro file member
  obtain ⟨number, found⟩ := List.getElem?_of_mem member
  refine (settled.closed number file found).resolve_right ?_
  simp [none]

/-- An ended process whose stat file is closed may leave the list. -/
theorem Settled.retire (settled : Settled state) {app : Running}
    (single : state.appStatfileList = [app]) (ended : (state.exitStatus app.status).isSome) :
    Settled (state.delist app) where
  ended pid known := by
    refine Or.inl ((settled.ended pid known).elim id ?_)
    rintro ⟨other, member, rfl⟩
    rw [single, List.mem_singleton] at member
    rw [member]
    exact ended
  closed number file found := by
    refine Or.inl ?_
    rw [Globals.delist, List.getElem?_modify] at found
    obtain ⟨before, foundBefore, rfl⟩ := Option.map_eq_some_iff.mp found
    split
    · rfl
    · rename_i different
      refine (settled.closed number before foundBefore).resolve_right ?_
      rintro ⟨other, member, same⟩
      rw [single, List.mem_singleton] at member
      exact different (member ▸ same)

/-- For a list of at most one entry the answer of `group_exec_completed` is right. -/
theorem Settled.completes (settled : Settled state) (single : state.appStatfileList.length ≤ 1) :
    Ensures (groupExecCompleted schedule) state (fun completed next => Settled next ∧
      next.runnableMap = state.runnableMap ∧ next.appStatfileList.length ≤ 1 ∧
      (completed = true → next.appStatfileList = [])) fun _ => False := by
  refine ensures_forEach (fun index completed current => Settled current ∧
    current.runnableMap = state.runnableMap ∧
    (index = 0 ∧ current.appStatfileList = state.appStatfileList ∨
      current.appStatfileList = [])) ?_ ?_ ⟨settled, rfl, Or.inl ⟨rfl, rfl⟩⟩
  · rintro index completed app current ⟨settledNow, mapped, ⟨rfl, same⟩ | none⟩ found
    · have alone : current.appStatfileList = [app] := by
        obtain ⟨rest, list⟩ := List.head?_eq_some_iff.mp (List.head?_eq_getElem?.trans found)
        rw [← same, list, List.length_cons] at single
        have empty : rest = [] := List.eq_nil_of_length_eq_zero (by omega)
        rw [list, empty]
      refine (ensures_completedEntry _ completed (ensures_poll app.status)).imp ?_
      rintro step next ⟨status, polled, ⟨aged, _, ended⟩, ⟨zero, rfl, rfl⟩ | ⟨_, rfl, rfl⟩⟩
      · have alonePolled := aged.list.trans alone
        have erased : (polled.delist app).appStatfileList = [] := by
          rw [Globals.delist, alonePolled, List.erase_cons_head]
        refine ⟨⟨?_, aged.runnableMap.trans mapped, Or.inr erased⟩, ?_⟩
        · exact (settledNow.aged aged).retire alonePolled (by rw [ended zero]; rfl)
        · rw [erased]
          exact Nat.zero_le _
      · refine ⟨settledNow.aged aged, aged.runnableMap.trans mapped, ?_, fun impossible => ?_⟩
        · rw [aged.list, same]
          exact single
        · cases impossible
    · rw [none] at found
      cases found
  · rintro index completed current ⟨settledNow, mapped, ⟨rfl, same⟩ | none⟩ found
    · have empty : current.appStatfileList = [] := by
        rw [← List.head?_eq_getElem?, List.head?_eq_none_iff] at found
        exact found
      exact ⟨settledNow, mapped, by rw [empty]; exact Nat.zero_le _, fun _ => empty⟩
    · exact ⟨settledNow, mapped, by rw [none]; exact Nat.zero_le _, fun _ => none⟩

/-- A started app is on the list. -/
theorem Settled.enlist (settled : Settled state) (appid : Text) (file : StatFile) :
    Settled (state.enlist appid file) where
  ended pid known := by
    rw [Globals.enlist, List.length_append, List.length_singleton] at known
    rcases Nat.lt_succ_iff_lt_or_eq.mp known with old | new
    · refine (settled.ended pid old).imp (fun exited => ?_) ?_
      · rw [Globals.exitStatus, Globals.phase, Globals.enlist, List.getElem?_append_left old]
        exact exited
      · rintro ⟨app, member, same⟩
        exact ⟨app, List.mem_append_left _ member, same⟩
    · exact Or.inr ⟨_, List.mem_append_right _ List.mem_cons_self, new.symm⟩
  closed number other opened := by
    rw [Globals.enlist] at opened
    by_cases old : number < state.statfiles.length
    · rw [List.getElem?_append_left old] at opened
      refine (settled.closed number other opened).imp_right ?_
      rintro ⟨app, member, same⟩
      exact ⟨app, List.mem_append_left _ member, same⟩
    · have bound := (List.getElem?_eq_some_iff.mp opened).1
      rw [List.length_append, List.length_singleton] at bound
      refine Or.inr ⟨_, List.mem_append_right _ List.mem_cons_self, ?_⟩
      show state.statfiles.length = number
      omega

theorem Settled.startGroup (settled : Settled state) (none : state.appStatfileList = [])
    (groupid : Text) (apps : List Text) :
    Ensures (startGroup schedule groupid apps) state (fun _ next => Settled next ∧
      (∀ appid ∈ apps, appid ∈ state.runnableMap) ∧ next.runnableMap = state.runnableMap ∧
      next.appStatfileList.length = apps.length) fun _ => True := by
  refine (ensures_startGroup (fun rest current => Settled current ∧
    (∀ appid ∈ apps, appid ∈ rest ∨ appid ∈ state.runnableMap) ∧
    current.runnableMap = state.runnableMap ∧
    current.appStatfileList.length + rest.length = apps.length) ?_ ?_).imp ?_
  · have cleared : { state with appStatfileList := [] } = state := by rw [← none]
    rw [cleared]
    refine ensures_observe.imp fun _ seen aged => ?_
    refine ⟨settled.aged aged, fun _ member => Or.inl member, aged.runnableMap, ?_⟩
    rw [aged.list, none]
    simp
  · rintro timestamp appid rest current ⟨settledNow, known, mapped, length⟩
    refine (ensures_startApp (fun _ => True) (ensures_observe.imp fun _ _ _ => trivial)).mono ?_
      fun _ _ => trivial
    rintro _ _ ⟨present, seen, file, _, aged, rfl⟩
    refine ⟨(settledNow.aged aged).enlist appid file, fun other member => ?_,
      aged.runnableMap.trans mapped, ?_⟩
    · rcases known other member with ahead | mappedOther
      · rcases List.mem_cons.mp ahead with rfl | later
        · exact Or.inr (mapped ▸ present)
        · exact Or.inl later
      · exact Or.inr mappedOther
    · rw [Globals.enlist, List.length_append, aged.list, List.length_singleton]
      rw [List.length_cons] at length
      omega
  · rintro _ last ⟨settledLast, known, mapped, length⟩
    exact ⟨settledLast, fun appid member => (known appid member).resolve_left List.not_mem_nil,
      mapped, by simpa using length⟩

/-- The invariant of a run over groups of at most one app. -/
structure Orderly (runnableMap : AList fun _ : Text => Text) (defined : Defined) : Prop where
  settled : Settled defined.globals
  mapped : defined.globals.runnableMap = runnableMap
  single : defined.globals.appStatfileList.length ≤ 1
  between : defined.pc = .next → defined.globals.appStatfileList = []
  rest : ∀ group ∈ startable runnableMap defined.groups, group.2.length ≤ 1

theorem orderly_start {groups : List (Text × List Text)}
    (small : ∀ group ∈ startable runnableMap groups, group.2.length ≤ 1) :
    Orderly runnableMap (.start runnableMap groups) where
  settled := ⟨fun _ known => absurd known (Nat.not_lt_zero _), fun _ _ found => by cases found⟩
  mapped := rfl
  single := Nat.zero_le _
  between _ := rfl
  rest := small

theorem Orderly.step {defined after : Defined} (orderly : Orderly runnableMap defined)
    (stepped : definedStep schedule defined = .ok after) : Orderly runnableMap after := by
  obtain ⟨pc, groups, state⟩ := defined
  obtain ⟨settled, mapped, single, between, rest⟩ := orderly
  cases pc with
  | next =>
    cases groups with
    | nil =>
      cases stepped
      exact ⟨settled, mapped, single, fun impossible => (by cases impossible), rest⟩
    | cons group groups =>
      obtain ⟨⟨_, globals⟩, ran, result⟩ := bind_eq_ok_iff.mp stepped
      cases result
      obtain ⟨settledNext, known, mappedNext, length⟩ :=
        (settled.startGroup (between rfl) group.1 group.2).of_run ran
      have starts : startable runnableMap (group :: groups) =
          group :: startable runnableMap groups := by
        refine List.takeWhile_cons_of_pos (List.all_eq_true.mpr fun appid member => ?_)
        exact decide_eq_true (mapped ▸ known appid member)
      rw [starts] at rest
      refine ⟨settledNext, mappedNext.trans mapped, ?_, fun impossible => (by cases impossible), ?_⟩
      · rw [length]
        exact rest group List.mem_cons_self
      · exact fun other member => rest other (List.mem_cons_of_mem _ member)
  | wait =>
    obtain ⟨⟨completed, globals⟩, ran, result⟩ := bind_eq_ok_iff.mp stepped
    obtain ⟨settledNext, mappedNext, singleNext, emptied⟩ := (settled.completes single).of_run ran
    cases completed with
    | true =>
      cases result
      exact ⟨settledNext, mappedNext.trans mapped, singleNext, fun _ => emptied rfl, rest⟩
    | false =>
      obtain ⟨⟨_, slept⟩, ran', result'⟩ := bind_eq_ok_iff.mp result
      cases result'
      have sleeps : Ensures (observe schedule) globals (fun _ next => Aged globals next)
          fun _ => False := ensures_observe
      have aged := sleeps.of_run ran'
      refine ⟨settledNext.aged aged, (aged.runnableMap.trans mappedNext).trans mapped, ?_,
        fun impossible => (by cases impossible), rest⟩
      rw [aged.list]
      exact singleNext
  | done =>
    cases stepped
    exact ⟨settled, mapped, single, between, rest⟩

theorem isolated_of_small {groups : List (Text × List Text)}
    (small : ∀ group ∈ startable runnableMap groups, group.2.length ≤ 1) :
    Isolated runnableMap groups := by
  have orderly : ∀ schedule defined,
      Reachable (definedStep schedule) (.start runnableMap groups) defined →
      Orderly runnableMap defined := fun schedule defined reached =>
    reached.invariant (Orderly runnableMap) (orderly_start small) fun _ _ holds stepped =>
      holds.step stepped
  constructor
  · intro schedule defined next reached _ ran
    have holds := orderly schedule defined reached
    obtain ⟨settled, _, _, emptied⟩ := (holds.settled.completes holds.single).of_run ran
    exact settled.allEnded (emptied rfl)
  · intro schedule defined reached between _
    have holds := orderly schedule defined reached
    exact ⟨holds.settled.allEnded (holds.between between),
      holds.settled.allClosed (holds.between between)⟩

/-! ### A run that leaves a group too early -/

/-- When the entries at even positions have ended with status 0, the answer is `True`. -/
theorem ensures_groupExecCompleted (inv : Globals Running → Prop)
    (nodup : state.appStatfileList.Nodup)
    (edited : ∀ current statfiles list, inv current →
      inv { current with statfiles := statfiles, appStatfileList := list })
    (polled : ∀ half app current, state.appStatfileList[2 * half]? = some app → inv current →
      Ensures (poll schedule app.status) current (fun status next => status = some 0 ∧ inv next)
        raised)
    (initial : inv state) :
    Ensures (groupExecCompleted schedule) state (fun completed next => completed = true ∧ inv next)
      raised := by
  refine ensures_halve nodup ?_ ⟨rfl, initial⟩
  rintro half completed app current found ⟨_, holds⟩
  have kept : Ensures (poll schedule app.status) current (fun _ next => Aged current next)
      fun _ => True := (ensures_poll app.status).imp fun _ _ outcome => outcome.1
  refine (ensures_completedEntry _ completed
    ((polled half app current found holds).and kept)).mono ?_ fun _ both => both.1
  rintro step _ ⟨status, seen, ⟨⟨zero, holdsSeen⟩, aged⟩, ⟨_, rfl, rfl⟩ | ⟨nonzero, _, _⟩⟩
  · refine ⟨true, rfl, ⟨rfl, edited _ _ _ holdsSeen⟩, ?_⟩
    rw [Globals.delist, aged.list]
  · exact absurd zero nonzero

/-- The apps of a group started so far: they are the youngest processes, and those that do not
end at once are running. -/
structure Launching (pids : List Nat) (start current : Globals Running) : Prop where
  ready : Ready current
  mapped : current.runnableMap = start.runnableMap
  grown : start.procs.length ≤ current.procs.length
  statuses : current.appStatfileList.map Running.status =
    List.range' start.procs.length (current.procs.length - start.procs.length)
  others : ∀ pid ∉ pids, start.procs.length ≤ pid → pid < current.procs.length →
    current.phase pid = some .running

theorem Launching.prompt {pids : List Nat} {start : Globals Running}
    (launching : Launching pids start state) (prompt : Prompt pids state next) :
    Launching pids start next where
  ready := prompt.ready
  mapped := prompt.aged.runnableMap.trans launching.mapped
  grown := prompt.aged.length ▸ launching.grown
  statuses := by
    rw [prompt.aged.list, prompt.aged.length]
    exact launching.statuses
  others pid late young known := by
    rw [prompt.aged.length] at known
    exact prompt.others pid late (launching.others pid late young known)

theorem Launching.enlist {pids : List Nat} {start : Globals Running}
    (launching : Launching pids start state) (appid : Text) (file : StatFile) :
    Launching pids start (state.enlist appid file) where
  ready := launching.ready.append appid rfl
  mapped := launching.mapped
  grown := by
    have grown := launching.grown
    rw [Globals.enlist, List.length_append]
    omega
  statuses := by
    have grown := launching.grown
    have length : state.procs.length + 1 - start.procs.length =
        state.procs.length - start.procs.length + 1 := by omega
    rw [Globals.enlist, List.map_append, launching.statuses, List.length_append,
      List.length_singleton, length, List.range'_concat, List.map_singleton, Nat.one_mul,
      Nat.add_sub_cancel' grown]
  others pid late young bound := by
    rw [Globals.enlist, List.length_append, List.length_singleton] at bound
    rw [Globals.phase, Globals.enlist]
    rcases Nat.lt_succ_iff_lt_or_eq.mp bound with old | rfl
    · rw [List.getElem?_append_left old]
      exact launching.others pid late young old
    · simp

theorem ensures_startGroup_prompt {pids : List Nat} {apps : List Text} (ready : Ready state)
    (groupid : Text) (known : ∀ appid ∈ apps, appid ∈ state.runnableMap) :
    Ensures (startGroup (endsAtOnce pids) groupid apps) state (fun _ next =>
      Launching pids state next ∧ next.procs.length = state.procs.length + apps.length)
      fun _ => False := by
  have cleared : Launching pids state { state with appStatfileList := [] } :=
    ⟨ready, rfl, le_rfl, by simp, fun pid _ young bound => absurd bound (Nat.not_lt.mpr young)⟩
  refine (ensures_startGroup (fun rest current => (∀ appid ∈ rest, appid ∈ state.runnableMap) ∧
    Launching pids state current ∧
    current.procs.length + rest.length = state.procs.length + apps.length) ?_ ?_).imp ?_
  · refine (ensures_observe_prompt cleared.ready).imp fun _ seen outcome => ?_
    refine ⟨known, cleared.prompt outcome.1, ?_⟩
    rw [outcome.1.aged.length]
  · rintro timestamp appid rest current ⟨ahead, launching, total⟩
    refine (ensures_startApp (Prompt pids current) ((ensures_observe_prompt launching.ready).imp
      fun _ _ outcome => outcome.1)).mono ?_ ?_
    · rintro _ _ ⟨_, seen, file, prompt, aged, rfl⟩
      refine ⟨fun other member => ahead other (List.mem_cons_of_mem _ member),
        (launching.prompt prompt).enlist appid file, ?_⟩
      rw [List.length_cons] at total
      rw [Globals.enlist, List.length_append, aged.length, List.length_singleton]
      omega
    · exact fun _ unmapped => unmapped (launching.mapped ▸ ahead appid List.mem_cons_self)
  · rintro _ last ⟨_, launching, total⟩
    exact ⟨launching, total⟩

/-- The processes a run has left running, with the list of the group forgotten. -/
structure LeftRunning (pids : List Nat) (start : Globals Running) (count : Nat)
    (current : Globals Running) : Prop where
  ready : Ready current
  mapped : current.runnableMap = start.runnableMap
  length : current.procs.length = start.procs.length + count
  others : ∀ pid ∉ pids, start.procs.length ≤ pid → pid < start.procs.length + count →
    current.phase pid = some .running

/-- A group whose entries at even positions end at once counts as completed at the first look;
the others run on. -/
theorem Launching.completes {pids : List Nat} {start : Globals Running} {count : Nat}
    (launching : Launching pids start state)
    (total : state.procs.length = start.procs.length + count)
    (heard : ∀ half, 2 * half < count → start.procs.length + 2 * half ∈ pids) :
    Ensures (groupExecCompleted (endsAtOnce pids)) state (fun completed next =>
      completed = true ∧ LeftRunning pids start count next) fun _ => False := by
  have statuses := launching.statuses
  rw [total, Nat.add_sub_cancel_left] at statuses
  have nodup : state.appStatfileList.Nodup := by
    refine List.Nodup.of_map Running.status ?_
    rw [statuses]
    exact List.nodup_range'
  refine ensures_groupExecCompleted (LeftRunning pids start count) nodup ?_ ?_ ?_
  · exact fun _ _ _ left => ⟨left.ready, left.mapped, left.length, left.others⟩
  · intro half app current found left
    have bound := (List.getElem?_eq_some_iff.mp found).1
    have length := congrArg List.length statuses
    rw [List.length_map, List.length_range'] at length
    have status : some app.status = (List.range' start.procs.length count)[2 * half]? := by
      rw [← statuses, List.getElem?_map, found]
      rfl
    rw [List.getElem?_range' (by omega), Option.some.injEq, Nat.one_mul] at status
    have inside : app.status ∈ pids := status ▸ heard half (by omega)
    have known : app.status < current.procs.length := by
      rw [left.length]
      omega
    refine (ensures_poll_prompt left.ready known).imp ?_
    rintro status polled ⟨prompt, zero⟩
    exact ⟨zero inside, prompt.ready, prompt.aged.runnableMap.trans left.mapped,
      prompt.aged.length.trans left.length,
      fun pid late young bound => prompt.others pid late (left.others pid late young bound)⟩
  · exact ⟨launching.ready, launching.mapped, total, fun pid late young bound =>
      launching.others pid late young (total ▸ bound)⟩

/-- The two steps of such a group. -/
theorem group_passes (pids : List Nat) {apps : List Text} (groups : List (Text × List Text))
    (ready : Ready state) (groupid : Text) (known : ∀ appid ∈ apps, appid ∈ state.runnableMap)
    (heard : ∀ half, 2 * half < apps.length → state.procs.length + 2 * half ∈ pids) :
    ∃ waiting next,
      definedStep (endsAtOnce pids) ⟨.next, (groupid, apps) :: groups, state⟩ =
        .ok ⟨.wait, groups, waiting⟩ ∧
      (groupExecCompleted (endsAtOnce pids)).run waiting = .ok (true, next) ∧
      LeftRunning pids state apps.length next := by
  have starts : Ensures (startGroup (endsAtOnce pids) groupid apps) state (fun _ next =>
      Launching pids state next ∧ next.procs.length = state.procs.length + apps.length)
      fun _ => False := ensures_startGroup_prompt ready groupid known
  obtain ⟨_, waiting, started, launching, total⟩ := starts.returns
  obtain ⟨_, next, ran, rfl, left⟩ := (launching.completes total heard).returns
  refine ⟨waiting, next, ?_, ran, left⟩
  simp only [definedStep, started]
  rfl

/-- Groups all of whose processes end at once are passed. -/
theorem groups_pass {pids : List Nat} (groups : List (Text × List Text)) :
    ∀ (before : List (Text × List Text)) (state : Globals Running), Ready state →
      (∀ group ∈ before, ∀ appid ∈ group.2, appid ∈ state.runnableMap) →
      (∀ pid < state.procs.length + (before.map fun group => group.2.length).sum, pid ∈ pids) →
      ∃ next, Reachable (definedStep (endsAtOnce pids)) ⟨.next, before ++ groups, state⟩
          ⟨.next, groups, next⟩ ∧ Ready next ∧ next.runnableMap = state.runnableMap ∧
        next.procs.length = state.procs.length + (before.map fun group => group.2.length).sum := by
  intro before
  induction before with
  | nil => exact fun state ready _ _ => ⟨state, .refl, ready, rfl, rfl⟩
  | cons group before inductionHypothesis =>
    intro state ready known prompt
    rw [List.map_cons, List.sum_cons] at prompt
    obtain ⟨waiting, middle, started, ran, left⟩ := group_passes pids (before ++ groups)
      ready group.1 (known group List.mem_cons_self) fun half bound => prompt _ (by omega)
    have completed : definedStep (endsAtOnce pids) ⟨.wait, before ++ groups, waiting⟩ =
        .ok ⟨.next, before ++ groups, middle⟩ := by
      simp only [definedStep, ran]
      rfl
    obtain ⟨next, reached, readyNext, mapped, length⟩ := inductionHypothesis middle left.ready
      (fun other member appid inside => left.mapped ▸
        known other (List.mem_cons_of_mem _ member) appid inside)
      (fun pid bound => prompt pid (by have := left.length; omega))
    refine ⟨next, ((Reachable.refl.next started).next completed).trans reached, readyNext,
      mapped.trans left.mapped, ?_⟩
    rw [length, left.length, List.map_cons, List.sum_cons, Nat.add_assoc]

/-- The groups are kept apart exactly when every group that is started has at most one app. -/
theorem isolated_iff (runnableMap : AList fun _ : Text => Text)
    (groups : List (Text × List Text)) :
    Isolated runnableMap groups ↔ ∀ group ∈ startable runnableMap groups, group.2.length ≤ 1 := by
  refine ⟨fun isolated group member => ?_, isolated_of_small⟩
  obtain ⟨groupid, apps⟩ := group
  show apps.length ≤ 1
  by_contra large
  obtain ⟨before, after, split⟩ := List.append_of_mem member
  obtain ⟨rest, whole⟩ : startable runnableMap groups <+: groups := List.takeWhile_prefix _
  rw [split, List.append_assoc, List.cons_append] at whole
  have mapped : ∀ group ∈ before, ∀ appid ∈ group.2, appid ∈ runnableMap := fun group earlier =>
    startable_mapped (split ▸ List.mem_append_left _ earlier)
  -- The second process of the group runs on, and all others end at once.
  generalize earlier : (before.map fun group => group.2.length).sum = count
  let pids := (List.range (count + apps.length)).filter fun pid => pid ≠ count + 1
  have prompt : ∀ pid, pid < count + apps.length → pid ≠ count + 1 → pid ∈ pids :=
    fun pid bound different =>
      List.mem_filter.mpr ⟨List.mem_range.mpr bound, by simpa using different⟩
  have late : count + 1 ∉ pids := fun inside => by simpa using (List.mem_filter.mp inside).2
  obtain ⟨state, reached, ready, same, length⟩ := groups_pass ((groupid, apps) :: (after ++ rest))
    before (.start runnableMap) (fun _ impossible => absurd impossible List.not_mem_nil) mapped
    (fun pid bound => prompt pid (by simp [Globals.start] at bound; omega)
      (by simp [Globals.start] at bound; omega))
  have total : state.procs.length = count := by simpa [Globals.start, earlier] using length
  have known : ∀ appid ∈ apps, appid ∈ state.runnableMap := by
    rw [same]
    exact startable_mapped member
  obtain ⟨waiting, next, started, ran, left⟩ := group_passes pids (after ++ rest) ready groupid
    known (fun half bound => prompt _ (by omega) (by omega))
  have ended := isolated.completed _ _ next (whole ▸ reached.next started) rfl ran
  exact ended.not_running (count + 1) (left.others _ late (by omega) (by omega))

def threeApps : AList fun _ : Text => Text :=
  ((AList.singleton "c".toList "./c".toList).insert "b".toList "./b".toList).insert
    "a".toList "./a".toList

def twoGroups : List (Text × List Text) :=
  [("g".toList, ["a".toList, "b".toList]), ("h".toList, ["c".toList])]

/-- The second process of `g` still runs, with its stat file open, when `h` begins, and when the
process of `h` is launched. -/
theorem second_app_outlives_group :
    (∃ defined, Reachable (definedStep (endsAtOnce [0])) (.start threeApps twoGroups) defined ∧
      defined.pc = .next ∧ defined.groups ≠ [] ∧ defined.globals.phase 1 = some .running ∧
      (defined.globals.statfiles.map StatFile.closed)[1]? = some false) ∧
    (∃ defined, Reachable (definedStep (endsAtOnce [0])) (.start threeApps twoGroups) defined ∧
      defined.pc = .wait ∧ defined.globals.phase 1 = some .running ∧
      defined.globals.phase 2 = some .running) ∧
    ¬ Isolated threeApps twoGroups := by
  obtain ⟨defined, reached, between, more, running, isOpen⟩ := exists_reachable
    (definedStep (endsAtOnce [0])) 2 (.start threeApps twoGroups)
    (fun defined => defined.pc = .next ∧ defined.groups.length ≠ 0 ∧
      defined.globals.phase 1 = some .running ∧
      (defined.globals.statfiles.map StatFile.closed)[1]? = some false) (by decide +kernel)
  have another : defined.groups ≠ [] := fun none => by simp [none] at more
  refine ⟨⟨defined, reached, between, another, running, isOpen⟩, ?_, fun isolated => ?_⟩
  · exact exists_reachable (definedStep (endsAtOnce [0])) 3 (.start threeApps twoGroups)
      (fun defined => defined.pc = .wait ∧ defined.globals.phase 1 = some .running ∧
        defined.globals.phase 2 = some .running) (by decide +kernel)
  · have ended := (isolated.separate _ defined reached between another).1
    exact ended.not_running 1 running

end ClusterJobs.Parallel
