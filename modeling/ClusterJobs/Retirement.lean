/-
This file says exactly what one call of `clean_completed` and one call of `stop_running` do to a
list `running_pid_port` of any length.

Both take entries off the list while they iterate over it, so an entry that follows one just taken
off is not looked at. `Shifted` describes the files at any point of such a loop: the stat file of an
entry that has left the list is at the place it was moved to, and everything else is where it was.
That holds whatever lies next to each other. What depends on it is which entries leave: all that
should, exactly when no two of them are neighbours.

Plugins may write stat files while the calls run. So the files are followed by their places; their
contents are known when no plugin writes. A stat file that `stop_running` has moved away is back in
`running` only when the plugin of its own app has written meanwhile.
-/

import ClusterJobs.Operations

namespace ClusterJobs

open Python

variable {config : Config} {world current next : World} {entry : Entry} {target : Entry → Place}
  {raised : PyError → Prop}

/-! ### What the environment does to a file -/

/-- No plugin writes from one time to another. -/
def Unwritten (config : Config) (start stop : Nat) : Prop :=
  ∀ clock, start ≤ clock → clock < stop → ∀ event ∈ (config.schedule clock).events,
    ∀ pid content, event ≠ .write pid content

/-- The plugin of an entry writes from one time to another. -/
def Rewritten (config : Config) (start stop : Nat) (entry : Entry) : Prop :=
  ∃ clock, start ≤ clock ∧ clock < stop ∧
    ∃ content, .write entry.pid content ∈ (config.schedule clock).events

theorem Rewritten.mono {start stop later : Nat} (rewritten : Rewritten config start stop entry)
    (bound : stop ≤ later) : Rewritten config start later entry := by
  obtain ⟨clock, since, before, happens⟩ := rewritten
  exact ⟨clock, since, before.trans_le bound, happens⟩

/-- A plugin writes the stat file of a listed app only. -/
theorem lookup_applyEvent {place : Place} (event : Event)
    (elsewhere : ∀ entry ∈ world.runningPidPort, place ≠ (.running, statFile entry.app)) :
    (world.applyEvent event).files.lookup place = world.files.lookup place := by
  cases event with
  | exit pid status => rfl
  | write pid content =>
    show (world.write pid content).files.lookup place = _
    unfold World.write
    split
    · rfl
    · rename_i writer found
      exact AList.lookup_insert_ne (elsewhere writer (List.mem_of_find?_eq_some found))
  | bind pid => rfl
  | release pid =>
    show (if world.alive pid then world else world.setBound pid false).files.lookup place = _
    split <;> rfl

theorem list_applyEvent (world : World) (event : Event) :
    (world.applyEvent event).runningPidPort = world.runningPidPort := by
  cases event with
  | exit pid status => rfl
  | write pid content =>
    show (world.write pid content).runningPidPort = _
    unfold World.write
    split <;> rfl
  | bind pid => rfl
  | release pid =>
    show (if world.alive pid then world else world.setBound pid false).runningPidPort = _
    split <;> rfl

theorem lookup_advance {place : Place} (moment : Moment)
    (elsewhere : ∀ entry ∈ world.runningPidPort, place ≠ (.running, statFile entry.app)) :
    (world.advance moment).files.lookup place = world.files.lookup place := by
  show (moment.events.foldl World.applyEvent world).files.lookup place = _
  induction moment.events generalizing world with
  | nil => rfl
  | cons event events inductionHypothesis =>
    rw [List.foldl_cons, inductionHypothesis, lookup_applyEvent event elsewhere]
    rwa [list_applyEvent]

theorem files_advance_of_unwritten {moment : Moment}
    (unwritten : ∀ event ∈ moment.events, ∀ pid content, event ≠ .write pid content) :
    (world.advance moment).files = world.files := by
  show (moment.events.foldl World.applyEvent world).files = _
  generalize moment.events = events at unwritten
  induction events generalizing world with
  | nil => rfl
  | cons event events inductionHypothesis =>
    obtain ⟨here, later⟩ := List.forall_mem_cons.mp unwritten
    rw [List.foldl_cons, inductionHypothesis later]
    cases event with
    | exit pid status => rfl
    | write pid content => exact absurd rfl (here pid content)
    | bind pid => rfl
    | release pid =>
      show (if world.alive pid then world else world.setBound pid false).files = _
      split <;> rfl

/-- Waiting for the environment, as an equation. -/
theorem ensures_observe_iff {post : Moment → World → Prop} :
    Ensures (observe config) world post raised ↔
      post (config.schedule world.clock) (world.advance (config.schedule world.clock)) := by
  simp only [observe, ensures_bind, ensures_get, ensures_modify, ensures_pure]

/-! ### Files that move -/

/-- Since a call began, the list has lost entries. The stat files of these are at their targets, and
in `running` only when their plugin has written; those of the others are in `running`, and nothing
has happened to any other file. Without a writing plugin the stat files have their contents. -/
structure Shifted (config : Config) (world current : World) (target : Entry → Place) : Prop where
  since : world.clock ≤ current.clock
  list : current.runningPidPort.Sublist world.runningPidPort
  stays : ∀ entry ∈ current.runningPidPort, (Dir.running, statFile entry.app) ∈ current.files
  leaves : ∀ entry ∈ world.runningPidPort, entry ∉ current.runningPidPort →
    ((Dir.running, statFile entry.app) ∈ current.files →
      Rewritten config world.clock current.clock entry) ∧ target entry ∈ current.files
  away : ∀ entry ∈ world.runningPidPort, entry ∉ current.runningPidPort →
    (target entry).1 ≠ .running
  others : ∀ place, (∀ entry ∈ world.runningPidPort, place ≠ (.running, statFile entry.app)) →
    (∀ entry ∈ world.runningPidPort, entry ∉ current.runningPidPort → place ≠ target entry) →
    current.files.lookup place = world.files.lookup place
  contents : Unwritten config world.clock current.clock → ∀ entry ∈ world.runningPidPort,
    current.files.lookup (if entry ∈ current.runningPidPort then (.running, statFile entry.app)
      else target entry) = world.files.lookup (.running, statFile entry.app)

theorem shifted_refl (backed : Backed world) (target : Entry → Place) :
    Shifted config world world target where
  since := le_rfl
  list := List.Sublist.refl _
  stays := backed
  leaves entry member gone := absurd member gone
  away entry member gone := absurd member gone
  others _ _ _ := rfl
  contents _ entry member := by rw [if_pos member]

/-- A step that touches neither the list nor a file. -/
theorem Shifted.congr (shifted : Shifted config world current target)
    (list : next.runningPidPort = current.runningPidPort) (files : next.files = current.files)
    (clock : current.clock ≤ next.clock) : Shifted config world next target where
  since := shifted.since.trans clock
  list := list ▸ shifted.list
  stays := by
    rw [list, files]
    exact shifted.stays
  leaves entry member gone := by
    rw [list] at gone
    rw [files]
    exact (shifted.leaves entry member gone).imp_left fun rewritten back =>
      (rewritten back).mono clock
  away := by
    rw [list]
    exact shifted.away
  others := by
    rw [list, files]
    exact shifted.others
  contents unwritten := by
    rw [list, files]
    exact shifted.contents fun time after before => unwritten time after (before.trans_le clock)

/-- Something happens: stat files are written, and only by their own plugins. -/
theorem Shifted.happen (shifted : Shifted config world current target)
    (clock : next.clock = current.clock + 1)
    (list : next.runningPidPort = current.runningPidPort)
    (kept : ∀ place ∈ current.files, place ∈ next.files)
    (back : ∀ entry ∈ world.runningPidPort, (Dir.running, statFile entry.app) ∈ next.files →
      (Dir.running, statFile entry.app) ∈ current.files ∨
        ∃ content, .write entry.pid content ∈ (config.schedule current.clock).events)
    (others : ∀ place, (∀ entry ∈ world.runningPidPort, place ≠ (.running, statFile entry.app)) →
      next.files.lookup place = current.files.lookup place)
    (unwritten : (∀ event ∈ (config.schedule current.clock).events,
      ∀ pid content, event ≠ .write pid content) → next.files = current.files) :
    Shifted config world next target where
  since := by
    rw [clock]
    exact shifted.since.trans (Nat.le_succ _)
  list := list ▸ shifted.list
  stays entry member := kept _ (shifted.stays entry (list ▸ member))
  leaves entry member gone := by
    rw [list] at gone
    obtain ⟨rewritten, stored⟩ := shifted.leaves entry member gone
    refine ⟨fun found => ?_, kept _ stored⟩
    rcases back entry member found with old | now
    · exact (rewritten old).mono (by omega)
    · exact ⟨current.clock, shifted.since, by omega, now⟩
  away entry member gone := shifted.away entry member (list ▸ gone)
  others place elsewhere untouched := by
    rw [list] at untouched
    rw [others place elsewhere]
    exact shifted.others place elsewhere untouched
  contents silent entry member := by
    rw [clock] at silent
    rw [list, unwritten (silent current.clock shifted.since (Nat.lt_succ_self _))]
    exact shifted.contents (fun time after before =>
      silent time after (before.trans (Nat.lt_succ_self _))) entry member

theorem Shifted.advance (shifted : Shifted config world current target) :
    Shifted config world (current.advance (config.schedule current.clock)) target := by
  have quiet := quiet_advance shifted.stays (config.schedule current.clock)
  refine shifted.happen rfl quiet.list (fun place => (quiet.files place).mpr)
    (fun entry _ found => .inl ((quiet.files _).mp found)) (fun place elsewhere => ?_)
    files_advance_of_unwritten
  exact lookup_advance _ fun entry member => elsewhere entry (shifted.list.subset member)

/-- A file is renamed: any third place keeps its file. -/
theorem lookup_renamed {files : AList fun _ : Place => Text} {source place other : Place}
    {content : Text} (notPlace : other ≠ place) (notSource : other ≠ source) :
    ((files.erase source).insert place content).lookup other = files.lookup other := by
  rw [AList.lookup_insert_ne notPlace, AList.lookup_erase_ne notSource]

/-- The stat file of an entry is renamed and the entry taken off the list. -/
theorem Shifted.retire {place : Place} {content : Text}
    (shifted : Shifted config world current target) (nodup : world.runningApps.Nodup)
    (member : entry ∈ current.runningPidPort) (away : place.1 ≠ .running)
    (fresh : ∀ other ∈ world.runningPidPort, other ∉ current.runningPidPort →
      target other ≠ place)
    (found : current.files.lookup (.running, statFile entry.app) = some content)
    (list : next.runningPidPort = current.runningPidPort.erase entry)
    (files : next.files =
      (current.files.erase (.running, statFile entry.app)).insert place content)
    (clock : next.clock = current.clock) :
    Shifted config world next (Function.update target entry place) := by
  have listed := shifted.list.subset member
  have apart : ∀ other ∈ world.runningPidPort, other ≠ entry →
      (Dir.running, statFile other.app) ≠ (Dir.running, statFile entry.app) := by
    intro other among different same
    have sameApp := statFile_injective (Prod.mk.inj same).2
    exact different (List.inj_on_of_nodup_map nodup among listed sameApp)
  have inRunning : ∀ name, (Dir.running, name) ≠ place := by
    rintro name rfl
    exact away rfl
  have left : ∀ other, other ∈ next.runningPidPort ↔ other ≠ entry ∧
      other ∈ current.runningPidPort := by
    intro other
    rw [list]
    exact ((nodup.of_map _).sublist shifted.list).mem_erase_iff
  have earlier : ∀ other, other ≠ entry → other ∉ next.runningPidPort →
      other ∉ current.runningPidPort := fun other different gone stays =>
    gone ((left other).mpr ⟨different, stays⟩)
  refine ⟨clock ▸ shifted.since, ?_, ?_, ?_, ?_, ?_, ?_⟩
  · rw [list]
    exact List.erase_sublist.trans shifted.list
  · intro other stays
    obtain ⟨different, stays⟩ := (left other).mp stays
    rw [files, AList.mem_insert, AList.mem_erase]
    exact Or.inr ⟨apart other (shifted.list.subset stays) different, shifted.stays other stays⟩
  · intro other among gone
    rw [files, AList.mem_insert, AList.mem_erase, AList.mem_insert, AList.mem_erase]
    by_cases same : other = entry
    · subst same
      rw [Function.update_self]
      exact ⟨by simp [inRunning], Or.inl rfl⟩
    · obtain ⟨rewritten, stored⟩ := shifted.leaves other among (earlier other same gone)
      rw [Function.update_of_ne same, clock]
      refine ⟨fun back => ?_, Or.inr ⟨fun inPlace => ?_, stored⟩⟩
      · exact rewritten (back.resolve_left (inRunning _)).2
      exact shifted.away other among (earlier other same gone) (by rw [inPlace])
  · intro other among gone
    by_cases same : other = entry
    · subst same
      rwa [Function.update_self]
    · rw [Function.update_of_ne same]
      exact shifted.away other among (earlier other same gone)
  · intro other elsewhere untouched
    have notPlace := untouched entry listed fun stays => ((left entry).mp stays).1 rfl
    rw [Function.update_self] at notPlace
    rw [files, lookup_renamed notPlace (elsewhere entry listed)]
    refine shifted.others other elsewhere fun removed among gone => ?_
    have different : removed ≠ entry := fun same => gone (same ▸ member)
    have moved := untouched removed among fun stays => gone ((left removed).mp stays).2
    rwa [Function.update_of_ne different] at moved
  · rw [clock]
    intro unwritten other among
    have before := shifted.contents unwritten other among
    by_cases same : other = entry
    · subst same
      have gone : other ∉ next.runningPidPort := fun stays => ((left other).mp stays).1 rfl
      rw [if_pos member, found] at before
      rw [if_neg gone, Function.update_self, files, AList.lookup_insert, before]
    · rw [← before, Function.update_of_ne same, files]
      by_cases stays : other ∈ current.runningPidPort
      · rw [if_pos ((left other).mpr ⟨same, stays⟩), if_pos stays]
        exact lookup_renamed (inRunning _) (apart other among same)
      · rw [if_neg fun still => stays ((left other).mp still).2, if_neg stays]
        refine lookup_renamed (fresh other among stays) fun inPlace => ?_
        exact shifted.away other among stays (by rw [inPlace])

/-! ### Looking at processes that do not end -/

/-- No listed process that runs at the start of a call ends before a time. -/
def NoneEnds (config : Config) (world : World) (stop : Nat) : Prop :=
  ∀ clock, world.clock ≤ clock → clock < stop → ∀ event ∈ (config.schedule clock).events,
    ∀ entry ∈ world.runningPidPort, ∀ status, event = .exit entry.pid status →
      ¬ world.alive entry.pid

theorem phase_changePhase (world : World) (pid other : Nat) (change : Phase → Phase) :
    (world.changePhase pid change).phase other =
      if pid = other then (world.phase other).map change else world.phase other := by
  simp only [World.phase, World.changePhase, List.getElem?_modify]
  split <;> cases world.procs[other]? <;> simp_all

@[simp]
theorem phase_setBound (world : World) (pid other : Nat) (bound : Bool) :
    (world.setBound pid bound).phase other = world.phase other := by
  simp only [World.phase, World.setBound, List.getElem?_modify]
  split <;> cases world.procs[other]? <;> simp_all

/-- A change that neither ends the process nor brings it back to life. -/
theorem alive_changePhase {pid other : Nat} {change : Phase → Phase}
    (keeps : pid = other → ∀ phase, world.phase other = some phase →
      (change phase = .running ↔ phase = .running)) :
    (world.changePhase pid change).alive other = world.alive other := by
  rw [World.alive, World.alive, phase_changePhase]
  by_cases same : pid = other
  · rw [if_pos same]
    cases found : world.phase other with
    | none => rfl
    | some phase =>
      rw [Bool.eq_iff_iff]
      simp [keeps same phase found]
  · rw [if_neg same]

/-- A process stays alive, or ended, unless an event ends it. -/
theorem alive_applyEvent {pid : Nat} {event : Event}
    (goesOn : ∀ status, event = .exit pid status → ¬ world.alive pid) :
    (world.applyEvent event).alive pid = world.alive pid := by
  cases event with
  | exit target status =>
    refine alive_changePhase fun same phase found => ?_
    subst same
    have ended := goesOn status rfl
    have notRunning : phase ≠ .running := by
      rintro rfl
      exact ended (by simp [World.alive, found])
    cases phase <;> simp_all [Phase.exit]
  | write target content =>
    show (world.write target content).alive pid = _
    unfold World.write
    split <;> rfl
  | bind target => simp [World.applyEvent, World.alive]
  | release target =>
    show (if world.alive target then world else world.setBound target false).alive pid = _
    split
    · rfl
    · simp [World.alive]

theorem alive_advance {pid : Nat} {moment : Moment}
    (goesOn : ∀ event ∈ moment.events, ∀ status, event = .exit pid status → ¬ world.alive pid) :
    (world.advance moment).alive pid = world.alive pid := by
  show (moment.events.foldl World.applyEvent world).alive pid = _
  generalize moment.events = events at goesOn
  induction events generalizing world with
  | nil => rfl
  | cons event events inductionHypothesis =>
    obtain ⟨here, later⟩ := List.forall_mem_cons.mp goesOn
    have same := alive_applyEvent here
    rw [List.foldl_cons, inductionHypothesis (by rwa [same]), same]

/-- The files are as described, none is back in `running`, and the listed processes are as they
were at the start. -/
structure Calm (config : Config) (world current : World) (target : Entry → Place) : Prop where
  shifted : Shifted config world current target
  emptied : ∀ entry ∈ world.runningPidPort, entry ∉ current.runningPidPort →
    (Dir.running, statFile entry.app) ∉ current.files
  alive : ∀ entry ∈ world.runningPidPort, current.alive entry.pid = world.alive entry.pid

theorem Calm.advance {stop : Nat} (calm : Calm config world current target)
    (noneEnds : NoneEnds config world stop) (inTime : current.clock < stop) :
    Calm config world (current.advance (config.schedule current.clock)) target where
  shifted := calm.shifted.advance
  emptied entry member gone := by
    have quiet := quiet_advance calm.shifted.stays (config.schedule current.clock)
    rw [quiet.list] at gone
    rw [quiet.files]
    exact calm.emptied entry member gone
  alive entry member := by
    rw [← calm.alive entry member]
    refine alive_advance fun event happens status ends => ?_
    rw [calm.alive entry member]
    exact noneEnds _ calm.shifted.since inTime event happens entry member status ends

theorem Calm.poll (calm : Calm config world current target) (pid : Nat) :
    Calm config world (current.changePhase pid Phase.afterPoll) target where
  shifted := calm.shifted.congr rfl rfl le_rfl
  emptied := calm.emptied
  alive entry member := by
    rw [← calm.alive entry member]
    exact alive_changePhase fun _ phase _ => by cases phase <;> simp [Phase.afterPoll]

/-- What one look at an entry leaves as it was. -/
structure SameBooks (before after : World) : Prop where
  list : after.runningPidPort = before.runningPidPort
  table : after.appStatsMap = before.appStatsMap

/-- `hasEnded` answers what was true at the start of the call. -/
theorem Calm.ensures_hasEnded {stop : Nat} (calm : Calm config world current target)
    (noneEnds : NoneEnds config world stop) (inTime : current.clock + 2 ≤ stop)
    (member : entry ∈ world.runningPidPort) :
    Ensures (hasEnded config entry) current (fun ended looked =>
      Calm config world looked target ∧ SameBooks current looked ∧
      looked.clock ≤ current.clock + 2 ∧ ended = !world.alive entry.pid) raised := by
  simp only [hasEnded, ClusterJobs.poll, procExists, ensures_bind, ensures_observe_iff, ensures_get,
    ensures_modify, ensures_pure, ensures_ite]
  have quietSeen := quiet_advance calm.shifted.stays (config.schedule current.clock)
  have calmSeen := calm.advance noneEnds (by omega)
  have clockSeen : (current.advance (config.schedule current.clock)).clock = current.clock + 1 :=
    rfl
  generalize current.advance (config.schedule current.clock) = seen at *
  have calmPolled := calmSeen.poll entry.pid
  have clockPolled : (seen.changePhase entry.pid Phase.afterPoll).clock = current.clock + 1 :=
    clockSeen
  refine ⟨fun exited => ⟨calmPolled, ⟨quietSeen.list, quietSeen.table⟩, by omega, ?_⟩,
    fun _ => ⟨calmPolled.advance noneEnds (by omega), ?_, ?_, ?_⟩⟩
  · -- A process that reports a status does not run.
    have ended : ¬ seen.alive entry.pid := by
      intro alive
      have running : seen.phase entry.pid = some .running := by simpa [World.alive] using alive
      simp [running, Phase.poll] at exited
    rw [calmSeen.alive entry member] at ended
    simp [ended]
  · have quietNext := quiet_advance calmPolled.shifted.stays (config.schedule seen.clock)
    exact ⟨quietNext.list.trans quietSeen.list, quietNext.table.trans quietSeen.table⟩
  · show seen.clock + 1 ≤ _
    omega
  · have quietNext := quiet_advance calmPolled.shifted.stays (config.schedule seen.clock)
    have calmNext := calmPolled.advance noneEnds (by omega)
    rw [Bool.not_eq_eq_eq_not, Bool.not_not, Bool.eq_iff_iff, ← calmNext.alive entry member]
    constructor
    · intro present
      rw [calmNext.alive entry member, ← calmPolled.alive entry member]
      exact alive_of_inProc_afterPoll (quietNext.inProc present)
    · intro alive
      have running := (beq_iff_eq ..).mp alive
      rw [running]
      rfl

/-! ### `clean_completed` -/

/-- The process of an entry has ended. -/
def Ended (world : World) (entry : Entry) : Prop := ¬ world.alive entry.pid

instance (world : World) (entry : Entry) : Decidable (Ended world entry) :=
  inferInstanceAs (Decidable (¬ world.alive entry.pid))

/-- Where `clean_completed` moves the stat file of an entry. A timestamp has 19 characters. -/
def IsCompleted (entry : Entry) (place : Place) : Prop :=
  ∃ timestamp : Text, timestamp.length = 19 ∧
    place = (.completed, statFile entry.app ++ timestamp)

theorem IsCompleted.app_eq {other : Entry} {place : Place} (first : IsCompleted entry place)
    (second : IsCompleted other place) : entry.app = other.app := by
  obtain ⟨timestamp, length, rfl⟩ := first
  obtain ⟨timestamp', length', same⟩ := second
  have names := (Prod.mk.inj same).2
  exact statFile_injective (List.append_inj' names (length.trans length'.symm)).1

/-- The state `clean_completed` is called in: no app is listed twice, the listed apps have their
stat files in `running` and their keys in the table, and no listed process ends during the call,
which looks at the surroundings at most three times for each entry. -/
structure Cleanable (config : Config) (world : World) : Prop where
  nodup : world.runningApps.Nodup
  backed : Backed world
  candidates : ∀ entry ∈ world.runningPidPort, entry.app ∈ world.appStatsMap
  stamped : ∀ clock, (config.schedule clock).timestamp.length = 19
  noneEnds : NoneEnds config world (world.clock + 3 * world.runningPidPort.length)

/-- `clean_completed` in between: `index` entries have been looked at. -/
structure Cleaning (config : Config) (world current : World) (target : Entry → Place)
    (index : Nat) (flag : Bool) : Prop where
  calm : Calm config world current target
  clock : current.clock ≤ world.clock + 3 * index
  named : ∀ entry ∈ world.runningPidPort, entry ∉ current.runningPidPort →
    IsCompleted entry (target entry)
  popped : ∀ entry ∈ world.runningPidPort, entry ∉ current.runningPidPort →
    entry.app ∉ current.appStatsMap
  kept : ∀ app, (∀ entry ∈ world.runningPidPort, entry ∉ current.runningPidPort →
    entry.app ≠ app) → current.appStatsMap.lookup app = world.appStatsMap.lookup app
  flag : flag = true ↔ ∃ entry ∈ world.runningPidPort, entry ∉ current.runningPidPort

theorem cleaning_refl (backed : Backed world) (target : Entry → Place) :
    Cleaning config world world target 0 false where
  calm := ⟨shifted_refl backed target, fun _ member gone => absurd member gone, fun _ _ => rfl⟩
  clock := le_rfl
  named _ member gone := absurd member gone
  popped _ member gone := absurd member gone
  kept _ _ := rfl
  flag := by simp

theorem Cleaning.same {index later : Nat} {flag : Bool}
    (cleaning : Cleaning config world current target index flag)
    (calm : Calm config world next target) (books : SameBooks current next)
    (clock : next.clock ≤ world.clock + 3 * later) :
    Cleaning config world next target later flag where
  calm := calm
  clock := clock
  named := by
    rw [books.list]
    exact cleaning.named
  popped := by
    rw [books.list, books.table]
    exact cleaning.popped
  kept := by
    rw [books.list, books.table]
    exact cleaning.kept
  flag := by
    rw [books.list]
    exact cleaning.flag

/-- A listed entry is still a key of the table. -/
theorem Cleaning.candidate {index : Nat} {flag : Bool}
    (cleaning : Cleaning config world current target index flag)
    (cleanable : Cleanable config world) (member : entry ∈ current.runningPidPort) :
    entry.app ∈ current.appStatsMap := by
  have listed := cleaning.calm.shifted.list.subset member
  have same := cleaning.kept entry.app fun other among gone sameApp =>
    gone (List.inj_on_of_nodup_map cleanable.nodup among listed sameApp ▸ member)
  rw [← AList.lookup_isSome, same, AList.lookup_isSome]
  exact cleanable.candidates entry listed

/-- The stat file of an entry is completed, the entry taken off the list and its app out of the
table. -/
theorem Cleaning.complete {index : Nat} {flag : Bool} {place : Place} {content : Text}
    (cleaning : Cleaning config world current target index flag)
    (nodup : world.runningApps.Nodup) (member : entry ∈ current.runningPidPort)
    (completed : IsCompleted entry place)
    (found : current.files.lookup (.running, statFile entry.app) = some content) :
    Cleaning config world
      { current with
        files := (current.files.erase (.running, statFile entry.app)).insert place content
        runningPidPort := current.runningPidPort.erase entry
        appStatsMap := current.appStatsMap.erase entry.app }
      (Function.update target entry place) index true := by
  have listed := cleaning.calm.shifted.list.subset member
  have left : ∀ other, other ∈ current.runningPidPort.erase entry ↔ other ≠ entry ∧
      other ∈ current.runningPidPort := fun other =>
    ((nodup.of_map _).sublist cleaning.calm.shifted.list).mem_erase_iff
  have earlier : ∀ other, other ≠ entry → other ∉ current.runningPidPort.erase entry →
      other ∉ current.runningPidPort := fun other different gone stays =>
    gone ((left other).mpr ⟨different, stays⟩)
  have notRunning : ∀ name, (Dir.running, name) ≠ place := by
    obtain ⟨timestamp, _, rfl⟩ := completed
    simp
  refine ⟨⟨?_, fun other among gone => ?_, cleaning.calm.alive⟩, cleaning.clock, ?_, ?_, ?_, ?_⟩
  · refine cleaning.calm.shifted.retire nodup member ?_ ?_ found rfl rfl rfl
    · obtain ⟨timestamp, _, rfl⟩ := completed
      simp
    · rintro other among gone rfl
      have sameApp := (cleaning.named other among gone).app_eq completed
      exact gone (List.inj_on_of_nodup_map nodup among listed sameApp ▸ member)
  · rw [AList.mem_insert, AList.mem_erase]
    rintro (inPlace | ⟨apart, stored⟩)
    · exact notRunning _ inPlace
    · have different : other ≠ entry := fun same => apart (by rw [same])
      exact cleaning.calm.emptied other among (earlier other different gone) stored
  · intro other among gone
    by_cases same : other = entry
    · subst same
      rwa [Function.update_self]
    · rw [Function.update_of_ne same]
      exact cleaning.named other among (earlier other same gone)
  · intro other among gone
    rw [AList.mem_erase]
    rintro ⟨different, stays⟩
    have notEntry : other ≠ entry := fun same => different (congrArg Entry.app same)
    exact cleaning.popped other among (earlier other notEntry gone) stays
  · intro app untouched
    have different := untouched entry listed fun stays => ((left entry).mp stays).1 rfl
    show (current.appStatsMap.erase entry.app).lookup app = _
    rw [AList.lookup_erase_ne different.symm]
    exact cleaning.kept app fun other among gone =>
      untouched other among fun stays => gone ((left other).mp stays).2
  · simp only [true_iff]
    exact ⟨entry, listed, fun stays => ((left entry).mp stays).1 rfl⟩

/-- One round: an entry that has ended is completed, any other stays. -/
theorem Cleaning.round {index : Nat} {flag : Bool}
    (cleaning : Cleaning config world current target index flag)
    (cleanable : Cleanable config world)
    (bound : index < world.runningPidPort.length) (member : entry ∈ current.runningPidPort) :
    Ensures (cleanEntry config entry flag) current (fun step next => ∃ flag', step = .yield flag' ∧
      (∃ target', Cleaning config world next target' (index + 1) flag') ∧
      (next.runningPidPort = current.runningPidPort ∧ ¬ Ended world entry ∨
        next.runningPidPort = current.runningPidPort.erase entry ∧ Ended world entry)) raised := by
  have listed := cleaning.calm.shifted.list.subset member
  have started := cleaning.clock
  simp only [cleanEntry, ensures_bind, ensures_ite, ensures_pure]
  refine (cleaning.calm.ensures_hasEnded cleanable.noneEnds (by omega) listed).imp ?_
  rintro ended looked ⟨calmLooked, books, soon, rfl⟩
  refine ⟨fun ended => ?_, fun runs => ?_⟩
  · rw [ensures_observe_iff]
    have calmSeen := calmLooked.advance cleanable.noneEnds (by omega)
    have quiet := quiet_advance calmLooked.shifted.stays (config.schedule looked.clock)
    have clock : (looked.advance (config.schedule looked.clock)).clock = looked.clock + 1 := rfl
    generalize looked.advance (config.schedule looked.clock) = seen at *
    have booksSeen : SameBooks current seen :=
      ⟨quiet.list.trans books.list, quiet.table.trans books.table⟩
    have cleaningSeen := cleaning.same calmSeen booksSeen
      (show seen.clock ≤ world.clock + 3 * (index + 1) by omega)
    have memberSeen : entry ∈ seen.runningPidPort := booksSeen.list ▸ member
    have candidate := cleaningSeen.candidate cleanable memberSeen
    refine (ensures_rename (calmSeen.shifted.stays entry memberSeen)).imp ?_
    rintro _ _ ⟨content, found, rfl⟩
    simp only [removeEntry, popStats, ensures_bind, ensures_get, ensures_modify, ensures_ite]
    refine ⟨fun _ => ?_, fun absent => absurd candidate absent⟩
    refine ⟨true, rfl, ⟨_, cleaningSeen.complete cleanable.nodup memberSeen
      ⟨_, cleanable.stamped _, rfl⟩ found⟩, ?_⟩
    exact Or.inr ⟨by rw [booksSeen.list], by simpa [Ended] using ended⟩
  · refine ⟨flag, rfl, ⟨target, cleaning.same calmLooked books (by omega)⟩, ?_⟩
    exact Or.inl ⟨books.list, by simpa [Ended] using runs⟩

theorem Cleanable.ensures_cleanCompleted (cleanable : Cleanable config world) :
    Ensures (cleanCompleted config) world (fun flag next =>
      (∃ index target, Cleaning config world next target index flag) ∧
      Sweep (fun entry => ¬ Ended world entry) (Ended world) world.runningPidPort
        next.runningPidPort) fun _ => False := by
  refine ensures_sweep_counted
    (fun index flag current => ∃ target, Cleaning config world current target index flag)
    ?_ ?_ ⟨fun _ => (.completed, []), cleaning_refl cleanable.backed _⟩
  · rintro index flag current ⟨target, cleaning⟩
    exact (cleanable.nodup.of_map _).sublist cleaning.calm.shifted.list
  · rintro index flag entry current bound ⟨target, cleaning⟩ member
    exact cleaning.round cleanable bound member

/-- What `clean_completed` is for: exactly the entries whose process has ended are retired. -/
structure RetiredExactly (config : Config) (world next : World) (flag : Bool) : Prop where
  list : next.runningPidPort = world.runningPidPort.filter fun entry => ¬ Ended world entry
  files : ∃ target, Shifted config world next target ∧
    ∀ entry ∈ world.runningPidPort, Ended world entry → IsCompleted entry (target entry)
  emptied : ∀ entry ∈ world.runningPidPort, Ended world entry →
    (Dir.running, statFile entry.app) ∉ next.files
  popped : ∀ entry ∈ world.runningPidPort, Ended world entry → entry.app ∉ next.appStatsMap
  kept : ∀ app, (∀ entry ∈ world.runningPidPort, Ended world entry → entry.app ≠ app) →
    next.appStatsMap.lookup app = world.appStatsMap.lookup app
  flag : flag = true ↔ ∃ entry ∈ world.runningPidPort, Ended world entry

theorem Cleaning.retiredExactly {index : Nat} {flag : Bool}
    (cleaning : Cleaning config world current target index flag)
    (list : current.runningPidPort = world.runningPidPort.filter fun entry => ¬ Ended world entry) :
    RetiredExactly config world current flag := by
  have gone : ∀ entry ∈ world.runningPidPort,
      entry ∉ current.runningPidPort ↔ Ended world entry := by
    intro entry member
    simp [list, member]
  refine ⟨list, ⟨target, cleaning.calm.shifted, fun entry member ended => ?_⟩,
    fun entry member ended => ?_, fun entry member ended => ?_, fun app untouched => ?_,
    cleaning.flag.trans ?_⟩
  · exact cleaning.named entry member ((gone entry member).mpr ended)
  · exact cleaning.calm.emptied entry member ((gone entry member).mpr ended)
  · exact cleaning.popped entry member ((gone entry member).mpr ended)
  · exact cleaning.kept app fun entry member left =>
      untouched entry member ((gone entry member).mp left)
  · exact exists_congr fun entry => and_congr_right fun member => gone entry member

/-- `clean_completed` retires exactly the apps that have ended when no two of them are neighbours
in the list, and only then. -/
theorem cleanCompleted_retires_exactly_iff (cleanable : Cleanable config world) :
    (∃ flag next, (cleanCompleted config).run world = .ok (flag, next) ∧
      RetiredExactly config world next flag) ↔
    world.runningPidPort.IsChain fun first second =>
      ¬ (Ended world first ∧ Ended world second) := by
  obtain ⟨flag, next, ran, ⟨index, target, cleaning⟩, swept⟩ :=
    cleanable.ensures_cleanCompleted.returns
  constructor
  · rintro ⟨flag', next', ran', retired⟩
    rw [ran] at ran'
    cases ran'
    refine swept.apart fun entry member => ?_
    rw [retired.list] at member
    simpa using (List.mem_filter.mp member).2
  · intro apart
    exact ⟨flag, next, ran, cleaning.retiredExactly (swept.eq_filter apart)⟩

/-- Two listed apps, with the phases of their processes. -/
def twoListed (first second : Phase) : World where
  files := (AList.singleton (.running, statFile "a".toList) "1".toList).insert
    (.running, statFile "b".toList) "2".toList
  runningPidPort := [⟨"a".toList, 0, 7001⟩, ⟨"b".toList, 1, 7002⟩]
  appStatsMap := (AList.singleton "a".toList ∅).insert "b".toList ∅
  procs := [⟨"a".toList, [], 7001, first, true⟩, ⟨"b".toList, [], 7002, second, true⟩]
  commands := []
  clock := 0

/-- Nothing happens, and every command prints the same. -/
def undisturbed (stderr : List Text) : Config where
  chkptsDir := "chkpts".toList
  chkpts := ∅
  rule _ _ _ := .ok []
  schedule _ := { stderr := stderr, timestamp := "2016-04-01_12:00:00".toList }

theorem twoListed_backed (first second : Phase) : Backed (twoListed first second) := by
  have listed : ∀ entry ∈ [Entry.mk "a".toList 0 7001, ⟨"b".toList, 1, 7002⟩],
      (Dir.running, statFile entry.app) ∈ (twoListed .running .running).files.keys := by
    decide +kernel
  exact listed

theorem twoListed_cleanable (first second : Phase) :
    Cleanable (undisturbed []) (twoListed first second) where
  nodup := show ["a".toList, "b".toList].Nodup by decide
  backed := twoListed_backed first second
  candidates := by
    have listed : ∀ entry ∈ [Entry.mk "a".toList 0 7001, ⟨"b".toList, 1, 7002⟩],
        entry.app ∈ (twoListed .running .running).appStatsMap.keys := by
      decide +kernel
    exact listed
  stamped _ := rfl
  noneEnds _ _ _ event happens := absurd happens List.not_mem_nil

/-- The second of two neighbours that have both ended stays in the list. -/
theorem second_ended_neighbour_stays :
    Cleanable (undisturbed []) (twoListed (.zombie 0) (.zombie 0)) ∧
    ¬ ∃ flag next, (cleanCompleted (undisturbed [])).run (twoListed (.zombie 0) (.zombie 0)) =
      .ok (flag, next) ∧
      RetiredExactly (undisturbed []) (twoListed (.zombie 0) (.zombie 0)) next flag := by
  refine ⟨twoListed_cleanable _ _, ?_⟩
  rintro ⟨flag, next, ran, retired⟩
  have left : ((cleanCompleted (undisturbed [])).run (twoListed (.zombie 0) (.zombie 0))).map
      (fun result => result.2.runningPidPort) = .ok [⟨"b".toList, 1, 7002⟩] := by
    decide +kernel
  rw [ran] at left
  have stays : next.runningPidPort = [⟨"b".toList, 1, 7002⟩] := Except.ok.inj left
  have none : next.runningPidPort = [] := by
    rw [retired.list]
    decide +kernel
  rw [stays] at none
  cases none

/-- One that has ended beside one that runs. -/
theorem ended_app_retired_exactly :
    ∃ flag next, (cleanCompleted (undisturbed [])).run (twoListed (.zombie 0) .running) =
      .ok (flag, next) ∧
      RetiredExactly (undisturbed []) (twoListed (.zombie 0) .running) next flag :=
  (cleanCompleted_retires_exactly_iff (twoListed_cleanable _ _)).mpr (by decide +kernel)

/-! ### `stop_running` -/

/-- The commands an entry was sent, and where its stat file goes for the errors they printed. A
kill is sent only after a checkpoint that printed none. -/
inductive Issued (entry : Entry) : Dir → List Command → Prop
  | uncheckpointed {ended : Bool} {stderr : List Text} : stderr ≠ [] →
      Issued entry .noidea [⟨.checkpoint, entry.pid, entry.port, ended, stderr⟩]
  | unkilled {ended ended' : Bool} {stderr : List Text} : stderr ≠ [] →
      Issued entry .noidea [⟨.checkpoint, entry.pid, entry.port, ended, []⟩,
        ⟨.kill, entry.pid, entry.port, ended', stderr⟩]
  | killed {ended ended' : Bool} :
      Issued entry .queued [⟨.checkpoint, entry.pid, entry.port, ended, []⟩,
        ⟨.kill, entry.pid, entry.port, ended', []⟩]

@[simp]
theorem command_clock (kind : CommandKind) (stderr : List Text) :
    (world.command kind entry stderr).clock = world.clock := by
  unfold World.command
  split <;> rfl

/-- Since a state some commands have been sent, and nothing else was done. -/
structure Asked (config : Config) (world current asked : World) (target : Entry → Place)
    (commands : List Command) : Prop where
  shifted : Shifted config world asked target
  list : asked.runningPidPort = current.runningPidPort
  table : asked.appStatsMap = current.appStatsMap
  sent : asked.commands = current.commands ++ commands

theorem Shifted.unasked (shifted : Shifted config world current target) :
    Asked config world current current target [] :=
  ⟨shifted, rfl, rfl, (List.append_nil _).symm⟩

/-- One more command to an entry. -/
theorem Asked.ensures_dmtcpCommand {asked : World} {commands : List Command}
    (before : Asked config world current asked target commands) (kind : CommandKind) :
    Ensures (dmtcpCommand config kind entry) asked (fun stderr next => ∃ ended,
      Asked config world current next target
        (commands ++ [⟨kind, entry.pid, entry.port, ended, stderr⟩])) raised := by
  simp only [dmtcpCommand, ensures_bind, ensures_observe_iff, ensures_modify, ensures_pure]
  have quiet := quiet_advance before.shifted.stays (config.schedule asked.clock)
  refine ⟨!(asked.advance (config.schedule asked.clock)).alive entry.pid,
    before.shifted.advance.congr (command_list ..) (command_files ..) (command_clock ..).ge,
    ?_, ?_, ?_⟩
  · rw [command_list, quiet.list, before.list]
  · rw [command_table, quiet.table, before.table]
  · rw [command_commands, quiet.commands, before.sent, List.append_assoc]

/-- An entry has left the list after some commands, and its stat file is in a directory. -/
structure Departed (config : Config) (world current next : World) (target : Entry → Place)
    (entry : Entry) (dir : Dir) (commands : List Command) : Prop where
  shifted : Shifted config world next (Function.update target entry (dir, statFile entry.app))
  list : next.runningPidPort = current.runningPidPort.erase entry
  table : next.appStatsMap = current.appStatsMap
  sent : next.commands = current.commands ++ commands

/-- The stat file of an entry has been renamed after some commands. Without the entry, which is
still listed, the state would be one in which it has left. -/
def Renamed (config : Config) (world current renamed : World) (target : Entry → Place)
    (entry : Entry) (dir : Dir) (commands : List Command) : Prop :=
  renamed.runningPidPort = current.runningPidPort ∧
    Departed config world current
      { renamed with runningPidPort := renamed.runningPidPort.erase entry }
      target entry dir commands

/-- The rename for an entry, after the commands it was sent. -/
theorem Asked.ensures_rename {asked : World} {dir : Dir} {commands : List Command}
    (before : Asked config world current asked target commands)
    (nodup : world.runningApps.Nodup) (member : entry ∈ current.runningPidPort)
    (fresh : ∀ other ∈ world.runningPidPort, other ∉ current.runningPidPort →
      (target other).2 ≠ statFile entry.app) (away : dir ≠ .running) :
    Ensures (rename (.running, statFile entry.app) (dir, statFile entry.app)) asked
      (fun _ renamed => Renamed config world current renamed target entry dir commands)
      raised := by
  rw [← before.list] at member fresh
  refine (ClusterJobs.ensures_rename (before.shifted.stays entry member)).imp ?_
  rintro _ _ ⟨content, found, rfl⟩
  refine ⟨before.list, before.shifted.retire nodup member away ?_ found rfl rfl rfl,
    by rw [before.list], before.table, before.sent⟩
  intro other among gone same
  exact fresh other among gone (by rw [same])

/-- An entry outside the plan is sent the commands, and its stat file goes to the directory that
fits. -/
theorem Shifted.ensures_moveAway (shifted : Shifted config world current target)
    (nodup : world.runningApps.Nodup) (member : entry ∈ current.runningPidPort)
    (fresh : ∀ other ∈ world.runningPidPort, other ∉ current.runningPidPort →
      (target other).2 ≠ statFile entry.app) :
    Ensures (moveAway config entry) current (fun _ renamed => ∃ dir commands,
      Issued entry dir commands ∧
      Renamed config world current renamed target entry dir commands) raised := by
  simp only [moveAway, ensures_bind, ensures_ite]
  refine (shifted.unasked.ensures_dmtcpCommand .checkpoint).imp ?_
  rintro stderr asked ⟨ended, checkpointed⟩
  refine ⟨fun succeeded => ?_, fun failed => ?_⟩
  · subst succeeded
    refine (checkpointed.ensures_dmtcpCommand .kill).imp ?_
    rintro stderr' asked' ⟨ended', killed⟩
    refine ⟨fun succeeded => ?_, fun failed => ?_⟩
    · subst succeeded
      exact (killed.ensures_rename nodup member fresh (by simp)).imp fun _ _ renamed =>
        ⟨_, _, .killed, renamed⟩
    · exact (killed.ensures_rename nodup member fresh (by simp)).imp fun _ _ renamed =>
        ⟨_, _, .unkilled failed, renamed⟩
  · exact (checkpointed.ensures_rename nodup member fresh (by simp)).imp fun _ _ renamed =>
      ⟨_, _, .uncheckpointed failed, renamed⟩

/-- The entry is taken off the list after what its plugin may have written meanwhile. -/
theorem Renamed.remove {renamed : World} {dir : Dir} {commands : List Command}
    (before : Renamed config world current renamed target entry dir commands)
    (nodup : world.runningApps.Nodup)
    (listed : ∀ other ∈ current.runningPidPort, other ∈ world.runningPidPort) :
    Departed config world current
      { renamed.advance (config.schedule renamed.clock) with
        runningPidPort :=
          (renamed.advance (config.schedule renamed.clock)).runningPidPort.erase entry }
      target entry dir commands := by
  obtain ⟨list, departed⟩ := before
  have stirs := stirs_advance renamed (config.schedule renamed.clock)
  have listed' : ∀ other ∈ renamed.runningPidPort, other ∈ world.runningPidPort :=
    fun other member => listed other (list ▸ member)
  refine ⟨departed.shifted.happen rfl ?_ stirs.kept ?_ ?_ files_advance_of_unwritten, ?_,
    stirs.table.trans departed.table, stirs.commands.trans departed.sent⟩
  · show List.erase _ _ = _
    rw [stirs.list]
  · intro other among found
    refine (stirs.found _ found).imp_right ?_
    rintro ⟨writer, member, happens, place⟩
    have sameApp : other.app = writer.app := statFile_injective (Prod.mk.inj place).2
    rwa [List.inj_on_of_nodup_map nodup among (listed' writer member) sameApp]
  · exact fun place elsewhere =>
      lookup_advance _ fun other member => elsewhere other (listed' other member)
  · show List.erase _ _ = _
    rw [stirs.list, list]

/-- An entry outside the plan leaves the list with the commands and to the directory that fit. -/
theorem Shifted.ensures_preempt (shifted : Shifted config world current target)
    (nodup : world.runningApps.Nodup) (member : entry ∈ current.runningPidPort)
    (fresh : ∀ other ∈ world.runningPidPort, other ∉ current.runningPidPort →
      (target other).2 ≠ statFile entry.app) :
    Ensures (preempt config entry) current (fun _ next => ∃ dir commands,
      Issued entry dir commands ∧
      Departed config world current next target entry dir commands) raised := by
  simp only [preempt, removeEntry, ensures_bind, ensures_observe_iff, ensures_modify, ensures_pure]
  refine (shifted.ensures_moveAway nodup member fresh).imp ?_
  rintro _ renamed ⟨dir, commands, issued, moved⟩
  exact ⟨dir, commands, issued, moved.remove nodup fun _ listed =>
    shifted.list.subset listed⟩

/-- `stop_running` in between: `order` are the entries taken off the list so far. -/
structure Stopping (config : Config) (world current : World) (dir : Entry → Dir)
    (issued : Entry → List Command) (order : List Entry) : Prop where
  shifted : Shifted config world current fun entry => (dir entry, statFile entry.app)
  table : current.appStatsMap = world.appStatsMap
  sent : current.commands = world.commands ++ order.flatMap issued
  issued : ∀ entry ∈ order, Issued entry (dir entry) (issued entry)
  removed : ∀ entry, entry ∈ order ↔ entry ∈ world.runningPidPort ∧
    entry ∉ current.runningPidPort
  nodup : order.Nodup

theorem Stopping.depart {dir : Entry → Dir} {issued : Entry → List Command} {order : List Entry}
    {place : Dir} {commands : List Command}
    (stopping : Stopping config world current dir issued order)
    (nodup : world.runningApps.Nodup) (member : entry ∈ current.runningPidPort)
    (command : Issued entry place commands)
    (departed : Departed config world current next
      (fun entry => (dir entry, statFile entry.app)) entry place commands) :
    Stopping config world next (Function.update dir entry place)
      (Function.update issued entry commands) (order ++ [entry]) := by
  have listed := stopping.shifted.list.subset member
  have young : entry ∉ order := fun old => ((stopping.removed entry).mp old).2 member
  have others : ∀ other ∈ order, other ≠ entry := fun other old same => young (same ▸ old)
  refine ⟨?_, departed.table.trans stopping.table, ?_, ?_, ?_, ?_⟩
  · have same : Function.update (fun entry => (dir entry, statFile entry.app)) entry
        (place, statFile entry.app) =
        fun other => (Function.update dir entry place other, statFile other.app) := by
      funext other
      by_cases same : other = entry
      · rw [same, Function.update_self, Function.update_self]
      · rw [Function.update_of_ne same, Function.update_of_ne same]
    exact same ▸ departed.shifted
  · have kept : order.flatMap (Function.update issued entry commands) = order.flatMap issued :=
      List.flatMap_congr fun other old => Function.update_of_ne (others other old) ..
    rw [departed.sent, stopping.sent, List.flatMap_append, kept, List.flatMap_singleton,
      Function.update_self, List.append_assoc]
  · intro other among
    rcases List.mem_append.mp among with old | new
    · rw [Function.update_of_ne (others other old), Function.update_of_ne (others other old)]
      exact stopping.issued other old
    · rw [List.mem_singleton.mp new, Function.update_self, Function.update_self]
      exact command
  · intro other
    rw [departed.list, ((nodup.of_map _).sublist stopping.shifted.list).mem_erase_iff,
      List.mem_append, stopping.removed, List.mem_singleton]
    by_cases same : other = entry
    · simp [same, listed]
    · simp [same]
  · exact List.nodup_append.mpr ⟨stopping.nodup, List.nodup_singleton _, fun other old _ new =>
      List.mem_singleton.mp new ▸ others other old⟩

theorem ensures_stopRunning_swept (plan : List Text) (nodup : world.runningApps.Nodup)
    (backed : Backed world) :
    Ensures (stopRunning config plan) world (fun _ next =>
      (∃ dir issued order, Stopping config world next dir issued order) ∧
      Sweep (fun entry => ¬ entry.app ∉ plan) (fun entry => entry.app ∉ plan)
        world.runningPidPort next.runningPidPort) fun _ => False := by
  refine ensures_sweep (fun _ _ => ?_) ?_
    ⟨fun _ => .queued, fun _ => [], [], shifted_refl backed _, rfl, by simp, by simp, by simp,
      List.nodup_nil⟩
  · rintro ⟨dir, issued, order, stopping⟩
    exact (nodup.of_map _).sublist stopping.shifted.list
  · rintro _ entry current ⟨dir, issued, order, stopping⟩ member
    rw [stopEntry, ensures_ite]
    refine ⟨fun outside => ?_, fun inside => ?_⟩
    · rw [ensures_bind]
      refine (stopping.shifted.ensures_preempt nodup member fun other among gone same => ?_).imp ?_
      · have sameApp := statFile_injective same
        have listed := stopping.shifted.list.subset member
        exact gone (List.inj_on_of_nodup_map nodup among listed sameApp ▸ member)
      · rintro _ next ⟨place, commands, command, departed⟩
        exact ⟨(), rfl, ⟨_, _, _, stopping.depart nodup member command departed⟩,
          Or.inr ⟨departed.list, outside⟩⟩
    · exact ⟨(), rfl, ⟨dir, issued, order, stopping⟩, Or.inl ⟨rfl, inside⟩⟩

/-- What `stop_running` is for: exactly the entries outside the plan are preempted. -/
structure PreemptedExactly (config : Config) (plan : List Text) (world next : World) : Prop where
  list : next.runningPidPort = world.runningPidPort.filter fun entry => entry.app ∈ plan
  table : next.appStatsMap = world.appStatsMap
  moved : ∃ (dir : Entry → Dir) (issued : Entry → List Command) (order : List Entry),
    order.Perm (world.runningPidPort.filter fun entry => entry.app ∉ plan) ∧
    next.commands = world.commands ++ order.flatMap issued ∧
    (∀ entry ∈ order, Issued entry (dir entry) (issued entry)) ∧
    Shifted config world next fun entry => (dir entry, statFile entry.app)

theorem Stopping.preemptedExactly {plan : List Text} {dir : Entry → Dir}
    {issued : Entry → List Command} {order : List Entry}
    (stopping : Stopping config world current dir issued order) (nodup : world.runningApps.Nodup)
    (list : current.runningPidPort = world.runningPidPort.filter fun entry => entry.app ∈ plan) :
    PreemptedExactly config plan world current := by
  refine ⟨list, stopping.table, dir, issued, order, ?_, stopping.sent, stopping.issued,
    stopping.shifted⟩
  refine (List.perm_ext_iff_of_nodup stopping.nodup ((nodup.of_map _).filter _)).mpr ?_
  intro entry
  rw [stopping.removed, list, List.mem_filter, List.mem_filter]
  simp +contextual

/-- `stop_running` preempts exactly the apps outside the plan when no two of them are neighbours in
the list, and only then. -/
theorem stopRunning_preempts_exactly_iff (plan : List Text) (nodup : world.runningApps.Nodup)
    (backed : Backed world) :
    (∃ next, (stopRunning config plan).run world = .ok ((), next) ∧
      PreemptedExactly config plan world next) ↔
    world.runningPidPort.IsChain fun first second => ¬ (first.app ∉ plan ∧ second.app ∉ plan) := by
  obtain ⟨_, next, ran, ⟨dir, issued, order, stopping⟩, swept⟩ :=
    (ensures_stopRunning_swept plan nodup backed).returns
  constructor
  · rintro ⟨next', ran', preempted⟩
    rw [ran] at ran'
    cases ran'
    refine swept.apart fun entry member => ?_
    rw [preempted.list] at member
    simpa using (List.mem_filter.mp member).2
  · intro apart
    refine ⟨next, ran, stopping.preemptedExactly nodup ?_⟩
    rw [swept.eq_filter apart]
    simp

/-- The second of two neighbours outside the plan stays in the list. -/
theorem second_unplanned_neighbour_stays :
    (twoListed .running .running).runningApps.Nodup ∧ Backed (twoListed .running .running) ∧
    ¬ ∃ next, (stopRunning (undisturbed []) []).run (twoListed .running .running) =
      .ok ((), next) ∧ PreemptedExactly (undisturbed []) [] (twoListed .running .running) next := by
  refine ⟨(twoListed_cleanable _ _).nodup, twoListed_backed _ _, ?_⟩
  rintro ⟨next, ran, preempted⟩
  have left : ((stopRunning (undisturbed []) []).run (twoListed .running .running)).map
      (fun result => result.2.runningPidPort) = .ok [⟨"b".toList, 1, 7002⟩] := by
    decide +kernel
  rw [ran] at left
  have stays : next.runningPidPort = [⟨"b".toList, 1, 7002⟩] := Except.ok.inj left
  have none : next.runningPidPort = [] := by
    rw [preempted.list]
    decide +kernel
  rw [stays] at none
  cases none

/-- One outside the plan beside one in it. -/
theorem unplanned_app_preempted_exactly :
    ∃ next, (stopRunning (undisturbed []) ["b".toList]).run (twoListed .running .running) =
      .ok ((), next) ∧
      PreemptedExactly (undisturbed []) ["b".toList] (twoListed .running .running) next :=
  (stopRunning_preempts_exactly_iff _ (twoListed_cleanable _ _).nodup (twoListed_backed _ _)).mpr
    (by decide +kernel)

end ClusterJobs
