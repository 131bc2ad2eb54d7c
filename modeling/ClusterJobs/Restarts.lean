/-
This file follows the statistics plugin through chains of restarts, with any number of threads and
any sequence of events and alarms.

The mode of a restart is in the environment of the restarted process, and the plugin copies it to
its globals at the event of the first user thread. From then on nothing the image has kept is looked
at any more: without a mode the plugin does nothing, in the mode `ONCE` the first checkpoint that
finishes ends the process with one record written, and in the mode `INFINITE` each alarm writes a
record and sets the next alarm.

What the plugin does not do is to give back what it opens. Every further thread opens eight counters
over those of the thread before, and every record leaves a stream open. The streams go with the
image: the next restart begins with those of all the restarts before it.
-/

import ClusterJobs.Plugin

namespace ClusterJobs

open Python

namespace Plugin

/-! ### Restarts -/

/-- What happens to a process: an event for the hook, or an alarm whose time is up. With each goes
what a record would hold at that moment. -/
inductive Occurrence
  | event (event : DmtcpEvent) (record : StatRecord)
  | alarm (record : StatRecord)

/-- The values of `STATFILE` and `STATGEN` the scripts use: both empty, or a file with `ONCE` or
`INFINITE`. -/
inductive Mode (Path : Type)
  | off
  | once (statfile : Path)
  | infinite (statfile : Path)

variable {Path : Type}

def Mode.env : Mode Path → Env Path
  | .off => ⟨none, some []⟩
  | .once statfile => ⟨some statfile, some "ONCE".toList⟩
  | .infinite statfile => ⟨some statfile, some "INFINITE".toList⟩

/-- A restart: its mode, the files it finds, and what happens to the process from the event of its
first user thread on. The events of the other threads are among the later ones. -/
structure Restart (Path : Type) where
  mode : Mode Path
  files : AList fun _ : Path => Text
  first : StatRecord
  events : List Occurrence

/-- What a checkpoint keeps of a process. A pending alarm is not kept. -/
def Host.image (host : Host Path) : Image Path where
  fd := host.fd
  filename := host.filename
  type := host.type
  handler := host.handler
  streams := host.streams

section Runs

variable [DecidableEq Path]

/-- `SIGALRM`. It comes when an alarm is pending, and ends a process without a handler. -/
def ring (perfEventOpen : PerfEventOpen) (record : StatRecord) (host : Host Path) : Host Path :=
  if host.ended = true ∨ host.alarm = false then host
  else if host.handler then sigalrmHandler perfEventOpen record { host with alarm := false }
  else { host with alarm := false, ended := true }

def occur (perfEventOpen : PerfEventOpen) (env : Env Path) (host : Host Path) :
    Occurrence → Host Path
  | .event event record => deliver perfEventOpen env record host event
  | .alarm record => ring perfEventOpen record host

/-- The process after a restart from an image. -/
def Restart.run (perfEventOpen : PerfEventOpen) (image : Image Path) (restart : Restart Path) :
    Host Path :=
  (Occurrence.event (.resumeUserThread true) restart.first :: restart.events).foldl
    (occur perfEventOpen restart.mode.env) (image.revive restart.files)

/-- The image after a chain of restarts, each from an image of the process before. The first one is
of a process that has never been restarted. -/
def chain (perfEventOpen : PerfEventOpen) (restarts : List (Restart Path)) : Image Path :=
  restarts.foldl (fun image restart => (restart.run perfEventOpen image).image) {}

/-! ### What each mode promises -/

def Occurrence.alarmed : Occurrence → Option StatRecord
  | .alarm record => some record
  | .event _ _ => none

def Occurrence.resumed : Occurrence → Option StatRecord
  | .event .resume record => some record
  | _ => none

/-- What the last alarm finds to write. -/
def lastAlarm (events : List Occurrence) : Option StatRecord :=
  events.reverse.findSome? Occurrence.alarmed

/-- What the first checkpoint that finishes finds to write. -/
def firstResume (events : List Occurrence) : Option StatRecord :=
  events.findSome? Occurrence.resumed

/-- The files when a record has been written to one of them, which then holds nothing else. -/
def recorded (statfile : Path) (record : Option StatRecord) (files : AList fun _ : Path => Text) :
    AList fun _ : Path => Text :=
  match record with
  | none => files
  | some record => files.insert statfile record.text

/-- The plugin has followed the mode up to some point of a run. -/
def Mode.Followed (mode : Mode Path) (files : AList fun _ : Path => Text)
    (events : List Occurrence) (host : Host Path) : Prop :=
  match mode with
  | .off => host.ended = false ∧ host.alarm = false ∧ host.files = files
  | .once statfile => host.ended = (firstResume events).isSome ∧ host.alarm = false ∧
      host.files = recorded statfile (firstResume events) files
  | .infinite statfile => host.ended = false ∧ host.alarm = true ∧
      host.files = recorded statfile (lastAlarm events) files

theorem lastAlarm_append (events : List Occurrence) (occurrence : Occurrence) :
    lastAlarm (events ++ [occurrence]) = occurrence.alarmed.or (lastAlarm events) := by
  rw [lastAlarm, List.reverse_append, List.reverse_singleton, List.singleton_append,
    List.findSome?_cons]
  cases occurrence.alarmed <;> rfl

theorem firstResume_append (events : List Occurrence) (occurrence : Occurrence) :
    firstResume (events ++ [occurrence]) = (firstResume events).or occurrence.resumed := by
  rw [firstResume, List.findSome?_append, List.findSome?_singleton]
  rfl

theorem recorded_insert (statfile : Path) (before : Option StatRecord) (record : StatRecord)
    (files : AList fun _ : Path => Text) :
    (recorded statfile before files).insert statfile record.text =
      recorded statfile (some record) files := by
  cases before with
  | none => rfl
  | some earlier => exact AList.insert_insert ..

/-! ### One occurrence -/

section Modes

variable {perfEventOpen : PerfEventOpen} {env : Env Path} {host : Host Path} {statfile : Path}
  {files : AList fun _ : Path => Text}

def Occurrence.isThread : Occurrence → Bool
  | .event (.resumeUserThread true) _ => true
  | _ => false

def Occurrence.isAlarm : Occurrence → Bool
  | .alarm _ => true
  | .event _ _ => false

/-- An occurrence is an alarm, the end of a checkpoint, a restarted thread, or nothing to the
plugin. -/
theorem occur_cases (perfEventOpen : PerfEventOpen) (env : Env Path) (host : Host Path)
    (occurrence : Occurrence) :
    (∃ record, occurrence = .alarm record) ∨ (∃ record, occurrence = .event .resume record) ∨
      (∃ record, occurrence = .event (.resumeUserThread true) record) ∨
      (occur perfEventOpen env host occurrence = host ∧ occurrence.alarmed = none ∧
        occurrence.resumed = none ∧ occurrence.isThread = false ∧ occurrence.isAlarm = false) := by
  have nothing : ∀ event record, dmtcpEventHook perfEventOpen env record host event = host →
      deliver perfEventOpen env record host event = host := by
    intro event record same
    rw [deliver, same, ite_self]
  cases occurrence with
  | alarm record => exact Or.inl ⟨record, rfl⟩
  | event event record =>
    cases event with
    | resume => exact Or.inr (Or.inl ⟨record, rfl⟩)
    | resumeUserThread isRestart =>
      cases isRestart with
      | true => exact Or.inr (Or.inr (Or.inl ⟨record, rfl⟩))
      | false => exact Or.inr (Or.inr (Or.inr ⟨nothing _ _ rfl, rfl, rfl, rfl, rfl⟩))
    | other => exact Or.inr (Or.inr (Or.inr ⟨nothing _ _ rfl, rfl, rfl, rfl, rfl⟩))

theorem occur_ended (ended : host.ended = true) (occurrence : Occurrence) :
    occur perfEventOpen env host occurrence = host := by
  cases occurrence with
  | alarm record => exact if_pos (Or.inl ended)
  | event event record => exact if_pos ended

/-- No alarm comes that was not set. -/
theorem occur_alarm_unset (unset : host.alarm = false) (record : StatRecord) :
    occur perfEventOpen env host (.alarm record) = host :=
  if_pos (Or.inr unset)

/-- The end of a checkpoint matters only to a process that is to write one record. -/
theorem occur_resume_other (other : host.type ≠ some "ONCE".toList) (record : StatRecord) :
    occur perfEventOpen env host (.event .resume record) = host := by
  show (if host.ended then host else _) = host
  rw [dmtcpEventHook, if_neg other, ite_self]

/-! ### Without a mode -/

/-- The plugin has nothing to write. -/
structure Idle (files : AList fun _ : Path => Text) (host : Host Path) : Prop where
  type : host.type = some []
  alarm : host.alarm = false
  files : host.files = files
  ended : host.ended = false

theorem idle_thread (record : StatRecord) (alive : host.ended = false)
    (silent : host.alarm = false) :
    Idle host.files (occur perfEventOpen (Mode.off : Mode Path).env host
      (.event (.resumeUserThread true) record)) := by
  rw [occur, deliver, alive]
  exact ⟨rfl, silent, rfl, alive⟩

theorem Idle.occur (idle : Idle files host) (occurrence : Occurrence) :
    Idle files (occur perfEventOpen (Mode.off : Mode Path).env host occurrence) := by
  rcases occur_cases perfEventOpen Mode.off.env host occurrence with
    ⟨record, rfl⟩ | ⟨record, rfl⟩ | ⟨record, rfl⟩ | ⟨same, _⟩
  · rwa [occur_alarm_unset idle.alarm]
  · rwa [occur_resume_other (by rw [idle.type]; decide)]
  · have again : Idle host.files (Plugin.occur perfEventOpen Mode.off.env host _) :=
      idle_thread record idle.ended idle.alarm
    rwa [idle.files] at again
  · rwa [same]

theorem Idle.run (idle : Idle files host) (events : List Occurrence) :
    Idle files (events.foldl (Plugin.occur perfEventOpen (Mode.off : Mode Path).env) host) := by
  induction events generalizing host with
  | nil => exact idle
  | cons occurrence events inductionHypothesis => exact inductionHypothesis (idle.occur occurrence)

/-! ### One record -/

/-- The counters are open until the first checkpoint has finished. Then the record is written and
the process has ended. -/
theorem Primed.run (opens : Opens perfEventOpen) (primed : Primed statfile files host)
    (events : List Occurrence) :
    firstResume events = none ∧ Primed statfile files
        (events.foldl (occur perfEventOpen (Mode.once statfile).env) host) ∨
      ((events.foldl (occur perfEventOpen (Mode.once statfile).env) host).ended = true ∧
        (Mode.once statfile).Followed files events
          (events.foldl (occur perfEventOpen (Mode.once statfile).env) host)) := by
  induction events using List.reverseRecOn with
  | nil => exact Or.inl ⟨rfl, primed⟩
  | append_singleton events occurrence inductionHypothesis =>
    rw [List.foldl_append, List.foldl_cons, List.foldl_nil, firstResume_append]
    generalize events.foldl (occur perfEventOpen (Mode.once statfile).env) host = current at *
    rcases inductionHypothesis with ⟨none, primed⟩ | ⟨ended, followed⟩
    · rcases occur_cases perfEventOpen (Mode.once statfile).env current occurrence with
        ⟨record, rfl⟩ | ⟨record, rfl⟩ | ⟨record, rfl⟩ | ⟨same, _, resumed, _⟩
      · rw [occur_alarm_unset primed.alarm, none]
        exact Or.inl ⟨rfl, primed⟩
      · obtain ⟨ended, written, silent⟩ := primed.resume perfEventOpen
          (Mode.once statfile).env record
        refine Or.inr ⟨ended, ?_⟩
        rw [Mode.Followed, firstResume_append, none]
        exact ⟨ended, silent, written⟩
      · have again : Primed statfile current.files (occur perfEventOpen (Mode.once statfile).env
            current (.event (.resumeUserThread true) record)) :=
          primed_resumeUserThread opens record statfile primed.ended primed.alarm
        rw [primed.files] at again
        exact Or.inl ⟨by rw [none]; rfl, again⟩
      · rw [same, none, resumed]
        exact Or.inl ⟨rfl, primed⟩
    · obtain ⟨isSome, silent, written⟩ := followed
      have kept : (firstResume events).or occurrence.resumed = firstResume events := by
        rw [ended] at isSome
        exact Option.or_of_isSome isSome.symm
      rw [occur_ended ended, Mode.Followed, firstResume_append, kept]
      exact Or.inr ⟨ended, isSome, silent, written⟩

/-! ### Records again and again -/

/-- The plugin has been set up by a number of threads, and has a number of streams open. -/
structure Ticking (statfile : Path) (files : AList fun _ : Path => Text) (threads streams : Nat)
    (host : Host Path) : Prop where
  armed : Armed (List.finRange 8) host
  filename : host.filename = some statfile
  type : host.type = some "INFINITE".toList
  handler : host.handler = true
  alarm : host.alarm = true
  files : host.files = files
  ended : host.ended = false
  descriptors : host.descriptors.length = 8 * threads
  streams : host.streams = streams

omit [DecidableEq Path] in
/-- Setting up opens eight counters and sets the alarm. -/
theorem ticking_setupPerfCtr {threads streams : Nat} (opens : Opens perfEventOpen)
    (alive : host.ended = false) (filename : host.filename = some statfile)
    (type : host.type = some "INFINITE".toList) (handler : host.handler = true)
    (descriptors : host.descriptors.length = 8 * threads) (leaked : host.streams = streams) :
    Ticking statfile host.files (threads + 1) streams (setupPerfCtr perfEventOpen host) := by
  obtain ⟨armed, same, grown⟩ := armed_invokeCtr opens alive
  have repeats : "INFINITE".toList ≠ "ONCE".toList := by decide
  have set : setupPerfCtr perfEventOpen host =
      { invokeCtr perfEventOpen host with alarm := true } := by
    rw [setupPerfCtr]
    simp only [same.ended, alive, same.type, type, Bool.false_eq_true, if_false, if_pos repeats]
  rw [set]
  refine ⟨⟨armed.holds, armed.distinct⟩, same.filename.trans filename, same.type.trans type,
    same.handler.trans handler, rfl, same.files, same.ended.trans alive, ?_,
    grown.streams.trans leaked⟩
  rw [Nat.mul_succ, ← descriptors]
  exact grown.descriptors

/-- The event of a user thread, for whatever the globals hold. -/
theorem ticking_thread {threads streams : Nat} (opens : Opens perfEventOpen) (statfile : Path)
    (record : StatRecord) (alive : host.ended = false)
    (descriptors : host.descriptors.length = 8 * threads) (leaked : host.streams = streams) :
    Ticking statfile host.files (threads + 1) streams (occur perfEventOpen
      (Mode.infinite statfile).env host (.event (.resumeUserThread true) record)) := by
  let informed : Host Path := { host with
    filename := some statfile, type := some "INFINITE".toList, handler := host.handler || true }
  have shape : occur perfEventOpen (Mode.infinite statfile).env host
      (.event (.resumeUserThread true) record) = setupPerfCtr perfEventOpen informed := by
    rw [occur, deliver, alive]
    rfl
  have aliveNow : informed.ended = false := alive
  have ticking : Ticking statfile informed.files (threads + 1) streams
      (setupPerfCtr perfEventOpen informed) :=
    ticking_setupPerfCtr opens aliveNow rfl rfl (Bool.or_true _) descriptors leaked
  rwa [shape]

/-- An alarm: the record is written, the counters are opened anew and the next alarm is set. -/
theorem Ticking.ring {threads streams : Nat} (opens : Opens perfEventOpen)
    (ticking : Ticking statfile files (threads + 1) streams host) (record : StatRecord) :
    Ticking statfile (files.insert statfile record.text) (threads + 1) (streams + 1)
      (occur perfEventOpen env host (.alarm record)) := by
  let silenced : Host Path := { host with alarm := false }
  have alive : silenced.ended = false := ticking.ended
  have armed : Armed (List.finRange 8) silenced :=
    ⟨ticking.armed.holds, ticking.armed.distinct⟩
  obtain ⟨next, handled, after⟩ :=
    sigalrmHandler_armed perfEventOpen record alive armed ticking.filename
  have pending : ¬ (host.ended = true ∨ host.alarm = false) := by
    rw [ticking.ended, ticking.alarm]
    decide
  have infinite : next.type = some "INFINITE".toList := after.type.trans ticking.type
  have rung : occur perfEventOpen env host (.alarm record) = setupPerfCtr perfEventOpen next := by
    have repeats : ¬ "INFINITE".toList = "ONCE".toList := by decide
    rw [occur, Plugin.ring, if_neg pending, if_pos ticking.handler, handled, afterRecord, infinite]
    simp only [if_neg repeats, if_true]
  rw [rung, ← ticking.files]
  have files : next.files = host.files.insert statfile record.text := after.files
  rw [← files]
  refine ticking_setupPerfCtr opens after.ended (after.filename.trans ticking.filename) infinite
    (after.handler.trans ticking.handler) ?_ (after.streams.trans (by rw [← ticking.streams]))
  have shrunk : host.descriptors.length = next.descriptors.length + 8 := after.descriptors
  have total := ticking.descriptors
  omega

/-- A whole run in the mode `INFINITE`, after the event of the first thread. -/
theorem Ticking.run {streams : Nat} (opens : Opens perfEventOpen)
    (ticking : Ticking statfile files 1 streams host) (events : List Occurrence) :
    Ticking statfile (recorded statfile (lastAlarm events) files)
      (events.countP Occurrence.isThread + 1) (streams + events.countP Occurrence.isAlarm)
      (events.foldl (occur perfEventOpen (Mode.infinite statfile).env) host) := by
  induction events using List.reverseRecOn with
  | nil => exact ticking
  | append_singleton events occurrence inductionHypothesis =>
    rw [List.foldl_append, List.foldl_cons, List.foldl_nil, lastAlarm_append, List.countP_append,
      List.countP_append, List.countP_singleton, List.countP_singleton]
    generalize events.foldl (occur perfEventOpen (Mode.infinite statfile).env) host = current at *
    rcases occur_cases perfEventOpen (Mode.infinite statfile).env current occurrence with
      ⟨record, rfl⟩ | ⟨record, rfl⟩ | ⟨record, rfl⟩ | ⟨same, alarmed, _, isThread, isAlarm⟩
    · have rung : Ticking statfile _ _ _ (occur perfEventOpen (Mode.infinite statfile).env current
          (.alarm record)) := inductionHypothesis.ring opens record
      rw [recorded_insert] at rung
      exact rung
    · rw [occur_resume_other (by rw [inductionHypothesis.type]; decide)]
      exact inductionHypothesis
    · have again := ticking_thread opens statfile record inductionHypothesis.ended
        inductionHypothesis.descriptors inductionHypothesis.streams
      rw [inductionHypothesis.files] at again
      exact again
    · rw [same, alarmed, isThread, isAlarm]
      exact inductionHypothesis

/-- The process after a restart in the mode `INFINITE`, from whatever image. -/
theorem ticking_restart (opens : Opens perfEventOpen) (image : Image Path) (statfile : Path)
    (files : AList fun _ : Path => Text) (first : StatRecord) (events : List Occurrence) :
    Ticking statfile (recorded statfile (lastAlarm events) files)
      (events.countP Occurrence.isThread + 1) (image.streams + events.countP Occurrence.isAlarm)
      (Restart.run perfEventOpen image ⟨.infinite statfile, files, first, events⟩) := by
  have none : (image.revive files).descriptors.length = 8 * 0 := rfl
  have alive : (image.revive files).ended = false := rfl
  exact (ticking_thread opens statfile first alive none rfl).run opens events

/-! ### The mode of the latest restart -/

/-- After any chain of restarts, whatever their modes, the plugin follows the mode of the latest
one: for any number of threads, and any sequence of events and alarms. -/
theorem latest_mode_followed (opens : Opens perfEventOpen) (earlier : List (Restart Path))
    (latest : Restart Path) :
    latest.mode.Followed latest.files latest.events
      (latest.run perfEventOpen (chain perfEventOpen earlier)) := by
  obtain ⟨mode, files, first, events⟩ := latest
  generalize chain perfEventOpen earlier = image
  have alive : (image.revive files).ended = false := rfl
  have silent : (image.revive files).alarm = false := rfl
  cases mode with
  | off =>
    have idle : Idle files (Restart.run perfEventOpen image ⟨.off, files, first, events⟩) :=
      (idle_thread first alive silent).run events
    exact ⟨idle.ended, idle.alarm, idle.files⟩
  | once statfile =>
    have primed := primed_resumeUserThread opens first statfile alive silent
    rcases primed.run opens events with ⟨none, still⟩ | ⟨_, followed⟩
    · rw [Mode.Followed, none]
      exact ⟨still.ended, still.alarm, still.files⟩
    · exact followed
  | infinite statfile =>
    have ticking := ticking_restart opens image statfile files first events
    exact ⟨ticking.ended, ticking.alarm, ticking.files⟩

/-- A restart to write once, whose image is taken before a checkpoint has finished. -/
def onceSample : Restart Nat := ⟨.once 0, ∅, sampleRecord, [.event .other sampleRecord]⟩

/-- A restart to write again and again, with two threads, an alarm, and a checkpoint after it. -/
def infiniteSample : Restart Nat :=
  ⟨.infinite 1, ∅, sampleRecord, [.event (.resumeUserThread true) sampleRecord,
    .alarm sampleRecord, .event .resume sampleRecord]⟩

theorem infinite_after_once :
    (infiniteSample.run nextDescriptor (chain nextDescriptor [onceSample])).ended = false ∧
      (infiniteSample.run nextDescriptor (chain nextDescriptor [onceSample])).alarm = true ∧
      (infiniteSample.run nextDescriptor (chain nextDescriptor [onceSample])).files =
        (∅ : AList fun _ : Nat => Text).insert 1 sampleRecord.text :=
  latest_mode_followed opens_nextDescriptor [onceSample] infiniteSample

/-! ### Descriptors and streams -/

omit [DecidableEq Path] in
/-- Eight open descriptors are those in the slots. -/
theorem Armed.held (armed : Armed (List.finRange 8) host) (few : host.descriptors.length ≤ 8)
    {fd : Nat} (member : fd ∈ host.descriptors) : ∃ i, host.fd i = some fd := by
  have holds : ∀ i, ∃ fd, host.fd i = some fd ∧ fd ∈ host.descriptors := fun i =>
    (armed.holds i (List.mem_finRange i)).elim fun fd inUse => ⟨fd + 1, inUse⟩
  choose slot found inUse using holds
  have injective : Function.Injective slot := fun i j same =>
    armed.distinct i (List.mem_finRange i) j (List.mem_finRange j)
      (by rw [found i, found j, same])
  have nodup : ((List.finRange 8).map slot).Nodup := (List.nodup_finRange 8).map injective
  have within : ((List.finRange 8).map slot).Subperm host.descriptors := by
    refine List.subperm_of_subset nodup fun fd inside => ?_
    obtain ⟨i, _, rfl⟩ := List.mem_map.mp inside
    exact inUse i
  have all := within.perm_of_length_le (by simpa using few)
  obtain ⟨i, _, rfl⟩ := List.mem_map.mp (all.mem_iff.mpr member)
  exact ⟨i, found i⟩

/-- The plugin holds open at most the eight counters in `fd[]`, and no stream. -/
structure Tidy (host : Host Path) : Prop where
  held : ∀ fd ∈ host.descriptors, ∃ i, host.fd i = some fd
  few : host.descriptors.length ≤ 8
  closed : host.streams = 0

/-- Between the events of a restart in the mode `INFINITE` the plugin holds no more than its eight
counters exactly when the image has no stream, there is a single user thread and no alarm comes. -/
theorem descriptors_balanced_iff (opens : Opens perfEventOpen) (image : Image Path)
    (statfile : Path) (files : AList fun _ : Path => Text) (first : StatRecord)
    (events : List Occurrence) :
    (∀ before, before <+: events →
      Tidy (Restart.run perfEventOpen image ⟨.infinite statfile, files, first, before⟩)) ↔
    image.streams = 0 ∧ events.countP Occurrence.isThread = 0 ∧
      events.countP Occurrence.isAlarm = 0 := by
  constructor
  · intro tidy
    have whole := tidy events (List.prefix_refl events)
    have ticking := ticking_restart opens image statfile files first events
    have few := whole.few
    rw [ticking.descriptors] at few
    have closed := ticking.streams.symm.trans whole.closed
    exact ⟨by omega, by omega, by omega⟩
  · rintro ⟨noStream, noThread, noAlarm⟩ before ahead
    have ticking := ticking_restart opens image statfile files first before
    have fewThreads := ahead.sublist.countP_le (p := Occurrence.isThread)
    have fewAlarms := ahead.sublist.countP_le (p := Occurrence.isAlarm)
    have few : (Restart.run perfEventOpen image
        ⟨.infinite statfile, files, first, before⟩).descriptors.length ≤ 8 := by
      rw [ticking.descriptors]
      omega
    exact ⟨fun fd member => ticking.armed.held few member, few, by rw [ticking.streams]; omega⟩

theorem single_thread_balanced :
    Tidy (Restart.run nextDescriptor {} ⟨.infinite 0, ∅, sampleRecord,
      [.event .resume sampleRecord]⟩) :=
  (descriptors_balanced_iff opens_nextDescriptor {} 0 ∅ sampleRecord
    [.event .resume sampleRecord]).mpr (by decide) _ (List.prefix_refl _)

/-- The second of two threads leaves the eight counters of the first open, and an alarm leaves a
stream, which the next restart opens again. -/
theorem second_thread_and_alarm_leak :
    ¬ Tidy (Restart.run nextDescriptor {} ⟨.infinite 0, ∅, sampleRecord,
      [.event (.resumeUserThread true) sampleRecord]⟩) ∧
    ¬ Tidy (Restart.run nextDescriptor {} ⟨.infinite 0, ∅, sampleRecord,
      [.alarm sampleRecord]⟩) ∧
    ¬ Tidy (Restart.run nextDescriptor (chain nextDescriptor [⟨.infinite 0, ∅, sampleRecord,
      [.alarm sampleRecord]⟩]) ⟨.infinite 0, ∅, sampleRecord, []⟩) := by
  have alarmed := ticking_restart opens_nextDescriptor {} 0 ∅ sampleRecord [.alarm sampleRecord]
  refine ⟨fun tidy => ?_, fun tidy => ?_, fun tidy => ?_⟩
  · have ticking := ticking_restart opens_nextDescriptor {} 0 ∅ sampleRecord
      [.event (.resumeUserThread true) sampleRecord]
    have few := tidy.few
    rw [ticking.descriptors] at few
    exact absurd few (by decide)
  · have closed := tidy.closed
    rw [alarmed.streams] at closed
    exact absurd closed (by decide)
  · have again := ticking_restart opens_nextDescriptor
      (chain nextDescriptor [⟨.infinite 0, ∅, sampleRecord, [.alarm sampleRecord]⟩])
      0 ∅ sampleRecord []
    have kept : (chain nextDescriptor
        [⟨.infinite (0 : Nat), ∅, sampleRecord, [.alarm sampleRecord]⟩]).streams = 1 :=
      alarmed.streams
    have closed := again.streams.symm.trans tidy.closed
    rw [kept] at closed
    exact absurd closed (by decide)

end Modes

end Runs

end Plugin

end ClusterJobs
