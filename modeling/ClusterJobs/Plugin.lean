/-
This file models the statistics plugin that runs inside every checkpointed app
(`dmtcp/src/plugin/myplug/myplug.c`).

After a restart the hook reads from the environment where and how to write statistics and opens
eight counters. A record is written by `sigalrm_handler`, which reads and closes the counters: once,
when the hook is told that a checkpoint has finished, and the process is then ended; or again and
again, and then the counters are opened anew and an alarm is set.

The state is what the functions of the plugin can see and change: its globals, the signal handler
and the alarm, the descriptors and streams it holds open, and the files. A process that has ended
keeps its files and does nothing more. The record is made of what the process finds at that
moment; a counter that is not open any more reads as zero.

The counters are opened by a raw system call DMTCP does not see, so a checkpoint loses them. The
streams are opened by its own wrapper of `fopen`, and a restart opens again those the image has.
-/

import ClusterJobs.StatRecord
import Mathlib.Data.List.FinRange
import Mathlib.Data.List.MinMax
import Mathlib.Logic.Function.Basic

namespace ClusterJobs

open Python

namespace Plugin

/-- The events the hook tells apart. -/
inductive DmtcpEvent
  | resume
  | resumeUserThread (isRestart : Bool)
  | other
  deriving DecidableEq, Repr

/-- `STATFILE` and `STATGEN`. A file name that is not set or empty is `none`. -/
structure Env (Path : Type) where
  statfile : Option Path
  statgen : Option Text

/-- `perf_event_open`: given the descriptors in use, a new one, or nothing when it fails. -/
abbrev PerfEventOpen := List Nat → Option Nat

/-- The process of an app. `fd` holds `none` for -1. -/
structure Host (Path : Type) where
  fd : Fin 8 → Option Nat
  filename : Option Path
  type : Option Text
  handler : Bool
  alarm : Bool
  descriptors : List Nat
  streams : Nat
  files : AList fun _ : Path => Text
  ended : Bool

/-- What a checkpoint image keeps: the globals of the plugin, the handler and the streams. -/
structure Image (Path : Type) where
  fd : Fin 8 → Option Nat := fun _ => none
  filename : Option Path := none
  type : Option Text := none
  handler : Bool := false
  streams : Nat := 0

variable {Path : Type}

/-- The process restarted from an image. -/
def Image.revive (image : Image Path) (files : AList fun _ : Path => Text) : Host Path where
  fd := image.fd
  filename := image.filename
  type := image.type
  handler := image.handler
  alarm := false
  descriptors := []
  streams := image.streams
  files := files
  ended := false

/-! ### The counters -/

/-- `initialize_and_start_perf_attr`. A counter that cannot be opened ends the process. -/
def initializeAndStartPerfAttr (perfEventOpen : PerfEventOpen) (host : Host Path) (i : Fin 8) :
    Host Path :=
  if host.ended then host
  else match perfEventOpen host.descriptors with
    | some fd => { host with
        fd := Function.update host.fd i (some fd), descriptors := fd :: host.descriptors }
    | none => { host with fd := Function.update host.fd i none, ended := true }

def invokeCtr (perfEventOpen : PerfEventOpen) (host : Host Path) : Host Path :=
  (List.finRange 8).foldl (initializeAndStartPerfAttr perfEventOpen) host

/-- `setup_perf_ctr`: the alarm is for the records that are written again and again. A process
without a type does not survive the comparison. -/
def setupPerfCtr (perfEventOpen : PerfEventOpen) (host : Host Path) : Host Path :=
  let host := invokeCtr perfEventOpen host
  if host.ended then host
  else match host.type with
    | none => { host with ended := true }
    | some type => if type ≠ "ONCE".toList then { host with alarm := true } else host

/-- `read_perf_ctr_val`, with the values read so far. The assertion on the descriptor may end the
process; the descriptor is closed, and `fd` keeps it. -/
def readPerfCtrVal (counts : Fin 8 → Int) (read : Host Path × List Int) (i : Fin 8) :
    Host Path × List Int :=
  if read.1.ended then read
  else match read.1.fd i with
    | some (fd + 1) =>
      ({ read.1 with descriptors := read.1.descriptors.erase (fd + 1) },
        read.2 ++ [if fd + 1 ∈ read.1.descriptors then counts i else 0])
    | _ => ({ read.1 with ended := true }, read.2)

/-- `read_ctrs`. The stream for `/proc/self/status` stays open. -/
def readCtrs (record : StatRecord) (host : Host Path) : Host Path × Text :=
  let read := (List.finRange 8).foldl (readPerfCtrVal record.counts)
    ({ host with streams := host.streams + 1 }, [])
  (read.1, ClusterJobs.readCtrs record.status read.2 record.buff)

/-! ### The handler and the hook -/

section Hook

variable [DecidableEq Path]

/-- `outfp = fopen(filename, "w")`. -/
def Host.openStatfile (host : Host Path) (filename : Path) : Host Path :=
  { host with files := host.files.insert filename [], streams := host.streams + 1 }

/-- `fclose(outfp)`: what was written arrives in the file. -/
def Host.closeStatfile (host : Host Path) (filename : Path) (text : Text) : Host Path :=
  { host with files := host.files.insert filename text, streams := host.streams - 1 }

/-- What `sigalrm_handler` does after the record: it ends the process, or prepares the next
record. -/
def afterRecord (perfEventOpen : PerfEventOpen) (host : Host Path) : Host Path :=
  match host.type with
  | none => { host with ended := true }
  | some type =>
    if type = "ONCE".toList then { host with ended := true }
    else if type = "INFINITE".toList then setupPerfCtr perfEventOpen host
    else host

/-- `sigalrm_handler`. A process without a file name does not survive the call of `fopen`. -/
def sigalrmHandler (perfEventOpen : PerfEventOpen) (record : StatRecord) (host : Host Path) :
    Host Path :=
  match host.filename with
  | none => { host with ended := true }
  | some filename =>
    let read := readCtrs record (host.openStatfile filename)
    if read.1.ended then read.1
    else afterRecord perfEventOpen (read.1.closeStatfile filename read.2)

/-- `dmtcp_event_hook`. -/
def dmtcpEventHook (perfEventOpen : PerfEventOpen) (env : Env Path) (record : StatRecord)
    (host : Host Path) : DmtcpEvent → Host Path
  | .resume =>
    if host.type = some "ONCE".toList then sigalrmHandler perfEventOpen record host else host
  | .resumeUserThread true =>
    let host := { host with
      filename := env.statfile
      type := env.statgen
      handler := host.handler || (env.statgen.getD []).length ≠ 0 }
    if host.filename.isSome then setupPerfCtr perfEventOpen host else host
  | .resumeUserThread false => host
  | .other => host

/-- A process that has ended gets no more events. -/
def deliver (perfEventOpen : PerfEventOpen) (env : Env Path) (record : StatRecord)
    (host : Host Path) (event : DmtcpEvent) : Host Path :=
  if host.ended then host else dmtcpEventHook perfEventOpen env record host event

end Hook

/-! ### Open counters -/

/-- `perf_event_open` succeeds: it returns a positive descriptor that is not in use. -/
def Opens (perfEventOpen : PerfEventOpen) : Prop :=
  ∀ descriptors, ∃ fd, perfEventOpen descriptors = some (fd + 1) ∧ fd + 1 ∉ descriptors

/-- Each of these slots holds an open descriptor of its own. -/
structure Armed (slots : List (Fin 8)) (host : Host Path) : Prop where
  holds : ∀ i ∈ slots, ∃ fd, host.fd i = some (fd + 1) ∧ fd + 1 ∈ host.descriptors
  distinct : ∀ i ∈ slots, ∀ j ∈ slots, host.fd i = host.fd j → i = j

/-- What the counters have nothing to do with is as it was. -/
structure SameBut (before after : Host Path) : Prop where
  filename : after.filename = before.filename
  type : after.type = before.type
  handler : after.handler = before.handler
  alarm : after.alarm = before.alarm
  files : after.files = before.files
  ended : after.ended = before.ended

theorem sameBut_refl (host : Host Path) : SameBut host host := ⟨rfl, rfl, rfl, rfl, rfl, rfl⟩

theorem SameBut.trans {first second third : Host Path} (before : SameBut first second)
    (after : SameBut second third) : SameBut first third :=
  ⟨after.filename.trans before.filename, after.type.trans before.type,
    after.handler.trans before.handler, after.alarm.trans before.alarm,
    after.files.trans before.files, after.ended.trans before.ended⟩

/-- A number of descriptors have been opened, and no stream. -/
structure Grown (count : Nat) (before after : Host Path) : Prop where
  descriptors : after.descriptors.length = before.descriptors.length + count
  streams : after.streams = before.streams

theorem grown_refl (host : Host Path) : Grown 0 host host := ⟨rfl, rfl⟩

theorem Grown.trans {count more : Nat} {first second third : Host Path}
    (before : Grown count first second) (after : Grown more second third) :
    Grown (count + more) first third :=
  ⟨by rw [after.descriptors, before.descriptors, Nat.add_assoc],
    after.streams.trans before.streams⟩

section Counters

variable {perfEventOpen : PerfEventOpen} {host : Host Path}

theorem Armed.of_subset {slots others : List (Fin 8)} (armed : Armed slots host)
    (subset : others ⊆ slots) : Armed others host :=
  ⟨fun i member => armed.holds i (subset member),
    fun i member j member' => armed.distinct i (subset member) j (subset member')⟩

/-- Opening the counter of one more slot. -/
theorem armed_initialize (opens : Opens perfEventOpen) (alive : host.ended = false)
    {slots : List (Fin 8)} (armed : Armed slots host) {i : Fin 8} (new : i ∉ slots) :
    Armed (i :: slots) (initializeAndStartPerfAttr perfEventOpen host i) ∧
      SameBut host (initializeAndStartPerfAttr perfEventOpen host i) ∧
      Grown 1 host (initializeAndStartPerfAttr perfEventOpen host i) := by
  obtain ⟨fd, opened, unused⟩ := opens host.descriptors
  have opening : initializeAndStartPerfAttr perfEventOpen host i = { host with
      fd := Function.update host.fd i (some (fd + 1))
      descriptors := (fd + 1) :: host.descriptors } := by
    rw [initializeAndStartPerfAttr, alive, if_neg Bool.false_ne_true, opened]
  rw [opening]
  have kept : ∀ j ∈ slots, Function.update host.fd i (some (fd + 1)) j = host.fd j := by
    intro j member
    refine Function.update_of_ne ?_ _ _
    rintro rfl
    exact new member
  -- The new descriptor was not in use, so no other slot holds it.
  have fresh : ∀ j ∈ slots, host.fd j ≠ some (fd + 1) := by
    intro j member same
    obtain ⟨other, holds, inUse⟩ := armed.holds j member
    rw [holds] at same
    rw [Option.some.inj same] at inUse
    exact unused inUse
  refine ⟨⟨?_, ?_⟩, ⟨rfl, rfl, rfl, rfl, rfl, rfl⟩, ⟨rfl, rfl⟩⟩
  · refine List.forall_mem_cons.mpr ⟨⟨fd, Function.update_self _ _ _, List.mem_cons_self⟩, ?_⟩
    intro j member
    obtain ⟨other, holds, inUse⟩ := armed.holds j member
    exact ⟨other, (kept j member).trans holds, List.mem_cons_of_mem _ inUse⟩
  · intro j member k member' same
    rcases List.mem_cons.mp member with rfl | old <;>
      rcases List.mem_cons.mp member' with rfl | old'
    · rfl
    · exact absurd ((kept k old').symm.trans (same.symm.trans (Function.update_self ..)))
        (fresh k old')
    · exact absurd ((kept j old).symm.trans (same.trans (Function.update_self ..))) (fresh j old)
    · exact armed.distinct j old k old' ((kept j old).symm.trans (same.trans (kept k old')))

theorem armed_foldl_initialize (opens : Opens perfEventOpen) (rest : List (Fin 8))
    (distinct : rest.Nodup) {slots : List (Fin 8)} (new : ∀ i ∈ rest, i ∉ slots)
    {host : Host Path} (alive : host.ended = false) (armed : Armed slots host) :
    Armed (rest ++ slots) (rest.foldl (initializeAndStartPerfAttr perfEventOpen) host) ∧
      SameBut host (rest.foldl (initializeAndStartPerfAttr perfEventOpen) host) ∧
      Grown rest.length host (rest.foldl (initializeAndStartPerfAttr perfEventOpen) host) := by
  induction rest generalizing slots host with
  | nil => exact ⟨armed, sameBut_refl host, grown_refl host⟩
  | cons i rest inductionHypothesis =>
    obtain ⟨absent, distinctRest⟩ := List.nodup_cons.mp distinct
    obtain ⟨newHere, newLater⟩ := List.forall_mem_cons.mp new
    obtain ⟨armedNext, same, grown⟩ := armed_initialize opens alive armed newHere
    have newRest : ∀ j ∈ rest, j ∉ i :: slots := by
      intro j member found
      rcases List.mem_cons.mp found with rfl | old
      · exact absent member
      · exact newLater j member old
    obtain ⟨armedAll, sameAll, grownAll⟩ :=
      inductionHypothesis distinctRest newRest (same.ended.trans alive) armedNext
    refine ⟨armedAll.of_subset (by simp), same.trans sameAll, ?_⟩
    rw [List.length_cons, Nat.add_comm]
    exact grown.trans grownAll

theorem armed_invokeCtr (opens : Opens perfEventOpen) (alive : host.ended = false) :
    Armed (List.finRange 8) (invokeCtr perfEventOpen host) ∧
      SameBut host (invokeCtr perfEventOpen host) ∧
      Grown 8 host (invokeCtr perfEventOpen host) := by
  have nothing : Armed [] host := ⟨by simp, by simp⟩
  have opened := armed_foldl_initialize opens (List.finRange 8) (List.nodup_finRange 8)
    (by simp) alive nothing
  rwa [List.append_nil] at opened

/-- No alarm is set for a record that is written once. -/
theorem setupPerfCtr_once (opens : Opens perfEventOpen) (alive : host.ended = false)
    (type : host.type = some "ONCE".toList) :
    setupPerfCtr perfEventOpen host = invokeCtr perfEventOpen host := by
  have same := (armed_invokeCtr opens alive).2.1
  have once : ¬ "ONCE".toList ≠ "ONCE".toList := not_not.mpr rfl
  rw [setupPerfCtr]
  simp only [same.ended, alive, same.type, type, Bool.false_eq_true, if_false, if_neg once]

/-- Reading the counter of a slot leaves the other slots armed. -/
theorem armed_readPerfCtrVal (counts : Fin 8 → Int) (values : List Int)
    (alive : host.ended = false) {i : Fin 8} {rest : List (Fin 8)}
    (armed : Armed (i :: rest) host) (absent : i ∉ rest) :
    ∃ next, readPerfCtrVal counts (host, values) i = (next, values ++ [counts i]) ∧
      Armed rest next ∧ SameBut host next ∧ Grown 1 next host := by
  obtain ⟨fd, holds, inUse⟩ := armed.holds i List.mem_cons_self
  refine ⟨{ host with descriptors := host.descriptors.erase (fd + 1) }, ?_, ⟨?_, ?_⟩,
    ⟨rfl, rfl, rfl, rfl, rfl, rfl⟩, ⟨?_, rfl⟩⟩
  · simp only [readPerfCtrVal, alive, holds, if_pos inUse, Bool.false_eq_true, if_false]
  · intro j member
    obtain ⟨other, holdsOther, inUseOther⟩ := armed.holds j (List.mem_cons_of_mem _ member)
    refine ⟨other, holdsOther, (List.mem_erase_of_ne ?_).mpr inUseOther⟩
    intro same
    rw [same, ← holds] at holdsOther
    have equal := armed.distinct j (List.mem_cons_of_mem _ member) i List.mem_cons_self holdsOther
    rw [equal] at member
    exact absent member
  · exact (armed.of_subset (List.subset_cons_self i rest)).distinct
  · have erased := List.length_erase_add_one inUse
    exact erased.symm

theorem armed_foldl_readPerfCtrVal (counts : Fin 8 → Int) (rest : List (Fin 8))
    (distinct : rest.Nodup) (values : List Int) {host : Host Path} (alive : host.ended = false)
    (armed : Armed rest host) :
    ∃ next, rest.foldl (readPerfCtrVal counts) (host, values) = (next, values ++ rest.map counts) ∧
      SameBut host next ∧ Grown rest.length next host := by
  induction rest generalizing values host with
  | nil => exact ⟨host, by simp, sameBut_refl host, grown_refl host⟩
  | cons i rest inductionHypothesis =>
    obtain ⟨absent, distinctRest⟩ := List.nodup_cons.mp distinct
    obtain ⟨next, read, armedRest, same, shrunk⟩ :=
      armed_readPerfCtrVal counts values alive armed absent
    obtain ⟨last, readRest, sameRest, shrunkRest⟩ := inductionHypothesis distinctRest
      (values ++ [counts i]) (same.ended.trans alive) armedRest
    refine ⟨last, ?_, same.trans sameRest, shrunkRest.trans shrunk⟩
    rw [List.foldl_cons, read, readRest, List.map_cons, List.append_assoc]
    rfl

/-- With all counters open, the record is complete. The counters are closed, and one stream is
not. -/
theorem readCtrs_armed (record : StatRecord) (alive : host.ended = false)
    (armed : Armed (List.finRange 8) host) :
    ∃ next, readCtrs record host = (next, record.text) ∧ SameBut host next ∧
      Grown 8 next { host with streams := host.streams + 1 } := by
  have aliveNow : ({ host with streams := host.streams + 1 } : Host Path).ended = false := alive
  have armedNow : Armed (List.finRange 8) { host with streams := host.streams + 1 } :=
    ⟨armed.holds, armed.distinct⟩
  obtain ⟨next, read, same, shrunk⟩ := armed_foldl_readPerfCtrVal record.counts (List.finRange 8)
    (List.nodup_finRange 8) [] aliveNow armedNow
  refine ⟨next, ?_, ⟨same.filename, same.type, same.handler, same.alarm, same.files, same.ended⟩,
    shrunk⟩
  rw [readCtrs, read, List.nil_append, ← List.ofFn_eq_map]
  rfl

end Counters

/-! ### Writing a record -/

/-- A record has been written: the file holds nothing else, the counters are closed, and one more
stream is open. -/
structure AfterRecord [DecidableEq Path] (statfile : Path) (record : StatRecord)
    (before after : Host Path) : Prop where
  filename : after.filename = before.filename
  type : after.type = before.type
  handler : after.handler = before.handler
  alarm : after.alarm = before.alarm
  files : after.files = before.files.insert statfile record.text
  ended : after.ended = false
  descriptors : before.descriptors.length = after.descriptors.length + 8
  streams : after.streams = before.streams + 1

/-- With all counters open `sigalrm_handler` comes to its last statement. -/
theorem sigalrmHandler_armed [DecidableEq Path] (perfEventOpen : PerfEventOpen)
    {host : Host Path} (record : StatRecord) (alive : host.ended = false)
    (armed : Armed (List.finRange 8) host) {filename : Path}
    (named : host.filename = some filename) :
    ∃ next, sigalrmHandler perfEventOpen record host = afterRecord perfEventOpen next ∧
      AfterRecord filename record host next := by
  have aliveNow : (host.openStatfile filename).ended = false := alive
  have armedNow : Armed (List.finRange 8) (host.openStatfile filename) :=
    ⟨armed.holds, armed.distinct⟩
  obtain ⟨next, read, same, shrunk⟩ := readCtrs_armed record aliveNow armedNow
  have aliveNext : next.ended = false := same.ended.trans aliveNow
  refine ⟨next.closeStatfile filename record.text, ?_, ⟨same.filename, same.type, same.handler,
    same.alarm, ?_, aliveNext, shrunk.descriptors, ?_⟩⟩
  · rw [sigalrmHandler, named]
    simp only [read, aliveNext, Bool.false_eq_true, if_false]
  · show next.files.insert filename record.text = _
    rw [same.files]
    exact AList.insert_insert ..
  · have streams : host.streams + 1 + 1 = next.streams := shrunk.streams
    show next.streams - 1 = _
    omega

/-! ### A record written once -/

section Once

variable [DecidableEq Path] {perfEventOpen : PerfEventOpen} {host : Host Path}

/-- The process is to write one record, and its counters are open. -/
structure Primed (filename : Path) (files : AList fun _ : Path => Text) (host : Host Path) :
    Prop where
  armed : Armed (List.finRange 8) host
  filename : host.filename = some filename
  type : host.type = some "ONCE".toList
  alarm : host.alarm = false
  files : host.files = files
  ended : host.ended = false

/-- The event after a restart, for whatever the image has kept. -/
theorem primed_resumeUserThread (opens : Opens perfEventOpen) (record : StatRecord)
    (filename : Path) (alive : host.ended = false) (silent : host.alarm = false) :
    Primed filename host.files (deliver perfEventOpen ⟨some filename, some "ONCE".toList⟩ record
      host (.resumeUserThread true)) := by
  let informed : Host Path := { host with
    filename := some filename, type := some "ONCE".toList, handler := host.handler || true }
  have shape : deliver perfEventOpen ⟨some filename, some "ONCE".toList⟩ record host
      (.resumeUserThread true) = setupPerfCtr perfEventOpen informed := by
    rw [deliver, alive]
    rfl
  have aliveNow : informed.ended = false := alive
  rw [shape, setupPerfCtr_once opens aliveNow rfl]
  obtain ⟨armed, same, _⟩ := armed_invokeCtr opens aliveNow
  exact ⟨armed, same.filename, same.type, same.alarm.trans silent, same.files,
    same.ended.trans aliveNow⟩

/-- Every user thread gets the event. -/
theorem primed_replicate (opens : Opens perfEventOpen) (record : StatRecord) (filename : Path)
    (threads : Nat) {host : Host Path} (alive : host.ended = false) (silent : host.alarm = false) :
    Primed filename host.files ((List.replicate (threads + 1) (.resumeUserThread true)).foldl
      (deliver perfEventOpen ⟨some filename, some "ONCE".toList⟩ record) host) := by
  induction threads generalizing host with
  | zero => exact primed_resumeUserThread opens record filename alive silent
  | succ threads inductionHypothesis =>
    have primed := primed_resumeUserThread opens record filename alive silent
    rw [List.replicate_succ, List.foldl_cons, ← primed.files]
    exact inductionHypothesis primed.ended primed.alarm

/-- A checkpoint has finished: the record is written, and the process ends. -/
theorem Primed.resume {filename : Path} {files : AList fun _ : Path => Text}
    (primed : Primed filename files host) (perfEventOpen : PerfEventOpen) (env : Env Path)
    (record : StatRecord) :
    (deliver perfEventOpen env record host .resume).ended = true ∧
      (deliver perfEventOpen env record host .resume).files =
        files.insert filename record.text ∧
      (deliver perfEventOpen env record host .resume).alarm = false := by
  obtain ⟨next, handled, after⟩ :=
    sigalrmHandler_armed perfEventOpen record primed.ended primed.armed primed.filename
  have once : next.type = some "ONCE".toList := after.type.trans primed.type
  have written : deliver perfEventOpen env record host .resume = { next with ended := true } := by
    rw [deliver, primed.ended, if_neg Bool.false_ne_true, dmtcpEventHook, if_pos primed.type,
      handled, afterRecord, once]
    exact if_pos rfl
  rw [written, ← primed.files]
  exact ⟨rfl, after.files, after.alarm.trans primed.alarm⟩

theorem foldl_deliver_ended {env : Env Path} {record : StatRecord} (ended : host.ended = true)
    (events : List DmtcpEvent) :
    events.foldl (deliver perfEventOpen env record) host = host := by
  induction events with
  | nil => rfl
  | cons event events inductionHypothesis =>
    rw [List.foldl_cons, deliver, if_pos ended, inductionHypothesis]

end Once

end Plugin

open Plugin

/-- The first descriptor is 3, and each one is the next number. -/
def nextDescriptor (descriptors : List Nat) : Option Nat := some (descriptors.foldr max 2 + 1)

theorem opens_nextDescriptor : Opens nextDescriptor := by
  intro descriptors
  refine ⟨descriptors.foldr max 2, rfl, fun inUse => ?_⟩
  exact absurd (List.le_max_of_le' 2 inUse le_rfl) (Nat.not_succ_le_self _)

end ClusterJobs
