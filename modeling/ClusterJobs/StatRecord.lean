/-
This file models the stat file through which the DMTCP plugin and the scheduler talk to each
other: the record `read_ctrs` writes (`dmtcp/src/plugin/myplug/myplug.c`), and the parser
`update_app_stats_map` (`bin/parallel_dmtcp`) that turns a stat file into an entry of the
candidate table.

The plugin rewrites the file in place while the scheduler may read it. The reader drops the
last two lines whatever they are, because in a complete record these are the timestamp and an
empty line. So a record that is cut off anywhere, even before its very last newline, loses at
least its last field, and the entry that is stored is neither the old nor the new one.
-/

import ClusterJobs.Text
import Mathlib.Data.Fin.VecNotation
import Mathlib.Data.List.AList
import Mathlib.Logic.Relation

namespace ClusterJobs

open Python

/-- One entry of the candidate table: the fields of a stat file. -/
abbrev Stats := AList fun _ : Text => Text

/-- `app_stats_map`: the stats of each app. -/
abbrev StatsTable := AList fun _ : Text => Stats

/-! ### Reading a stat file -/

/-- `app_stats_map[appid][stat.split(':')[0].strip()] = stat.split(':')[1].strip()`. -/
def recordStat (stats : Stats) (stat : Text) : Except PyError Stats :=
  match stat.splitOn ':' with
  | key :: value :: _ => .ok (stats.insert (strip key) (strip value))
  | _ => .error .indexError

/-- `update_app_stats_map`, on the content of the stat file: the entry is emptied first and
filled from all lines but the last two. -/
def updateAppStatsMap (appid : Text) (content : Text) (table : StatsTable) :
    Except PyError StatsTable := do
  let stats := readlines content
  let entry ← (dropLastTwo stats).foldlM recordStat ∅
  .ok (table.insert appid entry)

/-! ### Writing a stat file -/

/-- The counters in the order in which `read_ctrs` writes them. -/
def ctrNames : List Text :=
  ["PAGE_FAULTS".toList, "CONTEXT_SWITCHES".toList, "CPU_MIGRATIONS".toList,
    "CPU_CYCLES".toList, "INSTRUCTIONS".toList, "CACHE_REFERENCES".toList,
    "CACHE_MISSES".toList, "BRANCH_INSTRUCTIONS".toList]

/-- `fprintf(outfp, "%s: %lld\n", name, count)` of `read_perf_ctr_val`. -/
def readPerfCtrVal (name : Text) (count : Int) : Text :=
  name ++ ": ".toList ++ signedDecimal count ++ ['\n']

/-- `read_ctrs`: the lines of `/proc/self/status` that mention `Name` or `VmRSS`, the eight
counters, the time and an empty line. -/
def readCtrs (status : List Text) (counts : List Int) (buff : Text) : Text :=
  (status.filter fun line => "Name".toList <:+: line ∨ "VmRSS".toList <:+: line).flatten ++
    (List.zipWith readPerfCtrVal ctrNames counts).flatten ++
    "[TIMESTAMP] ".toList ++ buff ++ "\n\n".toList

/-- What a record holds: the process name, the resident size with the blanks the kernel pads
it with, the eight counters and the time. Neither text has a newline. -/
structure StatRecord where
  name : Text
  padding : Nat
  rss : Nat
  counts : Fin 8 → Int
  buff : Text
  name_plain : '\n' ∉ name
  buff_plain : '\n' ∉ buff

namespace StatRecord

/-- The two lines of `/proc/self/status` that matter, in the kernel's layout. -/
def status (record : StatRecord) : List Text :=
  ["Name:\t".toList ++ record.name ++ ['\n'],
    "VmRSS:\t".toList ++ List.replicate record.padding ' ' ++ decimal record.rss ++
      " kB\n".toList]

/-- The record as the plugin writes it. -/
def text (record : StatRecord) : Text :=
  readCtrs record.status (List.ofFn record.counts) record.buff

/-- The fields of the record in order, each with the text after its colon. -/
def fields (record : StatRecord) : List (Text × Text) :=
  ("Name".toList, '\t' :: record.name) ::
    ("VmRSS".toList, '\t' :: List.replicate record.padding ' ' ++ decimal record.rss ++
      " kB".toList) ::
    List.zipWith (fun name count => (name, ' ' :: signedDecimal count)) ctrNames
      (List.ofFn record.counts)

end StatRecord

/-- The keys of a record. -/
def recordKeys : List Text := "Name".toList :: "VmRSS".toList :: ctrNames

/-- An entry that has every field of a record, `VmRSS` and `CACHE_MISSES` among them. -/
def Complete (entry : Stats) : Prop := ∀ key ∈ recordKeys, key ∈ entry

/-- The line of one field. -/
def fieldLine (field : Text × Text) : Text := field.1 ++ ':' :: field.2 ++ ['\n']

/-- What the parser stores for the text after a colon: the part up to the next colon. -/
def fieldValue (rest : Text) : Text :=
  strip (((rest ++ ['\n']).splitOn ':').headD [])

/-- The entry made of a list of fields, added to an entry. -/
def entryOf (fields : List (Text × Text)) (stats : Stats) : Stats :=
  fields.foldl (fun stats field => stats.insert field.1 (fieldValue field.2)) stats

/-- The entry a complete record is read as. -/
def StatRecord.entry (record : StatRecord) : Stats := entryOf record.fields ∅

/-! ### The lines of a record -/

namespace StatRecord

variable (record : StatRecord)

/-- The two closing lines, which the reader drops. -/
def closing : List Text := ["[TIMESTAMP] ".toList ++ record.buff ++ ['\n'], ['\n']]

theorem fields_keys : record.fields.map Prod.fst = recordKeys := by
  simp [fields, recordKeys, ctrNames]

theorem fields_length : record.fields.length = 10 := by
  simp [fields, ctrNames]

/-- The filter of `read_ctrs` keeps both lines of the status. -/
theorem filter_status :
    (record.status.filter fun line => "Name".toList <:+: line ∨ "VmRSS".toList <:+: line) =
      record.status := by
  rw [List.filter_eq_self]
  intro line member
  simp only [status, List.mem_cons, List.not_mem_nil, or_false] at member
  rcases member with rfl | rfl
  · exact decide_eq_true (Or.inl ⟨[], ":\t".toList ++ record.name ++ ['\n'], by simp⟩)
  · exact decide_eq_true (Or.inr ⟨[], ":\t".toList ++ List.replicate record.padding ' ' ++
      decimal record.rss ++ " kB\n".toList, by simp⟩)

theorem fields_lines : record.fields.map fieldLine =
    record.status ++ List.zipWith readPerfCtrVal ctrNames (List.ofFn record.counts) := by
  have counters : (fun name count => fieldLine (name, ' ' :: signedDecimal count)) =
      readPerfCtrVal := by
    funext name count
    simp [fieldLine, readPerfCtrVal]
  rw [fields, List.map_cons, List.map_cons, List.map_zipWith, counters]
  simp [status, fieldLine]

theorem text_eq : record.text = (record.fields.map fieldLine ++ record.closing).flatten := by
  rw [text, readCtrs, filter_status, fields_lines, List.flatten_append, List.flatten_append]
  simp [closing]

theorem isLine_fieldLine {field : Text × Text} (member : field ∈ record.fields) :
    IsLine (fieldLine field) := by
  refine ⟨field.1 ++ ':' :: field.2, ?_, by simp [fieldLine]⟩
  have padding : '\n' ∉ List.replicate record.padding ' ' := by
    simp [List.mem_replicate]
  have rss : '\n' ∉ decimal record.rss := newline_not_mem_decimal _
  have count : ∀ index, '\n' ∉ signedDecimal (record.counts index) :=
    fun index => newline_not_mem_signedDecimal _
  simp only [fields, ctrNames, List.ofFn_succ, List.zipWith_cons_cons, List.mem_cons] at member
  rcases member with rfl | rfl | rfl | rfl | rfl | rfl | rfl | rfl | rfl | rfl | member
  · simp [record.name_plain]
  · simp [padding, rss]
  all_goals first | (simp at member) | simp [count]

theorem isLine_closing {line : Text} (member : line ∈ record.closing) : IsLine line := by
  simp only [closing, List.mem_cons, List.not_mem_nil, or_false] at member
  rcases member with rfl | rfl
  · exact ⟨"[TIMESTAMP] ".toList ++ record.buff, by simp [record.buff_plain], rfl⟩
  · exact ⟨[], by simp, rfl⟩

theorem isLine_lines :
    ∀ line ∈ record.fields.map fieldLine ++ record.closing, IsLine line := by
  intro line member
  rcases List.mem_append.mp member with field | close
  · obtain ⟨pair, pairMember, rfl⟩ := List.mem_map.mp field
    exact record.isLine_fieldLine pairMember
  · exact record.isLine_closing close

/-- Of a complete record the reader keeps the fields. -/
theorem kept_whole : dropLastTwo (readlines record.text) = record.fields.map fieldLine := by
  rw [text_eq, readlines_flatten _ record.isLine_lines, dropLastTwo]
  simp [closing]

/-- Of a record that is cut off the reader keeps at most nine of the ten fields: when only the
last newline is missing the timestamp is the last line, and the last field goes with it. -/
theorem kept_cut (content : Text) (cut : content <+: record.text) (short : content ≠ record.text) :
    ∃ count ≤ 9, dropLastTwo (readlines content) = (record.fields.take count).map fieldLine := by
  rw [text_eq] at cut short
  obtain ⟨count, piece, read, split, inside⟩ := readlines_cut _ record.isLine_lines content cut
  have total : (record.fields.map fieldLine ++ record.closing).length = 12 := by
    simp [fields_length, closing]
  have incomplete : count < 12 := by
    by_contra whole
    have all : (record.fields.map fieldLine ++ record.closing).take count =
        record.fields.map fieldLine ++ record.closing := List.take_of_length_le (by omega)
    by_cases empty : piece = []
    · exact short (by rw [split, all, empty, List.append_nil])
    · obtain ⟨line, found, _⟩ := inside empty
      rw [List.getElem?_eq_none (by omega)] at found
      cases found
  -- The number of lines read decides how many fields stay after the last two are dropped.
  have few : (readlines content).length - 2 ≤ 9 ∧ (readlines content).length - 2 ≤ count := by
    rw [read, List.length_append, List.length_take, total]
    by_cases empty : piece = []
    · rw [if_pos empty, List.length_nil]
      omega
    · obtain ⟨line, found, longer⟩ := inside empty
      have notLast : count ≠ 11 := by
        rintro rfl
        have last : line = ['\n'] := by
          rw [List.getElem?_append_right (by simp [fields_length])] at found
          simpa [fields_length, closing] using found.symm
        have nonempty := List.length_pos_iff.mpr empty
        rw [last, List.length_singleton] at longer
        omega
      rw [if_neg empty, List.length_singleton]
      omega
  refine ⟨(readlines content).length - 2, few.1, ?_⟩
  have prefixed : dropLastTwo (readlines content) =
      (record.fields.map fieldLine ++ record.closing).take ((readlines content).length - 2) := by
    rw [dropLastTwo]
    nth_rewrite 2 [read]
    rw [List.take_append_of_le_length (by rw [List.length_take, total]; omega), List.take_take,
      Nat.min_eq_left few.2]
  rw [prefixed, List.take_append_of_le_length (by simp [fields_length]; omega), List.map_take]

end StatRecord

/-! ### The entry read from the fields -/

theorem recordStat_fieldLine (stats : Stats) {field : Text × Text} (plain : ':' ∉ field.1)
    (stripped : strip field.1 = field.1) :
    recordStat stats (fieldLine field) = .ok (stats.insert field.1 (fieldValue field.2)) := by
  have colon : (fieldLine field).splitOn ':' =
      field.1 :: (field.2 ++ ['\n']).splitOn ':' := by
    rw [fieldLine, List.append_assoc, List.cons_append]
    exact List.splitOn_append_cons_self_of_not_mem plain _
  rw [recordStat, colon, fieldValue]
  cases rest : (field.2 ++ ['\n']).splitOn ':' with
  | nil => exact absurd rest (List.splitOn_ne_nil _ _)
  | cons value tail => simp [stripped]

/-- The keys of a record contain no colon and no blank at either end. -/
theorem recordKeys_plain : ∀ key ∈ recordKeys, ':' ∉ key ∧ strip key = key := by
  decide

theorem foldlM_recordStat (fields : List (Text × Text))
    (keys : ∀ field ∈ fields, field.1 ∈ recordKeys) (stats : Stats) :
    (fields.map fieldLine).foldlM recordStat stats = .ok (entryOf fields stats) := by
  induction fields generalizing stats with
  | nil => rfl
  | cons field fields inductionHypothesis =>
    obtain ⟨plain, stripped⟩ := recordKeys_plain _ (keys field List.mem_cons_self)
    rw [List.map_cons, List.foldlM_cons, recordStat_fieldLine stats plain stripped]
    exact inductionHypothesis
      (fun other member => keys other (List.mem_cons_of_mem _ member)) _

theorem mem_entryOf_iff (fields : List (Text × Text)) (stats : Stats) (key : Text) :
    key ∈ entryOf fields stats ↔ key ∈ fields.map Prod.fst ∨ key ∈ stats := by
  induction fields generalizing stats with
  | nil => simp [entryOf]
  | cons field fields inductionHypothesis =>
    have unfolded : entryOf (field :: fields) stats =
        entryOf fields (stats.insert field.1 (fieldValue field.2)) := rfl
    rw [unfolded, inductionHypothesis, AList.mem_insert, List.map_cons, List.mem_cons]
    tauto

namespace StatRecord

variable (record : StatRecord)

theorem fields_mem_keys {field : Text × Text} (member : field ∈ record.fields) :
    field.1 ∈ recordKeys := by
  rw [← record.fields_keys]
  exact List.mem_map_of_mem member

theorem complete_entry : Complete record.entry := by
  intro key member
  rw [entry, mem_entryOf_iff, fields_keys]
  exact Or.inl member

/-- A complete stat file is read as the entry of its record. -/
theorem update_whole (appid : Text) (table : StatsTable) :
    updateAppStatsMap appid record.text table = .ok (table.insert appid record.entry) := by
  rw [updateAppStatsMap, kept_whole, foldlM_recordStat _ fun _ => record.fields_mem_keys]
  rfl

/-- A stat file that is cut off is read without an exception, as an entry that lacks the last
field of the record. -/
theorem update_cut (appid : Text) (table : StatsTable) (content : Text)
    (cut : content <+: record.text) (short : content ≠ record.text) :
    ∃ entry, updateAppStatsMap appid content table = .ok (table.insert appid entry) ∧
      "BRANCH_INSTRUCTIONS".toList ∉ entry := by
  obtain ⟨count, few, kept⟩ := record.kept_cut content cut short
  refine ⟨entryOf (record.fields.take count) ∅, ?_, ?_⟩
  · rw [updateAppStatsMap, kept, foldlM_recordStat _
      fun _ member => record.fields_mem_keys (List.mem_of_mem_take member)]
    rfl
  · rw [mem_entryOf_iff, List.map_take, fields_keys, not_or]
    have nine : "BRANCH_INSTRUCTIONS".toList ∉ recordKeys.take 9 := by decide
    refine ⟨fun member => nine ?_, AList.notMem_empty _⟩
    exact List.take_subset_take_left _ few member

end StatRecord

/-! ### A rewrite of the stat file and its reader -/

/-- Where the plugin stands in `sigalrm_handler`. While the file is open, `buffered` is what
`read_ctrs` has still to bring to the file. -/
inductive WriterPhase
  | idle
  | writing (buffered : Text)
  | closed

/-- The steps of `sigalrm_handler` as the file shows them: `fopen` with mode `w` empties it,
the writes arrive in chunks of any size, `fclose` brings the rest. -/
inductive WriterStep (record : StatRecord) : Text × WriterPhase → Text × WriterPhase → Prop
  | fopen (content : Text) :
      WriterStep record (content, .idle) ([], .writing record.text)
  | flush (content chunk rest : Text) :
      WriterStep record (content, .writing (chunk ++ rest)) (content ++ chunk, .writing rest)
  | fclose (content rest : Text) :
      WriterStep record (content, .writing rest) (content ++ rest, .closed)

/-- What the file can hold during a rewrite: the old record before `fopen`, then a beginning of
the new one. -/
def Rewriting (old new : StatRecord) : Text × WriterPhase → Prop
  | (content, .idle) => content = old.text
  | (content, .writing buffered) => content ++ buffered = new.text
  | (content, .closed) => content = new.text

theorem rewriting_of_steps {old new : StatRecord} {state : Text × WriterPhase}
    (steps : Relation.ReflTransGen (WriterStep new) (old.text, .idle) state) :
    Rewriting old new state := by
  induction steps with
  | refl => exact rfl
  | tail _ step inductionHypothesis =>
    cases step with
    | fopen content => exact List.nil_append _
    | flush content chunk rest =>
      show content ++ chunk ++ rest = new.text
      rw [List.append_assoc]
      exact inductionHypothesis
    | fclose content rest => exact inductionHypothesis

/-- Whatever the interleaving, the reader sees the old record or a beginning of the new one. -/
theorem rewriting_content {old new : StatRecord} {content : Text} {phase : WriterPhase}
    (rewriting : Rewriting old new (content, phase)) :
    content = old.text ∨ content <+: new.text := by
  cases phase with
  | idle => exact Or.inl rewriting
  | writing buffered => exact Or.inr ⟨buffered, rewriting⟩
  | closed => exact Or.inr (rewriting ▸ List.prefix_rfl)

/-- The fields every rule reads. -/
def Readable (entry : Stats) : Prop := "VmRSS".toList ∈ entry ∧ "CACHE_MISSES".toList ∈ entry

theorem Complete.readable {entry : Stats} (complete : Complete entry) : Readable entry :=
  ⟨complete _ (by decide), complete _ (by decide)⟩

/-- Reading `content` raises nothing and leaves the app an entry the rules can read: the one it
had before, or that of the old or of the new record. -/
def ReadsWholeRecord (old new : StatRecord) (appid content : Text) (table : StatsTable) : Prop :=
  ∃ table' entry, updateAppStatsMap appid content table = .ok table' ∧
    table'.lookup appid = some entry ∧ Readable entry ∧
    (table.lookup appid = some entry ∨ entry = old.entry ∨ entry = new.entry)

/-- The scheduler reads a complete record exactly when it does not read between `fopen` and the
arrival of the last byte: at every other moment the entry it stores has lost a field. -/
theorem update_reads_whole_iff (old new : StatRecord) (appid : Text) (table : StatsTable)
    (previous : Stats) (known : table.lookup appid = some previous)
    (complete : Complete previous) (content : Text) (phase : WriterPhase)
    (steps : Relation.ReflTransGen (WriterStep new) (old.text, .idle) (content, phase)) :
    ReadsWholeRecord old new appid content table ↔
      content = old.text ∨ content = new.text := by
  constructor
  · rintro ⟨table', entry, updated, found, _, whose⟩
    rcases rewriting_content (rewriting_of_steps steps) with whole | cut
    · exact Or.inl whole
    · refine Or.inr ?_
      by_contra short
      obtain ⟨partialEntry, outcome, missing⟩ := new.update_cut appid table content cut short
      have sameTable : table' = table.insert appid partialEntry :=
        Except.ok.inj (updated.symm.trans outcome)
      rw [sameTable, AList.lookup_insert] at found
      cases found
      rcases whose with same | rfl | rfl
      · cases known.symm.trans same
        exact missing (complete _ (by decide))
      · exact missing (old.complete_entry _ (by decide))
      · exact missing (new.complete_entry _ (by decide))
  · rintro (rfl | rfl)
    · exact ⟨_, old.entry, old.update_whole appid table, AList.lookup_insert _,
        old.complete_entry.readable, Or.inr (Or.inl rfl)⟩
    · exact ⟨_, new.entry, new.update_whole appid table, AList.lookup_insert _,
        new.complete_entry.readable, Or.inr (Or.inr rfl)⟩

/-- The first record of the plugin's own sample file. -/
def sampleRecord : StatRecord where
  name := "DMTCP:a.out".toList
  padding := 3
  rss := 22228
  counts := ![0, 0, 0, 188378, 19614, 9537, 0, 0]
  buff := "2015-02-19 15:04:42".toList
  name_plain := by decide
  buff_plain := by decide

/-- The second one. -/
def nextRecord : StatRecord where
  name := "DMTCP:a.out".toList
  padding := 3
  rss := 22228
  counts := ![0, 0, 0, 155640, 19614, 9799, 0, 0]
  buff := "2015-02-19 15:06:48".toList
  name_plain := by decide
  buff_plain := by decide

/-- Right after `fopen` the file is empty, and so is the entry the scheduler then stores. -/
theorem update_after_fopen_unreadable :
    Relation.ReflTransGen (WriterStep sampleRecord) (sampleRecord.text, .idle)
        ([], .writing sampleRecord.text) ∧
      ¬ ReadsWholeRecord sampleRecord sampleRecord "app1".toList []
        ((∅ : StatsTable).insert "app1".toList sampleRecord.entry) := by
  refine ⟨Relation.ReflTransGen.single (WriterStep.fopen _), ?_⟩
  rintro ⟨table', entry, updated, found, readable, _⟩
  cases Except.ok.inj updated
  rw [AList.lookup_insert] at found
  cases found
  exact absurd readable.1 (AList.notMem_empty _)

/-- A record that is written in two parts, the second one by `fclose`. -/
theorem rewrites_in_two (record : StatRecord) (content : Text) (size : Nat) :
    Relation.ReflTransGen (WriterStep record) (content, .idle) (record.text, .closed) := by
  have parts : record.text.take size ++ record.text.drop size = record.text :=
    List.take_append_drop size record.text
  have opened : WriterStep record (content, .idle)
      ([], .writing (record.text.take size ++ record.text.drop size)) := by
    rw [parts]
    exact WriterStep.fopen content
  have closed : WriterStep record
      (record.text.take size, .writing (record.text.drop size)) (record.text, .closed) := by
    conv in (record.text, WriterPhase.closed) => rw [← parts]
    exact WriterStep.fclose _ _
  exact ((Relation.ReflTransGen.single opened).tail (WriterStep.flush [] _ _)).tail closed

/-- After `fopen`, a flush and `fclose` the reader gets the new record. -/
theorem update_reads_whole_sample :
    Relation.ReflTransGen (WriterStep nextRecord) (sampleRecord.text, .idle)
        (nextRecord.text, .closed) ∧
      ReadsWholeRecord sampleRecord nextRecord "app1".toList nextRecord.text
        ((∅ : StatsTable).insert "app1".toList sampleRecord.entry) :=
  ⟨rewrites_in_two nextRecord _ 64,
    (update_reads_whole_iff sampleRecord nextRecord _ _ sampleRecord.entry
      (AList.lookup_insert _) sampleRecord.complete_entry nextRecord.text .closed
      (rewrites_in_two nextRecord _ 64)).mpr (Or.inr rfl)⟩

end ClusterJobs
