/-
This file shows that the plugin and the scheduler agree on the stat file: whatever record
`read_ctrs` writes, `update_app_stats_map` stores the numbers that are in it.

The process name is the one free text of a record. It stands behind its colon, so a colon in it
only cuts the stored name short, and it is on a line of its own, so it cannot displace another
field.
-/

import ClusterJobs.Rules

namespace ClusterJobs

open Python

/-! ### The values stored -/

/-- A text without a colon is stored without the blanks around it. -/
theorem fieldValue_plain {rest : Text} (plain : ':' ∉ rest) :
    fieldValue rest = strip (rest ++ ['\n']) := by
  have whole : (rest ++ ['\n']).splitOn ':' = [rest ++ ['\n']] := by
    refine List.splitOn_eq_singleton ?_
    simp [plain]
  rw [fieldValue, whole, List.headD_cons]

theorem colon_not_mem_decimal (value : Nat) : ':' ∉ decimal value := fun member =>
  absurd (isDigit_of_mem_decimal member) (by decide)

theorem colon_not_mem_signedDecimal (value : Int) : ':' ∉ signedDecimal value := by
  unfold signedDecimal
  split
  · rw [List.mem_cons, not_or]
    exact ⟨by decide, colon_not_mem_decimal _⟩
  · exact colon_not_mem_decimal _

/-- A counter is stored as it was printed. -/
theorem fieldValue_counter (count : Int) :
    fieldValue (' ' :: signedDecimal count) = signedDecimal count := by
  have plain : ':' ∉ ' ' :: signedDecimal count := by
    simp [colon_not_mem_signedDecimal]
  rw [fieldValue_plain plain]
  show strip ([' '] ++ signedDecimal count ++ ['\n']) = _
  exact strip_signedDecimal (List.forall_mem_singleton.mpr rfl) (List.forall_mem_singleton.mpr rfl)
    count

/-- The resident size is stored without its padding. -/
theorem fieldValue_rss (padding rss : Nat) :
    fieldValue ('\t' :: List.replicate padding ' ' ++ decimal rss ++ " kB".toList) =
      decimal rss ++ " kB".toList := by
  have plain : ':' ∉ '\t' :: List.replicate padding ' ' ++ decimal rss ++ " kB".toList := by
    simp [colon_not_mem_decimal, List.mem_replicate]
  have digits : decimal rss ≠ [] := Nat.toDigits_ne_nil
  rw [fieldValue_plain plain, List.append_assoc _ (decimal rss)]
  refine strip_blanks ?_ (List.forall_mem_singleton.mpr rfl) (by simp) ?_ ?_
  · intro character member
    rcases List.mem_cons.mp member with rfl | padded
    · decide
    · rw [(List.mem_replicate.mp padded).2]
      decide
  · intro character found
    rw [List.head?_append_of_ne_nil _ digits] at found
    exact isSpace_of_isDigit (isDigit_of_mem_decimal (List.mem_of_mem_head? found))
  · intro character found
    rw [List.getLast?_append_of_ne_nil _ (by decide)] at found
    cases found
    decide

/-! ### The entry of a record -/

/-- Among fields with different keys each one is found in the entry. -/
theorem lookup_entryOf {fields : List (Text × Text)} (distinct : (fields.map Prod.fst).Nodup)
    (stats : Stats) {key rest : Text} (member : (key, rest) ∈ fields) :
    (entryOf fields stats).lookup key = some (fieldValue rest) := by
  have others : ∀ (fields : List (Text × Text)) (stats : Stats), key ∉ fields.map Prod.fst →
      (entryOf fields stats).lookup key = stats.lookup key := by
    intro fields
    induction fields with
    | nil => exact fun _ _ => rfl
    | cons field fields inductionHypothesis =>
      intro stats absent
      rw [List.map_cons, List.mem_cons, not_or] at absent
      show (entryOf fields (stats.insert field.1 (fieldValue field.2))).lookup key = _
      rw [inductionHypothesis _ absent.2, AList.lookup_insert_ne absent.1]
  induction fields generalizing stats with
  | nil => cases member
  | cons field fields inductionHypothesis =>
    rw [List.map_cons, List.nodup_cons] at distinct
    show (entryOf fields (stats.insert field.1 (fieldValue field.2))).lookup key = _
    rcases List.mem_cons.mp member with same | later
    · rw [← same] at distinct ⊢
      rw [others fields _ distinct.1, AList.lookup_insert]
    · exact inductionHypothesis distinct.2 _ later

namespace StatRecord

variable (record : StatRecord)

theorem recordKeys_nodup : recordKeys.Nodup := by decide

theorem lookup_entry {key rest : Text} (member : (key, rest) ∈ record.fields) :
    record.entry.lookup key = some (fieldValue rest) :=
  lookup_entryOf (by rw [fields_keys]; exact recordKeys_nodup) ∅ member

/-- The entry has the ten keys of a record and no other. -/
theorem keys_entry : record.entry.keys.Perm recordKeys := by
  refine (List.perm_ext_iff_of_nodup record.entry.keys_nodup recordKeys_nodup).mpr fun key => ?_
  rw [← AList.mem_keys, entry, mem_entryOf_iff, fields_keys]
  simp

theorem statOf_entry (appid : Text) (table : StatsTable) {key rest : Text}
    (member : (key, rest) ∈ record.fields) :
    statOf (table.insert appid record.entry) appid key = .ok (fieldValue rest) := by
  rw [statOf, AList.lookup_insert]
  simp only [record.lookup_entry member]

theorem ramOf_entry (appid : Text) (table : StatsTable) :
    ramOf (table.insert appid record.entry) appid = .ok record.rss := by
  have member : ("VmRSS".toList, '\t' :: List.replicate record.padding ' ' ++ decimal record.rss ++
      " kB".toList) ∈ record.fields := List.mem_cons_of_mem _ List.mem_cons_self
  have blank : ' ' ∉ decimal record.rss := fun found =>
    absurd (isDigit_of_mem_decimal found) (by decide)
  have first : ((decimal record.rss ++ " kB".toList).splitOn ' ').headD [] =
      decimal record.rss := by
    show ((decimal record.rss ++ ' ' :: "kB".toList).splitOn ' ').headD [] = _
    rw [List.splitOn_append_cons_self_of_not_mem blank, List.headD_cons]
  rw [ramOf, record.statOf_entry appid table member, fieldValue_rss]
  show int (((decimal record.rss ++ " kB".toList).splitOn ' ').headD []) = _
  rw [first, int_decimal]

theorem counter_entry (appid : Text) (table : StatsTable) {name : Text} {count : Int}
    (member : (name, count) ∈ ctrNames.zip (List.ofFn record.counts)) :
    (statOf (table.insert appid record.entry) appid name >>= int) = .ok count := by
  have field : (name, ' ' :: signedDecimal count) ∈ record.fields := by
    refine List.mem_cons_of_mem _ (List.mem_cons_of_mem _ ?_)
    rw [← List.map_uncurry_zip_eq_zipWith]
    exact List.mem_map.mpr ⟨(name, count), member, rfl⟩
  rw [record.statOf_entry appid table field, fieldValue_counter]
  exact int_signedDecimal count

end StatRecord

/-! ### Round trip -/

/-- Whatever record the plugin writes, the scheduler reads it without an exception, stores the
ten fields and no other, and gets the resident size and the counters back as numbers. -/
theorem stat_file_round_trip (record : StatRecord) (appid : Text) (table : StatsTable) :
    ∃ table' entry, updateAppStatsMap appid record.text table = .ok table' ∧
      table'.lookup appid = some entry ∧ entry.keys.Perm recordKeys ∧
      ramOf table' appid = .ok record.rss ∧
      (∀ counter ∈ ctrNames.zip (List.ofFn record.counts),
        (statOf table' appid counter.1 >>= int) = .ok counter.2) ∧
      ∀ other ≠ appid, table'.lookup other = table.lookup other := by
  refine ⟨table.insert appid record.entry, record.entry, record.update_whole appid table,
    AList.lookup_insert _, record.keys_entry, record.ramOf_entry appid table, ?_, ?_⟩
  · exact fun counter member => record.counter_entry appid table member
  · exact fun other different => AList.lookup_insert_ne different

end ClusterJobs
