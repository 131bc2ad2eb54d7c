/-
This file follows `STATFILE` and `STATGEN` from the command that restarts an app to the statistics
plugin in the restarted process.

The scheduler writes the two assignments in front of `dmtcp_restart` (`start_next` in
`bin/parallel_dmtcp`, `restart` in `common/imports/dmtcp_utils.py`), and before that a file
`dmtcp_env.txt` that names the two variables (`setup_for_restart`). The shell puts them into the
environment of `dmtcp_restart`, which writes its environment to a file; the plugin that reads
`dmtcp_env.txt` looks them up there and sets them in the restarted process. What the statistics
plugin then finds is the mode that the command asks for.

The scheduler writes `dmtcp_env.txt` into the sub-directory 1, and the plugin looks for it beside
the image. That is the same directory only as long as 1 is the greatest one; otherwise the plugin
finds nothing and ends the process.
-/

import ClusterJobs.EnvSyntax
import ClusterJobs.LatestImage
import ClusterJobs.Restarts
import ClusterJobs.Runners

namespace ClusterJobs

open Python RestartEnv ModifyEnv

/-! ### Environments -/

/-- The strings of an environment. -/
def envStrings (environ : Environ) : List Text :=
  environ.entries.map fun entry => entry.1 ++ '=' :: entry.2

theorem takeWhile_name {name : Text} (plain : '=' ∉ name) (rest : Text) :
    (name ++ '=' :: rest).takeWhile (· ≠ '=') = name := by
  rw [List.takeWhile_append_of_pos]
  · simp
  · intro character found
    simp only [decide_eq_true_eq]
    rintro rfl
    exact plain found

/-- A string holds the value of its own name. -/
theorem valueOf_string {name other : Text} (plain : '=' ∉ name) (plainOther : '=' ∉ other)
    (value : Text) :
    valueOf name (other ++ '=' :: value) = if other = name then some value else none := by
  by_cases same : other = name
  · subst same
    simp [valueOf]
  · rw [valueOf, if_neg same, if_neg]
    rintro ⟨front, equals⟩
    -- The name goes up to the first `=` of the string.
    have split : other ++ '=' :: value =
        name ++ '=' :: (other ++ '=' :: value).drop (name.length + 1) := by
      conv_lhs => rw [← List.take_append_drop name.length (other ++ '=' :: value), front]
      obtain ⟨bound, isEquals⟩ := List.getElem?_eq_some_iff.mp equals
      rw [List.drop_eq_getElem_cons bound, isEquals]
    have names := congrArg (List.takeWhile (· ≠ '=')) split
    rw [takeWhile_name plainOther, takeWhile_name plain] at names
    exact same names

/-- A name is looked up in the strings as in the environment. -/
theorem filterMap_envStrings {environ : Environ} (plain : ∀ key ∈ environ, '=' ∉ key)
    {name : Text} (plainName : '=' ∉ name) :
    (envStrings environ).filterMap (valueOf name) = (environ.lookup name).toList := by
  obtain ⟨entries, nodupKeys⟩ := environ
  have plainEntries : ∀ entry ∈ entries, '=' ∉ entry.1 := fun entry found =>
    plain entry.1 (List.mem_keys_of_mem found)
  show (entries.map _).filterMap (valueOf name) = (entries.dlookup name).toList
  clear plain
  induction entries with
  | nil => rfl
  | cons entry entries inductionHypothesis =>
    obtain ⟨key, value⟩ := entry
    obtain ⟨plainKey, plainOthers⟩ := List.forall_mem_cons.mp plainEntries
    have others := inductionHypothesis (List.nodupKeys_of_nodupKeys_cons nodupKeys) plainOthers
    rw [List.map_cons, List.filterMap_cons, valueOf_string plainName plainKey]
    by_cases same : key = name
    · subst same
      have absent : entries.dlookup key = none :=
        List.dlookup_eq_none.mpr (List.notMem_keys_of_nodupKeys_cons nodupKeys)
      rw [if_pos rfl, others, absent, List.dlookup_cons_eq]
      rfl
    · rw [if_neg same, others, List.dlookup_cons_ne _ _ (Ne.symm same)]

/-- An environment that `dmtcp_restart` can hand over. -/
structure HandsOver (environ : Environ) : Prop where
  readable : RestartEnv.Readable (envStrings environ)
  plain : ∀ key ∈ environ, '=' ∉ key

/-- What a name is answered with. -/
def restartValue (environ : Environ) (name : Text) : Option Text :=
  if '=' ∈ name then none else environ.lookup name

theorem HandsOver.answers {environ : Environ} (handsOver : HandsOver environ) :
    Answers (dmtcpGetRestartEnv (setEnvironFd (envStrings environ))) (restartValue environ) := by
  intro name value isValue maxvaluelen nameFits valueFits
  unfold restartValue at isValue
  by_cases plainName : '=' ∈ name
  · rw [if_pos plainName] at isValue
    cases isValue
  · rw [if_neg plainName] at isValue
    have once : (envStrings environ).filterMap (valueOf name) = [value] := by
      rw [filterMap_envStrings handsOver.plain plainName, isValue]
      rfl
    exact dmtcpGetRestartEnv_of_once handsOver.readable once nameFits valueFits

/-- What is made of a file: the meaning of its lines, with the environment of the command that
restarts; a file that is too large ends the process. -/
theorem restartHook_cases {environ : Environ} (handsOver : HandsOver environ) (image : Environ)
    {lines : List Line} (fits : LinesFit (restartValue environ) { environ := image } lines) :
    restartHook (dmtcpGetRestartEnv (setEnvironFd (envStrings environ))) image
        (lines.flatMap Line.text) =
      if (lines.flatMap Line.text).length ≤ 3996 then
        some (.ok (apply (restartValue environ) { environ := image } lines).environ)
      else none := by
  split
  · rename_i short
    exact restartHook_eq handsOver.answers image fits short
  · rename_i long
    rw [restartHook, readDmtcpEnvFile, readall_eq _ _ _ _ (Nat.lt_succ_self _), if_neg (by omega)]
    rfl

/-- Two lines, with a quoted blank, a variable and a comment. -/
theorem two_lines_applied :
    let environ : Environ := AList.singleton "PATH".toList "/bin".toList
    let image : Environ := AList.singleton "B".toList "1".toList
    restartHook (dmtcpGetRestartEnv (setEnvironFd (envStrings environ))) image
        "A=\"x y\"$PATH # c\nB\n".toList =
      some (.ok ((image.insert "A".toList "x y/bin".toList).erase "B".toList)) := by
  intro environ image
  have handsOver : HandsOver environ := by
    refine ⟨⟨by decide, by decide, by decide⟩, ?_⟩
    intro key found
    rw [List.mem_singleton.mp found]
    decide
  let lines : List Line :=
    [⟨.assign "A".toList [.quoted "x y".toList, .expansion "PATH".toList], " # c".toList⟩,
      ⟨.remove "B".toList, []⟩]
  have value : Outcome.lookup (restartValue environ) { environ := image } "PATH".toList =
      some "/bin".toList := by decide
  have fits : LinesFit (restartValue environ) { environ := image } lines := by
    refine ⟨⟨⟨by decide, by decide, by decide⟩, ⟨by decide, by decide⟩, ⟨by decide, by decide,
      by simp [EndsName], by decide, _, value, by decide, by decide⟩, trivial⟩,
      ⟨by decide, by decide⟩, ⟨by decide, by decide, by decide⟩, ⟨by simp, by simp⟩, trivial⟩
  have text : lines.flatMap Line.text = "A=\"x y\"$PATH # c\nB\n".toList := by decide
  have result := restartHook_cases handsOver image fits
  rw [text, if_pos (by decide)] at result
  exact result

/-! ### `dmtcp_env.txt` -/

def statfileName : Text := "STATFILE".toList

def statgenName : Text := "STATGEN".toList

/-- A character that stands for itself in a command. -/
def isPlain (character : Char) : Bool :=
  character.isAlphanum || decide (character ∈ "/._-".toList)

/-- A name that can be assigned to. -/
def IsVariable (name : Text) : Prop :=
  name ≠ [] ∧ (∀ character ∈ name, isNameChar character = true) ∧
    ∀ character ∈ name.head?, character.isDigit = false

instance (name : Text) : Decidable (IsVariable name) := inferInstanceAs (Decidable (_ ∧ _ ∧ _))

/-- A text that the shell leaves alone. -/
def IsPlain (text : Text) : Prop := ∀ character ∈ text, isPlain character = true

theorem IsVariable.plain {name : Text} (isVariable : IsVariable name) : IsPlain name := by
  intro character found
  have nameChar := isVariable.2.1 character found
  unfold isNameChar at nameChar
  rcases (Bool.or_eq_true _ _).mp nameChar with letter | underscore
  · rw [isPlain, letter, Bool.true_or]
  · rw [eq_of_beq underscore]
    decide

/-- An environment that takes another variable can still be handed over. -/
theorem HandsOver.insert {environ : Environ} (handsOver : HandsOver environ) {name value : Text}
    (room : environ.entries.length + 1 < envPtrCount) (plainName : '=' ∉ name)
    (clean : nul ∉ name ++ '=' :: value)
    (short : (name ++ '=' :: value).length < envBufSize) :
    HandsOver (environ.insert name value) := by
  have strings : envStrings (environ.insert name value) =
      (name ++ '=' :: value) :: (environ.entries.kerase name).map
        fun entry => entry.1 ++ '=' :: entry.2 := by
    rw [envStrings, AList.entries_insert, List.map_cons]
  have others : ∀ string ∈ (environ.entries.kerase name).map
      (fun entry => entry.1 ++ '=' :: entry.2), string ∈ envStrings environ := fun string found =>
    (List.Sublist.map _ (List.kerase_sublist name environ.entries)).subset found
  refine ⟨⟨?_, ?_, ?_⟩, ?_⟩
  · rw [strings, List.forall_mem_cons]
    exact ⟨clean, fun string found => handsOver.readable.clean string (others string found)⟩
  · rw [strings, List.forall_mem_cons]
    exact ⟨short, fun string found => handsOver.readable.short string (others string found)⟩
  · rw [strings, List.length_cons, List.length_map]
    exact lt_of_le_of_lt
      (Nat.succ_le_succ (List.kerase_sublist name environ.entries).length_le) room
  · intro key found
    rcases (AList.mem_insert environ).mp found with rfl | before
    · exact plainName
    · exact handsOver.plain key before

/-- What `dmtcp_restart` sets itself is no obstacle, and none of it is one of the two variables. -/
structure Own (own : List (Text × Text)) : Prop where
  plain : ∀ entry ∈ own, '=' ∉ entry.1
  clean : ∀ entry ∈ own, nul ∉ entry.1 ++ '=' :: entry.2
  short : ∀ entry ∈ own, (entry.1 ++ '=' :: entry.2).length < envBufSize
  others : ∀ entry ∈ own, entry.1 ≠ statfileName ∧ entry.1 ≠ statgenName

theorem Own.tail {entry : Text × Text} {own : List (Text × Text)} (isOwn : Own (entry :: own)) :
    Own own where
  plain := fun other found => isOwn.plain other (List.mem_cons_of_mem _ found)
  clean := fun other found => isOwn.clean other (List.mem_cons_of_mem _ found)
  short := fun other found => isOwn.short other (List.mem_cons_of_mem _ found)
  others := fun other found => isOwn.others other (List.mem_cons_of_mem _ found)

end ClusterJobs
