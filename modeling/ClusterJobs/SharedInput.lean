/-
This file is about the two applications that take their parameters from a file. The commands of
FMM and WATERNSQUARED are of the form

    echo "parameters" > /tmp/input ; application < /tmp/input

and `bin/parallel` starts the commands of several instances at a time, in the random mode and in
the defined mode, each in a shell of its own. A shell opens the file, which empties it, `echo`
writes from the start of the file, and the application reads whatever the file then holds.

The file has the same name in both templates. As soon as two such instances run at a time there is
an order of the steps in which one of them reads what is not its own, and with at most one there
is none.
-/

import ClusterJobs.AppCommands
import Mathlib.Logic.Function.Basic

namespace ClusterJobs

open Python Substitute

/-! ### Shells that share their files -/

/-- What a shell writes before it starts its application, and the file it uses for that. -/
structure Feed where
  path : Text
  text : Text
  deriving DecidableEq, Repr

/-- How far a shell has come. -/
inductive Stage
  | opening
  | writing
  | reading
  | started (input : Text)
  deriving DecidableEq, Repr

/-- The files, by their path, and the stages of the shells, by their number. -/
structure Shells where
  files : Text → Text
  stages : Nat → Stage

/-- One step of a shell: what its file holds then, and its next stage. Opening the file empties
it; `echo` writes at its start and leaves what stands behind. -/
def Feed.advance (feed : Feed) (content : Text) : Stage → Text × Stage
  | .opening => ([], .writing)
  | .writing => (feed.text ++ content.drop feed.text.length, .reading)
  | .reading => (content, .started content)
  | .started input => (content, .started input)

def stepFeed (feed : Feed) (shell : Nat) (state : Shells) : Shells :=
  let next := feed.advance (state.files feed.path) (state.stages shell)
  ⟨Function.update state.files feed.path next.1, Function.update state.stages shell next.2⟩

/-- A step of the shell with this number. A command without an input file has no such steps. -/
def stepShell (feeds : List (Option Feed)) (state : Shells) (shell : Nat) : Shells :=
  match feeds[shell]? with
  | some (some feed) => stepFeed feed shell state
  | _ => state

/-- The shells have been started and the files hold what they held before. -/
def Shells.start (files : Text → Text) : Shells := ⟨files, fun _ => .opening⟩

/-- The steps of the shells in the order the schedule gives. -/
def runShells (feeds : List (Option Feed)) (files : Text → Text) (schedule : List Nat) : Shells :=
  schedule.foldl (stepShell feeds) (Shells.start files)

/-- In whatever order the shells take their steps, an application reads what its own shell has
written for it. -/
def ReadsOwn (feeds : List (Option Feed)) : Prop :=
  ∀ files schedule shell (feed : Feed) input, feeds[shell]? = some (some feed) →
    (runShells feeds files schedule).stages shell = .started input → input = feed.text

/-- A shell that shares its file with another one writes nothing. -/
def Unshared (feeds : List (Option Feed)) : Prop :=
  ∀ (shell other : Nat) (feed feed' : Feed), feeds[shell]? = some (some feed) →
    feeds[other]? = some (some feed') → shell ≠ other → feed.path = feed'.path → feed.text = []

/-- What a shell has done so far is still to be seen in its file. -/
def Undisturbed (feed : Feed) (content : Text) : Stage → Prop
  | .opening => True
  | .writing => content = []
  | .reading => content = feed.text
  | .started input => input = feed.text

theorem undisturbed_advance {feed : Feed} {content : Text} {stage : Stage}
    (undisturbed : Undisturbed feed content stage) :
    Undisturbed feed (feed.advance content stage).1 (feed.advance content stage).2 := by
  cases stage with
  | opening => rfl
  | writing =>
    have empty : content = [] := undisturbed
    rw [empty]
    show feed.text ++ List.drop feed.text.length [] = feed.text
    rw [List.drop_nil, List.append_nil]
  | reading => exact undisturbed
  | started input => exact undisturbed

/-- A shell that writes nothing empties its file or leaves it alone. -/
theorem advance_silent {feed : Feed} (silent : feed.text = []) (content : Text) (stage : Stage) :
    (feed.advance content stage).1 = [] ∨ (feed.advance content stage).1 = content := by
  cases stage with
  | opening => exact .inl rfl
  | writing =>
    refine .inr ?_
    show feed.text ++ content.drop feed.text.length = content
    rw [silent]
    rfl
  | reading => exact .inr rfl
  | started input => exact .inr rfl

theorem undisturbed_emptied {feed : Feed} (silent : feed.text = []) {content : Text} {stage : Stage}
    (undisturbed : Undisturbed feed content stage) : Undisturbed feed [] stage := by
  cases stage with
  | opening => exact undisturbed
  | writing => rfl
  | reading => exact silent.symm
  | started input => exact undisturbed

/-- A step of another shell leaves the stage alone, and the file too, unless it is shared. -/
theorem undisturbed_other {feed feed' : Feed} {shell other : Nat} {state : Shells}
    (different : shell ≠ other)
    (unshared : feed.path = feed'.path → feed.text = [] ∧ feed'.text = [])
    (undisturbed : Undisturbed feed (state.files feed.path) (state.stages shell)) :
    Undisturbed feed ((stepFeed feed' other state).files feed.path)
      ((stepFeed feed' other state).stages shell) := by
  have stage : (stepFeed feed' other state).stages shell = state.stages shell :=
    Function.update_of_ne different _ _
  rw [stage]
  by_cases same : feed.path = feed'.path
  · obtain ⟨silent, silent'⟩ := unshared same
    have content : (stepFeed feed' other state).files feed.path =
        (feed'.advance (state.files feed.path) (state.stages other)).1 := by
      rw [same]
      exact Function.update_self _ _ _
    rw [content]
    rcases advance_silent silent' (state.files feed.path) (state.stages other) with empty | kept
    · rw [empty]
      exact undisturbed_emptied silent undisturbed
    · rw [kept]
      exact undisturbed
  · have content : (stepFeed feed' other state).files feed.path = state.files feed.path :=
      Function.update_of_ne same _ _
    rw [content]
    exact undisturbed

theorem undisturbed_step {feeds : List (Option Feed)} (unshared : Unshared feeds) {shell : Nat}
    {feed : Feed} (own : feeds[shell]? = some (some feed)) {state : Shells} (other : Nat)
    (undisturbed : Undisturbed feed (state.files feed.path) (state.stages shell)) :
    Undisturbed feed ((stepShell feeds state other).files feed.path)
      ((stepShell feeds state other).stages shell) := by
  unfold stepShell
  split
  · rename_i feed' found
    by_cases same : shell = other
    · obtain rfl := same
      obtain rfl := Option.some.inj (Option.some.inj (own.symm.trans found))
      have advanced := undisturbed_advance undisturbed
      simp only [stepFeed, Function.update_self]
      exact advanced
    · refine undisturbed_other same (fun path => ⟨?_, ?_⟩) undisturbed
      · exact unshared shell other feed feed' own found same path
      · exact unshared other shell feed' feed found own (Ne.symm same) path.symm
  · exact undisturbed

theorem undisturbed_run {feeds : List (Option Feed)} (unshared : Unshared feeds) {shell : Nat}
    {feed : Feed} (own : feeds[shell]? = some (some feed)) (schedule : List Nat) (state : Shells)
    (undisturbed : Undisturbed feed (state.files feed.path) (state.stages shell)) :
    Undisturbed feed ((schedule.foldl (stepShell feeds) state).files feed.path)
      ((schedule.foldl (stepShell feeds) state).stages shell) := by
  induction schedule generalizing state with
  | nil => exact undisturbed
  | cons other schedule inductionHypothesis =>
    rw [List.foldl_cons]
    exact inductionHypothesis _ (undisturbed_step unshared own other undisturbed)

/-- Every application reads its own text, in every order of the steps, exactly when no shell that
writes something shares its file. -/
theorem readsOwn_iff (feeds : List (Option Feed)) : ReadsOwn feeds ↔ Unshared feeds := by
  constructor
  · intro readsOwn shell other feed feed' own found different path
    -- The other shell opens the file after the text was written and before it is read.
    refine (readsOwn (fun _ => []) [shell, shell, other, shell] shell feed [] own ?_).symm
    simp only [runShells, List.foldl_cons, List.foldl_nil, stepShell, own, found, stepFeed,
      Shells.start, path, Feed.advance, Function.update_self, Function.update_of_ne different,
      Function.update_of_ne different.symm]
  · intro unshared files schedule shell feed input own started
    have undisturbed := undisturbed_run unshared own schedule (Shells.start files) trivial
    unfold runShells at started
    rw [started] at undisturbed
    exact undisturbed

/-! ### The commands with an input file -/

/-- The parts of a template with an input file: its path, whether `echo` gets `-e`, the quoted
text, and the application. -/
structure InputFile where
  path : Text
  escapes : Bool
  parameters : Text
  application : Text

def inputFiles : List (Text × InputFile) :=
  [("FMM".toList,
    { path := "/tmp/input".toList
      escapes := true
      parameters := "CLUSTERTYPE\nDISTRIBUTIONTYPE\nPARTICLES\nPRECISION\nTHREADS\n".toList ++
        "TIMESTEPS\nSTEPSURATION\nSOFTPARAM\nPARTSCHEME\n".toList
      application := "/fmm/FMM".toList }),
   ("WATERNSQUARED".toList,
    { path := "/tmp/input".toList
      escapes := false
      parameters := "TSTEP NMOL NSTEP NORDER NSAVE NRST NPRINT NFMC THREADS CUTOFF".toList
      application := "/water-nsquared/WATER-NSQUARED".toList })]

namespace InputFile

/-- What stands before the quoted text. -/
def front (input : InputFile) : Text :=
  if input.escapes then "echo -e ".toList else "echo ".toList

/-- What stands behind the quoted text. -/
def back (input : InputFile) (base : Text) : Text :=
  " > ".toList ++ input.path ++ " ;".toList ++
    ' ' :: (splashApps base ++ input.application ++ " < ".toList ++ input.path)

/-- `echo "parameters" > path ; application < path`. -/
def command (input : InputFile) (base parameters : Text) : Text :=
  input.front ++ '"' :: (parameters ++ '"' :: input.back base)

end InputFile

/-- The two templates have this form. -/
theorem inputFiles_templates (base : Text) : ∀ entry ∈ inputFiles,
    (appCmdMap base).lookup entry.1 = some (entry.2.command base entry.2.parameters) := by
  refine List.forall_mem_cons.mpr ⟨?_, List.forall_mem_singleton.mpr ?_⟩
  · have listed : (appCmdMap base).lookup "FMM".toList = some _ := rfl
    refine listed.trans ?_
    simp only [InputFile.command, InputFile.front, InputFile.back, if_true]
    repeat rw [String.toList_ofList]
    simp only [List.append_assoc, List.cons_append, List.nil_append]
  · have listed : (appCmdMap base).lookup "WATERNSQUARED".toList = some _ := rfl
    refine listed.trans ?_
    simp only [InputFile.command, InputFile.front, InputFile.back, Bool.false_eq_true, if_false]
    repeat rw [String.toList_ofList]
    simp only [List.append_assoc, List.cons_append, List.nil_append]

/-- No other template redirects anything. -/
theorem others_read_no_file : ∀ entry ∈ appCmdMap [], inputFiles.lookup entry.1 = none →
    '<' ∉ entry.2 ∧ '>' ∉ entry.2 := by
  simp only [appCmdMap, inputFiles, splashKernel, splashApps, splash, probe, List.nil_append]
  repeat rw [String.toList_ofList]
  decide +kernel

/-- The text an instance's parameters make of the quoted part of the template. -/
def AppInstance.parameterText (root : AppInstance) (input : InputFile) : Text :=
  inOrder root.bindings input.parameters

/-- No tag occurs in the parts of the two templates around the quoted text. -/
theorem inputFiles_fixed : ∀ entry ∈ inputFiles, ∀ known ∈ documentedTags, known.1 = entry.1 →
    ∀ tag ∈ "THREADS".toList :: known.2, ¬ tag <:+: entry.2.front ∧
      ¬ tag <:+: " > ".toList ++ entry.2.path ++ " ;".toList ∧
      ¬ tag <:+: "splash2_bench/codes/apps".toList ++ entry.2.application ++ " < ".toList ++
        entry.2.path := by
  simp only [documentedTags, List.map_cons, List.map_nil, inputFiles, InputFile.front]
  repeat rw [String.toList_ofList]
  decide +kernel

theorem not_infix_back {base tag : Text} {input : InputFile}
    (outside : ∀ character, character.isUpper = false → character ∉ tag)
    (redirect : ¬ tag <:+: " > ".toList ++ input.path ++ " ;".toList) (free : ¬ tag <:+: base)
    (program : ¬ tag <:+: "splash2_bench/codes/apps".toList ++ input.application ++ " < ".toList ++
      input.path) : ¬ tag <:+: input.back base := by
  have path : splashApps base ++ input.application ++ " < ".toList ++ input.path =
      base ++ '/' :: ("splash2_bench/codes/apps".toList ++ input.application ++ " < ".toList ++
        input.path) := by
    unfold splashApps splash
    simp only [List.append_assoc]
    rfl
  intro found
  unfold InputFile.back at found
  rw [path] at found
  rcases infix_append_cons (outside ' ' rfl) found with before | behind
  · exact redirect before
  · exact (infix_append_cons (outside '/' rfl) behind).elim free program

/-- The command of a documented instance writes its parameter text to the file and starts the
application on that file. -/
theorem Documented.command_eq {base name : Text} {root : AppInstance} {input : InputFile}
    (documented : Documented root name) (listed : (name, input) ∈ inputFiles)
    (free : ∀ arg ∈ root.children, ¬ arg.tag <:+: base) :
    getidcmdpairbyxml base root =
      .ok (root.id, input.command base (root.parameterText input)) := by
  have template := inputFiles_templates base (name, input) listed
  have independent := documented.independent template free
  obtain ⟨own, tags, entry, offered, permuted⟩ := documented.known
  have distinct := (templates_worded _ entry tags offered).1
  have fixed := inputFiles_fixed (name, input) listed (name, own) entry rfl
  have tagged : ∀ binding ∈ root.bindings, binding.1 ∈ tags ∧ ¬ binding.1 <:+: base := by
    intro binding bound
    obtain ⟨arg, child, rfl⟩ := List.mem_map.mp bound
    exact ⟨permuted.subset (List.mem_map_of_mem child), free arg child⟩
  have known : ∀ tag ∈ tags, tag ∈ "THREADS".toList :: own := by
    rcases List.mem_cons.mp offered with rfl | extra
    · exact fun tag member => List.mem_cons_of_mem _ member
    · obtain rfl := List.mem_singleton.mp extra
      exact fun tag member => member
  have front : inOrder root.bindings input.front = input.front :=
    inOrder_of_absent fun binding bound => (fixed _ (known _ (tagged binding bound).1)).1
  have back : inOrder root.bindings (input.back base) = input.back base := by
    refine inOrder_of_absent fun binding bound => ?_
    obtain ⟨tag, absent⟩ := tagged binding bound
    obtain ⟨-, redirect, program⟩ := fixed _ (known _ tag)
    exact not_infix_back (fun _ other => distinct.outside tag other) redirect absent program
  have quotes : ∀ binding ∈ root.bindings,
      ∀ piece ∈ [('"', input.parameters), ('"', input.back base)], piece.1 ∉ binding.1 := by
    intro binding bound
    have outside : '"' ∉ binding.1 := distinct.outside (tagged binding bound).1 rfl
    exact List.forall_mem_cons.mpr ⟨outside, List.forall_mem_singleton.mpr outside⟩
  have shape : ∀ change, Cut.join change
        ⟨input.front, [('"', input.parameters), ('"', input.back base)]⟩ =
      change input.front ++ '"' ::
        (change input.parameters ++ '"' :: change (input.back base)) := by
    intro change
    rw [Cut.join_cons, Cut.join_cons, Cut.join, List.flatMap_nil, List.append_nil]
  have joined : inOrder root.bindings (Cut.join id
      ⟨input.front, [('"', input.parameters), ('"', input.back base)]⟩) = _ :=
    inOrder_join id quotes independent.nonempty
  rw [shape, shape] at joined
  have valued : ∀ arg ∈ root.children, ∃ value, arg.text = some value := fun arg member => by
    obtain ⟨value, text, -⟩ := documented.valued arg member
    exact ⟨value, text⟩
  refine (getidcmdpairbyxml_eq_ok documented.named template valued).trans ?_
  refine congrArg (fun command => Except.ok (root.id, command)) (joined.trans ?_)
  show inOrder root.bindings input.front ++ '"' :: (root.parameterText input ++ '"' ::
    inOrder root.bindings (input.back base)) = _
  rw [front, back]
  rfl

/-! ### Instances that are started together

`echo` stands for the program of that name: with or without `-e`, what it writes for a text. -/

section Together

variable (echo : Bool → Text → Text)

/-- What the shell of an instance writes, and where. -/
def AppInstance.feed (root : AppInstance) : Option Feed :=
  (root.name.bind fun name => inputFiles.lookup name).map fun input =>
    ⟨input.path, echo input.escapes (root.parameterText input)⟩

/-- How a shell reads such a command: the quoted text is for `echo`, and the word behind `>` is the
path. -/
def shellFeed (command : Text) : Option Feed :=
  match command.splitOn '"' with
  | front :: text :: back :: _ =>
    match back.splitOn ' ' with
    | _ :: ['>'] :: path :: _ => some ⟨path, echo (decide (front = "echo -e ".toList)) text⟩
    | _ => none
  | _ => none

theorem shellFeed_command {base parameters : Text} (unquoted : '"' ∉ parameters)
    (unquotedBase : '"' ∉ base) : ∀ entry ∈ inputFiles,
      shellFeed echo (entry.2.command base parameters) =
        some ⟨entry.2.path, echo entry.2.escapes parameters⟩ := by
  have shape : ∀ input : InputFile, '"' ∉ input.front → '"' ∉ input.back base →
      (input.command base parameters).splitOn '"' =
        [input.front, parameters, input.back base] := by
    intro input front back
    unfold InputFile.command
    rw [List.splitOn_append_cons_self_of_not_mem front,
      List.splitOn_append_cons_self_of_not_mem unquoted, List.splitOn_eq_singleton back]
  have words : ∀ program : Text, (" > /tmp/input ;".toList ++ ' ' :: program).splitOn ' ' =
      [] :: ['>'] :: "/tmp/input".toList :: [';'] :: program.splitOn ' ' := by
    intro program
    rfl
  have path : '"' ∉ splashApps base := by
    unfold splashApps splash
    repeat rw [String.toList_ofList]
    simp [unquotedBase]
  refine List.forall_mem_cons.mpr ⟨?_, List.forall_mem_singleton.mpr ?_⟩
  · rw [shellFeed, shape _ (by decide) (by simp [InputFile.back, path])]
    rfl
  · rw [shellFeed, shape _ (by decide) (by simp [InputFile.back, path])]
    rfl

theorem inputFiles_unquoted : ∀ entry ∈ inputFiles, '"' ∉ entry.2.parameters := by decide

theorem lookup_inputFiles {name : Text} {input : InputFile} (listed : (name, input) ∈ inputFiles) :
    inputFiles.lookup name = some input := by
  rcases List.mem_cons.mp listed with first | later
  · cases first
    rfl
  · cases List.mem_singleton.mp later
    rfl

/-- The shell of a documented instance with an input file finds this in its command, if no value
has a quote in it. -/
theorem Documented.feed_eq {base name : Text} {root : AppInstance} {input : InputFile}
    (documented : Documented root name) (listed : (name, input) ∈ inputFiles)
    (free : ∀ arg ∈ root.children, ¬ arg.tag <:+: base) (unquotedBase : '"' ∉ base)
    (unquoted : ∀ binding ∈ root.bindings, '"' ∉ binding.2) :
    ∃ command, getidcmdpairbyxml base root = .ok (root.id, command) ∧
      shellFeed echo command = root.feed echo := by
  refine ⟨_, documented.command_eq listed free, ?_⟩
  have parameters : '"' ∉ root.parameterText input := 
    not_mem_inOrder unquoted (inputFiles_unquoted _ listed)
  rw [shellFeed_command echo parameters unquotedBase _ listed, AppInstance.feed, documented.named,
    Option.bind_some, lookup_inputFiles listed]
  rfl

/-- The instance is one of the two applications with an input file. -/
def AppInstance.ReadsInput (root : AppInstance) : Prop :=
  root.name = some "FMM".toList ∨ root.name = some "WATERNSQUARED".toList

/-- What `echo` writes for the instance. -/
def AppInstance.inputText (root : AppInstance) : Text := ((root.feed echo).map Feed.text).getD []

theorem AppInstance.ReadsInput.feed_eq {root : AppInstance} (reads : root.ReadsInput) :
    root.feed echo = some ⟨"/tmp/input".toList, root.inputText echo⟩ := by
  rcases reads with named | named
  · unfold AppInstance.inputText AppInstance.feed
    rw [named]
    rfl
  · unfold AppInstance.inputText AppInstance.feed
    rw [named]
    rfl

theorem AppInstance.readsInput_of_feed {root : AppInstance} {feed : Feed}
    (feeds : root.feed echo = some feed) : root.ReadsInput := by
  obtain ⟨input, found, -⟩ := Option.map_eq_some_iff.mp feeds
  obtain ⟨name, named, listed⟩ := Option.bind_eq_some_iff.mp found
  obtain ⟨before, after, shape, -⟩ := List.lookup_eq_some_iff.mp listed
  have member : (name, input) ∈ inputFiles := by
    rw [shape]
    exact List.mem_append_right _ List.mem_cons_self
  rcases List.mem_cons.mp member with first | later
  · exact .inl (named.trans (congrArg (fun entry => some entry.1) first))
  · exact .inr (named.trans (congrArg (fun entry => some entry.1) (List.mem_singleton.mp later)))

/-- The shells that write something are those of the instances with an input file. -/
theorem getElem?_feeds {instances : List AppInstance} {shell : Nat} {feed : Feed} :
    (instances.map (AppInstance.feed echo))[shell]? = some (some feed) ↔
      ∃ bound : shell < instances.length, instances[shell].ReadsInput ∧
        feed = ⟨"/tmp/input".toList, instances[shell].inputText echo⟩ := by
  rw [List.getElem?_map]
  constructor
  · intro found
    obtain ⟨root, member, feeds⟩ := Option.map_eq_some_iff.mp found
    obtain ⟨bound, rfl⟩ := List.getElem?_eq_some_iff.mp member
    have reads := AppInstance.readsInput_of_feed echo feeds
    exact ⟨bound, reads, Option.some.inj (feeds.symm.trans (reads.feed_eq echo))⟩
  · intro ⟨bound, reads, shape⟩
    rw [List.getElem?_eq_getElem bound, Option.map_some, reads.feed_eq echo, shape]

/-- What is documented of `echo`: a text without a backslash is written as it is, on a line. -/
def Echoes : Prop := ∀ escapes text, '\\' ∉ text → echo escapes text = text ++ ['\n']

variable {echo} in
/-- Such a text is not empty. -/
theorem inputText_ne_nil (echoes : Echoes echo) {root : AppInstance} (reads : root.ReadsInput)
    (plain : ∀ input, '\\' ∉ root.parameterText input) : root.inputText echo ≠ [] := by
  obtain ⟨input, written⟩ : ∃ input : InputFile,
      root.inputText echo = echo input.escapes (root.parameterText input) := by
    unfold AppInstance.inputText AppInstance.feed
    rcases reads with named | named <;> rw [named] <;> exact ⟨_, rfl⟩
  rw [written, echoes _ _ (plain input)]
  exact List.append_ne_nil_of_right_ne_nil _ (List.cons_ne_nil _ _)

/-- Whatever the instances that are started together, each application reads its own parameters in
every order of the shells' steps exactly when no two of the instances have an input file, or
`echo` writes nothing for two that do. With an `echo` as documented it always writes something for
parameters without a backslash. -/
theorem reads_own_parameters_iff (instances : List AppInstance) :
    (ReadsOwn (instances.map (AppInstance.feed echo)) ↔
      instances.Pairwise fun first second => first.ReadsInput → second.ReadsInput →
        first.inputText echo = [] ∧ second.inputText echo = []) ∧
    (Echoes echo → (∀ root ∈ instances, ∀ input, '\\' ∉ root.parameterText input) →
      (ReadsOwn (instances.map (AppInstance.feed echo)) ↔
        instances.Pairwise fun first second => ¬ (first.ReadsInput ∧ second.ReadsInput))) := by
  have silent : ReadsOwn (instances.map (AppInstance.feed echo)) ↔
      instances.Pairwise fun first second => first.ReadsInput → second.ReadsInput →
        first.inputText echo = [] ∧ second.inputText echo = [] := by
    rw [readsOwn_iff, List.pairwise_iff_getElem]
    constructor
    · intro unshared first second firstBound secondBound before firstReads secondReads
      have firstFeed := (getElem?_feeds echo).mpr ⟨firstBound, firstReads, rfl⟩
      have secondFeed := (getElem?_feeds echo).mpr ⟨secondBound, secondReads, rfl⟩
      exact ⟨unshared first second _ _ firstFeed secondFeed (Nat.ne_of_lt before) rfl,
        unshared second first _ _ secondFeed firstFeed (Nat.ne_of_gt before) rfl⟩
    · intro pairs shell other feed feed' own found different path
      obtain ⟨bound, reads, rfl⟩ := (getElem?_feeds echo).mp own
      obtain ⟨otherBound, otherReads, rfl⟩ := (getElem?_feeds echo).mp found
      rcases Nat.lt_or_gt_of_ne different with before | behind
      · exact (pairs shell other bound otherBound before reads otherReads).1
      · exact (pairs other shell otherBound bound behind otherReads reads).2
  refine ⟨silent, fun echoes plain => ?_⟩
  rw [silent, List.pairwise_iff_getElem, List.pairwise_iff_getElem]
  refine forall₂_congr fun first second => forall₂_congr fun firstBound secondBound =>
    forall_congr' fun _ => ⟨?_, fun apart one other => absurd ⟨one, other⟩ apart⟩
  rintro nothing ⟨one, other⟩
  exact inputText_ne_nil echoes one (plain _ (List.getElem_mem _)) (nothing one other).1

/-- The instances 11 and 14 of `data/parallel` differ in their threads. -/
def waterSample (id threads : Text) : AppInstance where
  id := some id
  name := some "WATERNSQUARED".toList
  children :=
    [⟨"TSTEP".toList, some "1.5e-16".toList⟩, ⟨"NMOL".toList, some "216".toList⟩,
     ⟨"NSTEP".toList, some "90000".toList⟩, ⟨"NORDER".toList, some "6".toList⟩,
     ⟨"NSAVE".toList, some "0".toList⟩, ⟨"NRST".toList, some "0".toList⟩,
     ⟨"NPRINT".toList, some "10000".toList⟩, ⟨"NFMC".toList, some "0".toList⟩,
     ⟨"THREADS".toList, some threads⟩, ⟨"CUTOFF".toList, some "6.212752".toList⟩]

/-- Both shells have written before the first application is started: it reads the parameters of
the second one. -/
theorem reads_parameters_of_another :
    ¬ ReadsOwn ([waterSample "11".toList "16".toList, waterSample "14".toList "8".toList].map
      (AppInstance.feed fun _ text => text ++ ['\n'])) := by
  intro readsOwn
  have same := readsOwn (fun _ => []) [0, 0, 1, 1, 0] 0
    ⟨"/tmp/input".toList, "1.5e-16 216 90000 6 0 0 10000 0 16 6.212752\n".toList⟩
    "1.5e-16 216 90000 6 0 0 10000 0 8 6.212752\n".toList (by decide +kernel) (by decide +kernel)
  exact absurd same (by decide +kernel)

end Together

end ClusterJobs
