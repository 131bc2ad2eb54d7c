/-
This file is about the shell commands the runners make of an instance's command: `bin/sequential`
and both modes of `bin/parallel` put `perf stat` in front of it, and `launch` in
`common/imports/dmtcp_utils.py` puts `dmtcp_launch` with its options there.

The commands of two applications have two parts. The first prepares an input file and the second is
the application, which is what should be measured or checkpointed. `launch` takes such a command
apart, after a look at the names of the two programs; the other runners do not, and measure the
preparation. Conversely a command in which one of the names occurs by accident has no second part,
and `launch` raises.
-/

import ClusterJobs.SharedInput

namespace ClusterJobs

open Python Substitute

/-! ### The shell commands -/

def dmtcp (base : Text) : Text := base ++ "/dmtcp".toList

def dmtcpLaunch (base : Text) : Text := dmtcp base ++ "/bin/dmtcp_launch".toList

def myplug (base : Text) : Text :=
  dmtcp base ++ "/src/plugin/myplug/dmtcp_myplughijack.so".toList

def logdir (base : Text) : Text := base ++ "/log".toList

def seqStatsDir (base : Text) : Text := base ++ "/data/seq/stats".toList

def perfStat : Text := "perf stat".toList

/-- What stands behind the command of `bin/sequential`. -/
def sequentialSuffix (base key time : Text) : Text :=
  " >> ".toList ++ seqStatsDir base ++ '/' :: key ++ '_' :: time ++ ".stat 2>&1".toList

/-- The measured command of `bin/sequential`. -/
def sequentialCommand (base key time cmd : Text) : Text :=
  perfStat ++ ' ' :: cmd ++ sequentialSuffix base key time

/-- The command of the random mode of `bin/parallel`. -/
def randomCommand (cmd : Text) : Text := perfStat ++ ' ' :: cmd

/-- The command of the defined mode of `bin/parallel`. -/
def definedCommand (cmd : Text) : Text := perfStat ++ ' ' :: cmd

/-- The arguments of `launch` beside the command. -/
structure LaunchOptions where
  plugin : Option Text := none
  newcoordinator : Option Text := none
  port : Option Text := none
  modifyenv : Option Text := none
  daemon : Option Text := none

/-- An option that passes its test is appended. -/
def appendOption (test : Text → Bool) (option : Option Text) (cmd : Text) : Text :=
  match option with
  | some option => if test option then cmd ++ ' ' :: option else cmd
  | none => cmd

/-- The plugin is appended, and then `myplug` replaced in all of the command. -/
def appendPlugin (base : Text) (plugin : Option Text) (cmd : Text) : Text :=
  match plugin with
  | some plugin =>
    if "--with-plugin".toList <:+: plugin then
      let cmd := cmd ++ ' ' :: plugin
      if "myplug".toList <:+: cmd then replace cmd "myplug".toList (myplug base) else cmd
    else cmd
  | none => cmd

/-- What `launch` puts in front of an application. -/
def launchWrapper (base : Text) (options : LaunchOptions) : Text :=
  let cmd := "STATFILE= STATGEN= ".toList ++ dmtcpLaunch base
  let cmd := appendPlugin base options.plugin cmd
  let cmd := appendOption (fun option => option = "--new-coordinator".toList)
    options.newcoordinator cmd
  let cmd := appendOption (fun option => "--port".toList <:+: option) options.port cmd
  let cmd := appendOption (fun option => option = "--modify-env".toList) options.modifyenv cmd
  cmd ++ " --no-gzip".toList

/-- What `launch` and `execcmd` or `execcmdbg` put behind it. -/
def launchSuffix (base logger : Text) (options : LaunchOptions) : Text :=
  " >> ".toList ++ logdir base ++ '/' :: logger ++ " 2>&1 ".toList ++
    if options.daemon = some "--daemon".toList then " &".toList else []

/-- `('FMM' in app_cmd) or ('WATER-NSQUARED' in app_cmd)`. -/
def NamesInputApp (appCmd : Text) : Prop :=
  "FMM".toList <:+: appCmd ∨ "WATER-NSQUARED".toList <:+: appCmd

instance (appCmd : Text) : Decidable (NamesInputApp appCmd) :=
  inferInstanceAs (Decidable (_ ∨ _))

/-- `launch`, up to the command that is executed. -/
def launch (base logger : Text) (options : LaunchOptions) (appCmd : Text) : Except PyError Text :=
  if NamesInputApp appCmd then
    match appCmd.splitOn ';' with
    | input :: application :: _ =>
      .ok (input ++ " ; ".toList ++ launchWrapper base options ++ application ++
        launchSuffix base logger options)
    | _ => .error .indexError
  else .ok (launchWrapper base options ++ ' ' :: appCmd ++ launchSuffix base logger options)

/-! ### Reading a command -/

/-- A command: what prepares the input, if there is such a part, and the application. -/
structure Reading where
  preparing : Option Text
  application : Text
  deriving DecidableEq

/-- A command with a `;` is `preparing ; application`. -/
def readCommand (cmd : Text) : Reading :=
  if ';' ∈ cmd then
    ⟨some (cmd.takeWhile fun character => character ≠ ';').dropLast,
      (cmd.dropWhile fun character => character ≠ ';').drop 2⟩
  else ⟨none, cmd⟩

/-- The shell command runs the preparing part as it is and has the wrapper directly in front of the
application. Blanks before the `;` do not matter. -/
def Wraps (reading : Reading) (wrapper suffix built : Text) : Prop :=
  match reading.preparing with
  | none => built = wrapper ++ ' ' :: reading.application ++ suffix
  | some preparing => ∃ blanks : Text, (∀ character ∈ blanks, character = ' ') ∧
      built = preparing ++ blanks ++ " ; ".toList ++ wrapper ++ ' ' :: reading.application ++ suffix

/-- All runners wrap the application of a command, and none raises. -/
structure RunnersWrap (base cmd : Text) : Prop where
  sequential : ∀ key time, Wraps (readCommand cmd) perfStat (sequentialSuffix base key time)
    (sequentialCommand base key time cmd)
  random : Wraps (readCommand cmd) perfStat [] (randomCommand cmd)
  defined : Wraps (readCommand cmd) perfStat [] (definedCommand cmd)
  launched : ∀ logger options, ∃ built, launch base logger options cmd = .ok built ∧
    Wraps (readCommand cmd) (launchWrapper base options) (launchSuffix base logger options) built

theorem readCommand_single {cmd : Text} (single : ';' ∉ cmd) : readCommand cmd = ⟨none, cmd⟩ := by
  rw [readCommand, if_neg single]

theorem readCommand_parts {preparing : Text} (plain : ';' ∉ preparing) (application : Text) :
    readCommand (preparing ++ ' ' :: ';' :: ' ' :: application) =
      ⟨some preparing, application⟩ := by
  have before : ∀ character ∈ preparing ++ [' '], decide (character ≠ ';') = true := by
    intro character member
    rcases List.mem_append.mp member with inside | blank
    · simpa using fun same : character = ';' => plain (same ▸ inside)
    · rw [List.mem_singleton.mp blank]
      rfl
  have split : preparing ++ ' ' :: ';' :: ' ' :: application =
      (preparing ++ [' ']) ++ ';' :: ' ' :: application := by simp
  rw [readCommand, if_pos (by simp), split, List.takeWhile_append_of_pos before,
    List.dropWhile_append_of_pos before]
  simp

/-! ### The commands of the applications -/

/-- An instance of an application: its children are parameters of the application, and their
values are free of `;`. -/
structure Parameterised (root : AppInstance) (name : Text) : Prop where
  named : root.name = some name
  tagged : ∃ tags, (name, tags) ∈ documentedTags ∧
    ∀ arg ∈ root.children, arg.tag ∈ "THREADS".toList :: tags
  plain : ∀ arg ∈ root.children, ∃ value, arg.text = some value ∧ ';' ∉ value

theorem Parameterised.values {root : AppInstance} {name : Text}
    (parameterised : Parameterised root name) : ∀ binding ∈ root.bindings, ';' ∉ binding.2 := by
  intro binding bound
  obtain ⟨arg, child, rfl⟩ := List.mem_map.mp bound
  obtain ⟨value, text, plain⟩ := parameterised.plain arg child
  rwa [text]

/-- Tags consist of capital letters. -/
theorem Parameterised.separates {root : AppInstance} {name : Text}
    (parameterised : Parameterised root name) {character : Char}
    (other : character.isUpper = false) : ∀ binding ∈ root.bindings, character ∉ binding.1 := by
  intro binding bound
  obtain ⟨arg, child, rfl⟩ := List.mem_map.mp bound
  obtain ⟨tags, entry, tagged⟩ := parameterised.tagged
  have distinct := (templates_worded _ entry _ (List.mem_cons_of_mem _ List.mem_cons_self)).1
  exact distinct.outside (tagged arg child) other

theorem Parameterised.nonempty {root : AppInstance} {name : Text}
    (parameterised : Parameterised root name) : ∀ binding ∈ root.bindings, binding.1 ≠ [] := by
  intro binding bound
  obtain ⟨arg, child, rfl⟩ := List.mem_map.mp bound
  obtain ⟨tags, entry, tagged⟩ := parameterised.tagged
  have distinct := (templates_worded _ entry _ (List.mem_cons_of_mem _ List.mem_cons_self)).1
  exact (distinct.1 _ (tagged arg child)).1

/-- The command of an instance is its application's template with the tags replaced. -/
theorem Parameterised.template {root : AppInstance} {name base cmd : Text} {id : Option Text}
    (parameterised : Parameterised root name)
    (made : getidcmdpairbyxml base root = .ok (id, cmd)) :
    ∃ template, (appCmdMap base).lookup name = some template ∧
      cmd = inOrder root.bindings template := by
  have valued : ∀ arg ∈ root.children, ∃ value, arg.text = some value := fun arg child =>
    (parameterised.plain arg child).imp fun _ holds => holds.1
  cases listed : (appCmdMap base).lookup name with
  | none =>
    unfold getidcmdpairbyxml at made
    rw [parameterised.named, Option.bind_some, listed] at made
    cases made
  | some template =>
    rw [getidcmdpairbyxml_eq_ok parameterised.named listed valued] at made
    exact ⟨template, rfl, (Prod.mk.inj (Except.ok.inj made)).2.symm⟩

/-- The program of an application with an input file, as `launch` looks for it. -/
def inputPrograms : List (Text × Text) :=
  [("FMM".toList, "FMM".toList), ("WATERNSQUARED".toList, "WATER-NSQUARED".toList)]

/-- The applications without an input file have no `;` in their template. -/
theorem others_single {base name template : Text} (plain : ';' ∉ base)
    (other : inputPrograms.lookup name = none)
    (listed : (appCmdMap base).lookup name = some template) : ';' ∉ template := by
  have bareTemplates : ∀ entry ∈ appCmdMap [], inputPrograms.lookup entry.1 = none →
      ';' ∉ entry.2 := by
    simp only [appCmdMap, inputPrograms, splashKernel, splashApps, splash, probe, List.nil_append]
    repeat rw [String.toList_ofList]
    decide +kernel
  obtain ⟨front, bare, -, ⟨back, rfl, rfl⟩, found⟩ := lookup_placed (appCmdMap_placed base) listed
  have member : (name, front ++ '/' :: back) ∈ appCmdMap [] := by
    obtain ⟨before, after, shape, -⟩ := List.lookup_eq_some_iff.mp found
    rw [shape]
    exact List.mem_append_right _ List.mem_cons_self
  have single := bareTemplates _ member other
  simp only [List.mem_append, List.mem_cons, not_or] at single ⊢
  exact ⟨single.1, plain, single.2⟩

/-- The template of an application with an input file, cut around its program. -/
theorem inputPrograms_templates (base : Text) : ∀ entry ∈ inputPrograms,
    ∃ arguments directory : Text, ';' ∉ arguments ∧ ';' ∉ directory ∧
      (appCmdMap base).lookup entry.1 = some ("echo".toList ++ ' ' :: (arguments ++ ' ' :: ';' ::
        ' ' :: (base ++ '/' :: (directory ++ '/' :: (entry.2 ++ " < /tmp/input".toList)))))
      := by
  refine List.forall_mem_cons.mpr ⟨?_, List.forall_mem_singleton.mpr ?_⟩
  · refine ⟨"-e \"CLUSTERTYPE\nDISTRIBUTIONTYPE\nPARTICLES\nPRECISION\n".toList ++
      "THREADS\nTIMESTEPS\nSTEPSURATION\nSOFTPARAM\nPARTSCHEME\n\" > /tmp/input".toList,
      "splash2_bench/codes/apps/fmm".toList, by decide +kernel, by decide +kernel, ?_⟩
    have listed : (appCmdMap base).lookup "FMM".toList = some _ := rfl
    refine listed.trans ?_
    unfold splashApps splash
    repeat rw [String.toList_ofList]
    simp only [List.append_assoc, List.cons_append, List.nil_append]
  · refine ⟨"\"TSTEP NMOL NSTEP NORDER NSAVE NRST NPRINT NFMC THREADS CUTOFF\"".toList ++
      " > /tmp/input".toList, "splash2_bench/codes/apps/water-nsquared".toList,
      by decide +kernel, by decide +kernel, ?_⟩
    have listed : (appCmdMap base).lookup "WATERNSQUARED".toList = some _ := rfl
    refine listed.trans ?_
    unfold splashApps splash
    repeat rw [String.toList_ofList]
    simp only [List.append_assoc, List.cons_append, List.nil_append]

/-- No tag occurs in `echo` or in the name of the program. -/
theorem inputPrograms_fixed : ∀ entry ∈ inputPrograms, ∀ known ∈ documentedTags,
    known.1 = entry.1 → ∀ tag ∈ "THREADS".toList :: known.2,
      ¬ tag <:+: "echo".toList ∧ ¬ tag <:+: entry.2 := by
  simp only [documentedTags, List.map_cons, List.map_nil, inputPrograms]
  repeat rw [String.toList_ofList]
  decide +kernel

/-- The command of an application with an input file has two parts. The first is an `echo`, and the
second runs the program. -/
theorem Parameterised.two_parts {root : AppInstance} {name program base cmd : Text}
    {id : Option Text} (parameterised : Parameterised root name) (plain : ';' ∉ base)
    (entry : (name, program) ∈ inputPrograms)
    (made : getidcmdpairbyxml base root = .ok (id, cmd)) :
    ∃ preparing application : Text, cmd = preparing ++ ' ' :: ';' :: ' ' :: application ∧
      ';' ∉ preparing ∧ ';' ∉ application ∧ "echo".toList <+: preparing ∧
      program <:+: application := by
  obtain ⟨template, listed, rfl⟩ := parameterised.template made
  obtain ⟨arguments, directory, plainArguments, plainDirectory, shape⟩ :=
    inputPrograms_templates base _ entry
  rw [listed] at shape
  cases shape
  obtain ⟨tags, known, tagged⟩ := parameterised.tagged
  have fixed : ∀ binding ∈ root.bindings,
      ¬ binding.1 <:+: "echo".toList ∧ ¬ binding.1 <:+: program := by
    intro binding bound
    obtain ⟨arg, child, rfl⟩ := List.mem_map.mp bound
    exact inputPrograms_fixed _ entry _ known rfl _ (tagged arg child)
  have echo := inOrder_of_absent fun binding bound => (fixed binding bound).1
  have run := inOrder_of_absent fun binding bound => (fixed binding bound).2
  have none := inOrder_of_absent fun binding bound inside =>
    parameterised.nonempty binding bound (List.eq_nil_of_infix_nil inside)
  have cut : ∀ separator : Char, separator.isUpper = false → ∀ front back : Text,
      inOrder root.bindings (front ++ separator :: back) =
        inOrder root.bindings front ++ separator :: inOrder root.bindings back :=
    fun separator other => inOrder_append_cons (parameterised.separates other)
      parameterised.nonempty
  have start : ∀ separator : Char, separator.isUpper = false → ∀ back : Text,
      inOrder root.bindings (separator :: back) = separator :: inOrder root.bindings back := by
    intro separator other back
    have split := cut separator other [] back
    rwa [none, List.nil_append, List.nil_append] at split
  have plainProgram : ∀ entry ∈ inputPrograms, ';' ∉ entry.2 := by decide
  have plainRest :
      ';' ∉ base ++ '/' :: (directory ++ '/' :: (program ++ " < /tmp/input".toList)) := by
    simp [plain, plainDirectory, plainProgram _ entry]
  refine ⟨"echo".toList ++ ' ' :: inOrder root.bindings arguments, inOrder root.bindings
    (base ++ '/' :: (directory ++ '/' :: (program ++ " < /tmp/input".toList))), ?_, ?_,
    not_mem_inOrder parameterised.values plainRest, List.prefix_append _ _, ?_⟩
  · rw [cut ' ' rfl, echo, cut ' ' rfl, start ';' rfl, start ' ' rfl, List.append_assoc,
      List.cons_append]
  · have arguments := not_mem_inOrder parameterised.values plainArguments
    simp [arguments]
  · have redirect : " < /tmp/input".toList = ' ' :: "< /tmp/input".toList := rfl
    rw [cut '/' rfl, cut '/' rfl, redirect, cut ' ' rfl, run]
    exact ⟨inOrder root.bindings base ++ '/' :: inOrder root.bindings directory ++ ['/'],
      ' ' :: inOrder root.bindings "< /tmp/input".toList, by simp⟩

/-! ### Wrapping the application -/

theorem namesInputApp_of_run {name program application : Text}
    (entry : (name, program) ∈ inputPrograms) (preparing : Text) (run : program <:+: application) :
    NamesInputApp (preparing ++ ' ' :: ';' :: ' ' :: application) := by
  have inside : program <:+: preparing ++ ' ' :: ';' :: ' ' :: application :=
    run.trans ⟨preparing ++ " ; ".toList, [], by simp⟩
  rcases List.mem_cons.mp entry with first | rest
  · obtain ⟨-, rfl⟩ := Prod.mk.inj first
    exact Or.inl inside
  · obtain ⟨-, rfl⟩ := Prod.mk.inj (List.mem_singleton.mp rest)
    exact Or.inr inside

/-- A runner that puts its wrapper in front of the whole command does not wrap the second part of
it. -/
theorem not_wraps_front {preparing application wrapper suffix rest : Text}
    (echo : "echo".toList <+: preparing) (different : ∃ first tail, wrapper = first :: tail ∧
      first ≠ 'e') : ¬ Wraps ⟨some preparing, application⟩ wrapper suffix (wrapper ++ rest) := by
  rintro ⟨blanks, _, same⟩
  obtain ⟨tail, rfl⟩ := echo
  obtain ⟨first, others, rfl, notEcho⟩ := different
  exact notEcho (List.cons.inj same).1

/-- `launch` does take the two parts of a command apart. -/
theorem launch_wraps_parts {preparing application : Text} (base logger : Text)
    (options : LaunchOptions) (plain : ';' ∉ preparing) (single : ';' ∉ application)
    (names : NamesInputApp (preparing ++ ' ' :: ';' :: ' ' :: application)) :
    ∃ built,
      launch base logger options (preparing ++ ' ' :: ';' :: ' ' :: application) = .ok built ∧
      Wraps (readCommand (preparing ++ ' ' :: ';' :: ' ' :: application))
        (launchWrapper base options) (launchSuffix base logger options) built := by
  have split : (preparing ++ ' ' :: ';' :: ' ' :: application).splitOn ';' =
      [preparing ++ [' '], ' ' :: application] := by
    have shape : preparing ++ ' ' :: ';' :: ' ' :: application =
        (preparing ++ [' ']) ++ ';' :: (' ' :: application) := by simp
    rw [shape, List.splitOn_append_cons_self_of_not_mem (by simp [plain]),
      List.splitOn_eq_singleton (by simp [single])]
  refine ⟨_, by rw [launch, if_pos names, split], ?_⟩
  rw [readCommand_parts plain]
  exact ⟨[' '], by simp, by simp⟩

/-- So it wraps the two applications that read an input file, as the other runners do not. -/
theorem Parameterised.launch_wraps {root : AppInstance} {name program base cmd : Text}
    {id : Option Text} (parameterised : Parameterised root name) (plain : ';' ∉ base)
    (entry : (name, program) ∈ inputPrograms)
    (made : getidcmdpairbyxml base root = .ok (id, cmd)) (logger : Text)
    (options : LaunchOptions) :
    ∃ built, launch base logger options cmd = .ok built ∧ Wraps (readCommand cmd)
      (launchWrapper base options) (launchSuffix base logger options) built := by
  obtain ⟨preparing, application, rfl, plainPreparing, single, -, run⟩ :=
    parameterised.two_parts plain entry made
  exact launch_wraps_parts base logger options plainPreparing single
    (namesInputApp_of_run entry preparing run)

/-- Every runner wraps the application, whatever the application and the values of its parameters,
exactly when the command does not name one of the two programs that read an input file. -/
theorem runners_wrap_application_iff {root : AppInstance} {name base cmd : Text}
    {id : Option Text} (parameterised : Parameterised root name) (plain : ';' ∉ base)
    (made : getidcmdpairbyxml base root = .ok (id, cmd)) :
    RunnersWrap base cmd ↔ ¬ NamesInputApp cmd := by
  cases found : inputPrograms.lookup name with
  | some program =>
    have entry : (name, program) ∈ inputPrograms := by
      obtain ⟨before, after, shape, -⟩ := List.lookup_eq_some_iff.mp found
      rw [shape]
      exact List.mem_append_right _ List.mem_cons_self
    obtain ⟨preparing, application, rfl, plainPreparing, -, echo, run⟩ :=
      parameterised.two_parts plain entry made
    have names := namesInputApp_of_run entry preparing run
    refine iff_of_false (fun wraps => ?_) (not_not.mpr names)
    have measured := wraps.random
    rw [readCommand_parts plainPreparing] at measured
    exact not_wraps_front echo ⟨'p', _, rfl, by decide⟩ measured
  | none =>
    have single : ';' ∉ cmd := by
      obtain ⟨template, listed, rfl⟩ := parameterised.template made
      exact not_mem_inOrder parameterised.values (others_single plain found listed)
    have read := readCommand_single single
    constructor
    · rintro wraps names
      obtain ⟨built, launched, -⟩ := wraps.launched [] {}
      rw [launch, if_pos names, List.splitOn_eq_singleton single] at launched
      cases launched
    · intro unnamed
      refine ⟨fun key time => ?_, ?_, ?_, fun logger options => ⟨_, if_neg unnamed, ?_⟩⟩
      · rw [read]
        rfl
      · rw [read]
        exact (List.append_nil _).symm
      · rw [read]
        exact (List.append_nil _).symm
      · rw [read]
        rfl

/-- The last field of `Parameterised`, as a check. -/
theorem plain_of_check {children : List Argument}
    (check : ∀ arg ∈ children, (arg.text.any fun value => decide (';' ∉ value)) = true) :
    ∀ arg ∈ children, ∃ value, arg.text = some value ∧ ';' ∉ value := by
  intro arg child
  obtain ⟨value, text, plain⟩ := (Option.any_eq_true ..).mp (check arg child)
  exact ⟨value, text, of_decide_eq_true plain⟩

theorem runners_wrap_radix :
    ∃ cmd, getidcmdpairbyxml "/opt/cluster".toList radixSample = .ok (some "1".toList, cmd) ∧
      RunnersWrap "/opt/cluster".toList cmd := by
  have parameterised : Parameterised radixSample "RADIX".toList :=
    ⟨rfl, ⟨["THREADS", "BASE", "KEYS", "MAXVAL"].map String.toList, by decide, by decide⟩,
      plain_of_check (by decide +kernel)⟩
  have made : getidcmdpairbyxml "/opt/cluster".toList radixSample = .ok (some "1".toList,
      "/opt/cluster/splash2_bench/codes/kernels/radix/RADIX -p2 -r16 -n234349835 -m7".toList) := by
    simp only [getidcmdpairbyxml, radixSample, appCmdMap, splashKernel, splashApps, splash, probe]
    repeat rw [String.toList_ofList]
    decide +kernel
  exact ⟨_, made, (runners_wrap_application_iff parameterised (by decide) made).mpr
    (by decide +kernel)⟩

/-- For an instance of WATERNSQUARED it is the `echo` that is measured. -/
theorem preparation_is_measured :
    Parameterised (waterSample "11".toList "16".toList) "WATERNSQUARED".toList ∧
    ∃ cmd, getidcmdpairbyxml "/opt/cluster".toList (waterSample "11".toList "16".toList) =
      .ok (some "11".toList, cmd) ∧ ¬ RunnersWrap "/opt/cluster".toList cmd := by
  have parameterised : Parameterised (waterSample "11".toList "16".toList)
      "WATERNSQUARED".toList :=
    ⟨rfl, ⟨["TSTEP", "NMOL", "NSTEP", "NORDER", "NSAVE", "NRST", "NPRINT", "NFMC", "THREADS",
      "CUTOFF"].map String.toList, by decide +kernel, by decide +kernel⟩,
      plain_of_check (by decide +kernel)⟩
  have made : getidcmdpairbyxml "/opt/cluster".toList (waterSample "11".toList "16".toList) =
      .ok (some "11".toList,
        "echo \"1.5e-16 216 90000 6 0 0 10000 0 16 6.212752\" > /tmp/input".toList ++ ' ' :: ';' ::
          ' ' :: ("/opt/cluster/splash2_bench/codes/apps/water-nsquared/WATER-NSQUARED".toList ++
            " < /tmp/input".toList)) := by
    simp only [getidcmdpairbyxml, waterSample, appCmdMap, splashKernel, splashApps, splash, probe]
    repeat rw [String.toList_ofList]
    decide +kernel
  refine ⟨parameterised, _, made, fun wraps => ?_⟩
  have measured := wraps.random
  rw [readCommand_parts (by decide +kernel)] at measured
  exact not_wraps_front (by decide +kernel) ⟨'p', _, rfl, by decide⟩ measured

end ClusterJobs
