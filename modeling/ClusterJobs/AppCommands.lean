/-
This file models how the command of an app instance is made (`data/app_commands.py` and
`getidcmdpairbyxml` in `common/imports/utils.py`).

Every application has a template. The children of the instance's XML element name the tags of the
template and give their values; the program replaces them one after the other, in the order of the
document, each in the text the earlier replacements left: the fixed part of the template, the
install path and the values already written are all searched again.

No tag is hit by accident. All tags are in capital letters and every other character separates
them, so the template is cut into words, and each word is a tag of the application or has no tag
inside. That, and the same of the path and of the values, makes the command the template with
all tags replaced at once, whatever the order of the children.
-/

import ClusterJobs.Program
import ClusterJobs.Substitute
import ClusterJobs.Text
import Mathlib.Data.List.Perm.Basic

namespace ClusterJobs

open Python Substitute

/-! ### The templates -/

def splash (base : Text) : Text := base ++ "/splash2_bench".toList

def splashKernel (base : Text) : Text := splash base ++ "/codes/kernels".toList

def splashApps (base : Text) : Text := splash base ++ "/codes/apps".toList

def probe (base : Text) : Text := base ++ "/stencilprobe_bench".toList

/-- `APP_CMD_MAP`, for the install path `constants.BASE`. -/
def appCmdMap (base : Text) : List (Text × Text) :=
  [("RADIX".toList,
    splashKernel base ++ "/radix/RADIX -pTHREADS -rBASE -nKEYS -mMAXVAL".toList),
   ("LUC".toList,
    splashKernel base ++
      "/lu/contiguous_blocks/LUC -nMATRIXSIZE -pTHREADS -bBLOCKSIZE".toList),
   ("LUNC".toList,
    splashKernel base ++
      "/lu/non_contiguous_blocks/LUNC -nMATRIXSIZE -pTHREADS -bBLOCKSIZE".toList),
   ("FMM".toList,
    "echo -e \"CLUSTERTYPE\nDISTRIBUTIONTYPE\nPARTICLES\nPRECISION\nTHREADS\nTIMESTEPS\n".toList ++
      "STEPSURATION\nSOFTPARAM\nPARTSCHEME\n\" > /tmp/input ; ".toList ++
      splashApps base ++ "/fmm/FMM < /tmp/input".toList),
   ("OCEANC".toList,
    splashApps base ++
      "/ocean/contiguous_partitions/OCEANC -nGRIDSIZE -pTHREADS ".toList ++
      "-eTOLERANCE -rDISTANCE -tTIMESTEPS".toList),
   ("OCEANNC".toList,
    splashApps base ++
      "/ocean/non_contiguous_partitions/OCEANNC -nGRIDSIZE -pTHREADS ".toList ++
      "-eTOLERANCE -rDISTANCE -tTIMESTEPS".toList),
   ("WATERNSQUARED".toList,
    "echo \"TSTEP NMOL NSTEP NORDER NSAVE NRST NPRINT NFMC THREADS CUTOFF\"".toList ++
      " > /tmp/input ; ".toList ++
      splashApps base ++ "/water-nsquared/WATER-NSQUARED < /tmp/input".toList),
   ("PROBEBLOCKED".toList,
    probe base ++ "/PROBEBLOCKED GRIDX GRIDY GRIDZ BLOCKX BLOCKY BLOCKZ TIMESTEPS".toList),
   ("PROBEOBLIVIOUS".toList,
    probe base ++ "/PROBEOBLIVIOUS GRIDX GRIDY GRIDZ BLOCKX BLOCKY BLOCKZ TIMESTEPS".toList)]

/-- The tags of each application's instances, as `data/README` lists them. -/
def documentedTags : List (Text × List Text) :=
  [("RADIX", ["THREADS", "BASE", "KEYS", "MAXVAL"]),
   ("LUC", ["MATRIXSIZE", "THREADS", "BLOCKSIZE"]),
   ("LUNC", ["MATRIXSIZE", "THREADS", "BLOCKSIZE"]),
   ("FMM", ["CLUSTERTYPE", "DISTRIBUTIONTYPE", "PARTICLES", "PRECISION", "THREADS", "TIMESTEPS",
     "STEPSURATION", "SOFTPARAM", "PARTSCHEME"]),
   ("OCEANC", ["GRIDSIZE", "THREADS", "TOLERANCE", "DISTANCE", "TIMESTEPS"]),
   ("OCEANNC", ["GRIDSIZE", "THREADS", "TOLERANCE", "DISTANCE", "TIMESTEPS"]),
   ("WATERNSQUARED", ["TSTEP", "NMOL", "NSTEP", "NORDER", "NSAVE", "NRST", "NPRINT", "NFMC",
     "THREADS", "CUTOFF"]),
   ("PROBEBLOCKED", ["GRIDX", "GRIDY", "GRIDZ", "BLOCKX", "BLOCKY", "BLOCKZ", "TIMESTEPS"]),
   ("PROBEOBLIVIOUS", ["GRIDX", "GRIDY", "GRIDZ", "BLOCKX", "BLOCKY", "BLOCKZ", "TIMESTEPS"])].map
    fun entry => (entry.1.toList, entry.2.map String.toList)

/-! ### `getidcmdpairbyxml` -/

/-- A child of an instance's element. The text is `None` when the child is empty. -/
structure Argument where
  tag : Text
  text : Option Text
  deriving DecidableEq, Repr

/-- The root element of an instance's XML file. -/
structure AppInstance where
  id : Option Text
  name : Option Text
  children : List Argument
  deriving DecidableEq, Repr

/-- `text.replace(old, new)`, for a text `old` that is not empty. -/
def replace (text old new : Text) : Text := substitute [(old, new)] text

/-- `cmd.replace(arg.tag, arg.text)`. -/
def replaceArgument (cmd : Text) (arg : Argument) : Except PyError Text :=
  match arg.text with
  | some value => .ok (replace cmd arg.tag value)
  | none => .error .typeError

def getidcmdpairbyxml (base : Text) (root : AppInstance) :
    Except PyError (Option Text × Text) := do
  let cmd ← match root.name.bind fun app => (appCmdMap base).lookup app with
    | some template => pure template
    | none => throw .keyError
  let cmd ← root.children.foldlM replaceArgument cmd
  return (root.id, cmd)

/-- The tags of an instance with their values. -/
def AppInstance.bindings (root : AppInstance) : Bindings Char :=
  root.children.map fun arg => (arg.tag, arg.text.getD [])

/-! ### Every template is cut into tags and words without a tag -/

/-- The tags are in capital letters; every other character separates them. -/
def separates (character : Char) : Bool := !character.isUpper

/-- Each word of the text is a tag or has no tag inside. -/
def Worded (tags : List Text) (text : Text) : Prop :=
  ∀ word ∈ (cutAt separates text).words,
    word ≠ [] → word ∈ tags ∨ ∀ tag ∈ tags, ¬ tag <:+: word

instance decidableWorded (tags : List Text) (text : Text) : Decidable (Worded tags text) :=
  inferInstanceAs (Decidable (∀ word ∈ (cutAt separates text).words,
    word ≠ [] → word ∈ tags ∨ ∀ tag ∈ tags, ¬ tag <:+: word))

/-- The tags are capital letters, and none lies inside another. -/
def Distinct (tags : List Text) : Prop :=
  (∀ tag ∈ tags, tag ≠ [] ∧ tag.all Char.isUpper) ∧
    ∀ tag ∈ tags, ∀ other ∈ tags, tag <:+: other → tag = other

instance decidableDistinct (tags : List Text) : Decidable (Distinct tags) :=
  inferInstanceAs (Decidable (_ ∧ _))

theorem worded_append_cons {tags : List Text} {character : Char}
    (separator : separates character = true) (front back : Text) :
    Worded tags (front ++ character :: back) ↔ Worded tags front ∧ Worded tags back := by
  unfold Worded
  rw [words_cutAt_append_cons separator, List.forall_mem_append]

theorem worded_of_absent {tags : List Text} {text : Text} (absent : ∀ tag ∈ tags, ¬ tag <:+: text) :
    Worded tags text := by
  refine fun word member _ => .inr fun tag found inside => ?_
  exact absent tag found (inside.trans (infix_of_mem_words_cutAt member))

theorem Distinct.outside {tags : List Text} (distinct : Distinct tags) {tag : Text}
    (member : tag ∈ tags) {character : Char} (other : character.isUpper = false) :
    character ∉ tag := by
  intro inside
  rw [List.all_eq_true.mp (distinct.1 tag member).2 character inside] at other
  cases other

theorem Worded.fits {tags : List Text} {text : Text} (worded : Worded tags text)
    (distinct : Distinct tags) : Fits tags (cutAt separates text) where
  separated piece member tag found inside := by
    have other : piece.1.isUpper = false := by
      simpa only [separates, Bool.not_eq_eq_eq_not, Bool.not_true]
        using separator_of_mem_cutAt member
    exact distinct.outside found other inside
  worded word member := by
    by_cases empty : word = []
    · refine .inr fun tag found inside => (distinct.1 tag found).1 ?_
      rw [empty] at inside
      exact List.eq_nil_of_infix_nil inside
    · exact worded word member empty

/-- The template with the install path is the bare one with the path written before a slash. -/
def Mounted (base front template bare : Text) : Prop :=
  ∃ back : Text, template = front ++ (base ++ '/' :: back) ∧ bare = front ++ '/' :: back

theorem Mounted.append {base front template bare : Text}
    (mounted : Mounted base front template bare) (tail : Text) :
    Mounted base front (template ++ tail) (bare ++ tail) := by
  obtain ⟨back, rfl, rfl⟩ := mounted
  exact ⟨back ++ tail, by simp only [List.append_assoc, List.cons_append],
    by simp only [List.append_assoc, List.cons_append]⟩

theorem Mounted.behind {base template bare : Text} (mounted : Mounted base [] template bare)
    (front : Text) : Mounted base front (front ++ template) (front ++ bare) := by
  obtain ⟨back, rfl, rfl⟩ := mounted
  exact ⟨back, rfl, rfl⟩

theorem mounted_splash (base : Text) : Mounted base [] (splash base) (splash []) :=
  ⟨"splash2_bench".toList, rfl, rfl⟩

theorem mounted_probe (base : Text) : Mounted base [] (probe base) (probe []) :=
  ⟨"stencilprobe_bench".toList, rfl, rfl⟩

/-- The path stands at the start of a template or behind a blank. -/
def Placed (base : Text) (entry bare : Text × Text) : Prop :=
  entry.1 = bare.1 ∧ ∃ front : Text, (front = [] ∨ front.getLast? = some ' ') ∧
    Mounted base front entry.2 bare.2

theorem Mounted.placed {base template bare : Text} (mounted : Mounted base [] template bare)
    (name : Text) : Placed base (name, template) (name, bare) :=
  ⟨rfl, [], .inl rfl, mounted⟩

theorem Mounted.placedBehind {base front template bare : Text}
    (mounted : Mounted base front template bare) (blank : front.getLast? = some ' ')
    (name : Text) : Placed base (name, template) (name, bare) :=
  ⟨rfl, front, .inr blank, mounted⟩

theorem appCmdMap_placed (base : Text) :
    List.Forall₂ (Placed base) (appCmdMap base) (appCmdMap []) := by
  have kernel := (mounted_splash base).append "/codes/kernels".toList
  have apps := (mounted_splash base).append "/codes/apps".toList
  have stencil := mounted_probe base
  refine .cons ((kernel.append _).placed _) (.cons ((kernel.append _).placed _)
    (.cons ((kernel.append _).placed _) (.cons (((apps.behind _).append _).placedBehind ?_ _)
    (.cons (((apps.append _).append _).placed _) (.cons (((apps.append _).append _).placed _)
    (.cons (((apps.behind _).append _).placedBehind ?_ _) (.cons ((stencil.append _).placed _)
    (.cons ((stencil.append _).placed _) .nil))))))))
  · rw [String.toList_ofList, String.toList_ofList]
    rfl
  · rw [String.toList_ofList, String.toList_ofList]
    rfl

theorem lookup_placed {base : Text} {entries bare : List (Text × Text)} {name template : Text}
    (placed : List.Forall₂ (Placed base) entries bare)
    (listed : entries.lookup name = some template) :
    ∃ front other : Text, (front = [] ∨ front.getLast? = some ' ') ∧
      Mounted base front template other ∧ bare.lookup name = some other := by
  induction placed with
  | nil => cases listed
  | @cons entry other entries bare here _ inductionHypothesis =>
    obtain ⟨same, front, opens, mounted⟩ := here
    rw [List.lookup_cons] at listed ⊢
    rw [← same]
    cases found : name == entry.1 with
    | true =>
      rw [found] at listed
      obtain rfl := Option.some.inj listed
      exact ⟨front, other.2, opens, mounted, rfl⟩
    | false =>
      rw [found] at listed
      exact inductionHypothesis listed

/-- A path without a tag changes nothing about the words. -/
theorem Mounted.worded {base front template bare : Text} {tags : List Text}
    (mounted : Mounted base front template bare) (opens : front = [] ∨ front.getLast? = some ' ')
    (absent : ∀ tag ∈ tags, ¬ tag <:+: base) (worded : Worded tags bare) :
    Worded tags template := by
  obtain ⟨back, rfl, rfl⟩ := mounted
  have slash : separates '/' = true := rfl
  have blank : separates ' ' = true := rfl
  obtain ⟨fixed, rest⟩ := (worded_append_cons slash front back).mp worded
  have path := (worded_append_cons slash base back).mpr ⟨worded_of_absent absent, rest⟩
  rcases opens with rfl | ends
  · exact path
  · obtain ⟨text, rfl⟩ := List.getLast?_eq_some_iff.mp ends
    rw [List.append_assoc]
    exact (worded_append_cons blank text _).mpr
      ⟨((worded_append_cons blank text []).mp fixed).1, path⟩

theorem templates_worded :
    ∀ entry ∈ documentedTags, ∀ tags ∈ [entry.2, "THREADS".toList :: entry.2],
      Distinct tags ∧ ∀ bare ∈ (appCmdMap []).lookup entry.1, Worded tags bare := by
  simp only [documentedTags, List.map_cons, List.map_nil, appCmdMap, splashKernel, splashApps,
    splash, probe, List.nil_append]
  repeat rw [String.toList_ofList]
  decide +kernel

/-! ### The command of an instance -/

/-- An instance as `data/README` describes it: its children are the tags of its application,
possibly with an extra `THREADS`, every child has a text, no text has a tag inside, and a tag does
not have two values. -/
structure Documented (root : AppInstance) (name : Text) : Prop where
  named : root.name = some name
  tagged : ∃ tags, documentedTags.lookup name = some tags ∧
    ((root.children.map Argument.tag).Perm tags ∨
      (root.children.map Argument.tag).Perm ("THREADS".toList :: tags))
  valued : ∀ arg ∈ root.children, ∃ value, arg.text = some value ∧
    ∀ other ∈ root.children, ¬ other.tag <:+: value
  single : ∀ arg ∈ root.children, ∀ other ∈ root.children, arg.tag = other.tag → arg = other

/-- What the loop of `getidcmdpairbyxml` does when every child has a text. -/
theorem getidcmdpairbyxml_eq_ok {base name template : Text} {root : AppInstance}
    (named : root.name = some name) (listed : (appCmdMap base).lookup name = some template)
    (valued : ∀ arg ∈ root.children, ∃ value, arg.text = some value) :
    getidcmdpairbyxml base root = .ok (root.id, inOrder root.bindings template) := by
  have steps : ∀ cmd, ∀ arg ∈ root.children,
      replaceArgument cmd arg = .ok (substitute [(arg.tag, arg.text.getD [])] cmd) := by
    intro cmd arg member
    obtain ⟨value, text⟩ := valued arg member
    rw [replaceArgument, text]
    rfl
  unfold getidcmdpairbyxml
  rw [named, Option.bind_some, listed]
  show (root.children.foldlM replaceArgument template >>= fun cmd => pure (root.id, cmd)) = _
  rw [foldlM_eq_ok steps, inOrder, AppInstance.bindings, List.foldl_map]
  rfl

theorem Documented.known {root : AppInstance} {name : Text} (documented : Documented root name) :
    ∃ own tags, (name, own) ∈ documentedTags ∧ tags ∈ [own, "THREADS".toList :: own] ∧
      (root.children.map Argument.tag).Perm tags := by
  obtain ⟨own, known, children⟩ := documented.tagged
  have entry : (name, own) ∈ documentedTags := by
    obtain ⟨before, after, shape, -⟩ := List.lookup_eq_some_iff.mp known
    rw [shape]
    exact List.mem_append_right _ List.mem_cons_self
  rcases children with permuted | permuted
  · exact ⟨own, _, entry, List.mem_cons_self, permuted⟩
  · exact ⟨own, _, entry, List.mem_cons_of_mem _ List.mem_cons_self, permuted⟩

theorem Documented.distinct {root : AppInstance} {name : Text} (documented : Documented root name)
    {base template : Text} (listed : (appCmdMap base).lookup name = some template)
    (free : ∀ arg ∈ root.children, ¬ arg.tag <:+: base) :
    ∃ tags, Distinct tags ∧ Worded tags template ∧ tags ⊆ root.children.map Argument.tag ∧
      root.children.map Argument.tag ⊆ tags := by
  obtain ⟨own, tags, entry, offered, permuted⟩ := documented.known
  obtain ⟨distinct, bareWorded⟩ := templates_worded _ entry tags offered
  obtain ⟨front, bare, opens, mounted, bareListed⟩ := lookup_placed (appCmdMap_placed base) listed
  refine ⟨tags, distinct, mounted.worded opens ?_ (bareWorded bare bareListed),
    permuted.symm.subset, permuted.subset⟩
  intro tag member
  obtain ⟨arg, child, rfl⟩ := List.mem_map.mp (permuted.symm.subset member)
  exact free arg child

theorem AppInstance.bindings_tags (root : AppInstance) :
    root.bindings.map Prod.fst = root.children.map Argument.tag := by
  rw [AppInstance.bindings, List.map_map]
  rfl

theorem Documented.fits {root : AppInstance} {name : Text} (documented : Documented root name)
    {base template : Text} (listed : (appCmdMap base).lookup name = some template)
    (free : ∀ arg ∈ root.children, ¬ arg.tag <:+: base) :
    Fits (root.bindings.map Prod.fst) (cutAt separates template) := by
  obtain ⟨tags, distinct, worded, used, known⟩ := documented.distinct listed free
  rw [root.bindings_tags]
  exact (worded.fits distinct).of_subset used known

theorem Documented.independent {root : AppInstance} {name : Text}
    (documented : Documented root name) {base template : Text}
    (listed : (appCmdMap base).lookup name = some template)
    (free : ∀ arg ∈ root.children, ¬ arg.tag <:+: base) : Independent root.bindings := by
  obtain ⟨tags, distinct, -, -, known⟩ := documented.distinct listed free
  have argument : ∀ binding ∈ root.bindings, ∃ arg ∈ root.children,
      (arg.tag, arg.text.getD []) = binding := fun binding bound => List.mem_map.mp bound
  refine ⟨fun binding bound other found same => ?_, fun binding bound other found inside => ?_,
    fun binding bound other found inside => ?_⟩
  · obtain ⟨arg, child, rfl⟩ := argument binding bound
    obtain ⟨arg', child', rfl⟩ := argument other found
    rw [documented.single arg child arg' child' same]
  · obtain ⟨arg, child, rfl⟩ := argument binding bound
    obtain ⟨arg', child', rfl⟩ := argument other found
    exact distinct.2 _ (known (List.mem_map_of_mem child)) _ (known (List.mem_map_of_mem child'))
      inside
  · obtain ⟨arg, child, rfl⟩ := argument binding bound
    obtain ⟨arg', child', rfl⟩ := argument other found
    obtain ⟨value, text, clear⟩ := documented.valued arg' child'
    rw [text] at inside
    exact clear arg child inside

/-- Whatever the order of the children, the command of an instance is the template with every tag
replaced at once by its value, and no tag is left in it. -/
theorem command_order_independent {base name template : Text} {root : AppInstance}
    (documented : Documented root name) (listed : (appCmdMap base).lookup name = some template)
    (free : ∀ arg ∈ root.children, ¬ arg.tag <:+: base) {children : List Argument}
    (permuted : children.Perm root.children) :
    getidcmdpairbyxml base { root with children := children } =
        .ok (root.id, substitute root.bindings template) ∧
      ∀ arg ∈ root.children, ¬ arg.tag <:+: substitute root.bindings template := by
  have independent := documented.independent listed free
  have fits := documented.fits listed free
  have bindings : (AppInstance.mk root.id root.name children).bindings.Perm root.bindings :=
    permuted.map _
  constructor
  · have valued : ∀ arg ∈ children, ∃ value, arg.text = some value := fun arg member => by
      obtain ⟨value, text, -⟩ := documented.valued arg (permuted.subset member)
      exact ⟨value, text⟩
    have replaced := inOrder_eq_substitute (independent.of_subset bindings.subset)
      (fits.of_subset (bindings.symm.map Prod.fst).subset (bindings.map Prod.fst).subset)
    have made : getidcmdpairbyxml base { root with children := children } =
        .ok (root.id, inOrder (AppInstance.mk root.id root.name children).bindings template) :=
      getidcmdpairbyxml_eq_ok documented.named listed valued
    rw [made, replaced, substitute_perm independent fits bindings]
  · intro arg child
    have bound : (arg.tag, arg.text.getD []) ∈ root.bindings := List.mem_map_of_mem child
    exact not_infix_substitute independent fits bound

/-- `1.xml` of `data/README`. -/
def radixSample : AppInstance where
  id := some "1".toList
  name := some "RADIX".toList
  children :=
    [⟨"THREADS".toList, some "2".toList⟩, ⟨"BASE".toList, some "16".toList⟩,
     ⟨"KEYS".toList, some "234349835".toList⟩, ⟨"MAXVAL".toList, some "7".toList⟩]

theorem radixSample_documented : Documented radixSample "RADIX".toList where
  named := rfl
  tagged := ⟨["THREADS", "BASE", "KEYS", "MAXVAL"].map String.toList, rfl, .inl (.refl _)⟩
  valued := by
    simp only [radixSample, List.forall_mem_cons]
    exact ⟨⟨_, rfl, by decide +kernel⟩, ⟨_, rfl, by decide +kernel⟩, ⟨_, rfl, by decide +kernel⟩,
      ⟨_, rfl, by decide +kernel⟩, fun _ member => absurd member List.not_mem_nil⟩
  single := by decide +kernel

theorem command_order_independent_sample :
    getidcmdpairbyxml "/opt".toList
        { radixSample with children := radixSample.children.reverse } =
      .ok (some "1".toList,
        "/opt/splash2_bench/codes/kernels/radix/RADIX -p2 -r16 -n234349835 -m7".toList) := by
  have listed : (appCmdMap "/opt".toList).lookup "RADIX".toList = some _ := rfl
  have command := (command_order_independent radixSample_documented listed (by decide +kernel)
    (List.reverse_perm _)).1
  exact command.trans (by decide +kernel)

end ClusterJobs
