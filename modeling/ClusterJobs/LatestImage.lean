/-
This file asks which image a restart uses.

The sub-directories of an app are numbered, and `get_runnable_instance_map` takes the image in
the greatest of them. The directory names are texts, and so is their maximum: 9 comes after 10.
The image is the latest one exactly when no number, filled up with zeros to the length of the
greatest one, is above it.

`bin/parallel_dmtcp` and `bin/sequential_dmtcp` have the same function, for different directories.
-/

import ClusterJobs.Checkpoints
import Mathlib.Data.Set.Finite.Lemmas

namespace ClusterJobs

open Python

/-- `PARALLEL_DMTCP_CHKPTS_DIR`. -/
def parallelDmtcpChkptsDir (base : Text) : Text := base ++ "/data/parallel_dmtcp/chkpts".toList

/-- `SEQ_DMTCP_CHKPTS_DIR`. -/
def seqDmtcpChkptsDir (base : Text) : Text := base ++ "/data/seq_dmtcp/chkpts".toList

/-- `get_runnable_instance_map` of `bin/parallel_dmtcp`. -/
def ParallelDmtcp.getRunnableInstanceMap (base : Text) (tree : ChkptTree) :
    Except PyError (AList fun _ : Text => Text) :=
  ClusterJobs.getRunnableInstanceMap (parallelDmtcpChkptsDir base) tree

/-- `get_runnable_instance_map` of `bin/sequential_dmtcp`. -/
def SequentialDmtcp.getRunnableInstanceMap (base : Text) (tree : ChkptTree) :
    Except PyError (AList fun _ : Text => Text) :=
  ClusterJobs.getRunnableInstanceMap (seqDmtcpChkptsDir base) tree

/-! ### Numbered directories -/

/-- The checkpoint numbers of an app. -/
def numbers (numbered : AList fun _ : Text => List Text) : Set Nat :=
  {number | decimal number ∈ numbered}

/-- One of the files is an image: its name ends in `.dmtcp`, and no other name has that inside. -/
def SingleImage (files : List Text) (image : Text) : Prop :=
  ∃ front back, files = front ++ image :: back ∧ ".dmtcp".toList <:+ image ∧
    ∀ file ∈ front ++ back, ¬ ".dmtcp".toList <:+: file

/-- The directory of an app: there are sub-directories, their names are positive numbers, and each
of them has a single image. -/
structure Numbered (numbered : AList fun _ : Text => List Text) : Prop where
  nonempty : numbered.keys ≠ []
  named : ∀ name ∈ numbered, ∃ number, 0 < number ∧ name = decimal number
  imaged : ∀ name files, numbered.lookup name = some files → ∃ image, SingleImage files image

/-- Every app is mapped to the image in its sub-directory with the greatest number. -/
def MapsToLatest (root : Text) (tree : ChkptTree)
    (outcome : Except PyError (AList fun _ : Text => Text)) : Prop :=
  ∃ runnable, outcome = .ok runnable ∧ (∀ app, app ∈ runnable ↔ app ∈ tree) ∧
    ∀ app numbered, tree.lookup app = some numbered →
      ∃ latest files image, IsGreatest (numbers numbered) latest ∧
        numbered.lookup (decimal latest) = some files ∧ SingleImage files image ∧
        runnable.lookup app =
          some (root ++ '/' :: app ++ '/' :: decimal latest ++ '/' :: image)

/-- Filled up with zeros to the length of the greatest number, no number is above it. -/
def NoneAbove (numbered : AList fun _ : Text => List Text) : Prop :=
  ∀ latest, IsGreatest (numbers numbered) latest → ∀ number ∈ numbers numbered,
    number * 10 ^ ((decimal latest).length - (decimal number).length) ≤ latest

theorem getchkptimg_eq {files : List Text} {image : Text} (single : SingleImage files image) :
    getchkptimg files = some image := by
  obtain ⟨front, back, rfl, ends, others⟩ := single
  have absent : ∀ file ∈ front, ¬ ".dmtcp".toList <:+: file :=
    fun file member => others file (List.mem_append_left _ member)
  have skipped : front.find? (fun file => decide (".dmtcp".toList <:+: file)) = none :=
    List.find?_eq_none.mpr fun file member => by
      rw [decide_eq_true_eq]
      exact absent file member
  rw [getchkptimg, List.find?_append, skipped, Option.none_or,
    List.find?_cons, decide_eq_true ends.isInfix]

variable {dirs : AList fun _ : Text => List Text} {latest : Nat}

theorem decimal_injective : Function.Injective decimal := by
  intro first second same
  have value := digitsValue_decimal first
  rw [same, digitsValue_decimal] at value
  exact (Option.some.inj value).symm

theorem Numbered.exists_latest (numbered : Numbered dirs) :
    ∃ latest, IsGreatest (numbers dirs) latest := by
  have finite : (numbers dirs).Finite :=
    (List.finite_toSet dirs.keys).preimage decimal_injective.injOn
  obtain ⟨name, member⟩ := List.exists_mem_of_ne_nil _ numbered.nonempty
  obtain ⟨number, -, rfl⟩ := numbered.named name member
  obtain ⟨latest, known, greatest⟩ := Set.exists_max_image (numbers dirs) id finite ⟨number, member⟩
  exact ⟨latest, known, fun other found => greatest other found⟩

theorem Numbered.exists_newest (numbered : Numbered dirs) :
    ∃ newest files image, maxText dirs.keys = some newest ∧
      dirs.lookup newest = some files ∧ SingleImage files image := by
  obtain ⟨newest, greatest⟩ : ∃ newest, maxText dirs.keys = some newest := by
    cases keys : dirs.keys with
    | nil => exact absurd keys numbered.nonempty
    | cons first rest => exact ⟨_, rfl⟩
  have member : newest ∈ dirs := (maxText_spec greatest).1
  obtain ⟨files, found⟩ := Option.isSome_iff_exists.mp (AList.lookup_isSome.mpr member)
  obtain ⟨image, single⟩ := numbered.imaged newest files found
  exact ⟨newest, files, image, greatest, found, single⟩

/-- The greatest name is that of the greatest number exactly when no number filled up with zeros is
above it. -/
theorem Numbered.newest_eq_iff (numbered : Numbered dirs)
    (greatest : IsGreatest (numbers dirs) latest) {newest : Text}
    (found : maxText dirs.keys = some newest) :
    newest = decimal latest ↔ NoneAbove dirs := by
  obtain ⟨member, upper⟩ := maxText_spec found
  constructor
  · rintro rfl other greatest' number known
    rw [← greatest.unique greatest']
    exact (decimal_not_lt_iff (greatest.2 known)).mp (upper _ known)
  · intro none
    obtain ⟨number, -, rfl⟩ := numbered.named newest member
    have known : number ∈ numbers dirs := member
    have less := (decimal_not_lt_iff (greatest.2 known)).mpr (none latest greatest number known)
    exact le_antisymm (not_lt.mp less) (not_lt.mp (upper _ greatest.1))

/-- The directory in a path can be read off. -/
theorem path_inj {front image image' : Text} {number number' : Nat}
    (same : front ++ '/' :: decimal number ++ '/' :: image =
      front ++ '/' :: decimal number' ++ '/' :: image') : decimal number = decimal number' := by
  have slash : ∀ value, '/' ∉ decimal value := fun value member =>
    absurd (isDigit_of_mem_decimal member) (by decide)
  simp only [List.append_assoc, List.append_cancel_left_eq, List.cons_append,
    List.cons.injEq, true_and] at same
  have first : ∀ (value : Nat) (rest : Text),
      ((decimal value ++ '/' :: rest).splitOn '/').headD [] = decimal value := by
    intro value rest
    rw [List.splitOn_append_cons_self_of_not_mem (slash value), List.headD_cons]
  rw [← first number image, same, first]

/-- The images are the latest ones exactly when in every directory no number filled up with zeros is
above the greatest one. -/
theorem mapsToLatest_iff (root : Text) {tree : ChkptTree}
    (numbered : ∀ app dirs, tree.lookup app = some dirs → Numbered dirs) :
    MapsToLatest root tree (getRunnableInstanceMap root tree) ↔
      ∀ app dirs, tree.lookup app = some dirs → NoneAbove dirs := by
  have path : ∀ app dirs newest files image, maxText dirs.keys = some newest →
      dirs.lookup newest = some files → SingleImage files image →
      imagePath root app dirs = some (root ++ '/' :: app ++ '/' :: newest ++ '/' :: image) := by
    intro app dirs newest files image greatest found single
    rw [imagePath, greatest, Option.bind_some, found, Option.bind_some, getchkptimg_eq single,
      Option.map_some]
  have imaged : Imaged tree := by
    rintro ⟨app, dirs⟩ listed
    obtain ⟨newest, files, image, greatest, found, single⟩ :=
      (numbered app dirs (AList.mem_lookup_iff.mpr listed)).exists_newest
    rw [greatest, Option.bind_some, found, Option.bind_some, getchkptimg_eq single]
    rfl
  obtain ⟨runnable, mapped, keys, paths⟩ := getRunnableInstanceMap_lookup root imaged
  constructor
  · rintro ⟨runnable', mapped', -, latestOf⟩ app dirs listed
    rw [mapped] at mapped'
    cases mapped'
    have known := numbered app dirs listed
    obtain ⟨latest, _, _, greatest, -, -, lookup⟩ := latestOf app dirs listed
    obtain ⟨newest, files, image, found, stored, single⟩ := known.exists_newest
    rw [paths, listed, Option.bind_some, path app dirs _ _ _ found stored single] at lookup
    obtain ⟨number, -, rfl⟩ := known.named newest (maxText_spec found).1
    exact (known.newest_eq_iff greatest found).mp (path_inj (Option.some.inj lookup))
  · intro none
    refine ⟨runnable, mapped, keys, fun app dirs listed => ?_⟩
    have known := numbered app dirs listed
    obtain ⟨latest, greatest⟩ := known.exists_latest
    obtain ⟨newest, files, image, found, stored, single⟩ := known.exists_newest
    obtain rfl := (known.newest_eq_iff greatest found).mpr (none app dirs listed)
    refine ⟨latest, files, image, greatest, stored, single, ?_⟩
    rw [paths, listed, Option.bind_some, path app dirs _ _ _ found stored single]

/-- Both programs restart every app from its latest image exactly when in every directory no number
filled up with zeros is above the greatest one. -/
theorem restarts_from_latest_iff (base : Text) {tree : ChkptTree}
    (numbered : ∀ app dirs, tree.lookup app = some dirs → Numbered dirs) :
    (MapsToLatest (parallelDmtcpChkptsDir base) tree
        (ParallelDmtcp.getRunnableInstanceMap base tree) ↔
      ∀ app dirs, tree.lookup app = some dirs → NoneAbove dirs) ∧
    (MapsToLatest (seqDmtcpChkptsDir base) tree
        (SequentialDmtcp.getRunnableInstanceMap base tree) ↔
      ∀ app dirs, tree.lookup app = some dirs → NoneAbove dirs) :=
  ⟨mapsToLatest_iff _ numbered, mapsToLatest_iff _ numbered⟩

/-- A directory with two checkpoints. -/
def twoCheckpoints (first second : Nat) : AList fun _ : Text => List Text :=
  ((∅ : AList fun _ : Text => List Text).insert (decimal first) ["ckpt_a.dmtcp".toList]).insert
    (decimal second) ["ckpt_a.dmtcp".toList]

/-- One app with two checkpoints. -/
def oneApp (first second : Nat) : ChkptTree :=
  (∅ : ChkptTree).insert "a".toList (twoCheckpoints first second)

theorem lookup_oneApp {first second : Nat} {app : Text} {dirs : AList fun _ : Text => List Text}
    (listed : (oneApp first second).lookup app = some dirs) :
    dirs = twoCheckpoints first second := by
  by_cases same : app = "a".toList
  · rw [same, oneApp, AList.lookup_insert] at listed
    exact (Option.some.inj listed).symm
  · rw [oneApp, AList.lookup_insert_ne same] at listed
    cases listed

theorem mem_twoCheckpoints_iff {first second : Nat} {name : Text} :
    name ∈ twoCheckpoints first second ↔ name = decimal second ∨ name = decimal first := by
  rw [twoCheckpoints, AList.mem_insert, AList.mem_insert]
  exact or_congr_right (or_iff_left (AList.notMem_empty name))

theorem mem_numbers_twoCheckpoints {first second number : Nat} :
    number ∈ numbers (twoCheckpoints first second) ↔ number = second ∨ number = first := by
  show decimal number ∈ twoCheckpoints first second ↔ _
  rw [mem_twoCheckpoints_iff, decimal_injective.eq_iff, decimal_injective.eq_iff]

theorem numbered_twoCheckpoints {first second : Nat} (positive : 0 < first ∧ 0 < second) :
    Numbered (twoCheckpoints first second) where
  nonempty := by
    have member : decimal second ∈ twoCheckpoints first second :=
      mem_twoCheckpoints_iff.mpr (.inl rfl)
    exact List.ne_nil_of_mem member
  named name member := by
    rcases mem_twoCheckpoints_iff.mp member with rfl | rfl
    · exact ⟨second, positive.2, rfl⟩
    · exact ⟨first, positive.1, rfl⟩
  imaged name files found := by
    have single : SingleImage ["ckpt_a.dmtcp".toList] "ckpt_a.dmtcp".toList :=
      ⟨[], [], rfl, by decide +kernel, fun _ member => absurd member List.not_mem_nil⟩
    by_cases here : name = decimal second
    · rw [here, twoCheckpoints, AList.lookup_insert] at found
      exact ⟨_, Option.some.inj found ▸ single⟩
    · by_cases there : name = decimal first
      · rw [twoCheckpoints, AList.lookup_insert_ne here, there, AList.lookup_insert] at found
        exact ⟨_, Option.some.inj found ▸ single⟩
      · rw [twoCheckpoints, AList.lookup_insert_ne here, AList.lookup_insert_ne there] at found
        cases found

/-- Of the checkpoints 9 and 10 both programs take 9. -/
theorem ninth_checkpoint_after_tenth :
    (∀ app dirs, (oneApp 9 10).lookup app = some dirs → Numbered dirs) ∧
      ¬ MapsToLatest (parallelDmtcpChkptsDir []) (oneApp 9 10)
        (ParallelDmtcp.getRunnableInstanceMap [] (oneApp 9 10)) ∧
      ¬ MapsToLatest (seqDmtcpChkptsDir []) (oneApp 9 10)
        (SequentialDmtcp.getRunnableInstanceMap [] (oneApp 9 10)) := by
  have numbered : ∀ app dirs, (oneApp 9 10).lookup app = some dirs → Numbered dirs := by
    intro app dirs listed
    rw [lookup_oneApp listed]
    exact numbered_twoCheckpoints (by decide)
  have greatest : IsGreatest (numbers (twoCheckpoints 9 10)) 10 := by
    refine ⟨mem_numbers_twoCheckpoints.mpr (.inl rfl), fun number known => ?_⟩
    rcases mem_numbers_twoCheckpoints.mp known with rfl | rfl <;> decide
  have mixed : ¬ ∀ app dirs, (oneApp 9 10).lookup app = some dirs → NoneAbove dirs := by
    intro none
    have filled := none "a".toList _ (AList.lookup_insert _) 10 greatest 9
      (mem_numbers_twoCheckpoints.mpr (.inr rfl))
    exact absurd filled (by decide)
  exact ⟨numbered, fun maps => mixed ((mapsToLatest_iff _ numbered).mp maps),
    fun maps => mixed ((mapsToLatest_iff _ numbered).mp maps)⟩

/-- Of the checkpoints 1 and 2 both programs take 2. -/
theorem restarts_from_latest_sample :
    MapsToLatest (parallelDmtcpChkptsDir []) (oneApp 1 2)
        (ParallelDmtcp.getRunnableInstanceMap [] (oneApp 1 2)) ∧
      MapsToLatest (seqDmtcpChkptsDir []) (oneApp 1 2)
        (SequentialDmtcp.getRunnableInstanceMap [] (oneApp 1 2)) := by
  have numbered : ∀ app dirs, (oneApp 1 2).lookup app = some dirs → Numbered dirs := by
    intro app dirs listed
    rw [lookup_oneApp listed]
    exact numbered_twoCheckpoints (by decide)
  have none : ∀ app dirs, (oneApp 1 2).lookup app = some dirs → NoneAbove dirs := by
    intro app dirs listed latest greatest number known
    rw [lookup_oneApp listed] at greatest known
    have upper := greatest.2 (mem_numbers_twoCheckpoints.mpr (.inl rfl))
    rcases mem_numbers_twoCheckpoints.mp greatest.1 with rfl | rfl
    · rcases mem_numbers_twoCheckpoints.mp known with rfl | rfl <;> decide
    · exact absurd upper (by decide)
  obtain ⟨parallel, sequential⟩ := restarts_from_latest_iff [] numbered
  exact ⟨parallel.mpr none, sequential.mpr none⟩

end ClusterJobs
