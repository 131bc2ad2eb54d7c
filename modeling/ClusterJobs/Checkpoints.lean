/-
This file models the directory of checkpoint images: `listonlydir` and `getchkptimg` of
`common/imports/utils.py`, `get_runnable_instance_map` of `bin/parallel_dmtcp`, and the part
of `start_next` that looks at an app's directory before it restarts the app.
-/

import ClusterJobs.Program
import ClusterJobs.Text
import Mathlib.Data.List.AList

namespace ClusterJobs

open Python

/-- The checkpoint directory: for each app its numbered sub-directories, and the files in each
of them. -/
abbrev ChkptTree := AList fun _ : Text => AList fun _ : Text => List Text

/-- `max` of a list of texts, in the order of their characters. -/
def maxText : List Text → Option Text
  | [] => none
  | first :: rest => some (rest.foldl (fun best item => if best < item then item else best) first)

/-- `getchkptimg`: the first file with `.dmtcp` in its name. -/
def getchkptimg (items : List Text) : Option Text :=
  items.find? fun item => ".dmtcp".toList <:+: item

/-- `get_runnable_instance_map`: for each app the path of the image in its greatest
sub-directory. An app without one is only logged; a directory without an image makes the path
a text plus `None`. -/
def getRunnableInstanceMap (root : Text) (tree : ChkptTree) :
    Except PyError (AList fun _ : Text => Text) :=
  tree.entries.foldlM (fun runnablemap entry =>
    match maxText entry.2.keys with
    | none => .ok runnablemap
    | some newest => match (entry.2.lookup newest).bind getchkptimg with
      | none => .error .typeError
      | some image => .ok (runnablemap.insert entry.1
          (root ++ '/' :: entry.1 ++ '/' :: newest ++ '/' :: image))) ∅

/-- What `start_next` does in an app's checkpoint directory: it computes a number from the
greatest sub-directory, overwrites it with 1 and changes to sub-directory 1. -/
def enterChkptDir (tree : ChkptTree) (app : Text) : Except PyError Unit :=
  match tree.lookup app with
  | none => .error (.osError .listdir)
  | some numbered => do
    match maxText numbered.keys with
    | none => pure ()
    | some newest => do
      let _ ← int newest
      pure ()
    if "1".toList ∈ numbered then .ok () else .error (.osError .chdir)

/-! ### What they raise -/

/-- Only a directory without an image makes `get_runnable_instance_map` raise. -/
theorem getRunnableInstanceMap_error {root : Text} {tree : ChkptTree} {error : PyError}
    (raised : getRunnableInstanceMap root tree = .error error) : error = .typeError := by
  refine foldlM_error (fun error => error = .typeError) ?_ _ _ _ raised
  intro runnablemap entry error outcome
  split at outcome
  · cases outcome
  · split at outcome
    · exact (Except.error.inj outcome).symm
    · cases outcome

/-- Entering the checkpoint directory moves no stat file. -/
theorem enterChkptDir_error {tree : ChkptTree} {app : Text} {error : PyError}
    (raised : enterChkptDir tree app = .error error) : error ≠ .osError .rename := by
  have last : ∀ numbered : AList fun _ : Text => List Text,
      (if "1".toList ∈ numbered then .ok () else .error (.osError .chdir)) =
        (.error error : Except PyError Unit) → error ≠ .osError .rename := by
    intro numbered raised
    split at raised
    · cases raised
    · rw [← Except.error.inj raised]
      simp
  rw [enterChkptDir] at raised
  cases found : tree.lookup app with
  | none =>
    rw [found] at raised
    rw [← Except.error.inj raised]
    simp
  | some numbered =>
    rw [found] at raised
    simp only at raised
    cases greatest : maxText numbered.keys with
    | none =>
      rw [greatest] at raised
      exact last numbered raised
    | some newest =>
      rw [greatest] at raised
      simp only at raised
      cases outcome : int newest with
      | error failure =>
        rw [outcome] at raised
        have same : failure = error := Except.error.inj raised
        rw [← same, int_error outcome]
        simp
      | ok value =>
        rw [outcome] at raised
        exact last numbered raised

/-! ### What they return -/

/-- The text that `max` returns is one of the list, and no other one is greater. -/
theorem maxText_spec {items : List Text} {best : Text} (greatest : maxText items = some best) :
    best ∈ items ∧ ∀ item ∈ items, ¬ best < item := by
  have search : ∀ (rest : List Text) (best : Text),
      rest.foldl (fun best item => if best < item then item else best) best ∈ best :: rest ∧
        ∀ item ∈ best :: rest,
          ¬ rest.foldl (fun best item => if best < item then item else best) best < item := by
    intro rest
    induction rest with
    | nil => exact fun best => ⟨List.mem_cons_self,
        List.forall_mem_singleton.mpr (lt_irrefl best)⟩
    | cons head rest inductionHypothesis =>
      intro best
      rw [List.foldl_cons, List.forall_mem_cons, List.forall_mem_cons]
      by_cases less : best < head
      · rw [if_pos less]
        obtain ⟨member, upper⟩ := inductionHypothesis head
        obtain ⟨here, later⟩ := List.forall_mem_cons.mp upper
        exact ⟨List.mem_cons_of_mem _ member, fun above => here (lt_trans above less), here,
          later⟩
      · rw [if_neg less]
        obtain ⟨member, upper⟩ := inductionHypothesis best
        obtain ⟨here, later⟩ := List.forall_mem_cons.mp upper
        refine ⟨?_, here, fun above => ?_, later⟩
        · rcases List.mem_cons.mp member with same | inside
          · rw [same]
            exact List.mem_cons_self
          · exact List.mem_cons_of_mem _ (List.mem_cons_of_mem _ inside)
        · exact here (lt_of_lt_of_le above (not_lt.mp less))
  cases items with
  | nil => cases greatest
  | cons first rest =>
    rw [← Option.some.inj greatest]
    exact search rest first

/-- Every app has an image in the greatest of its sub-directories. -/
def Imaged (tree : ChkptTree) : Prop :=
  ∀ entry ∈ tree.entries, ((maxText entry.2.keys).bind fun newest =>
    (entry.2.lookup newest).bind getchkptimg).isSome

instance (tree : ChkptTree) : Decidable (Imaged tree) :=
  inferInstanceAs (Decidable (∀ entry ∈ tree.entries, ((maxText entry.2.keys).bind fun newest =>
    (entry.2.lookup newest).bind getchkptimg).isSome))

/-- The path of the image in the greatest sub-directory of an app. -/
def imagePath (root app : Text) (numbered : AList fun _ : Text => List Text) : Option Text :=
  (maxText numbered.keys).bind fun newest => ((numbered.lookup newest).bind getchkptimg).map
    fun image => root ++ '/' :: app ++ '/' :: newest ++ '/' :: image

/-- With an image for every app, the apps of the directory are mapped to their paths. -/
theorem getRunnableInstanceMap_lookup (root : Text) {tree : ChkptTree} (imaged : Imaged tree) :
    ∃ runnable, getRunnableInstanceMap root tree = .ok runnable ∧
      (∀ app, app ∈ runnable ↔ app ∈ tree) ∧
      ∀ app, runnable.lookup app = (tree.lookup app).bind (imagePath root app) := by
  -- What has been mapped so far is known from the entries behind.
  have loop : ∃ runnable, getRunnableInstanceMap root tree = .ok runnable ∧
      ∃ done, done ++ [] = tree.entries ∧
        ∀ app, runnable.lookup app = (done.dlookup app).bind (imagePath root app) := by
    unfold getRunnableInstanceMap
    refine foldlM_returns (fun rest (runnable : AList fun _ : Text => Text) =>
      ∃ done, done ++ rest = tree.entries ∧
        ∀ app, runnable.lookup app = (done.dlookup app).bind (imagePath root app)) ?_
      tree.entries ∅ ⟨[], rfl, fun app => rfl⟩
    rintro ⟨app, numbered⟩ rest runnable ⟨done, split, mapped⟩
    have listed : (⟨app, numbered⟩ : Sigma fun _ : Text => AList fun _ : Text => List Text) ∈
        tree.entries := by
      rw [← split]
      exact List.mem_append_right _ List.mem_cons_self
    obtain ⟨image, path⟩ := Option.isSome_iff_exists.mp (imaged _ listed)
    obtain ⟨newest, greatest, found⟩ := Option.bind_eq_some_iff.mp path
    simp only [greatest, found]
    refine ⟨_, rfl, done ++ [⟨app, numbered⟩], by rw [List.append_assoc]; exact split, ?_⟩
    intro other
    rw [List.dlookup_append]
    by_cases same : other = app
    · subst same
      have distinct := tree.nodupKeys
      rw [← split, List.NodupKeys, List.keys_append, List.nodup_append] at distinct
      have absent : other ∉ done.keys :=
        fun member => distinct.2.2 other member other List.mem_cons_self rfl
      rw [AList.lookup_insert, List.dlookup_eq_none.mpr absent, Option.none_or,
        List.dlookup_cons_eq, Option.bind_some, imagePath, greatest, Option.bind_some, found,
        Option.map_some]
    · rw [AList.lookup_insert_ne same, List.dlookup_cons_ne _ _ same, List.dlookup_nil,
        Option.or_none]
      exact mapped other
  obtain ⟨runnable, mapped, done, whole, paths⟩ := loop
  rw [List.append_nil] at whole
  have lookups : ∀ app, runnable.lookup app = (tree.lookup app).bind (imagePath root app) := by
    intro app
    rw [paths app, whole]
    rfl
  refine ⟨runnable, mapped, fun app => ?_, lookups⟩
  rw [← AList.lookup_isSome, lookups, ← AList.lookup_isSome (s := tree)]
  cases found : tree.lookup app with
  | none => exact Iff.rfl
  | some numbered =>
    obtain ⟨image, path⟩ := Option.isSome_iff_exists.mp (imaged _ (AList.mem_lookup_iff.mp found))
    obtain ⟨newest, greatest, stored⟩ := Option.bind_eq_some_iff.mp path
    rw [Option.bind_some, imagePath, greatest, Option.bind_some, stored]
    exact Iff.rfl

end ClusterJobs
