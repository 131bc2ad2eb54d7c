/-
This file is about replacing tags in a text by their values.

`substitute` replaces all tags at once: it goes through the text from left to right, and where a
tag starts it writes the tag's value and passes over the tag. What it wrote is never looked at
again. `inOrder` replaces one tag after the other, each in the text the earlier ones left, so that
a value, or a value with its neighbours, could be taken for a tag.

The two agree on a text whose tags stand apart. Such a text is cut at separators, items that no
tag has, and each word between them is a tag or has no tag inside. A replacement then never
reaches over a separator, and the words can be looked at one by one.
-/

import Mathlib.Data.List.Basic
import Mathlib.Data.List.Infix
import Mathlib.Tactic.Common

namespace Substitute

variable {α : Type}

/-! ### Replacing the tags -/

/-- What each tag is replaced by. -/
abbrev Bindings (α : Type) := List (List α × List α)

section Replacing

variable [DecidableEq α]

/-- The first binding whose tag starts the text. -/
def Bindings.at (bindings : Bindings α) (text : List α) : Option (List α × List α) :=
  bindings.find? fun binding => binding.1.isPrefixOf text

/-- One pass from left to right. The number is what is left of a tag to pass over. -/
def pass (bindings : Bindings α) : Nat → List α → List α
  | _, [] => []
  | skip + 1, _ :: rest => pass bindings skip rest
  | 0, item :: rest =>
    match bindings.at (item :: rest) with
    | some binding => binding.2 ++ pass bindings (binding.1.length - 1) rest
    | none => item :: pass bindings 0 rest

/-- All tags of the bindings replaced at once. -/
def substitute (bindings : Bindings α) (text : List α) : List α := pass bindings 0 text

/-- The tags of the bindings replaced one after the other. -/
def inOrder (bindings : Bindings α) (text : List α) : List α :=
  bindings.foldl (fun text binding => substitute [binding] text) text

theorem at_eq_none {bindings : Bindings α} {text : List α}
    (absent : ∀ binding ∈ bindings, ¬ binding.1 <+: text) : bindings.at text = none := by
  refine List.find?_eq_none.mpr fun binding member starts => ?_
  exact absent binding member (List.isPrefixOf_iff_prefix.mp starts)

theorem at_eq_some {bindings : Bindings α} {text : List α} {binding : List α × List α}
    (found : bindings.at text = some binding) : binding ∈ bindings ∧ binding.1 <+: text :=
  ⟨List.mem_of_find?_eq_some found,
    List.isPrefixOf_iff_prefix.mp (List.find?_eq_some_iff_append.mp found).1⟩

theorem pass_plain {bindings : Bindings α} {item : α} {rest : List α}
    (nowhere : bindings.at (item :: rest) = none) :
    pass bindings 0 (item :: rest) = item :: pass bindings 0 rest := by
  rw [pass, nowhere]

theorem pass_tag {bindings : Bindings α} {item : α} {rest : List α} {binding : List α × List α}
    (found : bindings.at (item :: rest) = some binding) :
    pass bindings 0 (item :: rest) =
      binding.2 ++ pass bindings (binding.1.length - 1) rest := by
  rw [pass, found]

/-- A text that is shorter than the rest of a tag is passed over. -/
theorem pass_of_length_le (bindings : Bindings α) {text : List α} {skip : Nat}
    (short : text.length ≤ skip) : pass bindings skip text = [] := by
  induction text generalizing skip with
  | nil => rw [pass]
  | cons item rest inductionHypothesis =>
    cases skip with
    | zero => exact absurd short (Nat.not_succ_le_zero _)
    | succ skip =>
      rw [pass]
      exact inductionHypothesis (Nat.le_of_succ_le_succ short)

/-- A text without a tag stays as it is. -/
theorem substitute_of_absent {bindings : Bindings α} {text : List α}
    (absent : ∀ binding ∈ bindings, ¬ binding.1 <:+: text) : substitute bindings text = text := by
  induction text with
  | nil => rfl
  | cons item rest inductionHypothesis =>
    have nowhere : bindings.at (item :: rest) = none :=
      at_eq_none fun binding member starts => absent binding member starts.isInfix
    have later := inductionHypothesis fun binding member found =>
      absent binding member (List.infix_cons found)
    exact (pass_plain nowhere).trans (congrArg (item :: ·) later)

/-- A text that is a tag becomes the tag's value, when no other tag starts it. -/
theorem substitute_tag {bindings : Bindings α} {tag value : List α}
    (bound : (tag, value) ∈ bindings) (nonempty : tag ≠ [])
    (own : ∀ binding ∈ bindings, binding.1 <+: tag → binding = (tag, value)) :
    substitute bindings tag = value := by
  obtain ⟨item, rest, rfl⟩ := List.exists_cons_of_ne_nil nonempty
  cases found : bindings.at (item :: rest) with
  | none =>
    refine absurd (List.isPrefixOf_iff_prefix.mpr (List.prefix_refl (item :: rest))) ?_
    exact List.find?_eq_none.mp found _ bound
  | some binding =>
    obtain ⟨member, starts⟩ := at_eq_some found
    obtain rfl := own binding member starts
    refine (pass_tag found).trans ?_
    rw [List.length_cons, Nat.add_sub_cancel, pass_of_length_le bindings (Nat.le_refl _),
      List.append_nil]

end Replacing

/-! ### A separator cuts the text

A tag that does not have the separator lies before it or behind it. -/

theorem prefix_append_cons_iff {tag front back : List α} {separator : α}
    (separates : separator ∉ tag) : tag <+: front ++ separator :: back ↔ tag <+: front := by
  induction front generalizing tag with
  | nil =>
    refine ⟨fun starts => ?_, fun starts => starts.trans (List.prefix_append _ _)⟩
    rcases List.prefix_cons_iff.mp starts with rfl | ⟨rest, rfl, -⟩
    · exact List.prefix_refl []
    · exact absurd List.mem_cons_self separates
  | cons item front inductionHypothesis =>
    rw [List.cons_append, List.prefix_cons_iff, List.prefix_cons_iff]
    refine or_congr Iff.rfl (exists_congr fun rest => and_congr_right fun shape => ?_)
    rw [shape] at separates
    exact inductionHypothesis fun member => separates (List.mem_cons_of_mem _ member)

theorem infix_append_cons {tag front back : List α} {separator : α} (separates : separator ∉ tag)
    (found : tag <:+: front ++ separator :: back) : tag <:+: front ∨ tag <:+: back := by
  induction front with
  | nil =>
    rcases List.infix_cons_iff.mp found with starts | later
    · rw [← List.nil_append (separator :: back), prefix_append_cons_iff separates] at starts
      exact .inl starts.isInfix
    · exact .inr later
  | cons item front inductionHypothesis =>
    rw [List.cons_append, List.infix_cons_iff] at found
    rcases found with starts | later
    · rw [← List.cons_append, prefix_append_cons_iff separates] at starts
      exact .inl starts.isInfix
    · exact (inductionHypothesis later).imp_left List.infix_cons

section Cutting

variable [DecidableEq α]

theorem at_append_cons {bindings : Bindings α} {separator : α}
    (separates : ∀ binding ∈ bindings, separator ∉ binding.1) (front back : List α) :
    bindings.at (front ++ separator :: back) = bindings.at front := by
  induction bindings with
  | nil => rfl
  | cons binding others inductionHypothesis =>
    rw [List.forall_mem_cons] at separates
    have same : binding.1.isPrefixOf (front ++ separator :: back) = binding.1.isPrefixOf front := by
      rw [Bool.eq_iff_iff, List.isPrefixOf_iff_prefix, List.isPrefixOf_iff_prefix]
      exact prefix_append_cons_iff separates.1
    have later := inductionHypothesis separates.2
    unfold Bindings.at at later ⊢
    rw [List.find?_cons, List.find?_cons, same, later]

theorem pass_append_cons {bindings : Bindings α} {separator : α}
    (separates : ∀ binding ∈ bindings, separator ∉ binding.1)
    (nonempty : ∀ binding ∈ bindings, binding.1 ≠ []) {front : List α} (back : List α) {skip : Nat}
    (inside : skip ≤ front.length) :
    pass bindings skip (front ++ separator :: back) =
      pass bindings skip front ++ separator :: pass bindings 0 back := by
  induction front generalizing skip with
  | nil =>
    obtain rfl := Nat.le_zero.mp inside
    have nowhere : bindings.at (separator :: back) = none := by
      rw [← List.nil_append (separator :: back), at_append_cons separates]
      exact at_eq_none fun binding member starts =>
        nonempty binding member (List.prefix_nil.mp starts)
    exact pass_plain nowhere
  | cons item front inductionHypothesis =>
    cases skip with
    | succ skip =>
      rw [List.cons_append, pass, pass]
      exact inductionHypothesis (Nat.le_of_succ_le_succ inside)
    | zero =>
      have same := at_append_cons separates (item :: front) back
      rw [List.cons_append] at same ⊢
      cases found : bindings.at (item :: front) with
      | none =>
        rw [pass_plain (same.trans found), pass_plain found, inductionHypothesis (Nat.zero_le _),
          List.cons_append]
      | some binding =>
        have fits := (at_eq_some found).2.length_le
        rw [List.length_cons] at fits
        rw [pass_tag (same.trans found), pass_tag found,
          inductionHypothesis (Nat.sub_le_of_le_add fits), List.append_assoc]

/-- What stands before a separator and what stands behind it are replaced independently. -/
theorem substitute_append_cons {bindings : Bindings α} {separator : α}
    (separates : ∀ binding ∈ bindings, separator ∉ binding.1)
    (nonempty : ∀ binding ∈ bindings, binding.1 ≠ []) (front back : List α) :
    substitute bindings (front ++ separator :: back) =
      substitute bindings front ++ separator :: substitute bindings back :=
  pass_append_cons separates nonempty back (Nat.zero_le _)

end Cutting

/-! ### Cutting a text at its separators -/

/-- A text in words: the first word, then each separator with the word behind it. -/
structure Cut (α : Type) where
  first : List α
  rest : List (α × List α)

namespace Cut

def words (cut : Cut α) : List (List α) := cut.first :: cut.rest.map Prod.snd

/-- The text again, each word changed by `change`. -/
def join (change : List α → List α) (cut : Cut α) : List α :=
  change cut.first ++ cut.rest.flatMap fun piece => piece.1 :: change piece.2

/-- An item in front of a text is a separator of its own or belongs to the first word. -/
def push (separator : α → Bool) (item : α) (cut : Cut α) : Cut α :=
  if separator item then ⟨[], (item, cut.first) :: cut.rest⟩ else ⟨item :: cut.first, cut.rest⟩

end Cut

/-- The text cut at every separator. -/
def cutAt (separator : α → Bool) (text : List α) : Cut α :=
  text.foldr (Cut.push separator) ⟨[], []⟩

theorem cutAt_cons (separator : α → Bool) (item : α) (rest : List α) :
    cutAt separator (item :: rest) = (cutAt separator rest).push separator item := rfl

theorem join_cutAt (separator : α → Bool) (text : List α) :
    (cutAt separator text).join id = text := by
  induction text with
  | nil => rfl
  | cons item rest inductionHypothesis =>
    rw [cutAt_cons, Cut.push]
    split
    · exact congrArg (item :: ·) inductionHypothesis
    · exact congrArg (item :: ·) inductionHypothesis

theorem separator_of_mem_cutAt {separator : α → Bool} {text : List α} {piece : α × List α}
    (member : piece ∈ (cutAt separator text).rest) : separator piece.1 = true := by
  induction text with
  | nil => cases member
  | cons item rest inductionHypothesis =>
    rw [cutAt_cons, Cut.push] at member
    split at member
    · rename_i separates
      rcases List.mem_cons.mp member with rfl | later
      · exact separates
      · exact inductionHypothesis later
    · exact inductionHypothesis member

/-- The words of a text are the words before a separator and the words behind it. -/
theorem words_cutAt_append_cons {separator : α → Bool} {item : α}
    (separates : separator item = true) (front back : List α) :
    (cutAt separator (front ++ item :: back)).words =
      (cutAt separator front).words ++ (cutAt separator back).words := by
  induction front with
  | nil =>
    rw [List.nil_append, cutAt_cons, Cut.push, if_pos separates]
    rfl
  | cons other front inductionHypothesis =>
    rw [List.cons_append, cutAt_cons, cutAt_cons, Cut.push, Cut.push]
    split
    · exact congrArg ([] :: ·) inductionHypothesis
    · have parts := List.cons.inj inductionHypothesis
      exact congrArg₂ List.cons (congrArg (other :: ·) parts.1) parts.2

theorem infix_of_mem_words_cutAt {separator : α → Bool} {text word : List α}
    (member : word ∈ (cutAt separator text).words) : word <:+: text := by
  suffices starts : (cutAt separator text).first <+: text ∧
      ∀ word ∈ (cutAt separator text).words, word <:+: text from starts.2 word member
  clear member
  induction text with
  | nil => exact ⟨List.prefix_refl [], by simp [cutAt, Cut.words]⟩
  | cons item rest inductionHypothesis =>
    obtain ⟨first, others⟩ := inductionHypothesis
    rw [cutAt_cons, Cut.push]
    split
    · refine ⟨List.nil_prefix, List.forall_mem_cons.mpr ⟨List.nil_infix, fun word member => ?_⟩⟩
      exact List.infix_cons (others word member)
    · have longer := (List.prefix_cons_inj item).mpr first
      refine ⟨longer, List.forall_mem_cons.mpr ⟨longer.isInfix, fun word member => ?_⟩⟩
      exact List.infix_cons (others word (List.mem_cons_of_mem _ member))

theorem Cut.join_cons (change : List α → List α) (first : List α) (piece : α × List α)
    (rest : List (α × List α)) :
    Cut.join change ⟨first, piece :: rest⟩ =
      change first ++ piece.1 :: Cut.join change ⟨piece.2, rest⟩ := rfl

/-- A tag in the changed text is a tag in one of the changed words. -/
theorem infix_join {tag : List α} {change : List α → List α} {cut : Cut α}
    (separates : ∀ piece ∈ cut.rest, piece.1 ∉ tag) (found : tag <:+: cut.join change) :
    ∃ word ∈ cut.words, tag <:+: change word := by
  obtain ⟨first, rest⟩ := cut
  induction rest generalizing first with
  | nil => exact ⟨first, List.mem_cons_self, (List.append_nil (change first)) ▸ found⟩
  | cons piece rest inductionHypothesis =>
    rw [List.forall_mem_cons] at separates
    rw [Cut.join_cons] at found
    rcases infix_append_cons separates.1 found with before | behind
    · exact ⟨first, List.mem_cons_self, before⟩
    · obtain ⟨word, member, inside⟩ := inductionHypothesis piece.2 separates.2 behind
      exact ⟨word, List.mem_cons_of_mem _ member, inside⟩

theorem join_congr {change change' : List α → List α} {cut : Cut α}
    (agree : ∀ word ∈ cut.words, change word = change' word) :
    cut.join change = cut.join change' := by
  obtain ⟨first, rest⟩ := cut
  induction rest generalizing first with
  | nil => exact congrArg (· ++ []) (agree first List.mem_cons_self)
  | cons piece rest inductionHypothesis =>
    obtain ⟨here, later⟩ := List.forall_mem_cons.mp agree
    rw [Cut.join_cons, Cut.join_cons, here, inductionHypothesis piece.2 later]

section Words

variable [DecidableEq α]

/-- Replacing in a text replaces in each of its words. -/
theorem substitute_join {bindings : Bindings α} {cut : Cut α} (change : List α → List α)
    (separates : ∀ piece ∈ cut.rest, ∀ binding ∈ bindings, piece.1 ∉ binding.1)
    (nonempty : ∀ binding ∈ bindings, binding.1 ≠ []) :
    substitute bindings (cut.join change) =
      cut.join fun word => substitute bindings (change word) := by
  obtain ⟨first, rest⟩ := cut
  induction rest generalizing first with
  | nil => exact (congrArg (substitute bindings) (List.append_nil _)).trans (List.append_nil _).symm
  | cons piece rest inductionHypothesis =>
    rw [List.forall_mem_cons] at separates
    rw [Cut.join_cons, Cut.join_cons, substitute_append_cons separates.1 nonempty,
      inductionHypothesis piece.2 separates.2]

theorem inOrder_cons (binding : List α × List α) (others : Bindings α) (text : List α) :
    inOrder (binding :: others) text = inOrder others (substitute [binding] text) := rfl

theorem inOrder_join {bindings : Bindings α} {cut : Cut α} (change : List α → List α)
    (separates : ∀ binding ∈ bindings, ∀ piece ∈ cut.rest, piece.1 ∉ binding.1)
    (nonempty : ∀ binding ∈ bindings, binding.1 ≠ []) :
    inOrder bindings (cut.join change) = cut.join fun word => inOrder bindings (change word) := by
  induction bindings generalizing change with
  | nil => rfl
  | cons binding others inductionHypothesis =>
    rw [List.forall_mem_cons] at separates nonempty
    have alone := substitute_join change
      (fun piece member => List.forall_mem_singleton.mpr (separates.1 piece member))
      (List.forall_mem_singleton.mpr nonempty.1)
    rw [inOrder_cons, alone]
    exact inductionHypothesis _ separates.2 nonempty.2

theorem inOrder_append_cons {bindings : Bindings α} {separator : α}
    (separates : ∀ binding ∈ bindings, separator ∉ binding.1)
    (nonempty : ∀ binding ∈ bindings, binding.1 ≠ []) (front back : List α) :
    inOrder bindings (front ++ separator :: back) =
      inOrder bindings front ++ separator :: inOrder bindings back := by
  induction bindings generalizing front back with
  | nil => rfl
  | cons binding others inductionHypothesis =>
    rw [List.forall_mem_cons] at separates nonempty
    rw [inOrder_cons, substitute_append_cons (List.forall_mem_singleton.mpr separates.1)
      (List.forall_mem_singleton.mpr nonempty.1)]
    exact inductionHypothesis separates.2 nonempty.2 _ _

/-- An item that is neither in the text nor in a value is not in the result. -/
theorem not_mem_pass {bindings : Bindings α} {item : α}
    (values : ∀ binding ∈ bindings, item ∉ binding.2) {text : List α} (absent : item ∉ text)
    (skip : Nat) : item ∉ pass bindings skip text := by
  induction text generalizing skip with
  | nil => rwa [pass]
  | cons head rest inductionHypothesis =>
    rw [List.mem_cons, not_or] at absent
    obtain ⟨different, later⟩ := absent
    cases skip with
    | succ skip =>
      rw [pass]
      exact inductionHypothesis later skip
    | zero =>
      cases found : bindings.at (head :: rest) with
      | none =>
        rw [pass_plain found, List.mem_cons, not_or]
        exact ⟨different, inductionHypothesis later 0⟩
      | some binding =>
        rw [pass_tag found]
        refine List.not_mem_append ?_ (inductionHypothesis later _)
        exact values binding (at_eq_some found).1

theorem not_mem_inOrder {bindings : Bindings α} {item : α}
    (values : ∀ binding ∈ bindings, item ∉ binding.2) {text : List α} (absent : item ∉ text) :
    item ∉ inOrder bindings text := by
  induction bindings generalizing text with
  | nil => exact absent
  | cons binding others inductionHypothesis =>
    rw [List.forall_mem_cons] at values
    rw [inOrder_cons]
    exact inductionHypothesis values.2
      (not_mem_pass (List.forall_mem_singleton.mpr values.1) absent 0)

theorem inOrder_of_absent {bindings : Bindings α} {text : List α}
    (absent : ∀ binding ∈ bindings, ¬ binding.1 <:+: text) : inOrder bindings text = text := by
  induction bindings with
  | nil => rfl
  | cons binding others inductionHypothesis =>
    rw [List.forall_mem_cons] at absent
    rw [inOrder_cons, substitute_of_absent (List.forall_mem_singleton.mpr absent.1)]
    exact inductionHypothesis absent.2

end Words

/-! ### Replacing in order is replacing at once -/

/-- Bindings that do not get into each other's way: a tag has one value, no tag lies inside
another tag, and no tag lies inside a value. -/
structure Independent (bindings : Bindings α) : Prop where
  single : ∀ binding ∈ bindings, ∀ other ∈ bindings, binding.1 = other.1 → binding = other
  apart : ∀ binding ∈ bindings, ∀ other ∈ bindings, binding.1 <:+: other.1 → binding.1 = other.1
  inert : ∀ binding ∈ bindings, ∀ other ∈ bindings, ¬ binding.1 <:+: other.2

/-- A text whose tags stand apart: no separator occurs in a tag, and a word is a tag or has no tag
inside. -/
structure Fits (tags : List (List α)) (cut : Cut α) : Prop where
  separated : ∀ piece ∈ cut.rest, ∀ tag ∈ tags, piece.1 ∉ tag
  worded : ∀ word ∈ cut.words, word ∈ tags ∨ ∀ tag ∈ tags, ¬ tag <:+: word

/-- Fitting depends on which tags there are, not on their order or number. -/
theorem Fits.of_subset {tags tags' : List (List α)} {cut : Cut α} (fits : Fits tags cut)
    (subset : tags ⊆ tags') (subset' : tags' ⊆ tags) : Fits tags' cut where
  separated piece member tag found := fits.separated piece member tag (subset' found)
  worded word member := by
    refine (fits.worded word member).imp (fun isTag => subset isTag) fun absent tag found => ?_
    exact absent tag (subset' found)

theorem Independent.of_subset {bindings others : Bindings α} (independent : Independent bindings)
    (subset : others ⊆ bindings) : Independent others where
  single binding member other found :=
    independent.single binding (subset member) other (subset found)
  apart binding member other found :=
    independent.apart binding (subset member) other (subset found)
  inert binding member other found :=
    independent.inert binding (subset member) other (subset found)

theorem Independent.nonempty {bindings : Bindings α} (independent : Independent bindings) :
    ∀ binding ∈ bindings, binding.1 ≠ [] := by
  intro binding member empty
  refine independent.inert binding member binding member ?_
  rw [empty]
  exact List.nil_infix

section Agreement

variable [DecidableEq α]

/-- Both ways a tag alone becomes its value. -/
theorem Independent.substitute_eq {bindings : Bindings α} (independent : Independent bindings)
    {binding : List α × List α} (bound : binding ∈ bindings) :
    substitute bindings binding.1 = binding.2 := by
  refine substitute_tag bound (independent.nonempty binding bound) fun other member starts => ?_
  exact independent.single other member binding bound
    (independent.apart other member binding bound starts.isInfix)

theorem Independent.inOrder_eq {bindings : Bindings α} (independent : Independent bindings)
    {binding : List α × List α} (bound : binding ∈ bindings) :
    inOrder bindings binding.1 = binding.2 := by
  induction bindings with
  | nil => cases bound
  | cons head others inductionHypothesis =>
    have later := independent.of_subset (List.subset_cons_self head others)
    rw [inOrder_cons]
    by_cases same : head.1 = binding.1
    · have value : substitute [head] binding.1 = binding.2 := by
        obtain rfl := independent.single head List.mem_cons_self binding bound same
        exact (independent.of_subset (by simp)).substitute_eq List.mem_cons_self
      rw [value]
      exact inOrder_of_absent fun other member =>
        independent.inert other (List.mem_cons_of_mem _ member) binding bound
    · have kept : substitute [head] binding.1 = binding.1 :=
        substitute_of_absent (List.forall_mem_singleton.mpr fun inside =>
          same (independent.apart head List.mem_cons_self binding bound inside))
      rw [kept]
      refine inductionHypothesis later ((List.mem_cons.mp bound).resolve_left ?_)
      rintro rfl
      exact same rfl

variable {bindings : Bindings α} {separator : α → Bool} {text : List α}

theorem substitute_cutAt (independent : Independent bindings)
    (fits : Fits (bindings.map Prod.fst) (cutAt separator text)) :
    substitute bindings text = (cutAt separator text).join (substitute bindings) := by
  have joined := substitute_join id
    (fun piece member binding bound =>
      fits.separated piece member binding.1 (List.mem_map_of_mem bound))
    independent.nonempty
  rwa [join_cutAt] at joined

/-- A word is left as it is or becomes the value of a tag. -/
theorem Fits.word (independent : Independent bindings)
    (fits : Fits (bindings.map Prod.fst) (cutAt separator text)) {word : List α}
    (member : word ∈ (cutAt separator text).words) :
    ((∀ binding ∈ bindings, ¬ binding.1 <:+: word) ∧ substitute bindings word = word) ∨
      ∃ binding ∈ bindings, binding.1 = word ∧ substitute bindings word = binding.2 := by
  rcases fits.worded word member with isTag | absent
  · obtain ⟨binding, bound, rfl⟩ := List.mem_map.mp isTag
    exact .inr ⟨binding, bound, rfl, independent.substitute_eq bound⟩
  · have nowhere : ∀ binding ∈ bindings, ¬ binding.1 <:+: word := fun binding bound =>
      absent binding.1 (List.mem_map_of_mem bound)
    exact .inl ⟨nowhere, substitute_of_absent nowhere⟩

/-- Replacing one tag after the other is replacing all at once. -/
theorem inOrder_eq_substitute (independent : Independent bindings)
    (fits : Fits (bindings.map Prod.fst) (cutAt separator text)) :
    inOrder bindings text = substitute bindings text := by
  have joined := inOrder_join id
    (fun binding bound piece member =>
      fits.separated piece member binding.1 (List.mem_map_of_mem bound))
    independent.nonempty
  rw [join_cutAt] at joined
  rw [joined, substitute_cutAt independent fits]
  refine join_congr fun word member => ?_
  rcases fits.word independent member with ⟨nowhere, kept⟩ | ⟨binding, bound, rfl, value⟩
  · exact (inOrder_of_absent nowhere).trans kept.symm
  · exact (independent.inOrder_eq bound).trans value.symm

/-- No tag is left in the text. -/
theorem not_infix_substitute (independent : Independent bindings)
    (fits : Fits (bindings.map Prod.fst) (cutAt separator text)) {binding : List α × List α}
    (bound : binding ∈ bindings) : ¬ binding.1 <:+: substitute bindings text := by
  rw [substitute_cutAt independent fits]
  intro found
  obtain ⟨word, member, inside⟩ := infix_join
    (fun piece member => fits.separated piece member binding.1 (List.mem_map_of_mem bound)) found
  rcases fits.word independent member with ⟨nowhere, kept⟩ | ⟨other, otherBound, -, value⟩
  · rw [kept] at inside
    exact nowhere binding bound inside
  · rw [value] at inside
    exact independent.inert binding bound other otherBound inside

/-- The order of the bindings does not matter. -/
theorem substitute_perm (independent : Independent bindings)
    (fits : Fits (bindings.map Prod.fst) (cutAt separator text)) {others : Bindings α}
    (permuted : others.Perm bindings) : substitute others text = substitute bindings text := by
  have independentOthers := independent.of_subset permuted.subset
  have fitsOthers := fits.of_subset (permuted.symm.map Prod.fst).subset
    (permuted.map Prod.fst).subset
  rw [substitute_cutAt independent fits, substitute_cutAt independentOthers fitsOthers]
  refine join_congr fun word member => ?_
  rcases fits.word independent member with ⟨nowhere, kept⟩ | ⟨binding, bound, rfl, value⟩
  · rw [kept]
    exact substitute_of_absent fun other found => nowhere other (permuted.subset found)
  · rw [value]
    exact independentOthers.substitute_eq (permuted.symm.subset bound)

end Agreement

end Substitute
