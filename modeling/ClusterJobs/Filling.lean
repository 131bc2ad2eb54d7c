/-
This file is about loops that fill places in a memory from values at other places.

As long as nothing is read that is written, the order of the writes does not matter, and a place may
be written twice. `Puts` says of a program that it puts the values of some coordinates in their
places, at whatever point of the filling it is started; what it reads is as it was at the
beginning.
-/

import ClusterJobs.SpaceTime
import Mathlib.Data.Set.Basic
import Mathlib.Tactic.Common

namespace SpaceTime

/-! ### An invariant of a loop -/

/-- A loop ends, and keeps an invariant that each round carries from its number to the next. -/
theorem forLoop_invariant {State : Type} {high : ℤ} {body : ℤ → State → Option State}
    (inv : ℤ → State → Prop) {low : ℤ}
    (round : ∀ i state, low ≤ i → i < high → inv i state →
      ∃ after, body i state = some after ∧ inv (i + 1) after)
    {state : State} (holds : inv low state) :
    ∃ after, forLoop 1 high body low state = some after ∧ inv (max low high) after := by
  induction rounds : (high - low).toNat generalizing low state with
  | zero =>
    refine ⟨state, ?_, ?_⟩
    · rw [forLoop, if_neg (by omega)]
    · rwa [max_eq_left (by omega)]
  | succ rounds inductionHypothesis =>
    have inside : low < high := by omega
    obtain ⟨middle, isMiddle, holdsMiddle⟩ := round low state le_rfl inside holds
    obtain ⟨after, isAfter, holdsAfter⟩ := inductionHypothesis
      (fun i state above below => round i state (by omega) below) holdsMiddle (by omega)
    refine ⟨after, ?_, ?_⟩
    · rw [forLoop, if_pos inside, if_pos Int.one_pos, isMiddle, Option.bind_some, isAfter]
    · rwa [max_eq_right (by omega)] at holdsAfter ⊢

/-! ### Filling -/

variable {Coord Place Value : Type} {place : Coord → Place} {value : Coord → Value}
  {base memory : Place → Value} {region done first second : Set Coord}

/-- The values of some coordinates are in their places. All other places are as they were. -/
structure Fills (place : Coord → Place) (value : Coord → Value) (base : Place → Value)
    (done : Set Coord) (memory : Place → Value) : Prop where
  filled : ∀ coord ∈ done, memory (place coord) = value coord
  kept : ∀ other, (∀ coord ∈ done, place coord ≠ other) → memory other = base other

theorem fills_start (place : Coord → Place) (value : Coord → Value) (base : Place → Value) :
    Fills place value base ∅ base :=
  ⟨fun _ found => absurd found (Set.notMem_empty _), fun _ _ => rfl⟩

/-- A place outside of the region is as it was. -/
theorem Fills.outside (fills : Fills place value base done memory) (inside : done ⊆ region)
    {other : Place} (apart : ∀ coord ∈ region, place coord ≠ other) : memory other = base other :=
  fills.kept other fun coord found => apart coord (inside found)

/-- A program puts the values of some coordinates of a region in their places. -/
structure Puts (place : Coord → Place) (value : Coord → Value) (base : Place → Value)
    (region updates : Set Coord) (program : (Place → Value) → Option (Place → Value)) : Prop where
  inside : updates ⊆ region
  puts : ∀ done memory, done ⊆ region → Fills place value base done memory →
    ∃ after, program memory = some after ∧ Fills place value base (done ∪ updates) after

theorem puts_nothing : Puts place value base region ∅ some where
  inside := Set.empty_subset _
  puts done memory _ fills := ⟨memory, rfl, by rwa [Set.union_empty]⟩

theorem Puts.congr {program : (Place → Value) → Option (Place → Value)}
    (puts : Puts place value base region first program) (same : first = second) :
    Puts place value base region second program :=
  same ▸ puts

theorem Puts.append {program next : (Place → Value) → Option (Place → Value)}
    (puts : Puts place value base region first program)
    (putsNext : Puts place value base region second next) :
    Puts place value base region (first ∪ second) fun memory => (program memory).bind next where
  inside := Set.union_subset puts.inside putsNext.inside
  puts done memory inside fills := by
    obtain ⟨middle, isMiddle, fillsMiddle⟩ := puts.puts done memory inside fills
    obtain ⟨after, isAfter, fillsAfter⟩ := putsNext.puts (done ∪ first) middle
      (Set.union_subset inside puts.inside) fillsMiddle
    refine ⟨after, ?_, ?_⟩
    · rw [isMiddle, Option.bind_some, isAfter]
    · rwa [← Set.union_assoc]

/-- A part of a program that depends on a condition. -/
theorem puts_ite {condition : Prop} [Decidable condition]
    {program : (Place → Value) → Option (Place → Value)}
    (puts : condition → Puts place value base region first program) :
    Puts place value base region {coord | condition ∧ coord ∈ first}
      fun memory => if condition then program memory else some memory := by
  by_cases holds : condition
  · simp only [holds, ↓reduceIte, true_and]
    exact puts holds
  · simp only [holds, ↓reduceIte, false_and]
    exact puts_nothing

/-- One value is put in its place. -/
theorem puts_one [DecidableEq Place] {coord : Coord} (inside : coord ∈ region)
    (injective : ∀ first ∈ region, ∀ second ∈ region, place first = place second → first = second)
    {program : (Place → Value) → Option (Place → Value)}
    (writes : ∀ done memory, done ⊆ region → Fills place value base done memory →
      program memory = some (Function.update memory (place coord) (value coord))) :
    Puts place value base region {coord} program where
  inside := by
    rintro _ rfl
    exact inside
  puts done memory insideDone fills := by
    refine ⟨_, writes done memory insideDone fills, ?_, ?_⟩
    · rintro other (before | rfl)
      · by_cases same : place other = place coord
        · rw [injective other (insideDone before) coord inside same, Function.update_self]
        · rw [Function.update_of_ne same]
          exact fills.filled other before
      · rw [Function.update_self]
    · intro other apart
      rw [Function.update_of_ne (apart coord (Or.inr rfl)).symm]
      exact fills.kept other fun earlier found => apart earlier (Or.inl found)

/-- A loop puts what its rounds put. -/
theorem puts_forLoop {high : ℤ} {body : ℤ → (Place → Value) → Option (Place → Value)}
    (updates : ℤ → Set Coord) {low : ℤ}
    (each : ∀ i, low ≤ i → i < high → Puts place value base region (updates i) (body i)) :
    Puts place value base region {coord | ∃ i, low ≤ i ∧ i < high ∧ coord ∈ updates i}
      (forLoop 1 high body low) where
  inside := by
    rintro coord ⟨i, above, below, found⟩
    exact (each i above below).inside found
  puts done memory inside fills := by
    have start : Fills place value base
        (done ∪ {coord | ∃ j, low ≤ j ∧ j < low ∧ coord ∈ updates j}) memory := by
      have nothing : {coord | ∃ j, low ≤ j ∧ j < low ∧ coord ∈ updates j} = ∅ :=
        Set.eq_empty_of_forall_notMem fun coord ⟨j, above, below, _⟩ => by omega
      rwa [nothing, Set.union_empty]
    have round : ∀ i memory, low ≤ i → i < high →
        Fills place value base
          (done ∪ {coord | ∃ j, low ≤ j ∧ j < i ∧ coord ∈ updates j}) memory →
        ∃ after, body i memory = some after ∧ Fills place value base
          (done ∪ {coord | ∃ j, low ≤ j ∧ j < i + 1 ∧ coord ∈ updates j}) after := by
      intro i memory above below fillsNow
      have insideNow : done ∪ {coord | ∃ j, low ≤ j ∧ j < i ∧ coord ∈ updates j} ⊆ region := by
        rintro coord (before | ⟨j, aboveJ, belowJ, found⟩)
        · exact inside before
        · exact (each j aboveJ (by omega)).inside found
      obtain ⟨after, isAfter, fillsAfter⟩ := (each i above below).puts _ memory insideNow fillsNow
      refine ⟨after, isAfter, ?_⟩
      have grown : {coord | ∃ j, low ≤ j ∧ j < i + 1 ∧ coord ∈ updates j} =
          {coord | ∃ j, low ≤ j ∧ j < i ∧ coord ∈ updates j} ∪ updates i := by
        ext coord
        constructor
        · rintro ⟨j, aboveJ, belowJ, found⟩
          rcases lt_or_eq_of_le (Int.lt_add_one_iff.mp belowJ) with earlier | rfl
          · exact Or.inl ⟨j, aboveJ, earlier, found⟩
          · exact Or.inr found
        · rintro (⟨j, aboveJ, belowJ, found⟩ | found)
          · exact ⟨j, aboveJ, by omega, found⟩
          · exact ⟨i, above, Int.lt_succ i, found⟩
      rwa [grown, ← Set.union_assoc]
    obtain ⟨after, isAfter, fillsAfter⟩ := forLoop_invariant _ round start
    refine ⟨after, isAfter, ?_⟩
    have whole : {coord | ∃ j, low ≤ j ∧ j < max low high ∧ coord ∈ updates j} =
        {coord | ∃ j, low ≤ j ∧ j < high ∧ coord ∈ updates j} := by
      ext coord
      constructor
      · rintro ⟨j, above, below, found⟩
        exact ⟨j, above, by omega, found⟩
      · rintro ⟨j, above, below, found⟩
        exact ⟨j, above, by omega, found⟩
    rwa [whole] at fillsAfter

end SpaceTime
