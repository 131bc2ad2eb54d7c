/-
This file is about values on a grid that are updated step by step, in two buffers that take turns.

The value of a cell after a step is computed from the values near it before the step, and replaces
the one from two steps ago. The plain way is to finish a step before the next one is begun. But
only the order between neighbours matters: a part of the updates can be done in any way that does
not come before what it needs. What has been needed is then not yet overwritten, since whoever
overwrites it has to wait for its neighbours as well.

A program is described by the set of updates it does. Two programs after each other do the union, if
the first does not need anything of the second.
-/

import Mathlib.Data.Set.Basic
import Mathlib.Tactic.Common

namespace SpaceTime

variable {Cell Addr Value : Type}

/-- An update: the number of steps before it, and the cell. -/
abbrev Point (Cell : Type) := ℕ × Cell

abbrev Buffers (Addr Value : Type) := Bool → Addr → Value

/-- The buffer with the values after a number of steps. -/
def odd (steps : ℕ) : Bool := decide (steps % 2 = 1)

/-- The inner cells are updated. The rule reads the cells near a cell, and a coefficient that is
kept with the values. -/
structure Scheme (Cell Addr Value : Type) where
  inner : Set Cell
  near : Cell → Cell → Prop
  rule : Value → (Cell → Value) → Cell → Value
  address : Cell → Addr
  coefficient : Addr
  near_self : ∀ cell ∈ inner, near cell cell
  near_symm : ∀ cell ∈ inner, ∀ other ∈ inner, near cell other → near other cell
  rule_congr : ∀ fac before after, ∀ cell ∈ inner,
    (∀ other, near cell other → before other = after other) →
    rule fac before cell = rule fac after cell
  address_injective : ∀ cell ∈ inner, ∀ other, (other ∈ inner ∨ ∃ third ∈ inner, near third other) →
    address cell = address other → cell = other
  coefficient_apart : ∀ cell ∈ inner, address cell ≠ coefficient

/-- `for (i = low; i < high; i += step)`. A loop that does not end is `none`. -/
def forLoop {State : Type} (step high : ℤ) (body : ℤ → State → Option State) (low : ℤ)
    (state : State) : Option State :=
  if low < high then
    if 0 < step then (body low state).bind (forLoop step high body (low + step)) else none
  else some state
termination_by (high - low).toNat
decreasing_by omega

/-- A loop on a state that goes with another one at each round does the same. -/
theorem forLoop_eq {State Other : Type} {step high : ℤ} {body : ℤ → State → Option State}
    {bodyOther : ℤ → Other → Option Other} (state : Other → State) (other : ℤ → State → Other)
    (back : ∀ i start, state (other i start) = start)
    (step_eq : ∀ i start, bodyOther i (other i start) = (body i start).map (other (i + step)))
    (low : ℤ) (start : State) :
    (forLoop step high bodyOther low (other low start)).map state =
      forLoop step high body low start := by
  induction low, start using forLoop.induct step high with
  | case1 low start inside positive inductionHypothesis =>
    rw [forLoop, if_pos inside, if_pos positive, forLoop, if_pos inside, if_pos positive, step_eq]
    cases body low start with
    | none => rfl
    | some next => exact inductionHypothesis next
  | case2 low start inside endless =>
    rw [forLoop, if_pos inside, if_neg endless, forLoop, if_pos inside, if_neg endless]
    rfl
  | case3 low start outside =>
    rw [forLoop, if_neg outside, forLoop, if_neg outside, Option.map_some, back]

namespace Scheme

variable (scheme : Scheme Cell Addr Value)

section Meaning

open Classical in
/-- The values after a number of steps. -/
noncomputable def solution (initial : Buffers Addr Value) : ℕ → Cell → Value
  | 0, cell => initial false (scheme.address cell)
  | steps + 1, cell =>
    if cell ∈ scheme.inner then
      scheme.rule (initial false scheme.coefficient) (solution initial steps) cell
    else initial (odd (steps + 1)) (scheme.address cell)

/-- The updates that have been done are closed under what they need. -/
structure Closed (done : Set (Point Cell)) : Prop where
  inner : ∀ point ∈ done, point.2 ∈ scheme.inner
  needs : ∀ steps cell other, (steps + 1, cell) ∈ done → other ∈ scheme.inner →
    scheme.near cell other → (steps, other) ∈ done

/-- The buffers hold the values that have been computed last, and the ones before. All other
addresses are as they were. -/
structure Holds (initial : Buffers Addr Value) (done : Set (Point Cell))
    (buffers : Buffers Addr Value) : Prop where
  value : ∀ steps cell, cell ∈ scheme.inner →
    (∀ before, before + 1 = steps → (before, cell) ∈ done) → (steps + 1, cell) ∉ done →
    buffers (odd steps) (scheme.address cell) = scheme.solution initial steps cell
  untouched : ∀ cell ∈ scheme.inner, (0, cell) ∉ done →
    buffers true (scheme.address cell) = initial true (scheme.address cell)
  other : ∀ buffer address, (∀ cell ∈ scheme.inner, scheme.address cell ≠ address) →
    buffers buffer address = initial buffer address

/-- Some updates can be done next. -/
structure Legal (done updates : Set (Point Cell)) : Prop where
  closed : scheme.Closed done
  fresh : ∀ point ∈ updates, point ∉ done
  inner : ∀ point ∈ updates, point.2 ∈ scheme.inner
  needs : ∀ steps cell other, (steps + 1, cell) ∈ updates → other ∈ scheme.inner →
    scheme.near cell other → (steps, other) ∈ done ∪ updates

/-- A program does some updates, whenever they can be done next. -/
def Executes (initial : Buffers Addr Value) (updates : Set (Point Cell))
    (program : Buffers Addr Value → Option (Buffers Addr Value)) : Prop :=
  ∀ done buffers, scheme.Legal done updates → scheme.Holds initial done buffers →
    ∃ after, program buffers = some after ∧ scheme.Holds initial (done ∪ updates) after

/-- No update of the first set needs one of the second. -/
structure Precedes (first second : Set (Point Cell)) : Prop where
  disjoint : ∀ point ∈ first, point ∉ second
  needs : ∀ steps cell other, (steps + 1, cell) ∈ first → other ∈ scheme.inner →
    scheme.near cell other → (steps, other) ∉ second

end Meaning

variable {scheme} {initial : Buffers Addr Value} {done updates first second : Set (Point Cell)}
  {buffers : Buffers Addr Value}

/-! ### Sequences of programs -/

theorem Legal.closed_union (legal : scheme.Legal done updates) :
    scheme.Closed (done ∪ updates) where
  inner := by
    rintro point (before | now)
    · exact legal.closed.inner point before
    · exact legal.inner point now
  needs := by
    rintro steps cell other (before | now) inner near
    · exact Or.inl (legal.closed.needs steps cell other before inner near)
    · exact legal.needs steps cell other now inner near

theorem Executes.append {program next : Buffers Addr Value → Option (Buffers Addr Value)}
    (executes : scheme.Executes initial first program)
    (executesNext : scheme.Executes initial second next) (precedes : scheme.Precedes first second) :
    scheme.Executes initial (first ∪ second) fun buffers => (program buffers).bind next := by
  intro done buffers legal holds
  have legalFirst : scheme.Legal done first := by
    refine ⟨legal.closed, fun point found => legal.fresh point (Or.inl found),
      fun point found => legal.inner point (Or.inl found), ?_⟩
    intro steps cell other found inner near
    rcases legal.needs steps cell other (Or.inl found) inner near with before | now | later
    · exact Or.inl before
    · exact Or.inr now
    · exact absurd later (precedes.needs steps cell other found inner near)
  obtain ⟨middle, isMiddle, holdsMiddle⟩ := executes done buffers legalFirst holds
  have legalSecond : scheme.Legal (done ∪ first) second := by
    refine ⟨legalFirst.closed_union, ?_, fun point found => legal.inner point (Or.inr found), ?_⟩
    · rintro point found (before | now)
      · exact legal.fresh point (Or.inr found) before
      · exact precedes.disjoint point now found
    · intro steps cell other found inner near
      rw [Set.union_assoc]
      exact legal.needs steps cell other (Or.inr found) inner near
  obtain ⟨after, isAfter, holdsAfter⟩ := executesNext (done ∪ first) middle legalSecond holdsMiddle
  refine ⟨after, ?_, ?_⟩
  · show (program buffers).bind next = some after
    rw [isMiddle, Option.bind_some, isAfter]
  · rw [← Set.union_assoc]
    exact holdsAfter

theorem executes_empty : scheme.Executes initial ∅ some := by
  intro done buffers _ holds
  exact ⟨buffers, rfl, by rwa [Set.union_empty]⟩

theorem Executes.congr {program : Buffers Addr Value → Option (Buffers Addr Value)}
    (executes : scheme.Executes initial first program) (same : first = second) :
    scheme.Executes initial second program :=
  same ▸ executes

theorem dvd_sub_of_dvd_sub_add {step low i : ℤ} (aligned : step ∣ i - (low + step)) :
    step ∣ i - low := by
  rw [show i - low = i - (low + step) + step by omega]
  exact Int.dvd_add aligned (Int.dvd_refl step)

/-- The updates of a loop. -/
def sweep (step low high : ℤ) (updates : ℤ → Set (Point Cell)) : Set (Point Cell) :=
  {point | ∃ i, low ≤ i ∧ i < high ∧ step ∣ i - low ∧ point ∈ updates i}

theorem sweep_eq {step low high : ℤ} (positive : 0 < step) (inside : low < high)
    (updates : ℤ → Set (Point Cell)) :
    sweep step low high updates = updates low ∪ sweep step (low + step) high updates := by
  ext point
  constructor
  · rintro ⟨i, above, below, aligned, found⟩
    rcases eq_or_lt_of_le above with rfl | later
    · exact Or.inl found
    · have apart := Int.le_of_dvd (Int.sub_pos.mpr later) aligned
      refine Or.inr ⟨i, by omega, below, ?_, found⟩
      rw [← Int.sub_sub]
      exact Int.dvd_sub aligned (Int.dvd_refl step)
  · rintro (found | ⟨i, above, below, aligned, found⟩)
    · exact ⟨low, le_rfl, inside, by simp, found⟩
    · exact ⟨i, by omega, below, dvd_sub_of_dvd_sub_add aligned, found⟩

/-- A loop executes the updates of its rounds, if no round needs a later one. -/
theorem executes_forLoop {step high : ℤ} (positive : 0 < step)
    {body : ℤ → Buffers Addr Value → Option (Buffers Addr Value)} (updates : ℤ → Set (Point Cell))
    (low : ℤ)
    (each : ∀ i, low ≤ i → i < high → step ∣ i - low → scheme.Executes initial (updates i) (body i))
    (ordered : ∀ i j, low ≤ i → i < j → j < high → step ∣ i - low → step ∣ j - low →
      scheme.Precedes (updates i) (updates j)) :
    scheme.Executes initial (sweep step low high updates) (forLoop step high body low) := by
  obtain ⟨rounds, enough⟩ : ∃ rounds : ℕ, (high - low).toNat ≤ rounds := ⟨_, le_rfl⟩
  have stop : ∀ low, ¬ low < high →
      scheme.Executes initial (sweep step low high updates) (forLoop step high body low) := by
    intro low outside
    have nothing : (∅ : Set (Point Cell)) = sweep step low high updates := by
      refine (Set.eq_empty_of_forall_notMem ?_).symm
      rintro point ⟨i, above, below, -⟩
      omega
    have program : forLoop step high body low = some := by
      funext buffers
      rw [forLoop, if_neg outside]
    rw [program]
    exact executes_empty.congr nothing
  induction rounds generalizing low with
  | zero => exact stop low (by omega)
  | succ rounds inductionHypothesis =>
    by_cases inside : low < high
    · have rest := inductionHypothesis (low + step)
        (fun i above below aligned => each i (by omega) below (dvd_sub_of_dvd_sub_add aligned))
        (fun i j above less below alignedFirst alignedSecond =>
          ordered i j (by omega) less below (dvd_sub_of_dvd_sub_add alignedFirst)
            (dvd_sub_of_dvd_sub_add alignedSecond))
        (by omega)
      have program : forLoop step high body low = fun buffers =>
          (body low buffers).bind (forLoop step high body (low + step)) := by
        funext buffers
        rw [forLoop, if_pos inside, if_pos positive]
      rw [program]
      refine ((each low le_rfl inside (by simp)).append rest ⟨?_, ?_⟩).congr
        (sweep_eq positive inside updates).symm
      · rintro point found ⟨i, above, below, aligned, again⟩
        exact (ordered low i le_rfl (by omega) below (by simp)
          (dvd_sub_of_dvd_sub_add aligned)).disjoint point found again
      · rintro steps cell other found inner near ⟨i, above, below, aligned, again⟩
        exact (ordered low i le_rfl (by omega) below (by simp)
          (dvd_sub_of_dvd_sub_add aligned)).needs steps cell other found inner near again
    · exact stop low inside

/-! ### One update -/

theorem odd_succ_ne (steps : ℕ) : odd (steps + 1) ≠ odd steps := by
  unfold odd
  rw [Ne, decide_eq_decide]
  omega

/-- A cell that is not updated keeps its two values. -/
theorem solution_of_not_inner {cell : Cell} (outer : cell ∉ scheme.inner) (steps : ℕ) :
    scheme.solution initial steps cell = initial (odd steps) (scheme.address cell) := by
  cases steps with
  | zero => rfl
  | succ steps => rw [solution, if_neg outer]

/-- What an update reads is there: the neighbours have been updated often enough, and not too
often. -/
theorem Holds.reads {steps : ℕ} {cell : Cell} (holds : scheme.Holds initial done buffers)
    (legal : scheme.Legal done {(steps, cell)}) {other : Cell} (near : scheme.near cell other) :
    buffers (odd steps) (scheme.address other) = scheme.solution initial steps other := by
  have inner : cell ∈ scheme.inner := legal.inner (steps, cell) rfl
  by_cases innerOther : other ∈ scheme.inner
  · refine holds.value steps other innerOther ?_ ?_
    · rintro before rfl
      rcases legal.needs before cell other rfl innerOther near with found | same
      · exact found
      · exact absurd (congrArg Prod.fst same) (Nat.ne_of_lt (Nat.lt_succ_self before))
    · intro overtaken
      exact legal.fresh (steps, cell) rfl (legal.closed.needs steps other cell overtaken inner
        (scheme.near_symm cell inner other innerOther near))
  · rw [solution_of_not_inner innerOther]
    refine holds.other _ _ fun third innerThird same => ?_
    exact innerOther (scheme.address_injective third innerThird other (Or.inr ⟨cell, inner, near⟩)
      same ▸ innerThird)

/-- Before a cell is updated its earlier steps have been done, and none of the later ones: each
needs the one before. -/
theorem Legal.before {steps : ℕ} {cell : Cell} (legal : scheme.Legal done {(steps, cell)})
    {before : ℕ} (early : before < steps) : (before, cell) ∈ done := by
  have inner : cell ∈ scheme.inner := legal.inner (steps, cell) rfl
  have near := scheme.near_self cell inner
  obtain ⟨gap, isGap⟩ : ∃ gap, steps = before + 1 + gap := ⟨steps - (before + 1), by omega⟩
  induction gap generalizing before with
  | zero =>
    rw [Nat.add_zero] at isGap
    subst isGap
    rcases legal.needs before cell cell rfl inner near with found | same
    · exact found
    · exact absurd (congrArg Prod.fst same) (Nat.ne_of_lt early)
  | succ gap inductionHypothesis =>
    refine legal.closed.needs before cell cell ?_ inner near
    exact inductionHypothesis (by omega) (by omega)

theorem Legal.not_after {steps : ℕ} {cell : Cell} (legal : scheme.Legal done {(steps, cell)})
    {after : ℕ} (late : steps ≤ after) : (after, cell) ∉ done := by
  have inner : cell ∈ scheme.inner := legal.inner (steps, cell) rfl
  induction after, late using Nat.le_induction with
  | base => exact legal.fresh (steps, cell) rfl
  | succ after _ inductionHypothesis =>
    exact fun found => inductionHypothesis
      (legal.closed.needs after cell cell found inner (scheme.near_self cell inner))

/-- The buffers after an update. -/
def update [DecidableEq Addr] (scheme : Scheme Cell Addr Value) (fac : Value) (steps : ℕ)
    (cell : Cell) (buffers : Buffers Addr Value) : Buffers Addr Value :=
  Function.update buffers (odd (steps + 1))
    (Function.update (buffers (odd (steps + 1))) (scheme.address cell)
      (scheme.rule fac (fun other => buffers (odd steps) (scheme.address other)) cell))

section Update

variable [DecidableEq Addr] {fac : Value} {steps : ℕ} {cell : Cell}

theorem update_same :
    scheme.update fac steps cell buffers (odd (steps + 1)) (scheme.address cell) =
      scheme.rule fac (fun other => buffers (odd steps) (scheme.address other)) cell := by
  rw [update, Function.update_self, Function.update_self]

theorem update_other {buffer : Bool} {address : Addr}
    (other : buffer ≠ odd (steps + 1) ∨ address ≠ scheme.address cell) :
    scheme.update fac steps cell buffers buffer address = buffers buffer address := by
  unfold update
  by_cases same : buffer = odd (steps + 1)
  · subst same
    rw [Function.update_self, Function.update_of_ne (other.resolve_left fun ne => ne rfl)]
  · rw [Function.update_of_ne same]

/-- An update is executed. -/
theorem executes_update (isFac : fac = initial false scheme.coefficient) :
    scheme.Executes initial {(steps, cell)}
      fun buffers => some (scheme.update fac steps cell buffers) := by
  intro done buffers legal holds
  have inner : cell ∈ scheme.inner := legal.inner (steps, cell) rfl
  have apart : ∀ other ∈ scheme.inner, other ≠ cell →
      scheme.address other ≠ scheme.address cell := fun other innerOther ne same =>
    ne (scheme.address_injective other innerOther cell (Or.inl inner) same)
  have computed : scheme.rule fac (fun other => buffers (odd steps) (scheme.address other)) cell =
      scheme.solution initial (steps + 1) cell := by
    rw [solution, if_pos inner, isFac]
    exact scheme.rule_congr _ _ _ cell inner fun other near => holds.reads legal near
  refine ⟨_, rfl, ?_, ?_, ?_⟩
  · intro after other innerOther reached notPassed
    by_cases same : other = cell
    · subst same
      have low : after ≤ steps + 1 := by
        by_contra high
        obtain ⟨before, rfl⟩ : ∃ before, after = before + 1 := ⟨after - 1, by omega⟩
        rcases reached before rfl with found | found
        · exact legal.not_after (by omega) found
        · exact absurd (congrArg Prod.fst found) (by dsimp only; omega)
      have high : steps ≤ after := by
        by_contra low
        refine notPassed ?_
        by_cases next : after + 1 = steps
        · exact Or.inr (by rw [next]; rfl)
        · exact Or.inl (legal.before (by omega))
      by_cases now : after = steps
      · subst now
        rw [update_other (Or.inl (odd_succ_ne after).symm)]
        exact holds.value after other inner (fun before isBefore => legal.before (by omega))
          (legal.not_after (Nat.le_succ after))
      · obtain rfl : after = steps + 1 := by omega
        rw [update_same, computed]
    · rw [update_other (Or.inr (apart other innerOther same))]
      refine holds.value after other innerOther (fun before isBefore => ?_)
        fun found => notPassed (Or.inl found)
      rcases reached before isBefore with found | found
      · exact found
      · exact absurd (congrArg Prod.snd found) same
  · intro other innerOther untouched
    by_cases same : other = cell
    · subst same
      refine absurd ?_ untouched
      rcases Nat.eq_zero_or_pos steps with rfl | positive
      · exact Or.inr rfl
      · exact Or.inl (legal.before positive)
    · rw [update_other (Or.inr (apart other innerOther same))]
      exact holds.untouched other innerOther fun found => untouched (Or.inl found)
  · intro buffer address notInner
    rw [update_other (Or.inr fun same => notInner cell inner same.symm)]
    exact holds.other buffer address notInner

end Update

/-! ### All updates -/

/-- The updates of the first steps. -/
def through (scheme : Scheme Cell Addr Value) (steps : ℕ) : Set (Point Cell) :=
  {point | point.1 < steps ∧ point.2 ∈ scheme.inner}

theorem holds_start : scheme.Holds initial ∅ initial := by
  refine ⟨fun steps cell _ reached _ => ?_, fun _ _ _ => rfl, fun _ _ _ => rfl⟩
  cases steps with
  | zero => rfl
  | succ steps => exact absurd (reached steps rfl) (Set.notMem_empty _)

theorem legal_through (steps : ℕ) : scheme.Legal ∅ (scheme.through steps) where
  closed := ⟨fun _ found => absurd found (Set.notMem_empty _),
    fun _ _ _ found => absurd found (Set.notMem_empty _)⟩
  fresh := fun _ _ => Set.notMem_empty _
  inner := fun _ found => found.2
  needs := fun before _ _ found inner _ =>
    Or.inr ⟨lt_trans (Nat.lt_succ_self before) found.1, inner⟩

/-- After all updates there is nothing left that could differ. -/
theorem Holds.unique {steps : ℕ} {others : Buffers Addr Value}
    (holds : scheme.Holds initial (scheme.through steps) buffers)
    (holdsOther : scheme.Holds initial (scheme.through steps) others) : buffers = others := by
  have last : ∀ level cell, cell ∈ scheme.inner → level = steps ∨ level + 1 = steps →
      buffers (odd level) (scheme.address cell) = others (odd level) (scheme.address cell) := by
    intro level cell inner isLast
    have reached : ∀ before, before + 1 = level → (before, cell) ∈ scheme.through steps :=
      fun before isBefore => ⟨by dsimp only; omega, inner⟩
    have notPassed : (level + 1, cell) ∉ scheme.through steps := fun found => by
      have := found.1
      dsimp only at this
      omega
    rw [holds.value level cell inner reached notPassed,
      holdsOther.value level cell inner reached notPassed]
  funext buffer address
  by_cases isInner : ∃ cell ∈ scheme.inner, scheme.address cell = address
  · obtain ⟨cell, inner, rfl⟩ := isInner
    by_cases now : buffer = odd steps
    · rw [now]
      exact last steps cell inner (Or.inl rfl)
    · cases steps with
      | zero =>
        obtain rfl : buffer = true := by
          cases buffer
          · exact absurd rfl now
          · rfl
        have untouched : (0, cell) ∉ scheme.through 0 := fun found => absurd found.1 (by simp)
        rw [holds.untouched cell inner untouched, holdsOther.untouched cell inner untouched]
      | succ steps =>
        obtain rfl : buffer = odd steps := by
          have other := odd_succ_ne steps
          revert now other
          cases buffer <;> cases odd steps <;> cases odd (steps + 1) <;> simp
        exact last steps cell inner (Or.inr rfl)
  · have outer : ∀ cell ∈ scheme.inner, scheme.address cell ≠ address := fun cell inner same =>
      isInner ⟨cell, inner, same⟩
    rw [holds.other buffer address outer, holdsOther.other buffer address outer]

/-- Two programs that execute the same steps come to the same end. -/
theorem Executes.eq {steps : ℕ} {program other : Buffers Addr Value → Option (Buffers Addr Value)}
    (executes : scheme.Executes initial (scheme.through steps) program)
    (executesOther : scheme.Executes initial (scheme.through steps) other) :
    ∃ after, program initial = some after ∧ other initial = some after := by
  obtain ⟨after, isAfter, holds⟩ := executes ∅ initial (legal_through steps) holds_start
  obtain ⟨final, isFinal, holdsOther⟩ := executesOther ∅ initial (legal_through steps) holds_start
  rw [Set.empty_union] at holds holdsOther
  exact ⟨after, isAfter, by rw [isFinal, holds.unique holdsOther]⟩

end Scheme

end SpaceTime
