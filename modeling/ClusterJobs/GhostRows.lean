/-
This file says when `probe_heat_circqueue.c` computes the same as the plain order.

In the first slab, and at the first step of each slab, the ghost cells below and above are those of
the row that is computed. At the last step of every other slab they come from the row that is behind
by the rows of all slabs before. So the probe agrees with the plain order exactly when there is a
single slab or a single step.

The plain order reads the ghost cells of both arrays in turn, the queues have those of `A0`. They
have to be the same in both arrays.
-/

import ClusterJobs.CircularQueue
import Mathlib.Algebra.Field.Rat

namespace ClusterJobs.StencilProbe

open SpaceTime Scheme

variable {α : Type} {grid : Grid} {ty timesteps s : ℤ}

/-! ### Runs without an offset -/

/-- Both arrays have the same ghost cells. -/
def SameGhosts (grid : Grid) (arrays : Arrays α) : Prop :=
  ∀ cell, grid.Inside cell → ¬ grid.Inner cell →
    arrays true (grid.address cell) = arrays false (grid.address cell)

/-- The first slab has no offset, and the first step has none. -/
theorem firstRow_eq_zero {t : ℕ} (single : s = 0 ∨ timesteps = 1)
    (before : (t : ℤ) < timesteps) : firstRow grid ty timesteps s t = 0 := by
  have low := edges_low grid ty timesteps s t
  unfold firstRow
  rcases single with rfl | rfl
  · rw [Int.zero_mul] at low
    split <;> omega
  · rw [if_pos (Or.inr (by omega))]

/-- The last step of another slab is off by the rows of the slabs before. -/
theorem firstRow_last {t : ℕ} (several : t ≠ 0) (last : (t : ℤ) + 1 = timesteps)
    (later : 0 ≤ s * ty) : firstRow grid ty timesteps s t = s * ty := by
  have low := edges_low grid ty timesteps s t
  unfold firstRow
  rw [if_neg (by omega)]
  omega

namespace Setup

variable {setup : Setup α} {t : ℕ}

/-- Without an offset the values around a cell are read. -/
theorem seven_zero (cell : Cell) :
    setup.seven 0 (setup.value s t) cell = around (setup.value s t) cell := by
  have ghost : ∀ z : ℤ, ¬ (1 ≤ z ∧ z < setup.grid.nz - 1) →
      setup.initial false (setup.grid.address ⟨cell.x, cell.y - 0, z⟩) =
        setup.value s t { cell with z := z } := by
    intro z outside
    rw [Int.sub_zero, value_of_not_inner fun inner => outside inner.2.2]
  have below : (if cell.z = 1 then setup.initial false (setup.grid.address ⟨cell.x, cell.y - 0, 0⟩)
      else setup.value s t { cell with z := cell.z - 1 }) =
        setup.value s t { cell with z := cell.z - 1 } := by
    split
    · next bottom => rw [ghost 0 (by omega), bottom, Int.sub_self]
    · rfl
  have above : (if cell.z = setup.grid.nz - 2 then
        setup.initial false (setup.grid.address ⟨cell.x, cell.y - 0, setup.grid.nz - 1⟩)
      else setup.value s t { cell with z := cell.z + 1 }) =
        setup.value s t { cell with z := cell.z + 1 } := by
    split
    · next top =>
      rw [ghost _ (by omega), top, show setup.grid.nz - 2 + 1 = setup.grid.nz - 1 by omega]
    · rfl
  unfold seven
  rw [below, above]
  rfl

/-- With a single slab or a single step the values are those of the plain order. -/
theorem value_eq_solution (single : s = 0 ∨ setup.timesteps = 1)
    (ghosts : SameGhosts setup.grid setup.initial) (before : (t : ℤ) ≤ setup.timesteps)
    {cell : Cell} (inside : setup.grid.Inside cell) :
    setup.value s t cell = (scheme setup.kernel setup.grid).solution setup.initial t cell := by
  induction t generalizing cell with
  | zero => rfl
  | succ t inductionHypothesis =>
    by_cases inner : setup.grid.Inner cell
    · rw [value, if_pos inner, firstRow_eq_zero single (by omega), seven_zero,
        around_congr fun other near => inductionHypothesis (by omega) (inside_of_near inner near)]
      exact (if_pos (show cell ∈ (scheme setup.kernel setup.grid).inner from inner)).symm
    · rw [value_of_not_inner inner,
        solution_of_not_inner (show cell ∉ (scheme setup.kernel setup.grid).inner from inner)]
      cases odd (t + 1) with
      | true => exact (ghosts cell inside inner).symm
      | false => rfl

end Setup

/-! ### Agreement -/

/-- The final values of the inner cells are those of the plain order. -/
def Agrees (kernel : α → Seven α → α) (grid : Grid) (ty timesteps : ℤ) (queuePlanes : ℤ → α)
    (arrays : Arrays α) : Prop :=
  ∃ after final, circqueue kernel grid ty timesteps queuePlanes arrays = some after ∧
    naive kernel grid timesteps arrays = some final ∧ ∀ cell, grid.Inner cell →
      after true (grid.address cell) = final (odd timesteps.toNat) (grid.address cell)

/-- The values of the slabs decide. -/
theorem agrees_iff (kernel : α → Seven α → α) (fits : QueueFits grid ty timesteps)
    (queuePlanes : ℤ → α) (arrays : Arrays α) :
    Agrees kernel grid ty timesteps queuePlanes arrays ↔ ∀ cell, grid.Inner cell →
      (Setup.mk kernel grid ty timesteps arrays).value ((cell.y - 1) / ty) timesteps.toNat cell =
        (scheme kernel grid).solution arrays timesteps.toNat cell := by
  obtain ⟨after, isAfter, -, value, -⟩ :=
    (Setup.mk kernel grid ty timesteps arrays).circqueue_spec fits queuePlanes
  obtain ⟨final, isFinal, plain⟩ := naive_spec kernel fits.toCounted.positive timesteps arrays
  constructor
  · rintro ⟨after', final', isAfter', isFinal', same⟩ cell inner
    cases isAfter.symm.trans isAfter'
    cases isFinal.symm.trans isFinal'
    exact (value cell inner).symm.trans ((same cell inner).trans (plain cell inner))
  · intro same
    refine ⟨after, final, isAfter, isFinal, fun cell inner => ?_⟩
    exact (value cell inner).trans ((same cell inner).trans (plain cell inner).symm)

/-- With a formula that takes the value below, the first row of the second slab gets that of the
first row of the grid. -/
theorem value_second_slab {setup : Setup α} (fits : QueueFits setup.grid setup.ty setup.timesteps)
    (isBelow : ∀ fac values, setup.kernel fac values = values.below)
    (several : setup.timesteps ≠ 1) (inner : setup.grid.Inner ⟨1, setup.ty + 1, 1⟩) :
    setup.value 1 setup.timesteps.toNat ⟨1, setup.ty + 1, 1⟩ =
      setup.initial false (setup.grid.address ⟨1, 1, 0⟩) := by
  have positive := fits.positive
  have start := fits.several
  obtain ⟨t, isLast⟩ : ∃ t : ℕ, setup.timesteps.toNat = t + 1 :=
    ⟨setup.timesteps.toNat - 1, by omega⟩
  have offset : firstRow setup.grid setup.ty setup.timesteps 1 t = setup.ty := by
    rw [firstRow_last (by omega) (by omega) (by omega), Int.one_mul]
  rw [isLast, Setup.value, if_pos inner, isBelow, offset, Setup.seven]
  dsimp only
  rw [if_pos rfl, show setup.ty + 1 - setup.ty = 1 by omega]

/-- In the plain order it gets that of its own row. -/
theorem solution_below (grid : Grid) (arrays : Arrays α) {timesteps : ℤ} (several : 1 ≤ timesteps)
    {y : ℤ} (inner : grid.Inner ⟨1, y, 1⟩) :
    ∃ array, (scheme (fun _ values => values.below) grid).solution arrays timesteps.toNat
      ⟨1, y, 1⟩ = arrays array (grid.address ⟨1, y, 0⟩) := by
  obtain ⟨t, isLast⟩ : ∃ t : ℕ, timesteps.toNat = t + 1 := ⟨timesteps.toNat - 1, by omega⟩
  have outer : ¬ grid.Inner ⟨1, y, 0⟩ := fun inner =>
    absurd (show (1 : ℤ) ≤ 0 from inner.2.2.1) (by decide)
  refine ⟨odd t, ?_⟩
  rw [isLast, solution, if_pos (show (⟨1, y, 1⟩ : Cell) ∈ (scheme _ grid).inner from inner)]
  exact solution_of_not_inner outer t

/-- The probe returns, and what it returns does not depend on what was in the queues. -/
theorem circqueue_returns (fits : QueueFits grid ty timesteps) (kernel : α → Seven α → α)
    (arrays : Arrays α) :
    ∃ after, ∀ queuePlanes, circqueue kernel grid ty timesteps queuePlanes arrays = some after := by
  have spec := fun queuePlanes =>
    (Setup.mk kernel grid ty timesteps arrays).circqueue_spec fits queuePlanes
  obtain ⟨after, -, a0, value, rest⟩ := spec fun _ => arrays false 0
  refine ⟨after, fun queuePlanes => ?_⟩
  obtain ⟨after', isAfter', a0', value', rest'⟩ := spec queuePlanes
  have same : after' = after := by
    funext array address
    cases array with
    | false => rw [a0', a0]
    | true =>
      by_cases final : ∃ cell, grid.Inner cell ∧ grid.address cell = address
      · obtain ⟨cell, inner, rfl⟩ := final
        exact (value' cell inner).trans (value cell inner).symm
      · have apart : ∀ cell, grid.Inner cell → grid.address cell ≠ address :=
          fun cell inner isAddress => final ⟨cell, inner, isAddress⟩
        exact (rest' address apart).trans (rest address apart).symm
  rw [isAfter', same]

/-- With more than one slab there are at least two. -/
theorem QueueFits.twoSlabs (fits : QueueFits grid ty timesteps) (wide : 2 < grid.ny)
    (several : ty ≠ grid.ny - 2) : ty + ty ≤ grid.ny - 2 := by
  have positive := fits.positive
  obtain ⟨blocks, isBlocks⟩ := fits.blocks
  have some : 0 < blocks := pos_of_mul_pos_right (by omega) positive.le
  have more : blocks ≠ 1 := fun one => by
    rw [one, Int.mul_one] at isBlocks
    exact several isBlocks.symm
  have twice := mul_le_mul_of_nonneg_left (show 2 ≤ blocks by omega) positive.le
  omega

/-- With two slabs and two steps the formula that takes the value below tells the two apart: the
value below the first row of the second slab can be another one than that below the first row. -/
theorem single_of_agrees [Nontrivial α] (fits : QueueFits grid ty timesteps)
    (wide : grid.Inside ⟨2, 2, 2⟩)
    (agrees : ∀ (queuePlanes : ℤ → α) (arrays : Arrays α), SameGhosts grid arrays →
      Agrees (fun _ values => values.below) grid ty timesteps queuePlanes arrays) :
    timesteps = 1 ∨ ty = grid.ny - 2 := by
  have positive := fits.positive
  by_contra several
  rw [not_or] at several
  obtain ⟨⟨-, x⟩, ⟨-, y⟩, -, z⟩ := wide
  dsimp only at x y z
  have twoSlabs := fits.twoSlabs y several.2
  have inner : grid.Inner ⟨1, ty + 1, 1⟩ := by
    refine ⟨⟨?_, ?_⟩, ⟨?_, ?_⟩, ?_, ?_⟩ <;> dsimp only <;> omega
  obtain ⟨marked, other, different⟩ := exists_pair_ne α
  -- The value below the first row of the second slab is marked.
  let arrays : Arrays α := fun _ address =>
    if address = grid.address ⟨1, ty + 1, 0⟩ then marked else other
  have same := (agrees_iff (fun _ values => values.below) fits (fun _ => other) arrays).mp
    (agrees _ _ fun _ _ _ => rfl) ⟨1, ty + 1, 1⟩ inner
  obtain ⟨array, isMarked⟩ := solution_below grid arrays fits.several inner
  rw [isMarked, Int.add_sub_cancel, Int.ediv_self positive.ne',
    value_second_slab fits (fun _ _ => rfl) several.1 inner] at same
  have ghost : ∀ row : ℤ, 1 ≤ row → row < grid.ny → grid.Inside ⟨1, row, 0⟩ := by
    intro row above below
    refine ⟨⟨?_, ?_⟩, ⟨?_, ?_⟩, ?_, ?_⟩ <;> dsimp only <;> omega
  have apart : grid.address ⟨1, 1, 0⟩ ≠ grid.address ⟨1, ty + 1, 0⟩ := by
    intro sameAddress
    have sameCell := Grid.address_injective (ghost 1 (by omega) (by omega))
      (ghost (ty + 1) (by omega) (by omega)) sameAddress
    have sameRow : 1 = ty + 1 := congrArg Cell.y sameCell
    omega
  simp only [arrays, if_neg apart, ↓reduceIte] at same
  exact different same.symm

/-- With a single step or a single slab nothing is off. -/
theorem agrees_of_single (fits : QueueFits grid ty timesteps)
    (single : timesteps = 1 ∨ ty = grid.ny - 2) (kernel : α → Seven α → α)
    (queuePlanes : ℤ → α) {arrays : Arrays α} (ghosts : SameGhosts grid arrays) :
    Agrees kernel grid ty timesteps queuePlanes arrays := by
  have start := fits.several
  refine (agrees_iff kernel fits queuePlanes arrays).mpr fun cell inner => ?_
  refine Setup.value_eq_solution ?_ ghosts (by dsimp only; omega)
    (inside_of_near inner (by unfold Near; omega))
  refine single.symm.imp_left fun whole => Int.ediv_eq_zero_of_lt ?_ ?_
  · have rows := inner.2.1
    omega
  · have rows := inner.2.1
    omega

/-- `probe_heat_circqueue.c` stays within what has been allocated, and what is in the queues at the
beginning does not matter. For every formula and all values it agrees with the plain order exactly
when there is a single step or a single slab. -/
theorem circqueue_agrees_iff [Nontrivial α] (fits : QueueFits grid ty timesteps)
    (wide : grid.Inside ⟨2, 2, 2⟩) :
    (∀ (kernel : α → Seven α → α) (arrays : Arrays α), ∃ after, ∀ queuePlanes,
      circqueue kernel grid ty timesteps queuePlanes arrays = some after) ∧
    ((∀ (kernel : α → Seven α → α) (queuePlanes : ℤ → α) (arrays : Arrays α),
      SameGhosts grid arrays → Agrees kernel grid ty timesteps queuePlanes arrays) ↔
      timesteps = 1 ∨ ty = grid.ny - 2) := by
  refine ⟨circqueue_returns fits, fun agrees => ?_, fun single => ?_⟩
  · exact single_of_agrees fits wide (agrees _)
  · exact fun kernel queuePlanes arrays => agrees_of_single fits single kernel queuePlanes

/-- The formula of `probe_heat_circqueue.c` is that of `probe_heat.c`. -/
theorem queueHeat_eq_heat {K : Type} [Field K] : (queueHeat : K → Seven K → K) = heat := by
  funext fac values
  unfold queueHeat heat
  ring

/-- Five steps on two inner rows: with one slab the two probes agree, with two slabs they do not for
every formula. -/
theorem circqueue_two_rows :
    (∀ queuePlanes (arrays : Arrays ℚ), SameGhosts ⟨3, 4, 3⟩ arrays →
      ∃ after final, circqueue queueHeat ⟨3, 4, 3⟩ 2 5 queuePlanes arrays = some after ∧
        naive heat ⟨3, 4, 3⟩ 5 arrays = some final ∧ ∀ cell, Grid.Inner ⟨3, 4, 3⟩ cell →
          after true (Grid.address ⟨3, 4, 3⟩ cell) = final true (Grid.address ⟨3, 4, 3⟩ cell)) ∧
    ¬ ∀ (kernel : ℚ → Seven ℚ → ℚ) queuePlanes arrays, SameGhosts ⟨3, 4, 3⟩ arrays →
      Agrees kernel ⟨3, 4, 3⟩ 1 5 queuePlanes arrays := by
  have counted : Grid.Counted ⟨3, 4, 3⟩ := ⟨by decide, by decide, by decide, by decide⟩
  have wide : Grid.Inside ⟨3, 4, 3⟩ ⟨2, 2, 2⟩ := by
    refine ⟨⟨?_, ?_⟩, ⟨?_, ?_⟩, ?_, ?_⟩ <;> decide
  have oneRow : QueueFits ⟨3, 4, 3⟩ 1 5 :=
    ⟨counted, by decide, by decide, by decide, by decide, by decide, by decide⟩
  have twoRows : QueueFits ⟨3, 4, 3⟩ 2 5 :=
    ⟨counted, by decide, by decide, by decide, by decide, by decide, by decide⟩
  constructor
  · intro queuePlanes arrays ghosts
    rw [queueHeat_eq_heat]
    exact (circqueue_agrees_iff twoRows wide).2.mpr (Or.inr rfl) heat queuePlanes arrays ghosts
  · rw [(circqueue_agrees_iff oneRow wide).2]
    decide

end ClusterJobs.StencilProbe
