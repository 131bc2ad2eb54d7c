/-
This file says what `probe_heat_circqueue.c` computes.

For each slab of rows the probe goes through the planes of the grid, and at each plane through all
steps: step `t` is `t` planes behind, so that the three planes it needs are in the queue of the step
before. The queues get narrower from step to step, and neighbouring slabs compute the rows between
them twice.

At the bottom and at the top the ghost cells are taken from `A0`, but with the offset of the queue,
so that they come from another row.
-/

import ClusterJobs.Filling
import ClusterJobs.StencilOrders
import Mathlib.Tactic.Ring

namespace ClusterJobs.StencilProbe

open SpaceTime Scheme

variable {α : Type}

/-! ### The queues in memory -/

/-- Where the planes of a step begin. -/
def queueStart (nx ty timesteps : ℤ) : ℕ → ℤ
  | 0 => 0
  | t + 1 => queueStart nx ty timesteps t + (ty + 2 * (timesteps - (t + 1))) * nx

def layoutOf (nx ty timesteps : ℤ) : Layout where
  queuePlanesIndices := (List.range (timesteps - 1).toNat).map (queueStart nx ty timesteps)
  queuePlanesIndexPtr := queueStart nx ty timesteps (timesteps - 1).toNat

section Layout

variable {nx ty timesteps : ℤ}

theorem queueStart_mono (wide : 0 ≤ nx) (positive : 0 < ty) {u v : ℕ} (le : u ≤ v)
    (bound : (v : ℤ) < timesteps) :
    queueStart nx ty timesteps u ≤ queueStart nx ty timesteps v := by
  induction v, le using Nat.le_induction with
  | base => exact le_rfl
  | succ v _ inductionHypothesis =>
    have before := inductionHypothesis (by omega)
    have rows : 0 ≤ (ty + 2 * (timesteps - (v + 1))) * nx := Int.mul_nonneg (by omega) wide
    rw [queueStart]
    omega

/-- The number of values that are kept from the steps before another one. -/
theorem queueStart_eq (nx ty timesteps : ℤ) (t : ℕ) :
    queueStart nx ty timesteps t = nx * (t * (ty + 2 * timesteps - t - 1)) := by
  induction t with
  | zero => simp [queueStart]
  | succ t inductionHypothesis =>
    rw [queueStart, inductionHypothesis]
    push_cast
    ring

theorem queueStart_last (nx ty : ℤ) {timesteps : ℤ} (several : 1 ≤ timesteps) :
    queueStart nx ty timesteps (timesteps - 1).toNat =
      nx * ((timesteps - 1) * (ty + timesteps)) := by
  rw [queueStart_eq, Int.toNat_of_nonneg (by omega)]
  congr 2
  omega

/-- No `int` overflows if the queues are not too large in all. -/
theorem queueStart_ints (wide : 0 < nx) (positive : 0 < ty)
    (isInt : IsInt (3 * (nx * ((timesteps - 1) * (ty + timesteps))))) {u : ℕ}
    (bound : (u : ℤ) + 1 < timesteps) :
    ∀ value ∈ [2 * (timesteps - (u + 1)), ty + 2 * (timesteps - (u + 1)),
      (ty + 2 * (timesteps - (u + 1))) * nx, queueStart nx ty timesteps (u + 1)], IsInt value := by
  have start : 0 ≤ queueStart nx ty timesteps u :=
    queueStart_mono wide.le positive (Nat.zero_le u) (by omega)
  have last : queueStart nx ty timesteps (u + 1) ≤
      queueStart nx ty timesteps (timesteps - 1).toNat :=
    queueStart_mono wide.le positive (by omega) (by omega)
  have width : ty + 2 * (timesteps - (u + 1)) ≤ (ty + 2 * (timesteps - (u + 1))) * nx :=
    le_mul_of_one_le_right (by omega) wide
  rw [queueStart_last nx ty (by omega)] at last
  simp only [List.forall_mem_cons, List.not_mem_nil, false_imp_iff, implies_true, and_true]
  rw [queueStart] at last ⊢
  unfold IsInt at isInt ⊢
  omega

theorem circularQueueInit_eq (wide : 0 < nx) (positive : 0 < ty) (several : 1 ≤ timesteps)
    (isInt : IsInt (3 * (nx * ((timesteps - 1) * (ty + timesteps))))) :
    circularQueueInit nx ty timesteps = some (layoutOf nx ty timesteps) := by
  -- The layout of the planes up to a step.
  let upTo : ℤ → Layout := fun t =>
    ⟨(List.range (t - 1).toNat).map (queueStart nx ty timesteps),
      queueStart nx ty timesteps (t - 1).toNat⟩
  have round : ∀ (t : ℤ) (layout : Layout), 1 ≤ t → t < timesteps → layout = upTo t →
      ∃ after, (if ∀ value ∈ [2 * (timesteps - t), ty + 2 * (timesteps - t),
            (ty + 2 * (timesteps - t)) * nx,
            layout.queuePlanesIndexPtr + (ty + 2 * (timesteps - t)) * nx], IsInt value then
          some (⟨layout.queuePlanesIndices ++ [layout.queuePlanesIndexPtr],
            layout.queuePlanesIndexPtr + (ty + 2 * (timesteps - t)) * nx⟩ : Layout)
        else none) = some after ∧ after = upTo (t + 1) := by
    rintro t _ above below rfl
    obtain ⟨u, rfl⟩ : ∃ u : ℕ, t = u + 1 := ⟨(t - 1).toNat, by omega⟩
    have now : ((u : ℤ) + 1 - 1).toNat = u := by omega
    have next : ((u : ℤ) + 1 + 1 - 1).toNat = u + 1 := by omega
    have ints := queueStart_ints wide positive isInt below
    rw [queueStart] at ints
    simp only [upTo, now, next, List.range_succ, List.map_append, List.map_singleton, queueStart]
    exact ⟨_, if_pos ints, rfl⟩
  obtain ⟨layout, isLayout, same⟩ := forLoop_invariant _ round rfl
  have last : upTo (max 1 timesteps) = layoutOf nx ty timesteps := by
    rw [max_eq_right several]
    rfl
  have enough : 0 ≤ (layoutOf nx ty timesteps).queuePlanesIndexPtr ∧
      IsInt (3 * (layoutOf nx ty timesteps).queuePlanesIndexPtr) := by
    refine ⟨queueStart_mono wide.le positive (Nat.zero_le _) (by omega), ?_⟩
    rw [layoutOf, queueStart_last nx ty several]
    exact isInt
  rw [same, last] at isLayout
  exact (congrArg (Option.bind · _) isLayout).trans (if_pos enough)

theorem index_layoutOf {u : ℕ} (bound : (u : ℤ) + 1 < timesteps) :
    (layoutOf nx ty timesteps).index u = some (queueStart nx ty timesteps u) := by
  rw [Layout.index, if_pos (Int.natCast_nonneg u), layoutOf, Int.toNat_natCast,
    List.getElem?_map, List.getElem?_range (by omega), Option.map_some]

end Layout

/-! ### The rows of a slab -/

section Rows

variable (grid : Grid) (ty timesteps s : ℤ)

/-- The coordinates in a plane that are computed at a step. -/
def Computed (t : ℕ) (x y : ℤ) : Prop :=
  (1 ≤ x ∧ x < grid.nx - 1) ∧ (edges grid ty timesteps s t).writeBlockRealMin ≤ y ∧
    y < (edges grid ty timesteps s t).writeBlockRealMax

/-- The coordinates at the ends of the rows that are copied at a step. -/
def EndCopied (t : ℕ) (x y : ℤ) : Prop :=
  (x = 0 ∨ x = grid.nx - 1) ∧ (edges grid ty timesteps s t).writeBlockMin + 1 ≤ y ∧
    y < (edges grid ty timesteps s t).writeBlockMax - 1

/-- The coordinates in a row at the edge of the grid that are copied at a step. -/
def RowCopied (t : ℕ) (x y : ℤ) : Prop :=
  (1 ≤ x ∧ x < grid.nx - 1) ∧ ((edges grid ty timesteps s t).writeBlockMin = 0 ∧ y = 0 ∨
    (edges grid ty timesteps s t).writeBlockMax = grid.ny ∧ y = grid.ny - 1)

/-- What is written at a step. At the last one nothing is copied. -/
def stored (t : ℕ) : Set (ℤ × ℤ) :=
  {coord | Computed grid ty timesteps s t coord.1 coord.2 ∨ (t : ℤ) + 1 < timesteps ∧
    (EndCopied grid ty timesteps s t coord.1 coord.2 ∨
      RowCopied grid ty timesteps s t coord.1 coord.2)}

theorem edges_low (t : ℤ) :
    s * ty - (timesteps - t) + 2 < 1 ∧ (edges grid ty timesteps s t).writeBlockMin = 0 ∧
      (edges grid ty timesteps s t).writeBlockRealMin = 1 ∨
    1 ≤ s * ty - (timesteps - t) + 2 ∧
      (edges grid ty timesteps s t).writeBlockMin = s * ty - (timesteps - t) + 2 ∧
      (edges grid ty timesteps s t).writeBlockRealMin = s * ty - (timesteps - t) + 2 := by
  simp only [edges]
  split
  · exact Or.inl ⟨‹_›, rfl, rfl⟩
  · exact Or.inr ⟨by omega, rfl, rfl⟩

theorem edges_high (t : ℤ) :
    grid.ny ≤ s * ty + ty + (timesteps - t) ∧
      (edges grid ty timesteps s t).writeBlockMax = grid.ny ∧
      (edges grid ty timesteps s t).writeBlockRealMax = grid.ny - 1 ∨
    s * ty + ty + (timesteps - t) < grid.ny ∧
      (edges grid ty timesteps s t).writeBlockMax = s * ty + ty + (timesteps - t) ∧
      (edges grid ty timesteps s t).writeBlockRealMax = s * ty + ty + (timesteps - t) := by
  simp only [edges, Int.add_mul, Int.one_mul]
  split
  · exact Or.inl ⟨by omega, rfl, rfl⟩
  · exact Or.inr ⟨by omega, rfl, rfl⟩

/-- The edges come closer from step to step. A row next to one that is computed has been computed
before, or is a ghost row. -/
theorem edges_succ (t : ℕ) :
    let now := edges grid ty timesteps s t
    let next := edges grid ty timesteps s (t + 1 : ℕ)
    (now.writeBlockMin + 1 ≤ next.writeBlockRealMin ∧ now.writeBlockMin ≤ next.writeBlockMin) ∧
      (next.writeBlockMin = 0 → now.writeBlockMin = 0) ∧
      (now.writeBlockRealMin ≤ next.writeBlockRealMin - 1 ∨
        now.writeBlockMin = 0 ∧ now.writeBlockRealMin = 1 ∧ next.writeBlockRealMin = 1) ∧
      (next.writeBlockRealMax ≤ now.writeBlockMax - 1 ∧
        next.writeBlockMax ≤ now.writeBlockMax) ∧
      (next.writeBlockMax = grid.ny → now.writeBlockMax = grid.ny) ∧
      (next.writeBlockRealMax + 1 ≤ now.writeBlockRealMax ∨
        now.writeBlockMax = grid.ny ∧ now.writeBlockRealMax = grid.ny - 1 ∧
          next.writeBlockRealMax = grid.ny - 1) := by
  have low := edges_low grid ty timesteps s t
  have high := edges_high grid ty timesteps s t
  have lowNext := edges_low grid ty timesteps s (t + 1 : ℕ)
  have highNext := edges_high grid ty timesteps s (t + 1 : ℕ)
  push_cast at *
  refine ⟨⟨?_, ?_⟩, ?_, ?_, ⟨?_, ?_⟩, ?_, ?_⟩ <;> omega

variable {grid ty timesteps s}

theorem realMax_of_max {t : ℤ} (isEdge : (edges grid ty timesteps s t).writeBlockMax = grid.ny) :
    (edges grid ty timesteps s t).writeBlockRealMax = grid.ny - 1 := by
  have high := edges_high grid ty timesteps s t
  omega

/-- A slab of the grid. -/
structure Slab (grid : Grid) (ty s : ℤ) : Prop where
  wide : 0 < grid.nx
  positive : 0 < ty
  start : 0 ≤ s * ty
  fits : s * ty + ty ≤ grid.ny - 2

theorem stored_bounds (slab : Slab grid ty s) {t : ℕ} {x y : ℤ}
    (found : (x, y) ∈ stored grid ty timesteps s t) :
    (0 ≤ x ∧ x < grid.nx) ∧ (0 ≤ y ∧ y < grid.ny) ∧
      (edges grid ty timesteps s t).writeBlockMin ≤ y ∧
      ((t : ℤ) + 1 < timesteps →
        y < (edges grid ty timesteps s t).writeBlockMin + (ty + 2 * (timesteps - (t + 1)))) := by
  obtain ⟨wide, positive, start, fits⟩ := slab
  have low := edges_low grid ty timesteps s t
  have high := edges_high grid ty timesteps s t
  rcases found with ⟨columns, rows⟩ | ⟨-, ⟨columns, rows⟩ | ⟨columns, rows⟩⟩ <;>
    dsimp only at columns rows
  · omega
  · omega
  · omega

/-- The place of a coordinate in the queue of a step. -/
def slot (grid : Grid) (ty timesteps s plane : ℤ) (t : ℕ) (coord : ℤ × ℤ) : Pointer :=
  ⟨.queuePlanes, plane + (queueStart grid.nx ty timesteps t +
    (coord.1 + grid.nx * (coord.2 - (edges grid ty timesteps s t).writeBlockMin)))⟩

/-- The part of `queuePlanes` for one of the three planes. -/
def total (grid : Grid) (ty timesteps : ℤ) : ℤ :=
  (layoutOf grid.nx ty timesteps).queuePlanesIndexPtr

/-- A place is within the part of its step. -/
theorem slot_bounds (slab : Slab grid ty s) {t : ℕ} (before : (t : ℤ) + 1 < timesteps)
    {coord : ℤ × ℤ} (found : coord ∈ stored grid ty timesteps s t) (plane : ℤ) :
    plane + queueStart grid.nx ty timesteps t ≤
        (slot grid ty timesteps s plane t coord).offset ∧
      (slot grid ty timesteps s plane t coord).offset <
        plane + queueStart grid.nx ty timesteps (t + 1) := by
  obtain ⟨⟨x0, x1⟩, -, y0, y1⟩ := stored_bounds slab found
  have last := y1 before
  have wide := slab.wide
  dsimp only [slot]
  generalize (edges grid ty timesteps s t).writeBlockMin = low at *
  have rows : 0 ≤ grid.nx * (coord.2 - low) := Int.mul_nonneg (by omega) (by omega)
  have lastRow : grid.nx * (coord.2 - low + 1) ≤ grid.nx * (ty + 2 * (timesteps - (t + 1))) :=
    Int.mul_le_mul_of_nonneg_left (by omega) (by omega)
  rw [Int.mul_add, Int.mul_one] at lastRow
  rw [queueStart, Int.mul_comm _ grid.nx]
  omega

theorem slot_bounds_total (slab : Slab grid ty s) {t : ℕ} (before : (t : ℤ) + 1 < timesteps)
    {coord : ℤ × ℤ} (found : coord ∈ stored grid ty timesteps s t) (plane : ℤ) :
    plane ≤ (slot grid ty timesteps s plane t coord).offset ∧
      (slot grid ty timesteps s plane t coord).offset < plane + total grid ty timesteps := by
  obtain ⟨low, high⟩ := slot_bounds slab before found plane
  have first : queueStart grid.nx ty timesteps 0 ≤ queueStart grid.nx ty timesteps t :=
    queueStart_mono slab.wide.le slab.positive (Nat.zero_le t) (by omega)
  have last : queueStart grid.nx ty timesteps (t + 1) ≤
      queueStart grid.nx ty timesteps (timesteps - 1).toNat :=
    queueStart_mono slab.wide.le slab.positive (by omega) (by omega)
  rw [queueStart] at first
  rw [total, layoutOf]
  dsimp only
  omega

end Rows

namespace Queues

/-- The plane that is written in this round, in the last one, and in the one before. -/
def plane (queues : Queues α) : Fin 3 → ℤ
  | 0 => queues.queuePlane2
  | 1 => queues.queuePlane1
  | 2 => queues.queuePlane0

theorem plane_memory (queues : Queues α) (memory : Memory α) (back : Fin 3) :
    { queues with memory := memory }.plane back = queues.plane back := by
  match back with
  | 0 | 1 | 2 => rfl

/-- The pointers point to the three parts, in the order in which they revolve. -/
def Revolved (total : ℤ) (queues : Queues α) : Prop :=
  queues.queuePlane0 = 0 ∧ queues.queuePlane1 = total ∧ queues.queuePlane2 = 2 * total ∨
  queues.queuePlane0 = total ∧ queues.queuePlane1 = 2 * total ∧ queues.queuePlane2 = 0 ∨
  queues.queuePlane0 = 2 * total ∧ queues.queuePlane1 = 0 ∧ queues.queuePlane2 = total

variable {total : ℤ} {queues : Queues α}

theorem Revolved.revolve (revolved : queues.Revolved total) : queues.revolve.Revolved total := by
  unfold Revolved Queues.revolve at *
  dsimp only
  omega

theorem Revolved.plane_cases (revolved : queues.Revolved total) (back : Fin 3) :
    queues.plane back = 0 ∨ queues.plane back = total ∨ queues.plane back = 2 * total := by
  unfold Revolved at revolved
  match back with
  | 0 | 1 | 2 =>
    simp only [plane]
    omega

theorem Revolved.plane_injective (revolved : queues.Revolved total) (positive : 0 < total)
    {first second : Fin 3} (same : queues.plane first = queues.plane second) : first = second := by
  unfold Revolved at revolved
  match first, second with
  | 0, 0 | 1, 1 | 2, 2 => rfl
  | 0, 1 | 0, 2 | 1, 0 | 1, 2 | 2, 0 | 2, 1 =>
    simp only [plane] at same
    omega

end Queues

section Slots

variable {grid : Grid} {ty timesteps s : ℤ} {queues : Queues α}

/-- Two coordinates of a row of a certain length. -/
theorem row_injective {n x y u v : ℤ} (inside : 0 ≤ x ∧ x < n) (insideOther : 0 ≤ u ∧ u < n)
    (same : x + n * y = u + n * v) : x = u ∧ y = v := by
  have first : x = u := by
    have remainders := congrArg (· % n) same
    rwa [Int.add_mul_emod_self_left, Int.add_mul_emod_self_left,
      Int.emod_eq_of_lt inside.1 inside.2, Int.emod_eq_of_lt insideOther.1 insideOther.2]
      at remainders
  rw [first] at same
  exact ⟨first, Int.eq_of_mul_eq_mul_left (by omega) (Int.add_left_cancel same)⟩

/-- No two coordinates have the same place. -/
theorem slot_injective (slab : Slab grid ty s)
    (revolved : queues.Revolved (total grid ty timesteps)) {t u : ℕ}
    (before : (t : ℤ) + 1 < timesteps) (beforeOther : (u : ℤ) + 1 < timesteps)
    {coord other : ℤ × ℤ} (found : coord ∈ stored grid ty timesteps s t)
    (foundOther : other ∈ stored grid ty timesteps s u) {back backOther : Fin 3}
    (same : slot grid ty timesteps s (queues.plane back) t coord =
      slot grid ty timesteps s (queues.plane backOther) u other) :
    back = backOther ∧ t = u ∧ coord = other := by
  have sameOffset := congrArg Pointer.offset same
  have inPart := slot_bounds_total slab before found (queues.plane back)
  have inPartOther := slot_bounds_total slab beforeOther foundOther (queues.plane backOther)
  have inStep := slot_bounds slab before found (queues.plane back)
  have inStepOther := slot_bounds slab beforeOther foundOther (queues.plane backOther)
  rw [← sameOffset] at inPartOther inStepOther
  have samePlane : queues.plane back = queues.plane backOther := by
    have cases := revolved.plane_cases back
    have casesOther := revolved.plane_cases backOther
    omega
  have sameBack : back = backOther := revolved.plane_injective (by omega) samePlane
  rw [← samePlane] at inStepOther
  have sameStep : t = u := by
    rcases lt_trichotomy t u with less | equal | greater
    · have order : queueStart grid.nx ty timesteps (t + 1) ≤ queueStart grid.nx ty timesteps u :=
        queueStart_mono slab.wide.le slab.positive less (by omega)
      omega
    · exact equal
    · have order : queueStart grid.nx ty timesteps (u + 1) ≤ queueStart grid.nx ty timesteps t :=
        queueStart_mono slab.wide.le slab.positive greater (by omega)
      omega
  subst sameStep
  refine ⟨sameBack, rfl, ?_⟩
  dsimp only [slot] at sameOffset
  rw [samePlane] at sameOffset
  obtain ⟨sameX, sameY⟩ := row_injective (stored_bounds slab found).1
    (stored_bounds slab foundOther).1 (Int.add_left_cancel (Int.add_left_cancel sameOffset))
  exact Prod.ext sameX (by omega)

end Slots

/-! ### What a slab computes -/

instance (grid : Grid) (cell : Cell) : Decidable (grid.Inner cell) :=
  inferInstanceAs (Decidable (_ ∧ _))

/-- The row that the offset of a step begins with. -/
def firstRow (grid : Grid) (ty timesteps s t : ℤ) : ℤ :=
  if (edges grid ty timesteps s t).writeBlockMin = 0 ∨ t = 0 then 0
  else (edges grid ty timesteps s t).writeBlockMin - 1

/-- It is the one that the queue of the step before begins with. -/
theorem firstRow_succ (grid : Grid) (ty timesteps s : ℤ) (t : ℕ) :
    firstRow grid ty timesteps s (t + 1) = (edges grid ty timesteps s t).writeBlockMin := by
  have before := edges_low grid ty timesteps s t
  have now := edges_low grid ty timesteps s (t + 1)
  unfold firstRow
  split <;> omega

/-- The slabs fit into a grid whose values an `int` can count, and so do the sums of the sizes and
the number of steps and the sizes of the queues. -/
structure QueueFits (grid : Grid) (ty timesteps : ℤ) : Prop extends grid.Counted where
  positive : 0 < ty
  several : 1 ≤ timesteps
  blocks : ty ∣ grid.ny - 2
  rows : IsInt (grid.ny + timesteps)
  planes : IsInt (grid.nz + timesteps)
  queues : IsInt (3 * (grid.nx * ((timesteps - 1) * (ty + timesteps))))

/-- A run of the probe: what it computes, and the arrays at the beginning. -/
structure Setup (α : Type) where
  kernel : α → Seven α → α
  grid : Grid
  ty : ℤ
  timesteps : ℤ
  initial : Arrays α

namespace Setup

variable (setup : Setup α)

/-- The values around a cell. Below and above the inner planes those of `A0` are read, as many rows
off as the offset. -/
def seven (row : ℤ) (values : Cell → α) (cell : Cell) : Seven α :=
  { around values cell with
    below := if cell.z = 1 then
        setup.initial false (setup.grid.address ⟨cell.x, cell.y - row, 0⟩)
      else values { cell with z := cell.z - 1 }
    above := if cell.z = setup.grid.nz - 2 then
        setup.initial false (setup.grid.address ⟨cell.x, cell.y - row, setup.grid.nz - 1⟩)
      else values { cell with z := cell.z + 1 } }

/-- The values that a slab has after a number of steps. -/
def value (s : ℤ) : ℕ → Cell → α
  | 0, cell => setup.initial false (setup.grid.address cell)
  | t + 1, cell =>
    if setup.grid.Inner cell then
      setup.kernel (setup.initial false 0) (setup.seven
        (firstRow setup.grid setup.ty setup.timesteps s t) (value s t) cell)
    else setup.initial false (setup.grid.address cell)

def stored (s : ℤ) (t : ℕ) : Set (ℤ × ℤ) :=
  StencilProbe.stored setup.grid setup.ty setup.timesteps s t

def slot (s plane : ℤ) (t : ℕ) (coord : ℤ × ℤ) : Pointer :=
  StencilProbe.slot setup.grid setup.ty setup.timesteps s plane t coord

def layout : Layout := layoutOf setup.grid.nx setup.ty setup.timesteps

/-- What a step can read. -/
def available (s : ℤ) : ℕ → Set (ℤ × ℤ)
  | 0 => {coord | (0 ≤ coord.1 ∧ coord.1 < setup.grid.nx) ∧ 0 ≤ coord.2 ∧ coord.2 < setup.grid.ny}
  | t + 1 => setup.stored s t

/-- Where a step reads. -/
def source (s plane z : ℤ) : ℕ → ℤ × ℤ → Pointer
  | 0, coord => ⟨.a0, setup.grid.index coord.1 coord.2 z⟩
  | t + 1, coord => setup.slot s plane t coord

/-- Where a step writes. -/
def target (s plane z : ℤ) (t : ℕ) (coord : ℤ × ℤ) : Pointer :=
  if (t : ℤ) = setup.timesteps - 1 then ⟨.anext, setup.grid.index coord.1 coord.2 z⟩
  else setup.slot s plane t coord

/-- A plane of a queue holds the values of a plane of the grid. -/
def Layer (s plane : ℤ) (t : ℕ) (z : ℤ) (memory : Memory α) : Prop :=
  ∀ coord ∈ setup.stored s t,
    memory (setup.slot s plane t coord) = setup.value s (t + 1) ⟨coord.1, coord.2, z⟩

/-- The cells whose values are final: those of the slabs before, and the ones below a plane of the
slab in hand. -/
def Final (s bound : ℤ) (cell : Cell) : Prop :=
  setup.grid.Inner cell ∧ (cell.y ≤ s * setup.ty ∨
    cell.y ≤ s * setup.ty + setup.ty ∧ cell.z < bound)

/-- The plane that the last step is at next. -/
def lastPlane (k : ℤ) (t : ℕ) : ℤ :=
  if (t : ℤ) < setup.timesteps then k - setup.timesteps + 1 else k - setup.timesteps + 2

/-- The invariant: before step `t` at plane `k` of a slab. The queue of step `u` is at plane
`k - u`; the planes behind it are that of the last round and that of the one before. -/
structure Round (s k : ℤ) (t : ℕ) (queues : Queues α) : Prop where
  a0 : ∀ address, queues.memory ⟨.a0, address⟩ = setup.initial false address
  revolved : queues.Revolved (total setup.grid setup.ty setup.timesteps)
  layers : ∀ (back : Fin 3) (u : ℕ), (u : ℤ) + 1 < setup.timesteps → (back = 0 → u < t) →
    1 ≤ k - (back : ℕ) - u → k - (back : ℕ) - u ≤ setup.grid.nz - 2 →
    setup.Layer s (queues.plane back) u (k - (back : ℕ) - u) queues.memory
  final : ∀ cell, setup.Final s (setup.lastPlane k t) cell →
    queues.memory ⟨.anext, setup.grid.address cell⟩ =
      setup.value ((cell.y - 1) / setup.ty) setup.timesteps.toNat cell
  rest : ∀ address, (∀ cell, setup.Final s (setup.lastPlane k t) cell →
      setup.grid.address cell ≠ address) →
    queues.memory ⟨.anext, address⟩ = setup.initial true address

variable {setup} {s k : ℤ} {t : ℕ} {queues : Queues α}

theorem value_of_not_inner {cell : Cell} (outer : ¬ setup.grid.Inner cell) :
    setup.value s t cell = setup.initial false (setup.grid.address cell) := by
  cases t with
  | zero => rfl
  | succ t => rw [value, if_neg outer]

/-! ### What a step reads -/

theorem inside_available (slab : Slab setup.grid setup.ty s) {x y : ℤ}
    (found : (x, y) ∈ setup.available s t) :
    (0 ≤ x ∧ x < setup.grid.nx) ∧ 0 ≤ y ∧ y < setup.grid.ny := by
  cases t with
  | zero => exact found
  | succ t =>
    obtain ⟨columns, rows, -⟩ := stored_bounds slab found
    exact ⟨columns, rows⟩

/-- A step finds the value of the step before in the plane it reads from. -/
theorem Round.source_value (round : setup.Round s k t queues) (before : (t : ℤ) < setup.timesteps)
    {coord : ℤ × ℤ} (found : coord ∈ setup.available s t) {back : Fin 3} {z : ℤ}
    (isPlane : z = k + 1 - (back : ℕ) - t) (inside : 1 ≤ z ∧ z ≤ setup.grid.nz - 2) :
    queues.memory (setup.source s (queues.plane back) z t coord) =
      setup.value s t ⟨coord.1, coord.2, z⟩ := by
  cases t with
  | zero => exact round.a0 _
  | succ t =>
    have sameZ : z = k - (back : ℕ) - t := by omega
    rw [sameZ] at inside ⊢
    exact round.layers back t (by omega) (fun _ => Nat.lt_succ_self t) inside.1 inside.2 coord found

theorem valid_address {cell : Cell} (inside : setup.grid.Inside cell) :
    setup.layout.Valid setup.grid ⟨.a0, setup.grid.address cell⟩ ∧
      setup.layout.Valid setup.grid ⟨.anext, setup.grid.address cell⟩ :=
  ⟨Grid.address_bounds inside, Grid.address_bounds inside⟩

theorem valid_slot (slab : Slab setup.grid setup.ty s)
    (revolved : queues.Revolved (total setup.grid setup.ty setup.timesteps)) (back : Fin 3)
    (before : (t : ℤ) + 1 < setup.timesteps) {coord : ℤ × ℤ} (found : coord ∈ setup.stored s t) :
    setup.layout.Valid setup.grid (setup.slot s (queues.plane back) t coord) := by
  have cases := revolved.plane_cases back
  obtain ⟨low, high⟩ := slot_bounds_total slab before found (queues.plane back)
  show 0 ≤ (StencilProbe.slot ..).offset ∧ (StencilProbe.slot ..).offset < 3 * total ..
  omega

theorem valid_source (slab : Slab setup.grid setup.ty s)
    (revolved : queues.Revolved (total setup.grid setup.ty setup.timesteps)) (back : Fin 3)
    (before : (t : ℤ) < setup.timesteps) {coord : ℤ × ℤ} (found : coord ∈ setup.available s t)
    {z : ℤ} (inside : 1 ≤ z ∧ z ≤ setup.grid.nz - 2) :
    setup.layout.Valid setup.grid (setup.source s (queues.plane back) z t coord) := by
  cases t with
  | zero =>
    obtain ⟨columns, rows⟩ := inside_available slab found
    have isInside : setup.grid.Inside ⟨coord.1, coord.2, z⟩ :=
      ⟨columns, rows, by dsimp only; omega⟩
    exact (valid_address isInside).1
  | succ t => exact valid_slot slab revolved back (by omega) found

/-- Nothing is read that is written at the same step. -/
theorem target_ne_source (slab : Slab setup.grid setup.ty s)
    (revolved : queues.Revolved (total setup.grid setup.ty setup.timesteps)) (back : Fin 3)
    (before : (t : ℤ) < setup.timesteps) {coord other : ℤ × ℤ} (found : coord ∈ setup.stored s t)
    (foundOther : other ∈ setup.available s t) (z z' : ℤ) :
    setup.target s (queues.plane 0) z t coord ≠
      setup.source s (queues.plane back) z' t other := by
  unfold target
  cases t with
  | zero => split <;> exact fun same => by cases congrArg Pointer.block same
  | succ t =>
    split
    · exact fun same => by cases congrArg Pointer.block same
    · intro same
      obtain ⟨-, sameStep, -⟩ :=
        slot_injective slab revolved (by omega) (by omega) found foundOther same
      omega

theorem target_ne_a0 (plane z address : ℤ) (coord : ℤ × ℤ) :
    setup.target s plane z t coord ≠ ⟨.a0, address⟩ := by
  unfold target
  split <;> exact fun same => by cases congrArg Pointer.block same

theorem target_injective (slab : Slab setup.grid setup.ty s)
    (revolved : queues.Revolved (total setup.grid setup.ty setup.timesteps))
    (before : (t : ℤ) < setup.timesteps) {z : ℤ} (inside : 0 ≤ z ∧ z < setup.grid.nz) :
    ∀ first ∈ setup.stored s t, ∀ second ∈ setup.stored s t,
      setup.target s (queues.plane 0) z t first = setup.target s (queues.plane 0) z t second →
      first = second := by
  intro first found second foundSecond same
  unfold target at same
  split at same
  · obtain ⟨columns, rows, -⟩ := stored_bounds slab found
    obtain ⟨columnsOther, rowsOther, -⟩ := stored_bounds slab foundSecond
    have sameAddress : setup.grid.address ⟨first.1, first.2, z⟩ =
        setup.grid.address ⟨second.1, second.2, z⟩ := congrArg Pointer.offset same
    have sameCell := Grid.address_injective ⟨columns, rows, inside⟩
      ⟨columnsOther, rowsOther, inside⟩ sameAddress
    exact Prod.ext (congrArg Cell.x sameCell) (congrArg Cell.y sameCell)
  · exact (slot_injective slab revolved (by omega) (by omega) found foundSecond same).2.2

/-! ### The pointers of a step -/

variable (setup)

/-- Where one of the planes to read from begins. -/
def planeBase (plane z : ℤ) : ℕ → Pointer
  | 0 => ⟨.a0, setup.grid.index 0 0 z⟩
  | t + 1 => ⟨.queuePlanes, plane + queueStart setup.grid.nx setup.ty setup.timesteps t⟩

def passOf (s k : ℤ) (t : ℕ) (queues : Queues α) : Pass where
  readQueuePlane0 := if k = t + 1 then ⟨.a0, 0⟩ else setup.planeBase (queues.plane 2) (k - 1) t
  readQueuePlane1 := setup.planeBase (queues.plane 1) k t
  readQueuePlane2 :=
    if k = setup.grid.nz + t - 2 then ⟨.a0, setup.grid.index 0 0 (setup.grid.nz - 1)⟩
    else setup.planeBase (queues.plane 0) (k + 1) t
  writeQueuePlane :=
    if (t : ℤ) = setup.timesteps - 1 then ⟨.anext, 0⟩
    else ⟨.queuePlanes, queues.plane 0 + queueStart setup.grid.nx setup.ty setup.timesteps t⟩
  readOffset := setup.grid.index 0 (firstRow setup.grid setup.ty setup.timesteps s t) (k - t)
  writeOffset :=
    if (t : ℤ) = setup.timesteps - 1 then 0
    else setup.grid.index 0 (edges setup.grid setup.ty setup.timesteps s t).writeBlockMin (k - t)

variable {setup}

theorem readQueuePlane_eq (before : (t : ℤ) < setup.timesteps) (plane z : ℤ) :
    readQueuePlane setup.grid setup.layout plane z t = some (setup.planeBase plane z t) := by
  cases t with
  | zero => rfl
  | succ t =>
    have isIndex : setup.layout.index ((t : ℤ) + 1 - 1) =
        some (queueStart setup.grid.nx setup.ty setup.timesteps t) := by
      rw [Int.add_sub_cancel]
      exact index_layoutOf (by omega)
    rw [readQueuePlane, if_neg (by omega), Nat.cast_succ, isIndex]
    rfl

theorem pass_eq (before : (t : ℤ) < setup.timesteps) :
    pass setup.grid setup.layout setup.ty setup.timesteps s k t queues =
      some (setup.passOf s k t queues) := by
  have offset : (if (edges setup.grid setup.ty setup.timesteps s t).writeBlockMin = 0 ∨ (t : ℤ) = 0
      then setup.grid.index 0 0 (k - t)
      else setup.grid.index 0
        ((edges setup.grid setup.ty setup.timesteps s t).writeBlockMin - 1) (k - t)) =
      setup.grid.index 0 (firstRow setup.grid setup.ty setup.timesteps s t) (k - t) := by
    unfold firstRow
    split <;> rfl
  have isTarget : (if (t : ℤ) = setup.timesteps - 1 then some ((⟨.anext, 0⟩ : Pointer), (0 : ℤ))
      else (setup.layout.index t).map fun index =>
        (⟨.queuePlanes, queues.queuePlane2 + index⟩, setup.grid.index 0
          (edges setup.grid setup.ty setup.timesteps s t).writeBlockMin (k - t))) =
      some ((setup.passOf s k t queues).writeQueuePlane,
        (setup.passOf s k t queues).writeOffset) := by
    simp only [passOf]
    split
    · rfl
    · rw [show setup.layout.index t = _ from index_layoutOf (by omega)]
      rfl
  unfold pass
  rw [readQueuePlane_eq before, readQueuePlane_eq before, readQueuePlane_eq before]
  simp only [Option.bind_some, isTarget, Option.map_some, offset]
  rfl

/-- The distance of a coordinate from the beginning of a row. -/
theorem index_sub (grid : Grid) (i j row z : ℤ) :
    grid.index i j z - grid.index 0 row z = i + grid.nx * (j - row) := by
  unfold Grid.index index3D
  ring

theorem planeBase_at (i j plane z z' : ℤ) :
    (setup.planeBase plane z' t).at (setup.grid.index i j z -
      setup.grid.index 0 (firstRow setup.grid setup.ty setup.timesteps s t) z) =
      setup.source s plane z' t (i, j) := by
  rw [index_sub]
  cases t with
  | zero =>
    have isFirst : firstRow setup.grid setup.ty setup.timesteps s (0 : ℕ) = 0 := if_pos (Or.inr rfl)
    rw [isFirst]
    simp only [planeBase, source, Pointer.at, Grid.index, index3D, Pointer.mk.injEq, true_and]
    ring
  | succ t =>
    rw [Nat.cast_succ, firstRow_succ]
    simp only [planeBase, source, Pointer.at, slot, StencilProbe.slot, Pointer.mk.injEq, true_and]
    ring

theorem planeBase_sub (plane z : ℤ) :
    setup.planeBase plane (z - t) t = setup.planeBase plane z t := by
  cases t with
  | zero => rw [Nat.cast_zero, Int.sub_zero]
  | succ t => rfl

theorem ghostPlane_at (grid : Grid) (i j row z z' : ℤ) :
    (⟨.a0, grid.index 0 0 z'⟩ : Pointer).at (grid.index i j z - grid.index 0 row z) =
      ⟨.a0, grid.address ⟨i, j - row, z'⟩⟩ := by
  rw [index_sub]
  simp only [Pointer.at, Grid.address, Grid.index, index3D, Pointer.mk.injEq, true_and]
  ring

theorem passOf_target (i j : ℤ) :
    (setup.passOf s k t queues).writeQueuePlane.at
        (setup.grid.index i j (k - t) - (setup.passOf s k t queues).writeOffset) =
      setup.target s (queues.plane 0) (k - t) t (i, j) := by
  simp only [passOf, target]
  split
  · simp [Pointer.at]
  · rw [index_sub]
    simp only [Pointer.at, slot, StencilProbe.slot, Pointer.mk.injEq, true_and]
    ring

/-! ### One step -/

theorem inside_of_computed {grid : Grid} {ty timesteps s : ℤ} {t : ℕ} {x y : ℤ}
    (computed : Computed grid ty timesteps s t x y) :
    (1 ≤ x ∧ x < grid.nx - 1) ∧ 1 ≤ y ∧ y < grid.ny - 1 := by
  obtain ⟨columns, rows⟩ := computed
  have low := edges_low grid ty timesteps s t
  have high := edges_high grid ty timesteps s t
  refine ⟨columns, ?_, ?_⟩ <;> omega

/-- The ghost cell that is read below or above a cell. -/
theorem inside_shifted {grid : Grid} {ty timesteps s : ℤ} {t : ℕ} {i j z : ℤ}
    (computed : Computed grid ty timesteps s t i j) (inside : 0 ≤ z ∧ z < grid.nz) :
    grid.Inside ⟨i, j - firstRow grid ty timesteps s t, z⟩ := by
  have inner := inside_of_computed computed
  have low := edges_low grid ty timesteps s t
  have rows : 0 ≤ firstRow grid ty timesteps s t ∧ firstRow grid ty timesteps s t ≤ j := by
    have above := computed.2.1
    unfold firstRow
    split <;> omega
  unfold Grid.Inside
  dsimp only
  omega

/-- What a computation needs is there. -/
theorem available_near (before : (t : ℤ) < setup.timesteps) {x y u v : ℤ}
    (computed : Computed setup.grid setup.ty setup.timesteps s t x y)
    (near : (u - x).natAbs + (v - y).natAbs ≤ 1) : (u, v) ∈ setup.available s t := by
  cases t with
  | zero =>
    have inner := inside_of_computed computed
    show (0 ≤ u ∧ u < setup.grid.nx) ∧ 0 ≤ v ∧ v < setup.grid.ny
    omega
  | succ t =>
    obtain ⟨columns, rows⟩ := computed
    obtain ⟨⟨low, -⟩, -, lowRow, ⟨high, -⟩, -, highRow⟩ :=
      edges_succ setup.grid setup.ty setup.timesteps s t
    have copies : (t : ℤ) + 1 < setup.timesteps := by omega
    by_cases atEnd : u = 0 ∨ u = setup.grid.nx - 1
    · refine Or.inr ⟨copies, Or.inl ⟨atEnd, ?_⟩⟩
      dsimp only
      omega
    · by_cases isRow : (edges setup.grid setup.ty setup.timesteps s t).writeBlockRealMin ≤ v ∧
          v < (edges setup.grid setup.ty setup.timesteps s t).writeBlockRealMax
      · exact Or.inl ⟨by dsimp only; omega, isRow⟩
      · refine Or.inr ⟨copies, Or.inr ⟨by dsimp only; omega, ?_⟩⟩
        dsimp only
        omega

/-- What is copied is there. -/
theorem available_of_copied (slab : Slab setup.grid setup.ty s)
    (before : (t : ℤ) + 1 < setup.timesteps) {x y : ℤ}
    (copied : EndCopied setup.grid setup.ty setup.timesteps s t x y ∨
      RowCopied setup.grid setup.ty setup.timesteps s t x y) : (x, y) ∈ setup.available s t := by
  cases t with
  | zero =>
    have low := edges_low setup.grid setup.ty setup.timesteps s (0 : ℕ)
    have high := edges_high setup.grid setup.ty setup.timesteps s (0 : ℕ)
    obtain ⟨wide, positive, start, fits⟩ := slab
    show (0 ≤ x ∧ x < setup.grid.nx) ∧ 0 ≤ y ∧ y < setup.grid.ny
    rcases copied with ⟨columns, rows⟩ | ⟨columns, rows⟩
    · omega
    · omega
  | succ t =>
    obtain ⟨⟨-, low⟩, lowRow, -, ⟨-, high⟩, highRow, -⟩ :=
      edges_succ setup.grid setup.ty setup.timesteps s t
    refine Or.inr ⟨by omega, ?_⟩
    rcases copied with ⟨columns, rows⟩ | ⟨columns, rows⟩
    · exact Or.inl ⟨columns, by dsimp only; omega⟩
    · exact Or.inr ⟨columns, rows.imp (And.imp_left lowRow) (And.imp_left highRow)⟩

variable (setup) in
/-- A step that has something to do. -/
structure Step (s k : ℤ) (t : ℕ) (queues : Queues α) : Prop where
  slab : Slab setup.grid setup.ty s
  rows : IsInt (setup.grid.ny + setup.timesteps)
  round : setup.Round s k t queues
  before : (t : ℤ) < setup.timesteps
  low : 1 ≤ k - t
  high : k - t ≤ setup.grid.nz - 2

variable (setup) in
/-- Some of the values of a step have been written. -/
def Written (s k : ℤ) (t : ℕ) (queues : Queues α) (done : Set (ℤ × ℤ)) (memory : Memory α) : Prop :=
  Fills (setup.target s (queues.plane 0) (k - t) t)
    (fun coord => setup.value s (t + 1) ⟨coord.1, coord.2, k - t⟩) queues.memory done memory

namespace Step

variable {done : Set (ℤ × ℤ)} {memory : Memory α}

/-- What a step finds in the memory while it writes. -/
theorem read (step : setup.Step s k t queues) (inside : done ⊆ setup.stored s t)
    (written : setup.Written s k t queues done memory) {coord : ℤ × ℤ}
    (found : coord ∈ setup.available s t) {back : Fin 3} {z : ℤ}
    (isPlane : z = k + 1 - (back : ℕ) - t) (inner : 1 ≤ z ∧ z ≤ setup.grid.nz - 2) :
    setup.layout.read setup.grid memory (setup.source s (queues.plane back) z t coord) =
      some (setup.value s t ⟨coord.1, coord.2, z⟩) := by
  have revolved := step.round.revolved
  rw [Layout.read, if_pos (valid_source step.slab revolved back step.before found inner)]
  rw [written.outside inside fun other foundOther =>
    target_ne_source step.slab revolved back step.before foundOther found _ _]
  rw [step.round.source_value step.before found isPlane inner]

/-- The same for `A0` itself. -/
theorem read_a0 (step : setup.Step s k t queues) (inside : done ⊆ setup.stored s t)
    (written : setup.Written s k t queues done memory) {cell : Cell}
    (insideCell : setup.grid.Inside cell) :
    setup.layout.read setup.grid memory ⟨.a0, setup.grid.address cell⟩ =
      some (setup.initial false (setup.grid.address cell)) := by
  rw [Layout.read, if_pos (valid_address insideCell).1]
  rw [written.outside inside fun other _ => target_ne_a0 _ _ _ other, step.round.a0]

theorem valid_target (step : setup.Step s k t queues) {coord : ℤ × ℤ}
    (found : coord ∈ setup.stored s t) :
    setup.layout.Valid setup.grid (setup.target s (queues.plane 0) (k - t) t coord) := by
  have before := step.before
  have low := step.low
  have high := step.high
  unfold target
  split
  · obtain ⟨columns, rows, -⟩ := stored_bounds step.slab found
    have inside : setup.grid.Inside ⟨coord.1, coord.2, k - t⟩ :=
      ⟨columns, rows, by dsimp only; omega⟩
    exact (valid_address inside).2
  · exact valid_slot step.slab step.round.revolved 0 (by omega) found

/-- A value that is written at its place. -/
theorem puts_value (step : setup.Step s k t queues) {i j : ℤ}
    (found : (i, j) ∈ setup.stored s t) {program : Memory α → Option (Memory α)}
    (writes : ∀ done memory, done ⊆ setup.stored s t → setup.Written s k t queues done memory →
      program memory = setup.layout.write setup.grid
        ((setup.passOf s k t queues).writeQueuePlane.at
          (setup.grid.index i j (k - t) - (setup.passOf s k t queues).writeOffset))
        (setup.value s (t + 1) ⟨i, j, k - t⟩) memory) :
    Puts (setup.target s (queues.plane 0) (k - t) t)
      (fun coord => setup.value s (t + 1) ⟨coord.1, coord.2, k - t⟩) queues.memory
      (setup.stored s t) {(i, j)} program := by
  have low := step.low
  have high := step.high
  refine puts_one found
    (target_injective step.slab step.round.revolved step.before ⟨by omega, by omega⟩) ?_
  intro done memory inside written
  rw [writes done memory inside written, passOf_target, Layout.write,
    if_pos (step.valid_target found)]

/-- What a step reads in the plane it is at. -/
theorem read_plane (step : setup.Step s k t queues) (inside : done ⊆ setup.stored s t)
    (written : setup.Written s k t queues done memory) {i j : ℤ}
    (found : (i, j) ∈ setup.available s t) :
    setup.layout.read setup.grid memory ((setup.passOf s k t queues).readQueuePlane1.at
        (setup.grid.index i j (k - t) - (setup.passOf s k t queues).readOffset)) =
      some (setup.value s t ⟨i, j, k - t⟩) := by
  simp only [passOf]
  rw [← planeBase_sub, planeBase_at]
  exact step.read inside written found (by simp) ⟨step.low, step.high⟩

/-- What a step reads in the plane below. -/
theorem read_below (step : setup.Step s k t queues) (inside : done ⊆ setup.stored s t)
    (written : setup.Written s k t queues done memory) {i j : ℤ}
    (computed : Computed setup.grid setup.ty setup.timesteps s t i j) :
    setup.layout.read setup.grid memory ((setup.passOf s k t queues).readQueuePlane0.at
        (setup.grid.index i j (k - t) - (setup.passOf s k t queues).readOffset)) =
      some (setup.seven (firstRow setup.grid setup.ty setup.timesteps s t) (setup.value s t)
        ⟨i, j, k - t⟩).below := by
  have low := step.low
  have high := step.high
  have found : (i, j) ∈ setup.available s t :=
    available_near step.before computed (by simp)
  simp only [passOf, seven]
  by_cases bottom : k = t + 1
  · have place := ghostPlane_at setup.grid i j
      (firstRow setup.grid setup.ty setup.timesteps s t) (k - t) 0
    rw [show setup.grid.index 0 0 0 = 0 by simp [Grid.index, index3D]] at place
    rw [if_pos bottom, if_pos (by omega), place]
    exact step.read_a0 inside written (inside_shifted computed ⟨le_rfl, by omega⟩)
  · rw [if_neg bottom, if_neg (by omega), ← planeBase_sub, planeBase_at]
    have isPlane : k - t - 1 = k + 1 - ((2 : Fin 3) : ℕ) - t := by
      simp only [Fin.val_two]
      omega
    rw [show k - 1 - (t : ℤ) = k - t - 1 by omega]
    exact step.read inside written found isPlane ⟨by omega, by omega⟩

/-- What a step reads in the plane above. -/
theorem read_above (step : setup.Step s k t queues) (inside : done ⊆ setup.stored s t)
    (written : setup.Written s k t queues done memory) {i j : ℤ}
    (computed : Computed setup.grid setup.ty setup.timesteps s t i j) :
    setup.layout.read setup.grid memory ((setup.passOf s k t queues).readQueuePlane2.at
        (setup.grid.index i j (k - t) - (setup.passOf s k t queues).readOffset)) =
      some (setup.seven (firstRow setup.grid setup.ty setup.timesteps s t) (setup.value s t)
        ⟨i, j, k - t⟩).above := by
  have low := step.low
  have high := step.high
  have found : (i, j) ∈ setup.available s t :=
    available_near step.before computed (by simp)
  simp only [passOf, seven]
  by_cases top : k = setup.grid.nz + t - 2
  · rw [if_pos top, if_pos (by omega), ghostPlane_at]
    exact step.read_a0 inside written (inside_shifted computed ⟨by omega, by omega⟩)
  · rw [if_neg top, if_neg (by omega), ← planeBase_sub, planeBase_at]
    have isPlane : k - t + 1 = k + 1 - ((0 : Fin 3) : ℕ) - t := by
      simp only [Fin.val_zero]
      omega
    rw [show k + 1 - (t : ℤ) = k - t + 1 by omega]
    exact step.read inside written found isPlane ⟨by omega, by omega⟩

theorem puts_calculate (step : setup.Step s k t queues) {i j : ℤ}
    (computed : Computed setup.grid setup.ty setup.timesteps s t i j) :
    Puts (setup.target s (queues.plane 0) (k - t) t)
      (fun coord => setup.value s (t + 1) ⟨coord.1, coord.2, k - t⟩) queues.memory
      (setup.stored s t) {(i, j)}
      (calculate setup.grid setup.layout (setup.passOf s k t queues) setup.kernel
        (setup.initial false 0) i j (k - t)) := by
  have low := step.low
  have high := step.high
  refine step.puts_value (Or.inl computed) fun done memory inside written => ?_
  have near : ∀ u v : ℤ, (u - i).natAbs + (v - j).natAbs ≤ 1 → (u, v) ∈ setup.available s t :=
    fun u v => available_near step.before computed
  have inner : setup.grid.Inner ⟨i, j, k - t⟩ := by
    obtain ⟨columns, rows⟩ := inside_of_computed computed
    exact ⟨columns, rows, by dsimp only; omega⟩
  rw [calculate]
  simp only [step.read_below inside written computed, step.read_above inside written computed,
    step.read_plane inside written (near i (j - 1) (by omega)),
    step.read_plane inside written (near (i - 1) j (by omega)),
    step.read_plane inside written (near (i + 1) j (by omega)),
    step.read_plane inside written (near i (j + 1) (by omega)),
    step.read_plane inside written (near i j (by omega)), Option.bind_some]
  rw [value, if_pos inner]
  rfl

theorem puts_calculateAll (step : setup.Step s k t queues) :
    Puts (setup.target s (queues.plane 0) (k - t) t)
      (fun coord => setup.value s (t + 1) ⟨coord.1, coord.2, k - t⟩) queues.memory
      (setup.stored s t)
      {coord | Computed setup.grid setup.ty setup.timesteps s t coord.1 coord.2}
      (calculateAll setup.grid setup.layout (setup.passOf s k t queues) setup.kernel
        (setup.initial false 0) (edges setup.grid setup.ty setup.timesteps s t) (k - t)) := by
  refine (puts_forLoop (fun j => {coord | ∃ i, 1 ≤ i ∧ i < setup.grid.nx - 1 ∧ coord ∈ {(i, j)}})
    fun j above below => puts_forLoop (fun i => {(i, j)}) fun i first last =>
      step.puts_calculate ⟨⟨first, last⟩, above, below⟩).congr ?_
  ext ⟨x, y⟩
  constructor
  · rintro ⟨j, above, below, i, first, last, same⟩
    cases same
    exact ⟨⟨first, last⟩, above, below⟩
  · rintro ⟨⟨first, last⟩, above, below⟩
    exact ⟨y, above, below, x, first, last, rfl⟩

theorem puts_copyGhost (step : setup.Step s k t queues)
    (copies : (t : ℤ) + 1 < setup.timesteps) {i j : ℤ}
    (copied : EndCopied setup.grid setup.ty setup.timesteps s t i j ∨
      RowCopied setup.grid setup.ty setup.timesteps s t i j) :
    Puts (setup.target s (queues.plane 0) (k - t) t)
      (fun coord => setup.value s (t + 1) ⟨coord.1, coord.2, k - t⟩) queues.memory
      (setup.stored s t) {(i, j)}
      (copyGhost setup.grid setup.layout (setup.passOf s k t queues) i j (k - t)) := by
  refine step.puts_value (Or.inr ⟨copies, copied⟩) fun done memory inside written => ?_
  have outer : ¬ setup.grid.Inner ⟨i, j, k - t⟩ := by
    rintro ⟨columns, rows, -⟩
    rcases copied with ⟨isEnd, -⟩ | ⟨-, isRow⟩ <;> dsimp only at columns rows <;> omega
  rw [copyGhost, step.read_plane inside written (available_of_copied step.slab copies copied),
    Option.bind_some, value_of_not_inner outer, value_of_not_inner outer]

theorem puts_copyGhosts (step : setup.Step s k t queues)
    (copies : (t : ℤ) + 1 < setup.timesteps) :
    Puts (setup.target s (queues.plane 0) (k - t) t)
      (fun coord => setup.value s (t + 1) ⟨coord.1, coord.2, k - t⟩) queues.memory
      (setup.stored s t)
      {coord | EndCopied setup.grid setup.ty setup.timesteps s t coord.1 coord.2 ∨
        RowCopied setup.grid setup.ty setup.timesteps s t coord.1 coord.2}
      (copyGhosts setup.grid setup.layout (setup.passOf s k t queues)
        (edges setup.grid setup.ty setup.timesteps s t) (k - t)) := by
  have ends := puts_forLoop (fun j => {(0, j)} ∪ {(setup.grid.nx - 1, j)}) fun j above below =>
    (step.puts_copyGhost copies (Or.inl ⟨Or.inl rfl, above, below⟩)).append
      (step.puts_copyGhost copies (Or.inl ⟨Or.inr rfl, above, below⟩))
  have lowRow := puts_ite fun isEdge :
      (edges setup.grid setup.ty setup.timesteps s t).writeBlockMin = 0 =>
    puts_forLoop (fun i => {(i, (edges setup.grid setup.ty setup.timesteps s t).writeBlockMin)})
      fun i first last => step.puts_copyGhost copies
        (Or.inr ⟨⟨first, last⟩, Or.inl ⟨isEdge, isEdge⟩⟩)
  have highRow := puts_ite fun isEdge :
      (edges setup.grid setup.ty setup.timesteps s t).writeBlockMax = setup.grid.ny =>
    puts_forLoop (fun i => {(i, (edges setup.grid setup.ty setup.timesteps s t).writeBlockRealMax)})
      fun i first last => step.puts_copyGhost copies
        (Or.inr ⟨⟨first, last⟩, Or.inr ⟨isEdge, realMax_of_max isEdge⟩⟩)
  refine (ends.append (lowRow.append highRow)).congr ?_
  ext ⟨x, y⟩
  constructor
  · rintro (⟨j, above, below, same | same⟩ | ⟨isEdge, i, first, last, same⟩ |
      ⟨isEdge, i, first, last, same⟩) <;> cases same
    · exact Or.inl ⟨Or.inl rfl, above, below⟩
    · exact Or.inl ⟨Or.inr rfl, above, below⟩
    · exact Or.inr ⟨⟨first, last⟩, Or.inl ⟨isEdge, isEdge⟩⟩
    · exact Or.inr ⟨⟨first, last⟩, Or.inr ⟨isEdge, realMax_of_max isEdge⟩⟩
  · rintro (⟨rfl | rfl, above, below⟩ | ⟨⟨first, last⟩, ⟨isEdge, isRow⟩ | ⟨isEdge, isRow⟩⟩)
    · exact Or.inl ⟨y, above, below, Or.inl rfl⟩
    · exact Or.inl ⟨y, above, below, Or.inr rfl⟩
    · exact Or.inr (Or.inl ⟨isEdge, x, first, last, Prod.ext rfl (isRow.trans isEdge.symm)⟩)
    · exact Or.inr (Or.inr ⟨isEdge, x, first, last,
        Prod.ext rfl (isRow.trans (realMax_of_max isEdge).symm)⟩)

/-- No `int` overflows at the edges of a step. -/
theorem edges_ints (step : setup.Step s k t queues) :
    ∀ value ∈ edgesInts setup.ty setup.timesteps s t, IsInt value := by
  obtain ⟨wide, positive, start, fits⟩ := step.slab
  have rows := step.rows
  have before := step.before
  simp only [edgesInts, List.forall_mem_cons, List.not_mem_nil, false_imp_iff, implies_true,
    and_true, Int.add_mul, Int.one_mul]
  unfold IsInt at rows ⊢
  omega

/-- A step writes all its values. -/
theorem writes (step : setup.Step s k t queues) :
    ∃ memory, queueStep setup.kernel setup.grid setup.layout (setup.initial false 0) setup.ty
        setup.timesteps s k t queues = some { queues with memory := memory } ∧
      setup.Written s k t queues (setup.stored s t) memory := by
  have low := step.low
  have high := step.high
  have copies := puts_ite fun copies : (t : ℤ) < setup.timesteps - 1 =>
    step.puts_copyGhosts (by omega)
  obtain ⟨memory, isMemory, written⟩ := (copies.append step.puts_calculateAll).puts ∅ queues.memory
    (Set.empty_subset _) (fills_start _ _ _)
  refine ⟨memory, ?_, ?_⟩
  · have guard : k > t ∧ k < setup.grid.nz + t - 1 := by omega
    rw [queueStep, if_pos guard, if_pos step.edges_ints, pass_eq step.before, Option.bind_some]
    simp only [isMemory, Option.map_some]
  · have whole : ∅ ∪ ({coord | (t : ℤ) < setup.timesteps - 1 ∧
        coord ∈ {coord | EndCopied setup.grid setup.ty setup.timesteps s t coord.1 coord.2 ∨
          RowCopied setup.grid setup.ty setup.timesteps s t coord.1 coord.2}} ∪
        {coord | Computed setup.grid setup.ty setup.timesteps s t coord.1 coord.2}) =
        setup.stored s t := by
      ext coord
      constructor
      · rintro (none | ⟨copies, copied⟩ | computed)
        · exact absurd none (Set.notMem_empty _)
        · exact Or.inr ⟨by omega, copied⟩
        · exact Or.inl computed
      · rintro (computed | ⟨copies, copied⟩)
        · exact Or.inr (Or.inr computed)
        · exact Or.inr (Or.inl ⟨by omega, copied⟩)
    rw [Written, ← whole]
    exact written

/-- Outside of its own plane of its own queue a step leaves the queues alone. -/
theorem layer_kept (step : setup.Step s k t queues) {memory : Memory α}
    (written : setup.Written s k t queues (setup.stored s t) memory) {back : Fin 3} {u : ℕ} {z : ℤ}
    (before : (u : ℤ) + 1 < setup.timesteps) (other : ¬ (back = 0 ∧ u = t))
    (layer : setup.Layer s (queues.plane back) u z queues.memory) :
    setup.Layer s (queues.plane back) u z memory := by
  intro coord found
  rw [written.kept _ fun written foundWritten same => ?_]
  · exact layer coord found
  · have stepBefore := step.before
    unfold target at same
    split at same
    · cases congrArg Pointer.block same
    · obtain ⟨sameBack, sameStep, -⟩ := slot_injective step.slab step.round.revolved (by omega)
        before foundWritten found same
      exact other ⟨sameBack.symm, sameStep.symm⟩

/-- The rows that the last step computes are those of the slab. -/
theorem mem_stored_last (step : setup.Step s k t queues) (last : (t : ℤ) + 1 = setup.timesteps)
    {x y : ℤ} : (x, y) ∈ setup.stored s t ↔
      (1 ≤ x ∧ x < setup.grid.nx - 1) ∧ s * setup.ty < y ∧ y ≤ s * setup.ty + setup.ty := by
  have low := edges_low setup.grid setup.ty setup.timesteps s t
  have high := edges_high setup.grid setup.ty setup.timesteps s t
  obtain ⟨wide, positive, start, fits⟩ := step.slab
  constructor
  · rintro (⟨columns, rows⟩ | ⟨copies, -⟩)
    · exact ⟨columns, by omega, by omega⟩
    · omega
  · rintro ⟨columns, rows⟩
    exact Or.inl ⟨columns, by omega, by omega⟩

/-- With the last step another plane of the slab becomes final. -/
theorem final_iff (step : setup.Step s k t queues) (last : (t : ℤ) + 1 = setup.timesteps)
    {cell : Cell} : setup.Final s (setup.lastPlane k (t + 1)) cell ↔
      setup.Final s (setup.lastPlane k t) cell ∨
        (cell.x, cell.y) ∈ setup.stored s t ∧ cell.z = k - t := by
  have now : setup.lastPlane k t = k - t := by
    rw [lastPlane, if_pos step.before]
    omega
  have next : setup.lastPlane k (t + 1) = k - t + 1 := by
    rw [lastPlane, if_neg (by omega)]
    omega
  have low := step.low
  have high := step.high
  obtain ⟨wide, positive, start, fits⟩ := step.slab
  rw [now, next, step.mem_stored_last last]
  constructor
  · rintro ⟨inner, rows⟩
    have columns := inner.1
    by_cases isNew : s * setup.ty < cell.y ∧ cell.z = k - t
    · exact Or.inr ⟨⟨columns, isNew.1, by omega⟩, isNew.2⟩
    · exact Or.inl ⟨inner, by omega⟩
  · rintro (⟨inner, rows⟩ | ⟨⟨columns, rows⟩, isPlane⟩)
    · exact ⟨inner, by omega⟩
    · exact ⟨⟨columns, by omega, by omega⟩, by omega⟩

end Step

/-- Before the last step nothing becomes final. -/
theorem lastPlane_succ (before : (t : ℤ) + 1 < setup.timesteps) :
    setup.lastPlane k (t + 1) = setup.lastPlane k t := by
  unfold lastPlane
  rw [if_pos (by omega), if_pos (by omega)]

theorem slab_of_row {ty s y : ℤ} (positive : 0 < ty) (above : s * ty < y)
    (below : y ≤ s * ty + ty) : (y - 1) / ty = s := by
  rw [show y - 1 = y - 1 - s * ty + s * ty by omega, Int.add_mul_ediv_right _ _ (by omega),
    Int.ediv_eq_zero_of_lt (by omega) (by omega)]
  omega

/-- The last step writes a plane of the slab to `Anext`. -/
theorem Step.anext_of_last (step : setup.Step s k t queues) {memory : Memory α}
    (written : setup.Written s k t queues (setup.stored s t) memory)
    (last : (t : ℤ) + 1 = setup.timesteps) :
    (∀ cell, setup.Final s (setup.lastPlane k (t + 1)) cell →
      memory ⟨.anext, setup.grid.address cell⟩ =
        setup.value ((cell.y - 1) / setup.ty) setup.timesteps.toNat cell) ∧
    ∀ address, (∀ cell, setup.Final s (setup.lastPlane k (t + 1)) cell →
        setup.grid.address cell ≠ address) →
      memory ⟨.anext, address⟩ = setup.initial true address := by
  have before := step.before
  have low := step.low
  have high := step.high
  have isTarget : ∀ coord, setup.target s (queues.plane 0) (k - t) t coord =
      ⟨.anext, setup.grid.address ⟨coord.1, coord.2, k - t⟩⟩ := fun coord =>
    if_pos (by omega)
  have insideStored : ∀ coord ∈ setup.stored s t,
      setup.grid.Inside ⟨coord.1, coord.2, k - t⟩ := by
    intro coord found
    obtain ⟨columns, rows, -⟩ := stored_bounds step.slab found
    exact ⟨columns, rows, by dsimp only; omega⟩
  have isFinalOf : ∀ coord ∈ setup.stored s t,
      setup.Final s (setup.lastPlane k (t + 1)) ⟨coord.1, coord.2, k - t⟩ :=
    fun coord found => (step.final_iff last).mpr (Or.inr ⟨found, rfl⟩)
  constructor
  · intro cell isFinal
    rcases (step.final_iff last).mp isFinal with earlier | ⟨found, isPlane⟩
    · rw [written.kept _ fun coord found same => ?_]
      · exact step.round.final cell earlier
      · rw [isTarget] at same
        have sameCell := Grid.address_injective (insideStored coord found)
          (inside_of_near earlier.1 (by unfold Near; omega)) (congrArg Pointer.offset same)
        have rows := (step.mem_stored_last last).mp found
        have final := earlier.2
        have isPlane : setup.lastPlane k t = k - t := by
          rw [lastPlane, if_pos before]
          omega
        rw [← sameCell, isPlane] at final
        dsimp only at final
        omega
    · have isCell : cell = ⟨cell.x, cell.y, k - t⟩ := Cell.ext rfl rfl isPlane
      have rows := ((step.mem_stored_last last).mp found).2
      have value := written.filled _ found
      rw [isTarget] at value
      dsimp only at value
      rw [← isCell] at value
      rw [value, slab_of_row step.slab.positive rows.1 rows.2]
      congr 1
      omega
  · intro address apart
    rw [written.kept _ fun coord found same => ?_]
    · exact step.round.rest address fun cell isFinal =>
        apart cell ((step.final_iff last).mpr (Or.inl isFinal))
    · rw [isTarget] at same
      exact apart _ (isFinalOf coord found) (congrArg Pointer.offset same)

/-- A step leaves `Anext` alone, or it is the last one. -/
theorem Step.anext (step : setup.Step s k t queues) {memory : Memory α}
    (written : setup.Written s k t queues (setup.stored s t) memory) :
    (∀ cell, setup.Final s (setup.lastPlane k (t + 1)) cell →
      memory ⟨.anext, setup.grid.address cell⟩ =
        setup.value ((cell.y - 1) / setup.ty) setup.timesteps.toNat cell) ∧
    ∀ address, (∀ cell, setup.Final s (setup.lastPlane k (t + 1)) cell →
        setup.grid.address cell ≠ address) →
      memory ⟨.anext, address⟩ = setup.initial true address := by
  by_cases last : (t : ℤ) + 1 = setup.timesteps
  · exact step.anext_of_last written last
  have isQueue : ∀ address, memory ⟨.anext, address⟩ = queues.memory ⟨.anext, address⟩ := by
    intro address
    refine written.kept _ fun coord _ same => ?_
    rw [target, if_neg (by omega)] at same
    cases congrArg Pointer.block same
  have before := step.before
  rw [lastPlane_succ (by omega)]
  exact ⟨fun cell isFinal => (isQueue _).trans (step.round.final cell isFinal),
    fun address apart => (isQueue _).trans (step.round.rest address apart)⟩

/-- A step carries the invariant on, whether it has something to do or not. -/
theorem Round.step (slab : Slab setup.grid setup.ty s)
    (rows : IsInt (setup.grid.ny + setup.timesteps)) (round : setup.Round s k t queues)
    (before : (t : ℤ) < setup.timesteps) :
    ∃ after, queueStep setup.kernel setup.grid setup.layout (setup.initial false 0) setup.ty
        setup.timesteps s k t queues = some after ∧ setup.Round s k (t + 1) after := by
  by_cases inner : 1 ≤ k - t ∧ k - t ≤ setup.grid.nz - 2
  · have step : setup.Step s k t queues := ⟨slab, rows, round, before, inner.1, inner.2⟩
    obtain ⟨memory, isMemory, written⟩ := step.writes
    obtain ⟨final, rest⟩ := step.anext written
    refine ⟨_, isMemory, ?_, round.revolved, ?_, final, rest⟩
    · exact fun address => (written.kept _ fun coord _ => target_ne_a0 _ _ _ coord).trans
        (round.a0 address)
    · intro back u beforeEnd isBefore low high
      rw [Queues.plane_memory]
      by_cases isNew : back = 0 ∧ u = t
      · obtain ⟨rfl, rfl⟩ := isNew
        intro coord found
        have filled := written.filled coord found
        rw [target, if_neg (by omega)] at filled
        simpa using filled
      · refine step.layer_kept written beforeEnd isNew (round.layers back u beforeEnd ?_ low high)
        intro isZero
        have := isBefore isZero
        omega
  · have idle : ¬ (k > t ∧ k < setup.grid.nz + t - 1) := by omega
    have same : ∀ cell, setup.Final s (setup.lastPlane k (t + 1)) cell ↔
        setup.Final s (setup.lastPlane k t) cell := by
      intro cell
      by_cases last : (t : ℤ) + 1 < setup.timesteps
      · rw [lastPlane_succ last]
      · rw [lastPlane, if_neg (by omega), lastPlane, if_pos before]
        refine and_congr_right fun isInner => ?_
        have planes := isInner.2.2
        omega
    refine ⟨queues, by rw [queueStep, if_neg idle], round.a0, round.revolved, ?_, ?_, ?_⟩
    · intro back u beforeEnd isBefore low high
      refine round.layers back u beforeEnd (fun isZero => ?_) low high
      have := isBefore isZero
      subst isZero
      rw [Fin.val_zero] at low high
      omega
    · exact fun cell isFinal => round.final cell ((same cell).mp isFinal)
    · exact fun address apart => round.rest address fun cell isFinal =>
        apart cell ((same cell).mpr isFinal)

/-! ### Planes and slabs -/

/-- After all steps the planes revolve, and the next plane begins. -/
theorem Round.revolve (round : setup.Round s k setup.timesteps.toNat queues)
    (several : 1 ≤ setup.timesteps) : setup.Round s (k + 1) 0 queues.revolve where
  a0 := round.a0
  revolved := round.revolved.revolve
  layers back u before isBefore low high := by
    match back with
    | 0 => exact absurd (isBefore rfl) (Nat.not_lt_zero u)
    | 1 =>
      have layer := round.layers 0 u before (fun _ => by omega)
      simp only [Fin.val_zero, Fin.val_one, Nat.cast_zero, Nat.cast_one] at *
      rw [show k + 1 - 1 - (u : ℤ) = k - 0 - u by omega] at *
      exact layer low high
    | 2 =>
      have layer := round.layers 1 u before (fun impossible => by cases impossible)
      simp only [Fin.val_one, Fin.val_two, Nat.cast_one, Nat.cast_ofNat] at *
      rw [show k + 1 - 2 - (u : ℤ) = k - 1 - u by omega] at *
      exact layer low high
  final := by
    have same : setup.lastPlane (k + 1) 0 = setup.lastPlane k setup.timesteps.toNat := by
      rw [lastPlane, if_pos (by omega), lastPlane, if_neg (by omega)]
      omega
    rw [same]
    exact round.final
  rest := by
    have same : setup.lastPlane (k + 1) 0 = setup.lastPlane k setup.timesteps.toNat := by
      rw [lastPlane, if_pos (by omega), lastPlane, if_neg (by omega)]
      omega
    rw [same]
    exact round.rest

theorem Round.next (slab : Slab setup.grid setup.ty s)
    (rows : IsInt (setup.grid.ny + setup.timesteps)) (several : 1 ≤ setup.timesteps)
    (round : setup.Round s k 0 queues) :
    ∃ after, queueRound setup.kernel setup.grid setup.layout (setup.initial false 0) setup.ty
        setup.timesteps s k queues = some after ∧ setup.Round s (k + 1) 0 after := by
  have steps : ∀ t queues, 0 ≤ t → t < setup.timesteps → setup.Round s k t.toNat queues →
      ∃ after, queueStep setup.kernel setup.grid setup.layout (setup.initial false 0) setup.ty
        setup.timesteps s k t queues = some after ∧ setup.Round s k (t + 1).toNat after := by
    intro t queues start before round
    obtain ⟨u, rfl⟩ : ∃ u : ℕ, t = u := ⟨t.toNat, by omega⟩
    exact round.step slab rows before
  obtain ⟨after, isAfter, roundAfter⟩ := forLoop_invariant _ steps round
  rw [max_eq_right (by omega)] at roundAfter
  refine ⟨after.revolve, ?_, roundAfter.revolve several⟩
  rw [queueRound, isAfter, Option.map_some, if_pos (by omega)]

/-- A slab that is done is followed by the next one, of which nothing is in the queues. -/
theorem Round.nextSlab (positive : 0 < setup.ty) (several : 1 ≤ setup.timesteps)
    (round : setup.Round s k 0 queues) (done : setup.grid.nz + setup.timesteps - 2 ≤ k) :
    setup.Round (s + 1) 1 0 queues := by
  have same : ∀ cell, setup.Final (s + 1) (setup.lastPlane 1 0) cell ↔
      setup.Final s (setup.lastPlane k 0) cell := by
    intro cell
    rw [lastPlane, if_pos (by omega), lastPlane, if_pos (by omega), Final, Final, Int.add_mul,
      Int.one_mul]
    refine and_congr_right fun inner => ?_
    have planes := inner.2.2
    omega
  refine ⟨round.a0, round.revolved, ?_, ?_, ?_⟩
  · intro back u before isBefore low high
    match back with
    | 0 => exact absurd (isBefore rfl) (Nat.not_lt_zero u)
    | 1 =>
      simp only [Fin.val_one, Nat.cast_one] at low
      omega
    | 2 =>
      simp only [Fin.val_two, Nat.cast_ofNat] at low
      omega
  · exact fun cell isFinal => round.final cell ((same cell).mp isFinal)
  · exact fun address apart => round.rest address fun cell isFinal =>
      apart cell ((same cell).mpr isFinal)

theorem round_start (several : 1 ≤ setup.timesteps) (queuePlanes : ℤ → α) :
    setup.Round 0 1 0 ⟨startMemory setup.initial queuePlanes, 0,
      setup.layout.queuePlanesIndexPtr, 2 * setup.layout.queuePlanesIndexPtr⟩ := by
  have none : ∀ cell, ¬ setup.Final 0 (setup.lastPlane 1 0) cell := by
    rintro cell ⟨⟨-, rows, planes⟩, final⟩
    rw [lastPlane, if_pos (by omega), Int.zero_mul] at final
    omega
  refine ⟨fun _ => rfl, Or.inl ⟨rfl, rfl, rfl⟩, ?_, fun cell isFinal => absurd isFinal (none cell),
    fun _ _ => rfl⟩
  intro back u before isBefore low high
  match back with
  | 0 => exact absurd (isBefore rfl) (Nat.not_lt_zero u)
  | 1 =>
    simp only [Fin.val_one, Nat.cast_one] at low
    omega
  | 2 =>
    simp only [Fin.val_two, Nat.cast_ofNat] at low
    omega

/-- The probe computes the values of each slab. It never reads or writes outside of what has been
allocated, and nothing depends on what was in the queues. -/
theorem circqueue_spec (fits : QueueFits setup.grid setup.ty setup.timesteps)
    (queuePlanes : ℤ → α) :
    ∃ after, circqueue setup.kernel setup.grid setup.ty setup.timesteps queuePlanes setup.initial =
        some after ∧ after false = setup.initial false ∧
      (∀ cell, setup.grid.Inner cell → after true (setup.grid.address cell) =
        setup.value ((cell.y - 1) / setup.ty) setup.timesteps.toNat cell) ∧
      ∀ address, (∀ cell, setup.grid.Inner cell → setup.grid.address cell ≠ address) →
        after true address = setup.initial true address := by
  obtain ⟨counted, positive, several, ⟨blocks, isBlocks⟩, rows, planes, sizes⟩ := fits
  have numBlocks : (setup.grid.ny - 2).tdiv setup.ty = blocks := by
    rw [isBlocks, Int.mul_tdiv_cancel_left _ (by omega)]
  have slabs : ∀ s queues, 0 ≤ s → s < blocks → setup.Round s 1 0 queues →
      ∃ after, checked [setup.grid.nz + setup.timesteps]
        (forLoop 1 (setup.grid.nz + setup.timesteps - 2)
          (queueRound setup.kernel setup.grid setup.layout (setup.initial false 0) setup.ty
            setup.timesteps s) 1) queues = some after ∧ setup.Round (s + 1) 1 0 after := by
    intro s queues start before round
    have slab : Slab setup.grid setup.ty s := by
      refine ⟨counted.positiveX, positive, Int.mul_nonneg start positive.le, ?_⟩
      have upTo : (s + 1) * setup.ty ≤ blocks * setup.ty :=
        Int.mul_le_mul_of_nonneg_right before positive.le
      rw [Int.add_mul, Int.one_mul, Int.mul_comm blocks] at upTo
      omega
    obtain ⟨after, isAfter, roundAfter⟩ := forLoop_invariant
      (fun k queues => setup.Round s k 0 queues)
      (fun k queues _ _ round => round.next slab rows several) round
    refine ⟨after, ?_, roundAfter.nextSlab positive several (le_max_right _ _)⟩
    rw [checked, if_pos (List.forall_mem_singleton.mpr planes)]
    exact isAfter
  obtain ⟨after, isAfter, round⟩ :=
    forLoop_invariant _ slabs (round_start several queuePlanes)
  have isFinal : ∀ cell, setup.Final (max 0 blocks) (setup.lastPlane 1 0) cell ↔
      setup.grid.Inner cell := by
    intro cell
    refine and_iff_left_of_imp fun inner => Or.inl ?_
    have row := inner.2.1
    have some : 0 ≤ blocks := by
      by_contra none
      have := Int.mul_neg_of_pos_of_neg positive (Int.not_le.mp none)
      omega
    rw [max_eq_right some, Int.mul_comm]
    omega
  refine ⟨after.arrays, ?_, funext round.a0, fun cell inner => ?_, fun address apart => ?_⟩
  · have isLayout : circularQueueInit setup.grid.nx setup.ty setup.timesteps =
        some setup.layout := circularQueueInit_eq counted.positiveX positive several sizes
    rw [circqueue, isLayout, Option.bind_some, load, if_pos ⟨le_rfl, counted.positive⟩,
      Option.bind_some, if_neg (by omega), numBlocks]
    exact congrArg (Option.map Queues.arrays) isAfter
  · exact round.final cell ((isFinal cell).mpr inner)
  · exact round.rest address fun cell final => apart cell ((isFinal cell).mp final)

end Setup

end ClusterJobs.StencilProbe
