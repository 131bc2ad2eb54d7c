/-
This file proves that the recursive walk of `probe_heat_oblivious.c` computes the same as the plain
loops.

A trapezoid is cut in space along a line that leans against the time, so that its lower part never
needs the upper one, or it is cut in time. The slopes are 0 or -1 throughout. With such slopes the
line of a cut stays within the trapezoid, and each cut makes the trapezoid narrower or shorter, so
that the recursion ends. All ends stay in the grid, and so no `int` overflows if the multiples of
the sizes and of the number of steps do not.
-/

import ClusterJobs.StencilOrders
import Mathlib.Algebra.Order.Ring.Abs
import Mathlib.Tactic.Ring
import Mathlib.Algebra.Field.Rat
import Mathlib.Tactic.NormNum

namespace ClusterJobs.StencilProbe

open SpaceTime Scheme

variable {α : Type} {kernel : α → Seven α → α} {grid : Grid} {initial : Arrays α}

/-! ### Trapezoids -/

namespace Extent

/-- The range of an extent, at a number of steps behind the first. -/
def Has (extent : Extent) (t0 t place : ℤ) : Prop :=
  extent.low + (t - t0) * extent.lowSlope ≤ place ∧
    place < extent.high + (t - t0) * extent.highSlope

/-- The slopes that come up. -/
structure Sloped (extent : Extent) : Prop where
  low : extent.lowSlope = 0 ∨ extent.lowSlope = -1
  high : extent.highSlope = 0 ∨ extent.highSlope = -1

theorem Sloped.lower {extent : Extent} (sloped : extent.Sloped) (dt : ℤ) :
    (extent.lower dt).Sloped :=
  ⟨sloped.low, Or.inr rfl⟩

theorem Sloped.upper {extent : Extent} (sloped : extent.Sloped) (dt : ℤ) :
    (extent.upper dt).Sloped :=
  ⟨Or.inr rfl, sloped.high⟩

theorem Sloped.later {extent : Extent} (sloped : extent.Sloped) (steps : ℤ) :
    (extent.later steps).Sloped :=
  ⟨sloped.low, sloped.high⟩

theorem tdiv_four_bounds (number : ℤ) : number - 3 ≤ 4 * number.tdiv 4 ∧
    4 * number.tdiv 4 ≤ number + 3 := by
  have whole := Int.mul_tdiv_add_tmod number 4
  have below := Int.tmod_lt_of_pos number (show (0 : ℤ) < 4 by decide)
  have above := Int.lt_tmod_of_pos number (show (0 : ℤ) < 4 by decide)
  omega

/-- The cut is inside, with room for the slope. -/
theorem Sloped.middle_bounds {extent : Extent} (sloped : extent.Sloped) {dt : ℤ} (long : 1 < dt)
    (wide : extent.IsWide dt) :
    extent.low < extent.middle dt ∧ extent.middle dt < extent.high ∧
      extent.low + dt ≤ extent.middle dt + (-extent.lowSlope) * dt := by
  obtain ⟨low, high⟩ := sloped
  have bounds := tdiv_four_bounds
    (2 * (extent.low + extent.high) + (2 + extent.lowSlope + extent.highSlope) * dt)
  unfold IsWide at wide
  unfold middle
  generalize Int.tdiv _ 4 = cut at bounds ⊢
  rcases low with low | low <;> rcases high with high | high <;> rw [low, high] at bounds wide <;>
    rw [low] <;> omega

/-- A cut divides the range, at each step. -/
theorem Sloped.has_iff {extent : Extent} (sloped : extent.Sloped) {t0 t1 t : ℤ}
    (long : 1 < t1 - t0) (wide : extent.IsWide (t1 - t0)) (above : t0 ≤ t) (below : t < t1)
    (place : ℤ) :
    extent.Has t0 t place ↔
      (extent.lower (t1 - t0)).Has t0 t place ∨ (extent.upper (t1 - t0)).Has t0 t place := by
  obtain ⟨inLow, inHigh, room⟩ := sloped.middle_bounds long wide
  obtain ⟨low, high⟩ := sloped
  simp only [Has, Extent.lower, Extent.upper]
  generalize extent.middle (t1 - t0) = cut at inLow inHigh room ⊢
  rcases low with low | low <;> rcases high with high | high <;> rw [low] at room ⊢ <;>
    rw [high] <;> omega

/-- The lower part leads. -/
theorem leads_lower (extent : Extent) (t0 t1 : ℤ) :
    Leads t0 t1 ((extent.lower (t1 - t0)).Has t0) ((extent.upper (t1 - t0)).Has t0) := by
  constructor
  · rintro t place - - ⟨-, isLower⟩ ⟨isUpper, -⟩
    dsimp only [Extent.lower, Extent.upper] at isLower isUpper
    omega
  · rintro t place other - - ⟨-, isLower⟩ ⟨isUpper, -⟩
    dsimp only [Extent.lower, Extent.upper] at isLower isUpper
    omega

/-- The ends stay in a grid of this size. -/
structure Within (extent : Extent) (n dt : ℤ) : Prop extends extent.Sloped where
  lowFirst : 0 ≤ extent.low ∧ extent.low ≤ n
  lowLast : 0 ≤ extent.low + extent.lowSlope * dt
  highFirst : 0 ≤ extent.high ∧ extent.high ≤ n
  highLast : 0 ≤ extent.high + extent.highSlope * dt

namespace Within

variable {extent : Extent} {n dt s : ℤ}

theorem lower (inside : extent.Within n dt) (long : 1 < dt) (wide : extent.IsWide dt) :
    (extent.lower dt).Within n dt := by
  obtain ⟨above, below, room⟩ := inside.toSloped.middle_bounds long wide
  obtain ⟨sloped, lowFirst, lowLast, highFirst, highLast⟩ := inside
  refine ⟨sloped.lower dt, lowFirst, lowLast, ?_, ?_⟩
  · show 0 ≤ extent.middle dt ∧ extent.middle dt ≤ n
    omega
  · show 0 ≤ extent.middle dt + -1 * dt
    rw [Int.neg_mul] at room
    omega

theorem upper (inside : extent.Within n dt) (long : 1 < dt) (wide : extent.IsWide dt) :
    (extent.upper dt).Within n dt := by
  obtain ⟨-, -, -, cutFirst, cutLast⟩ := inside.lower long wide
  obtain ⟨sloped, lowFirst, lowLast, highFirst, highLast⟩ := inside
  exact ⟨sloped.upper dt, cutFirst, cutLast, highFirst, highLast⟩

/-- The ends at a step are between those at the first and at the last step. -/
theorem ends (inside : extent.Within n dt) (start : 0 ≤ s) (early : s ≤ dt) :
    (0 ≤ extent.low + extent.lowSlope * s ∧ extent.low + extent.lowSlope * s ≤ n) ∧
      0 ≤ extent.high + extent.highSlope * s ∧ extent.high + extent.highSlope * s ≤ n := by
  obtain ⟨⟨low, high⟩, lowFirst, lowLast, highFirst, highLast⟩ := inside
  rcases low with low | low <;> rcases high with high | high <;>
    rw [low] at lowLast ⊢ <;> rw [high] at highLast ⊢ <;> omega

theorem early (inside : extent.Within n dt) (start : 0 ≤ s) (early : s ≤ dt) :
    extent.Within n s :=
  ⟨inside.toSloped, inside.lowFirst, (inside.ends start early).1.1, inside.highFirst,
    (inside.ends start early).2.1⟩

theorem later (inside : extent.Within n dt) (start : 0 ≤ s) (early : s ≤ dt) :
    (extent.later s).Within n (dt - s) := by
  have lowLast : extent.low + extent.lowSlope * s + extent.lowSlope * (dt - s) =
      extent.low + extent.lowSlope * dt := by ring
  have highLast : extent.high + extent.highSlope * s + extent.highSlope * (dt - s) =
      extent.high + extent.highSlope * dt := by ring
  refine ⟨inside.toSloped.later s, (inside.ends start early).1, ?_, (inside.ends start early).2, ?_⟩
  · exact lowLast ▸ inside.lowLast
  · exact highLast ▸ inside.highLast

theorem laterInts (inside : extent.Within n dt) (start : 0 ≤ s) (early : s ≤ dt)
    (size : IsInt n) (steps : IsInt dt) : ∀ value ∈ extent.laterInts s, IsInt value := by
  obtain ⟨low, high⟩ := inside.ends start early
  obtain ⟨lowFirst, highFirst⟩ := And.intro inside.lowFirst inside.highFirst
  unfold IsInt at size steps
  simp only [Extent.laterInts, List.forall_mem_cons, List.not_mem_nil, false_imp_iff,
    implies_true, and_true, IsInt]
  omega

theorem wideInts (inside : extent.Within n dt) (long : 1 < dt) (steps : IsInt (4 * dt))
    (size : IsInt (4 * n + 2 * dt)) : ∀ value ∈ extent.wideInts dt, IsInt value := by
  obtain ⟨⟨low, high⟩, lowFirst, -, highFirst, -⟩ := inside
  unfold IsInt at size steps
  simp only [Extent.wideInts, List.forall_mem_cons, List.not_mem_nil, false_imp_iff,
    implies_true, and_true, IsInt]
  rcases low with low | low <;> rcases high with high | high <;> rw [low, high] <;> omega

theorem middleInts (inside : extent.Within n dt) (long : 1 < dt) (size : IsInt (4 * n + 2 * dt)) :
    ∀ value ∈ extent.middleInts dt, IsInt value := by
  obtain ⟨⟨low, high⟩, lowFirst, -, highFirst, -⟩ := inside
  unfold IsInt at size
  simp only [Extent.middleInts, List.forall_mem_cons, List.not_mem_nil, false_imp_iff,
    implies_true, and_true, IsInt]
  rcases low with low | low <;> rcases high with high | high <;> rw [low, high] <;> omega

theorem abs_width_le (inside : extent.Within n dt) : |extent.width| ≤ n := by
  have := inside.lowFirst
  have := inside.highFirst
  rw [Extent.width, abs_le]
  omega

end Within

theorem has_later (extent : Extent) (t0 s : ℤ) :
    (extent.later s).Has (t0 + s) = extent.Has t0 := by
  funext t place
  have low : extent.low + extent.lowSlope * s + (t - (t0 + s)) * extent.lowSlope =
      extent.low + (t - t0) * extent.lowSlope := by ring
  have high : extent.high + extent.highSlope * s + (t - (t0 + s)) * extent.highSlope =
      extent.high + (t - t0) * extent.highSlope := by ring
  simp only [Has, later, low, high]

end Extent

/-- The updates of a trapezoid. -/
def trapezoid (t0 t1 : ℤ) (x y z : Extent) : Set (Point Cell) :=
  region t0 t1 (x.Has t0) (y.Has t0) (z.Has t0)

/-! ### Numbers that fit -/

theorem isInt_of_abs_le {value bound : ℤ} (isInt : IsInt bound) (below : |value| ≤ bound) :
    IsInt value := by
  rw [abs_le] at below
  unfold IsInt at isInt ⊢
  omega

namespace Grid.Counted

theorem area_le (counted : grid.Counted) : grid.nx * grid.ny ≤ grid.size :=
  le_mul_of_one_le_right (Int.mul_pos counted.positiveX counted.positiveY).le counted.positiveZ

theorem isIntX (counted : grid.Counted) : IsInt grid.nx := by
  have width := le_mul_of_one_le_right counted.positiveX.le counted.positiveY
  refine isInt_of_abs_le counted.isInt ?_
  rw [abs_of_pos counted.positiveX]
  exact width.trans counted.area_le

theorem isIntY (counted : grid.Counted) : IsInt grid.ny := by
  have depth := le_mul_of_one_le_left counted.positiveY.le counted.positiveX
  refine isInt_of_abs_le counted.isInt ?_
  rw [abs_of_pos counted.positiveY]
  exact depth.trans counted.area_le

theorem isIntZ (counted : grid.Counted) : IsInt grid.nz := by
  refine isInt_of_abs_le counted.isInt ?_
  rw [abs_of_pos counted.positiveZ]
  exact le_mul_of_one_le_left counted.positiveZ.le
    (Int.mul_pos counted.positiveX counted.positiveY)

end Grid.Counted

/-- Nor do the multiples of the sizes and of the number of steps overflow. -/
structure WalkFits (grid : Grid) (timesteps : ℤ) : Prop extends grid.Counted where
  steps : IsInt (4 * timesteps)
  rows : IsInt (4 * grid.ny + 2 * timesteps)
  planes : IsInt (4 * grid.nz + 2 * timesteps)

/-- A trapezoid of the walk. -/
structure Part (grid : Grid) (timesteps t0 t1 : ℤ) (x y z : Extent) : Prop where
  start : 0 ≤ t0
  last : t1 ≤ timesteps
  isInt : IsInt (t1 - t0)
  insideX : x.Within grid.nx (t1 - t0)
  insideY : y.Within grid.ny (t1 - t0)
  insideZ : z.Within grid.nz (t1 - t0)

namespace Part

variable {timesteps t0 t1 : ℤ} {x y z : Extent}

theorem volumeInts (counted : grid.Counted) (part : Part grid timesteps t0 t1 x y z) :
    ∀ value ∈ [x.width, y.width, x.width * y.width, z.width, x.width * y.width * z.width],
      IsInt value := by
  have insideX := part.insideX.abs_width_le
  have insideY := part.insideY.abs_width_le
  have insideZ := part.insideZ.abs_width_le
  have area : |x.width * y.width| ≤ grid.nx * grid.ny := by
    rw [abs_mul]
    exact mul_le_mul insideX insideY (abs_nonneg _) counted.positiveX.le
  have volume : |x.width * y.width * z.width| ≤ grid.size := by
    rw [abs_mul]
    exact mul_le_mul area insideZ (abs_nonneg _)
      (Int.mul_pos counted.positiveX counted.positiveY).le
  simp only [List.forall_mem_cons, List.not_mem_nil, false_imp_iff, implies_true, and_true]
  exact ⟨isInt_of_abs_le counted.isIntX insideX, isInt_of_abs_le counted.isIntY insideY,
    isInt_of_abs_le counted.isInt (area.trans counted.area_le),
    isInt_of_abs_le counted.isIntZ insideZ, isInt_of_abs_le counted.isInt volume⟩

/-- The ends of the ranges at a step. -/
theorem laterInts (counted : grid.Counted) (part : Part grid timesteps t0 t1 x y z) {s : ℤ}
    (start : 0 ≤ s) (early : s ≤ t1 - t0) :
    (∀ value ∈ x.laterInts s, IsInt value) ∧ (∀ value ∈ y.laterInts s, IsInt value) ∧
      ∀ value ∈ z.laterInts s, IsInt value :=
  ⟨part.insideX.laterInts start early counted.isIntX part.isInt,
    part.insideY.laterInts start early counted.isIntY part.isInt,
    part.insideZ.laterInts start early counted.isIntZ part.isInt⟩

theorem half (long : 1 < t1 - t0) :
    1 ≤ (t1 - t0).tdiv 2 ∧ (t1 - t0).tdiv 2 < t1 - t0 := by
  rw [Int.tdiv_eq_ediv_of_nonneg (by omega)]
  omega

/-- No `int` overflows in a call. -/
theorem walkInts (fits : WalkFits grid timesteps) (part : Part grid timesteps t0 t1 x y z) :
    ∀ value ∈ walkInts t0 t1 x y z, IsInt value := by
  obtain ⟨counted, steps, rows, planes⟩ := fits
  have volumes := part.volumeInts counted
  have start := part.start
  have last := part.last
  simp only [StencilProbe.walkInts, List.forall_mem_cons]
  refine ⟨part.isInt, ?_⟩
  split
  · exact List.forall_mem_nil _
  rw [List.forall_mem_append]
  refine ⟨volumes, ?_⟩
  split
  · exact List.forall_mem_nil _
  case isFalse other =>
    have long : 1 < t1 - t0 := by tauto
    have stepsLeft : IsInt (4 * (t1 - t0)) := by
      unfold IsInt at steps ⊢
      omega
    have sizes : IsInt (4 * grid.ny + 2 * (t1 - t0)) ∧ IsInt (4 * grid.nz + 2 * (t1 - t0)) := by
      have := counted.positiveY
      have := counted.positiveZ
      unfold IsInt at rows planes ⊢
      omega
    rw [List.forall_mem_append]
    refine ⟨part.insideZ.wideInts long stepsLeft sizes.2, ?_⟩
    split
    · exact part.insideZ.middleInts long sizes.2
    rw [List.forall_mem_append]
    refine ⟨part.insideY.wideInts long stepsLeft sizes.1, ?_⟩
    split
    · exact part.insideY.middleInts long sizes.1
    obtain ⟨above, below⟩ := half long
    obtain ⟨intsX, intsY, intsZ⟩ := part.laterInts counted (by omega) below.le
    simp only [List.forall_mem_cons, List.forall_mem_append]
    refine ⟨?_, ⟨intsX, intsY⟩, intsZ⟩
    unfold IsInt at steps ⊢
    omega

/-- The first steps of a trapezoid, and the others. -/
theorem divide (part : Part grid timesteps t0 t1 x y z) (long : 1 < t1 - t0) :
    Part grid timesteps t0 (t0 + (t1 - t0).tdiv 2) x y z ∧
      Part grid timesteps (t0 + (t1 - t0).tdiv 2) t1 (x.later ((t1 - t0).tdiv 2))
        (y.later ((t1 - t0).tdiv 2)) (z.later ((t1 - t0).tdiv 2)) := by
  obtain ⟨start, last, isInt, insideX, insideY, insideZ⟩ := part
  obtain ⟨above, below⟩ := half long
  generalize (t1 - t0).tdiv 2 = s at above below ⊢
  unfold IsInt at isInt
  have first : t0 + s - t0 = s := by omega
  have second : t1 - (t0 + s) = t1 - t0 - s := by omega
  refine ⟨⟨start, by omega, ?_, ?_, ?_, ?_⟩, by omega, last, ?_, ?_, ?_, ?_⟩
  · rw [first, IsInt]
    omega
  · rw [first]
    exact insideX.early (by omega) below.le
  · rw [first]
    exact insideY.early (by omega) below.le
  · rw [first]
    exact insideZ.early (by omega) below.le
  · rw [second, IsInt]
    omega
  · rw [second]
    exact insideX.later (by omega) below.le
  · rw [second]
    exact insideY.later (by omega) below.le
  · rw [second]
    exact insideZ.later (by omega) below.le

end Part

theorem executes_walkBase {timesteps t0 t1 : ℤ} {x y z : Extent} (counted : grid.Counted)
    (part : Part grid timesteps t0 t1 x y z) :
    (scheme kernel grid).Executes initial (trapezoid t0 t1 x y z)
      (walkBase kernel grid t0 t1 x y z) := by
  refine executes_load counted.positive ?_
  refine (executes_steps part.start t1
    (fun t source target => checked (z.laterInts (t - t0)) <|
      forLoop 1 (z.high + (t - t0) * z.highSlope) (fun k => checked (y.laterInts (t - t0)) <|
        forLoop 1 (y.high + (t - t0) * y.highSlope) (fun j => checked (x.laterInts (t - t0)) <|
          forLoop 1 (x.high + (t - t0) * x.highSlope) (fun i =>
            assign kernel grid (initial false 0) source target i j k)
          (x.low + (t - t0) * x.lowSlope)) (y.low + (t - t0) * y.lowSlope))
        (z.low + (t - t0) * z.lowSlope))
    (fun t => slice t (x.low + (t - t0) * x.lowSlope) (x.high + (t - t0) * x.highSlope)
      (y.low + (t - t0) * y.lowSlope) (y.high + (t - t0) * y.highSlope)
      (z.low + (t - t0) * z.lowSlope) (z.high + (t - t0) * z.highSlope))
    (fun steps above below => ?_) fun t point found => found.1).congr ?_
  · obtain ⟨intsX, intsY, intsZ⟩ :=
      part.laterInts counted (Int.sub_nonneg.mpr above) (Int.sub_le_sub_right below.le t0)
    simp only [checked_eq intsX, checked_eq intsY, checked_eq intsZ]
    exact executes_boxLoop rfl steps _ _ _ _ _ _
  · ext ⟨time, cell⟩
    constructor
    · rintro ⟨t, above, below, -, rfl, inside⟩
      exact ⟨⟨above, below⟩, inside⟩
    · rintro ⟨⟨above, below⟩, inside⟩
      exact ⟨time, above, below, one_dvd _, rfl, inside⟩

/-! ### The walk -/

/-- With enough depth a program executes some updates. -/
def Eventually (kernel : α → Seven α → α) (grid : Grid) (initial : Arrays α)
    (updates : Set (Point Cell)) (program : ℕ → Arrays α → Option (Arrays α)) : Prop :=
  ∃ enough, ∀ depth, enough ≤ depth →
    (scheme kernel grid).Executes initial updates (program depth)

theorem eventually_of_succ {updates : Set (Point Cell)}
    {program : ℕ → Arrays α → Option (Arrays α)}
    (executes : ∀ depth, (scheme kernel grid).Executes initial updates (program (depth + 1))) :
    Eventually kernel grid initial updates program := by
  refine ⟨1, fun depth enough => ?_⟩
  obtain ⟨depth, rfl⟩ : ∃ before, depth = before + 1 := ⟨depth - 1, by omega⟩
  exact executes depth

/-- Two calls, one after the other. -/
theorem Eventually.append {first second updates : Set (Point Cell)}
    {program next whole : ℕ → Arrays α → Option (Arrays α)}
    (eventually : Eventually kernel grid initial first program)
    (eventuallyNext : Eventually kernel grid initial second next)
    (isWhole : ∀ depth arrays, whole (depth + 1) arrays = (program depth arrays).bind (next depth))
    (precedes : (scheme kernel grid).Precedes first second) (union : updates = first ∪ second) :
    Eventually kernel grid initial updates whole := by
  obtain ⟨enough, executes⟩ := eventually
  obtain ⟨enoughNext, executesNext⟩ := eventuallyNext
  refine ⟨max enough enoughNext + 1, fun depth deep => ?_⟩
  obtain ⟨depth, rfl⟩ : ∃ before, depth = before + 1 := ⟨depth - 1, by omega⟩
  rw [union, show whole (depth + 1) = _ from funext (isWhole depth)]
  exact (executes depth (by omega)).append (executesNext depth (by omega)) precedes

section Cuts

variable {t0 t1 : ℤ} {x y z : Extent}

/-- A cut in one dimension. -/
theorem ranges_or {ranges : (ℤ → ℤ → Prop) → Set (Point Cell)} {coordinate : Cell → ℤ}
    {rest : Set (Point Cell)}
    (mem_ranges : ∀ range point,
      point ∈ ranges range ↔ point ∈ rest ∧ range point.1 (coordinate point.2))
    {range first second : ℤ → ℤ → Prop}
    (either : ∀ point ∈ rest, range point.1 (coordinate point.2) ↔
      first point.1 (coordinate point.2) ∨ second point.1 (coordinate point.2)) :
    ranges range = ranges first ∪ ranges second := by
  ext point
  rw [Set.mem_union, mem_ranges, mem_ranges, mem_ranges, ← and_or_left]
  exact and_congr_right (either point)

/-- A cut in time. -/
theorem trapezoid_later {s : ℤ} (inside : 0 ≤ s ∧ s ≤ t1 - t0) :
    trapezoid t0 t1 x y z = trapezoid t0 (t0 + s) x y z ∪
      trapezoid (t0 + s) t1 (x.later s) (y.later s) (z.later s) := by
  unfold trapezoid
  rw [Extent.has_later, Extent.has_later, Extent.has_later]
  ext point
  constructor
  · rintro ⟨⟨above, below⟩, inside⟩
    by_cases early : (point.1 : ℤ) < t0 + s
    · exact Or.inl ⟨⟨above, early⟩, inside⟩
    · exact Or.inr ⟨⟨not_lt.mp early, below⟩, inside⟩
  · rintro (⟨⟨above, below⟩, rest⟩ | ⟨⟨above, below⟩, rest⟩)
    · exact ⟨⟨above, by omega⟩, rest⟩
    · exact ⟨⟨by omega, below⟩, rest⟩

theorem precedes_later {s : ℤ} :
    (scheme kernel grid).Precedes (trapezoid t0 (t0 + s) x y z)
      (trapezoid (t0 + s) t1 (x.later s) (y.later s) (z.later s)) := by
  constructor
  · rintro point ⟨⟨-, below⟩, -⟩ ⟨⟨above, -⟩, -⟩
    omega
  · rintro steps cell other ⟨⟨-, below⟩, -⟩ - - ⟨⟨above, -⟩, -⟩
    dsimp only at above below
    omega

end Cuts

/-- The parts of a cut are narrower. -/
theorem Extent.Sloped.width_lt {extent : Extent} (sloped : extent.Sloped) {dt : ℤ} (long : 1 < dt)
    (wide : extent.IsWide dt) :
    (extent.lower dt).width.toNat < extent.width.toNat ∧
      (extent.upper dt).width.toNat < extent.width.toNat := by
  obtain ⟨above, below, -⟩ := sloped.middle_bounds long wide
  simp only [Extent.width, Extent.lower, Extent.upper]
  omega

/-- One call of the walk, given that the calls it makes do what they should. -/
theorem eventually_walk3_step {timesteps t0 t1 : ℤ} (fits : WalkFits grid timesteps)
    {x y z : Extent} (part : Part grid timesteps t0 t1 x y z)
    (narrower : ∀ y' z' : Extent, Part grid timesteps t0 t1 x y' z' →
      y'.width.toNat + z'.width.toNat < y.width.toNat + z.width.toNat →
      Eventually kernel grid initial (trapezoid t0 t1 x y' z')
        fun depth => walk3 kernel grid depth t0 t1 x y' z')
    (shorter : ∀ (t0' t1' : ℤ) (x' y' z' : Extent), Part grid timesteps t0' t1' x' y' z' →
      (t1' - t0').toNat < (t1 - t0).toNat →
      Eventually kernel grid initial (trapezoid t0' t1' x' y' z')
        fun depth => walk3 kernel grid depth t0' t1' x' y' z') :
    Eventually kernel grid initial (trapezoid t0 t1 x y z)
      fun depth => walk3 kernel grid depth t0 t1 x y z := by
  have ints := not_not.mpr (part.walkInts fits)
  by_cases base : t1 - t0 = 1 ∨ x.width * y.width * z.width < cutoff
  · refine eventually_of_succ fun depth => ?_
    have program : walk3 kernel grid (depth + 1) t0 t1 x y z =
        walkBase kernel grid t0 t1 x y z := by
      funext arrays
      rw [walk3, if_neg ints, if_pos base]
    rw [program]
    exact executes_walkBase fits.toCounted part
  by_cases long : t1 - t0 > 1
  · by_cases wideZ : z.IsWide (t1 - t0)
    · obtain ⟨lower, upper⟩ := part.insideZ.toSloped.width_lt long wideZ
      refine (narrower y (z.lower (t1 - t0))
          { part with insideZ := part.insideZ.lower long wideZ } (by omega)).append
        (narrower y (z.upper (t1 - t0))
          { part with insideZ := part.insideZ.upper long wideZ } (by omega))
        (fun depth arrays => ?_) (precedes_region (Or.inr (Or.inr (Extent.leads_lower z t0 t1))))
        (ranges_or (fun _ _ => mem_region_z) fun _ inside =>
          part.insideZ.toSloped.has_iff long wideZ inside.1.1 inside.1.2 _)
      rw [walk3, if_neg ints, if_neg base, if_pos long, if_pos wideZ]
    by_cases wideY : y.IsWide (t1 - t0)
    · obtain ⟨lower, upper⟩ := part.insideY.toSloped.width_lt long wideY
      refine (narrower (y.lower (t1 - t0)) z
          { part with insideY := part.insideY.lower long wideY } (by omega)).append
        (narrower (y.upper (t1 - t0)) z
          { part with insideY := part.insideY.upper long wideY } (by omega))
        (fun depth arrays => ?_) (precedes_region (Or.inr (Or.inl (Extent.leads_lower y t0 t1))))
        (ranges_or (fun _ _ => mem_region_y) fun _ inside =>
          part.insideY.toSloped.has_iff long wideY inside.1.1 inside.1.2 _)
      rw [walk3, if_neg ints, if_neg base, if_pos long, if_neg wideZ, if_pos wideY]
    · obtain ⟨above, below⟩ := Part.half long
      obtain ⟨first, second⟩ := part.divide long
      refine (shorter t0 (t0 + (t1 - t0).tdiv 2) x y z first (by omega)).append
        (shorter (t0 + (t1 - t0).tdiv 2) t1 (x.later _) (y.later _) (z.later _) second (by omega))
        (fun depth arrays => ?_) precedes_later (trapezoid_later ⟨by omega, by omega⟩)
      rw [walk3, if_neg ints, if_neg base, if_pos long, if_neg wideZ, if_neg wideY]
  · refine eventually_of_succ fun depth => ?_
    have program : walk3 kernel grid (depth + 1) t0 t1 x y z = some := by
      funext arrays
      rw [walk3, if_neg ints, if_neg base, if_neg long]
    have nothing : (∅ : Set (Point Cell)) = trapezoid t0 t1 x y z := by
      refine (Set.eq_empty_of_forall_notMem ?_).symm
      rintro point ⟨⟨above, below⟩, -⟩
      omega
    rw [program]
    exact executes_empty.congr nothing

/-- The walk executes a trapezoid. Each cut in space makes it narrower, each cut in time shorter. -/
theorem eventually_walk3 {timesteps : ℤ} (fits : WalkFits grid timesteps) (length width : ℕ)
    {t0 t1 : ℤ} (isLength : (t1 - t0).toNat = length) {x y z : Extent}
    (part : Part grid timesteps t0 t1 x y z)
    (isWidth : y.width.toNat + z.width.toNat = width) :
    Eventually kernel grid initial (trapezoid t0 t1 x y z)
      (fun depth => walk3 kernel grid depth t0 t1 x y z) := by
  induction length using Nat.strong_induction_on generalizing t0 t1 x y z width with
  | _ length shorter =>
    induction width using Nat.strong_induction_on generalizing y z with
    | _ width narrower =>
      refine eventually_walk3_step fits part ?_ ?_
      · intro y' z' part' less
        exact narrower _ (isWidth ▸ less) part' rfl
      · intro t0' t1' x' y' z' part' less
        exact shorter _ (isLength ▸ less) _ rfl part' rfl

/-- At the beginning the whole grid is one trapezoid. -/
theorem part_oblivious {timesteps : ℤ} (fits : WalkFits grid timesteps) :
    Part grid timesteps 0 timesteps ⟨1, 0, grid.nx - 1, 0⟩ ⟨1, 0, grid.ny - 1, 0⟩
      ⟨1, 0, grid.nz - 1, 0⟩ := by
  have inside : ∀ n, 0 < n → (Extent.mk 1 0 (n - 1) 0).Within n (timesteps - 0) := by
    intro n positive
    refine ⟨⟨Or.inl rfl, Or.inl rfl⟩, ?_, ?_, ?_, ?_⟩ <;> dsimp only <;> omega
  refine ⟨le_rfl, le_rfl, ?_, inside _ fits.positiveX, inside _ fits.positiveY,
    inside _ fits.positiveZ⟩
  have steps := fits.steps
  unfold IsInt at steps ⊢
  omega

theorem eventually_oblivious {timesteps : ℤ} (fits : WalkFits grid timesteps) :
    Eventually kernel grid initial ((scheme kernel grid).through timesteps.toNat)
      (fun depth => oblivious kernel grid depth timesteps) := by
  have whole : trapezoid 0 timesteps ⟨1, 0, grid.nx - 1, 0⟩ ⟨1, 0, grid.ny - 1, 0⟩
      ⟨1, 0, grid.nz - 1, 0⟩ = (scheme kernel grid).through timesteps.toNat := by
    ext ⟨time, cell⟩
    simp only [trapezoid, region, Extent.Has, Set.mem_ofPred_eq, Int.mul_zero, Int.add_zero]
    constructor
    · rintro ⟨isTime, inner⟩
      exact ⟨by dsimp only; omega, inner⟩
    · rintro ⟨early, inner⟩
      dsimp only at early
      exact ⟨by omega, inner⟩
  rw [← whole]
  exact eventually_walk3 fits _ _ rfl (part_oblivious fits) rfl

/-- A program that executes all steps returns what the plain loops return. -/
theorem Eventually.eq_naive (positive : 0 < grid.size) {timesteps : ℤ} {arrays : Arrays α}
    {program : ℕ → Arrays α → Option (Arrays α)}
    (eventually : Eventually kernel grid arrays ((scheme kernel grid).through timesteps.toNat)
      program) :
    ∃ enough, ∀ depth, enough ≤ depth →
      ∃ after, program depth arrays = some after ∧
        naive kernel grid timesteps arrays = some after := by
  obtain ⟨enough, executes⟩ := eventually
  exact ⟨enough, fun depth deep => (executes depth deep).eq (executes_naive positive timesteps)⟩

/-- `probe_heat_oblivious.c` ends, and returns what the plain loops return with its formula. -/
theorem oblivious_eq_naive (kernel : α → Seven α → α) {grid : Grid} {timesteps : ℤ}
    (fits : WalkFits grid timesteps) (arrays : Arrays α) :
    ∃ enough, ∀ depth, enough ≤ depth → ∃ after,
      oblivious kernel grid depth timesteps arrays = some after ∧
        naive kernel grid timesteps arrays = some after :=
  (eventually_oblivious fits).eq_naive fits.positive

/-- A grid that is cut in space and in time. -/
theorem oblivious_cut_grid :
    ∃ enough, ∀ depth, enough ≤ depth → ∃ after,
      oblivious obliviousHeat ⟨40, 40, 40⟩ depth 9 (fun _ address => address) = some after ∧
        naive obliviousHeat ⟨40, 40, 40⟩ 9 (fun _ address => address) = some after :=
  oblivious_eq_naive obliviousHeat
    ⟨⟨by decide, by decide, by decide, by decide⟩, by decide, by decide, by decide⟩
    fun _ address => address

/-! ### The two formulas -/

/-- Only the formula with the coefficient of the arrays is used. -/
theorem naive_congr {other : α → Seven α → α} (arrays : Arrays α)
    (same : kernel (arrays false 0) = other (arrays false 0)) (timesteps : ℤ) :
    naive kernel grid timesteps arrays = naive other grid timesteps arrays := by
  have assigned : assign kernel grid (arrays false 0) = assign other grid (arrays false 0) := by
    funext source target i j k arrays
    simp only [assign, same]
  unfold naive
  rw [load]
  split
  · simp only [Option.bind_some, assigned]
  · rw [Option.bind_none, Option.bind_none]

/-- The first step. -/
theorem naive_one_step (positive : 0 < grid.size) {arrays after : Arrays α}
    (isAfter : naive kernel grid 1 arrays = some after) {cell : Cell} (inner : grid.Inner cell) :
    after true (grid.address cell) =
      kernel (arrays false 0) (around (fun other => arrays false (grid.address other)) cell) := by
  obtain ⟨final, isFinal, value⟩ := naive_spec kernel positive 1 arrays
  obtain rfl : after = final := Option.some.inj (isAfter.symm.trans isFinal)
  refine (value cell inner).trans ?_
  exact if_pos (show cell ∈ (scheme kernel grid).inner from inner)

section Formulas

variable {K : Type} [Field K]

/-- Over a field the formulas agree where the coefficient is 1 or -1, or the sum vanishes. -/
theorem obliviousHeat_eq_heat_iff {fac : K} (nonzero : fac ≠ 0) (values : Seven K) :
    obliviousHeat fac values = heat fac values ↔ fac * fac = 1 ∨
      values.above + values.below + values.back + values.front + values.right + values.left =
        0 := by
  have square : fac * fac ≠ 0 := mul_ne_zero nonzero nonzero
  have sum : values.right + values.left + values.back + values.front + values.above +
      values.below = values.above + values.below + values.back + values.front + values.right +
        values.left := by ring
  unfold obliviousHeat heat
  rw [div_eq_iff square, sub_mul, div_mul_cancel₀ _ square, sub_left_inj, sum, eq_comm]
  exact mul_right_eq_self₀

/-- The coefficient, and a single value beside the first inner cell. -/
def oneHot (grid : Grid) (fac : K) : Arrays K := fun _ address =>
  if address = 0 then fac else if address = grid.address ⟨2, 1, 1⟩ then 1 else 0

theorem oneHot_address {grid : Grid} (wide : grid.Inside ⟨2, 2, 2⟩) (fac : K) {cell : Cell}
    (inside : grid.Inside cell) (notCorner : cell ≠ ⟨0, 0, 0⟩) :
    oneHot grid fac false (grid.address cell) = if cell = ⟨2, 1, 1⟩ then 1 else 0 := by
  obtain ⟨⟨-, x⟩, ⟨-, y⟩, -, z⟩ := wide
  dsimp only at x y z
  have corner : grid.Inside ⟨0, 0, 0⟩ := by
    refine ⟨⟨?_, ?_⟩, ⟨?_, ?_⟩, ?_, ?_⟩ <;> dsimp only <;> omega
  have hot : grid.Inside ⟨2, 1, 1⟩ := by
    refine ⟨⟨?_, ?_⟩, ⟨?_, ?_⟩, ?_, ?_⟩ <;> dsimp only <;> omega
  have isZero : grid.address ⟨0, 0, 0⟩ = 0 := by simp [Grid.address, Grid.index, index3D]
  have notZero : grid.address cell ≠ 0 := fun zero =>
    notCorner (Grid.address_injective inside corner (zero.trans isZero.symm))
  unfold oneHot
  rw [if_neg notZero]
  by_cases same : cell = ⟨2, 1, 1⟩
  · rw [if_pos same, if_pos (by rw [same])]
  · rw [if_neg same, if_neg fun address => same (Grid.address_injective inside hot address)]

/-- On a grid with an inner cell the other sizes are three at least, and then the multiples of a
size do not overflow either. -/
theorem walkFits_of_inside {grid : Grid} (counted : grid.Counted)
    (wide : grid.Inside ⟨2, 2, 2⟩) {timesteps : ℤ} (steps : IsInt (4 * timesteps)) :
    WalkFits grid timesteps := by
  obtain ⟨⟨-, x⟩, ⟨-, y⟩, -, z⟩ := wide
  dsimp only at x y z
  have size := counted.isInt
  unfold Grid.size at size
  unfold IsInt at size steps
  have area : 3 * grid.ny ≤ grid.nx * grid.ny := mul_le_mul_of_nonneg_right x (by omega)
  have rows : 3 * grid.ny * 3 ≤ grid.nx * grid.ny * grid.nz :=
    mul_le_mul area z (by decide) (by omega)
  have planes : 9 * grid.nz ≤ grid.nx * grid.ny * grid.nz :=
    mul_le_mul_of_nonneg_right (by omega) (by omega)
  refine ⟨counted, steps, ?_, ?_⟩ <;> rw [IsInt] <;> omega

/-- On a grid with an inner cell `probe_heat_oblivious.c` agrees with `probe_heat.c` for all values
exactly when the square of the coefficient is 1, as in the tests, where all values are 1. -/
theorem oblivious_agrees_iff {grid : Grid} (counted : grid.Counted)
    (wide : grid.Inside ⟨2, 2, 2⟩) {fac : K} (nonzero : fac ≠ 0) :
    (∀ arrays : Arrays K, arrays false 0 = fac → ∀ timesteps, IsInt (4 * timesteps) →
      ∃ enough, ∀ depth, enough ≤ depth →
        oblivious obliviousHeat grid depth timesteps arrays = naive heat grid timesteps arrays) ↔
      fac * fac = 1 := by
  have plain : ∀ (arrays : Arrays K) (timesteps : ℤ), IsInt (4 * timesteps) →
      ∃ enough, ∀ depth, enough ≤ depth →
        ∃ after, oblivious obliviousHeat grid depth timesteps arrays = some after ∧
          naive obliviousHeat grid timesteps arrays = some after := fun arrays timesteps steps =>
    (eventually_oblivious (walkFits_of_inside counted wide steps)).eq_naive counted.positive
  constructor
  · intro agrees
    obtain ⟨enough, isHeat⟩ := agrees (oneHot grid fac) (if_pos rfl) 1 (by decide)
    obtain ⟨enough', isOblivious⟩ := plain (oneHot grid fac) 1 (by decide)
    obtain ⟨after, isAfter, isPlain⟩ := isOblivious (max enough enough') (le_max_right _ _)
    have isNaive : naive heat grid 1 (oneHot grid fac) = some after :=
      (isHeat (max enough enough') (le_max_left _ _)).symm.trans isAfter
    obtain ⟨⟨-, x⟩, ⟨-, y⟩, -, z⟩ := id wide
    dsimp only at x y z
    have inner : grid.Inner ⟨1, 1, 1⟩ := by
      refine ⟨⟨?_, ?_⟩, ⟨?_, ?_⟩, ?_, ?_⟩ <;> dsimp only <;> omega
    have value : ∀ cell : Cell, Near ⟨1, 1, 1⟩ cell →
        oneHot grid fac false (grid.address cell) = if cell = ⟨2, 1, 1⟩ then 1 else 0 := by
      intro cell near
      refine oneHot_address wide fac (inside_of_near inner near) ?_
      rintro rfl
      exact absurd near (by unfold Near; decide)
    have same := (naive_one_step counted.positive isPlain inner).symm.trans
      (naive_one_step counted.positive isNaive inner)
    rcases (obliviousHeat_eq_heat_iff nonzero _).mp same with square | vanishes
    · exact square
    · rw [around_congr value] at vanishes
      simp [around] at vanishes
  · intro square arrays isFac timesteps steps
    obtain ⟨enough, isOblivious⟩ := plain arrays timesteps steps
    refine ⟨enough, fun depth deep => ?_⟩
    obtain ⟨after, isAfter, isPlain⟩ := isOblivious depth deep
    rw [isAfter, ← isPlain]
    refine naive_congr arrays ?_ timesteps
    funext values
    rw [isFac]
    exact (obliviousHeat_eq_heat_iff nonzero values).mpr (Or.inl square)

/-- Random values are between 0 and 1, and then the two probes differ. -/
theorem oblivious_differs_for_half :
    ¬ ∀ arrays : Arrays ℚ, arrays false 0 = 1 / 2 → ∀ timesteps, IsInt (4 * timesteps) →
      ∃ enough, ∀ depth, enough ≤ depth →
        oblivious obliviousHeat ⟨3, 3, 3⟩ depth timesteps arrays =
          naive heat ⟨3, 3, 3⟩ timesteps arrays := by
  have counted : Grid.Counted ⟨3, 3, 3⟩ := ⟨by decide, by decide, by decide, by decide⟩
  have wide : Grid.Inside ⟨3, 3, 3⟩ ⟨2, 2, 2⟩ := by
    refine ⟨⟨?_, ?_⟩, ⟨?_, ?_⟩, ?_, ?_⟩ <;> decide
  rw [oblivious_agrees_iff counted wide (by norm_num)]
  norm_num

end Formulas

end ClusterJobs.StencilProbe
