/-
This file proves that the stencil probes compute the same, whatever the order of their loops.

Each probe does the updates of all steps in an order in which no update comes before one that it
needs. For the blocks of a single step there is nothing to be shown. The blocks of
`probe_heat_timeskew.c` lean against the time: each step of a block needs only cells that the blocks
before have reached, or the block itself.
-/

import ClusterJobs.StencilProbe

namespace ClusterJobs.StencilProbe

open SpaceTime Scheme

variable {α : Type}

/-! ### Cells and addresses -/

@[ext]
structure Cell where
  x : ℤ
  y : ℤ
  z : ℤ
  deriving DecidableEq

namespace Grid

variable (grid : Grid)

def Inside (cell : Cell) : Prop :=
  (0 ≤ cell.x ∧ cell.x < grid.nx) ∧ (0 ≤ cell.y ∧ cell.y < grid.ny) ∧
    0 ≤ cell.z ∧ cell.z < grid.nz

def Inner (cell : Cell) : Prop :=
  (1 ≤ cell.x ∧ cell.x < grid.nx - 1) ∧ (1 ≤ cell.y ∧ cell.y < grid.ny - 1) ∧
    1 ≤ cell.z ∧ cell.z < grid.nz - 1

def address (cell : Cell) : ℤ := grid.index cell.x cell.y cell.z

variable {grid}

theorem address_injective {cell other : Cell} (inside : grid.Inside cell)
    (insideOther : grid.Inside other) (same : grid.address cell = grid.address other) :
    cell = other := by
  obtain ⟨⟨x0, x1⟩, ⟨y0, y1⟩, -⟩ := inside
  obtain ⟨⟨u0, u1⟩, ⟨v0, v1⟩, -⟩ := insideOther
  unfold address index index3D at same
  have first : cell.x = other.x := by
    have remainders := congrArg (· % grid.nx) same
    rwa [Int.add_mul_emod_self_left, Int.add_mul_emod_self_left, Int.emod_eq_of_lt x0 x1,
      Int.emod_eq_of_lt u0 u1] at remainders
  have rest : cell.y + grid.ny * cell.z = other.y + grid.ny * other.z := by
    rw [first] at same
    exact Int.eq_of_mul_eq_mul_left (by omega) (Int.add_left_cancel same)
  have second : cell.y = other.y := by
    have remainders := congrArg (· % grid.ny) rest
    rwa [Int.add_mul_emod_self_left, Int.add_mul_emod_self_left, Int.emod_eq_of_lt y0 y1,
      Int.emod_eq_of_lt v0 v1] at remainders
  have third : cell.z = other.z := by
    rw [second] at rest
    exact Int.eq_of_mul_eq_mul_left (by omega) (Int.add_left_cancel rest)
  exact Cell.ext first second third

theorem address_bounds {cell : Cell} (inside : grid.Inside cell) :
    0 ≤ grid.address cell ∧ grid.address cell < grid.size := by
  obtain ⟨⟨x0, x1⟩, ⟨y0, y1⟩, z0, z1⟩ := inside
  unfold address index index3D size
  have row : 0 ≤ cell.y + grid.ny * cell.z :=
    Int.add_nonneg y0 (Int.mul_nonneg (by omega) z0)
  have rowLast : cell.y + grid.ny * cell.z + 1 ≤ grid.ny * grid.nz := by
    have planes : grid.ny * (cell.z + 1) ≤ grid.ny * grid.nz :=
      Int.mul_le_mul_of_nonneg_left z1 (by omega)
    rw [Int.mul_add, Int.mul_one] at planes
    omega
  constructor
  · exact Int.add_nonneg x0 (Int.mul_nonneg (by omega) row)
  · have rows : grid.nx * (cell.y + grid.ny * cell.z + 1) ≤ grid.nx * (grid.ny * grid.nz) :=
      Int.mul_le_mul_of_nonneg_left rowLast (by omega)
    rw [Int.mul_add, Int.mul_one, ← Int.mul_assoc] at rows
    omega

end Grid

/-! ### The scheme of the probes -/

/-- A cell and those next to it. -/
def Near (cell other : Cell) : Prop :=
  (other.x - cell.x).natAbs + (other.y - cell.y).natAbs + (other.z - cell.z).natAbs ≤ 1

theorem inside_of_near {grid : Grid} {cell other : Cell} (inner : grid.Inner cell)
    (near : Near cell other) : grid.Inside other := by
  unfold Grid.Inner at inner
  unfold Near at near
  unfold Grid.Inside
  omega

/-- The values around a cell. -/
def around (values : Cell → α) (cell : Cell) : Seven α where
  above := values { cell with z := cell.z + 1 }
  below := values { cell with z := cell.z - 1 }
  back := values { cell with y := cell.y + 1 }
  front := values { cell with y := cell.y - 1 }
  right := values { cell with x := cell.x + 1 }
  left := values { cell with x := cell.x - 1 }
  centre := values cell

theorem around_congr {before after : Cell → α} {cell : Cell}
    (same : ∀ other, Near cell other → before other = after other) :
    around before cell = around after cell := by
  unfold around
  congr 1 <;> exact same _ (by simp [Near])

def scheme (kernel : α → Seven α → α) (grid : Grid) : Scheme Cell ℤ α where
  inner := {cell | grid.Inner cell}
  near := Near
  rule := fun fac values cell => kernel fac (around values cell)
  address := grid.address
  coefficient := 0
  near_self := fun cell _ => by
    unfold Near
    omega
  near_symm := fun cell _ other _ near => by
    unfold Near at near ⊢
    omega
  rule_congr := fun fac before after cell _ same => by rw [around_congr same]
  address_injective := by
    intro cell inner other reached same
    have insideOf : ∀ cell, grid.Inner cell → grid.Inside cell := fun cell inner =>
      inside_of_near inner (by unfold Near; omega)
    refine Grid.address_injective (insideOf cell inner) ?_ same
    rcases reached with innerOther | ⟨third, innerThird, near⟩
    · exact insideOf other innerOther
    · exact inside_of_near innerThird near
  coefficient_apart := by
    intro cell inner isZero
    have inside : grid.Inside cell := inside_of_near inner (by unfold Near; omega)
    have corner : grid.Inside ⟨0, 0, 0⟩ := by
      obtain ⟨⟨x0, x1⟩, ⟨y0, y1⟩, z0, z1⟩ := inside
      exact ⟨⟨le_rfl, lt_of_le_of_lt x0 x1⟩, ⟨le_rfl, lt_of_le_of_lt y0 y1⟩, le_rfl,
        lt_of_le_of_lt z0 z1⟩
    have isCorner : cell = ⟨0, 0, 0⟩ := Grid.address_injective inside corner (by
      rw [isZero]
      simp [Grid.address, Grid.index, index3D])
    have positive := inner.1.1
    rw [isCorner] at positive
    exact absurd positive (by decide)

variable {kernel : α → Seven α → α} {grid : Grid}

theorem load_address {array : ℤ → α} {i j k : ℤ} (inside : grid.Inside ⟨i, j, k⟩) :
    load grid array (grid.index i j k) = some (array (grid.address ⟨i, j, k⟩)) :=
  if_pos (Grid.address_bounds inside)

/-- The assignment to an inner cell stays in the arrays, and is the update of the cell. -/
theorem assign_eq {i j k : ℤ} (inner : grid.Inner ⟨i, j, k⟩) (fac : α) (steps : ℕ)
    (arrays : Arrays α) :
    assign kernel grid fac (odd steps) (odd (steps + 1)) i j k arrays =
      some ((scheme kernel grid).update fac steps ⟨i, j, k⟩ arrays) := by
  have inside : ∀ other, Near ⟨i, j, k⟩ other → grid.Inside other := fun other near =>
    inside_of_near inner near
  have read : seven grid (arrays (odd steps)) i j k = some (around
      (fun other => arrays (odd steps) (grid.address other)) ⟨i, j, k⟩) := by
    unfold seven
    rw [load_address (inside _ (by unfold Near; dsimp only; omega)),
      load_address (inside _ (by unfold Near; dsimp only; omega)),
      load_address (inside _ (by unfold Near; dsimp only; omega)),
      load_address (inside _ (by unfold Near; dsimp only; omega)),
      load_address (inside _ (by unfold Near; dsimp only; omega)),
      load_address (inside _ (by unfold Near; dsimp only; omega)),
      load_address (inside _ (by unfold Near; dsimp only; omega))]
    rfl
  rw [assign, read, Option.bind_some, store, if_pos]
  · rfl
  · exact Grid.address_bounds (inside ⟨i, j, k⟩ (by unfold Near; omega))

/-! ### Loops over cells -/

variable {initial : Arrays α} {fac : α}

theorem executes_assign (isFac : fac = initial false 0) (steps : ℕ) (i j k : ℤ) :
    (scheme kernel grid).Executes initial {(steps, ⟨i, j, k⟩)}
      (assign kernel grid fac (odd steps) (odd (steps + 1)) i j k) := by
  intro done arrays legal holds
  rw [assign_eq (legal.inner (steps, ⟨i, j, k⟩) rfl)]
  exact executes_update isFac done arrays legal holds

/-- The cells of a box, at one step. -/
def slice (t xlow xhigh ylow yhigh zlow zhigh : ℤ) : Set (Point Cell) :=
  {point | point.1 = t ∧ (xlow ≤ point.2.x ∧ point.2.x < xhigh) ∧
    (ylow ≤ point.2.y ∧ point.2.y < yhigh) ∧ zlow ≤ point.2.z ∧ point.2.z < zhigh}

/-- At one step nothing needs anything else. -/
theorem precedes_of_time {first second : Set (Point Cell)} {t u : ℤ} (order : t ≤ u)
    (firstTime : ∀ point ∈ first, (point.1 : ℤ) = t)
    (secondTime : ∀ point ∈ second, (point.1 : ℤ) = u)
    (disjoint : ∀ point ∈ first, point ∉ second) :
    (scheme kernel grid).Precedes first second := by
  refine ⟨disjoint, fun steps cell other found _ _ again => ?_⟩
  have now := firstTime _ found
  have later := secondTime _ again
  dsimp only at now later
  omega

/-- Three loops over the cells of a box. -/
def boxLoop (xlow xhigh ylow yhigh zlow zhigh : ℤ)
    (body : ℤ → ℤ → ℤ → Arrays α → Option (Arrays α)) : Arrays α → Option (Arrays α) :=
  forLoop 1 zhigh (fun k => forLoop 1 yhigh (fun j => forLoop 1 xhigh (fun i => body i j k) xlow)
    ylow) zlow

/-- A loop whose rounds are all at one step. -/
theorem executes_timed {step high : ℤ} (positive : 0 < step) (low t : ℤ)
    {body : ℤ → Arrays α → Option (Arrays α)} (updates : ℤ → Set (Point Cell))
    (each : ∀ i, low ≤ i → i < high → (scheme kernel grid).Executes initial (updates i) (body i))
    (time : ∀ i, ∀ point ∈ updates i, (point.1 : ℤ) = t)
    (disjoint : ∀ i j, low ≤ i → i < j → step ∣ i - low → step ∣ j - low →
      ∀ point ∈ updates i, point ∉ updates j) :
    (scheme kernel grid).Executes initial (sweep step low high updates)
      (forLoop step high body low) :=
  executes_forLoop positive updates low (fun i above below _ => each i above below)
    fun i j above less _ alignedFirst alignedSecond =>
      precedes_of_time le_rfl (time i) (time j) (disjoint i j above less alignedFirst alignedSecond)

theorem executes_boxLoop (isFac : fac = initial false 0) (steps : ℕ)
    (xlow xhigh ylow yhigh zlow zhigh : ℤ) :
    (scheme kernel grid).Executes initial (slice steps xlow xhigh ylow yhigh zlow zhigh)
      (boxLoop xlow xhigh ylow yhigh zlow zhigh
        (assign kernel grid fac (odd steps) (odd (steps + 1)))) := by
  have row : ∀ j k, (scheme kernel grid).Executes initial
      (slice steps xlow xhigh j (j + 1) k (k + 1))
      (forLoop 1 xhigh (fun i => assign kernel grid fac (odd steps) (odd (steps + 1)) i j k)
        xlow) := by
    intro j k
    refine (executes_timed Int.one_pos xlow steps (fun i => {(steps, ⟨i, j, k⟩)})
      (fun i _ _ => executes_assign isFac steps i j k) ?_ ?_).congr ?_
    · rintro i point rfl
      rfl
    · rintro i i' - less - - point rfl same
      exact absurd (congrArg (fun point => point.2.x) same) (ne_of_lt less)
    · ext ⟨time, x, y, z⟩
      constructor
      · rintro ⟨i, above, below, -, rfl, rfl⟩
        exact ⟨rfl, ⟨above, below⟩, ⟨le_rfl, Int.lt_succ _⟩, le_rfl, Int.lt_succ _⟩
      · rintro ⟨isTime, ⟨above, below⟩, isRow, isPlane⟩
        refine ⟨x, above, below, one_dvd _, ?_⟩
        dsimp only at isTime isRow isPlane
        obtain ⟨rfl, rfl, rfl⟩ : time = steps ∧ y = j ∧ z = k := by omega
        rfl
  have plane : ∀ k, (scheme kernel grid).Executes initial
      (slice steps xlow xhigh ylow yhigh k (k + 1))
      (forLoop 1 yhigh (fun j => forLoop 1 xhigh (fun i =>
        assign kernel grid fac (odd steps) (odd (steps + 1)) i j k) xlow) ylow) := by
    intro k
    refine (executes_timed Int.one_pos ylow steps
      (fun j => slice steps xlow xhigh j (j + 1) k (k + 1)) (fun j _ _ => row j k) ?_ ?_).congr ?_
    · exact fun j point found => found.1
    · rintro j j' - less - - point ⟨-, -, isRow, -⟩ ⟨-, -, isOther, -⟩
      omega
    · ext ⟨time, x, y, z⟩
      constructor
      · rintro ⟨j, above, below, -, isTime, isColumn, isRow, isPlane⟩
        exact ⟨isTime, isColumn, by omega, isPlane⟩
      · rintro ⟨isTime, isColumn, ⟨above, below⟩, isPlane⟩
        exact ⟨y, above, below, one_dvd _, isTime, isColumn, ⟨le_rfl, Int.lt_succ _⟩, isPlane⟩
  refine (executes_timed Int.one_pos zlow steps
    (fun k => slice steps xlow xhigh ylow yhigh k (k + 1)) (fun k _ _ => plane k) ?_ ?_).congr ?_
  · exact fun k point found => found.1
  · rintro k k' - less - - point ⟨-, -, -, isPlane⟩ ⟨-, -, -, isOther⟩
    omega
  · ext ⟨time, x, y, z⟩
    constructor
    · rintro ⟨k, above, below, -, isTime, isColumn, isRow, isPlane⟩
      exact ⟨isTime, isColumn, isRow, by omega⟩
    · rintro ⟨isTime, isColumn, isRow, above, below⟩
      exact ⟨z, above, below, one_dvd _, isTime, isColumn, isRow, le_rfl, Int.lt_succ _⟩

/-! ### Loops over steps -/

theorem parity_eq (steps : ℕ) : parity steps = odd steps := by
  unfold parity odd
  rw [decide_eq_decide]
  omega

/-- With each step the pointers change their roles. -/
theorem timeLoop_eq (timesteps : ℤ) (program : ℤ → Bool → Bool → Arrays α → Option (Arrays α))
    (arrays : Arrays α) :
    timeLoop timesteps program arrays =
      forLoop 1 timesteps (fun t => program t (parity t) (parity (t + 1))) 0 arrays := by
  refine forLoop_eq Swapped.arrays (fun t arrays => ⟨arrays, parity t, parity (t + 1)⟩)
    (fun _ _ => rfl) (fun t arrays => ?_) 0 arrays
  have again : parity (t + 1 + 1) = parity t := by
    unfold parity
    rw [decide_eq_decide]
    omega
  rw [Swapped.step, again]

/-- A loop over steps, each of which is executed. -/
theorem executes_steps {t0 : ℤ} (start : 0 ≤ t0) (t1 : ℤ)
    (program : ℤ → Bool → Bool → Arrays α → Option (Arrays α)) (updates : ℤ → Set (Point Cell))
    (each : ∀ steps : ℕ, t0 ≤ steps → steps < t1 →
      (scheme kernel grid).Executes initial (updates steps)
        (program steps (odd steps) (odd (steps + 1))))
    (time : ∀ t, ∀ point ∈ updates t, (point.1 : ℤ) = t) :
    (scheme kernel grid).Executes initial (sweep 1 t0 t1 updates)
      (forLoop 1 t1 (fun t => program t (parity t) (parity (t + 1))) t0) := by
  refine executes_forLoop Int.one_pos updates t0 (fun t above below _ => ?_) ?_
  · obtain ⟨steps, rfl⟩ : ∃ steps : ℕ, t = steps := ⟨t.toNat, by omega⟩
    have next : parity ((steps : ℤ) + 1) = odd (steps + 1) := parity_eq (steps + 1)
    rw [parity_eq, next]
    exact each steps above below
  · intro t u _ less _ _ _
    refine precedes_of_time less.le (time t) (time u) fun point found again => ?_
    have := (time t point found).symm.trans (time u point again)
    omega

/-- The coefficient is read when it is as it was at the beginning. -/
theorem executes_load (positive : 0 < grid.size) {updates : Set (Point Cell)}
    {program : α → Arrays α → Option (Arrays α)}
    (executes : (scheme kernel grid).Executes initial updates (program (initial false 0))) :
    (scheme kernel grid).Executes initial updates
      fun arrays => (load grid (arrays false) 0).bind fun fac => program fac arrays := by
  intro done arrays legal holds
  have same : arrays false 0 = initial false 0 :=
    holds.other false 0 (scheme kernel grid).coefficient_apart
  have loaded : load grid (arrays false) 0 = some (initial false 0) := by
    rw [load, if_pos ⟨le_rfl, positive⟩, same]
  obtain ⟨after, isAfter, holdsAfter⟩ := executes done arrays legal holds
  exact ⟨after, by simpa [loaded] using isAfter, holdsAfter⟩

/-! ### The plain order -/

/-- All cells at one step. -/
def wholeSlice (grid : Grid) (t : ℤ) : Set (Point Cell) :=
  slice t 1 (grid.nx - 1) 1 (grid.ny - 1) 1 (grid.nz - 1)

theorem sweep_wholeSlice (kernel : α → Seven α → α) (grid : Grid) (timesteps : ℤ) :
    sweep 1 0 timesteps (wholeSlice grid) =
      (scheme kernel grid).through timesteps.toNat := by
  ext ⟨time, cell⟩
  constructor
  · rintro ⟨t, above, below, -, isTime, inner⟩
    dsimp only at isTime
    exact ⟨by dsimp only; omega, inner⟩
  · rintro ⟨isTime, inner⟩
    dsimp only at isTime
    exact ⟨time, by omega, by omega, one_dvd _, rfl, inner⟩

/-- A probe that does each step as a whole. -/
theorem executes_timeLoop (timesteps : ℤ) {program : Bool → Bool → Arrays α → Option (Arrays α)}
    (each : ∀ steps : ℕ, (scheme kernel grid).Executes initial (wholeSlice grid steps)
      (program (odd steps) (odd (steps + 1)))) :
    (scheme kernel grid).Executes initial ((scheme kernel grid).through timesteps.toNat)
      (timeLoop timesteps fun _ => program) := by
  rw [← sweep_wholeSlice, show timeLoop timesteps (fun _ => program) = _ from
    funext (timeLoop_eq timesteps fun _ => program)]
  exact executes_steps le_rfl timesteps (fun _ => program) (wholeSlice grid)
    (fun steps _ _ => each steps) fun t point found => found.1

theorem executes_naive (positive : 0 < grid.size) (timesteps : ℤ) :
    (scheme kernel grid).Executes initial ((scheme kernel grid).through timesteps.toNat)
      (naive kernel grid timesteps) :=
  executes_load positive (executes_timeLoop timesteps fun steps =>
    executes_boxLoop rfl steps 1 (grid.nx - 1) 1 (grid.ny - 1) 1 (grid.nz - 1))

/-- At the end the array of the last step has the values after all steps. -/
theorem naive_spec (kernel : α → Seven α → α) (positive : 0 < grid.size) (timesteps : ℤ)
    (arrays : Arrays α) :
    ∃ after, naive kernel grid timesteps arrays = some after ∧ ∀ cell, grid.Inner cell →
      after (odd timesteps.toNat) (grid.address cell) =
        (scheme kernel grid).solution arrays timesteps.toNat cell := by
  have executes : (scheme kernel grid).Executes arrays _ (naive kernel grid timesteps) :=
    executes_naive positive timesteps
  obtain ⟨after, isAfter, holds⟩ := executes ∅ arrays (legal_through _) holds_start
  refine ⟨after, isAfter, fun cell inner => ?_⟩
  refine holds.value timesteps.toNat cell inner (fun before isBefore => ?_) ?_
  · exact Or.inr ⟨by dsimp only; omega, inner⟩
  · rintro (none | ⟨late, -⟩)
    · exact none
    · exact absurd late (Nat.not_lt.mpr (Nat.le_succ _))

/-! ### Blocks -/

/-- Every place is in a block. -/
theorem exists_block {size low place : ℤ} (positive : 0 < size) (above : low ≤ place) :
    ∃ block, low ≤ block ∧ size ∣ block - low ∧ block ≤ place ∧ place < block + size := by
  refine ⟨low + size * ((place - low) / size), ?_, ?_, ?_, ?_⟩
  · have := Int.mul_nonneg positive.le (Int.ediv_nonneg (Int.sub_nonneg.mpr above) positive.le)
    omega
  · exact ⟨(place - low) / size, by omega⟩
  · have := Int.mul_ediv_self_le (x := place - low) (k := size) positive.ne'
    omega
  · have := Int.lt_mul_ediv_self_add (x := place - low) positive
    omega

/-- Blocks do not overlap. -/
theorem block_add_le {size low first second : ℤ} (less : first < second)
    (alignedFirst : size ∣ first - low) (alignedSecond : size ∣ second - low) :
    first + size ≤ second := by
  have aligned : size ∣ second - first := by
    have := Int.dvd_sub alignedSecond alignedFirst
    rwa [show second - low - (first - low) = second - first by omega] at this
  have := Int.le_of_dvd (Int.sub_pos.mpr less) aligned
  omega

/-- A program that computes nothing too great. -/
theorem checked_eq {values : List ℤ} (ints : ∀ value ∈ values, IsInt value)
    (program : Arrays α → Option (Arrays α)) : checked values program = program := by
  funext arrays
  rw [checked, if_pos ints]

theorem checked_add_eq {n size place : ℤ} (isInt : IsInt (n + size)) (positive : 0 < size)
    (above : 1 ≤ place) (below : place < n - 1) (program : Arrays α → Option (Arrays α)) :
    checked [place + size] program = program := by
  refine checked_eq ?_ program
  rw [List.forall_mem_singleton]
  exact ⟨by omega, by have := isInt.2; omega⟩

/-- A grid with a value, whose values an `int` can count. -/
structure Grid.Counted (grid : Grid) : Prop where
  positiveX : 0 < grid.nx
  positiveY : 0 < grid.ny
  positiveZ : 0 < grid.nz
  isInt : IsInt grid.size

theorem Grid.Counted.positive (counted : grid.Counted) : 0 < grid.size :=
  Int.mul_pos (Int.mul_pos counted.positiveX counted.positiveY) counted.positiveZ

/-- The blocks, and where they end. -/
structure Reached (grid : Grid) (tx ty : ℤ) : Prop where
  positiveX : 0 < tx
  positiveY : 0 < ty
  isIntX : IsInt (grid.nx + tx)
  isIntY : IsInt (grid.ny + ty)

theorem executes_rivera (positive : 0 < grid.size) {tx ty : ℤ} (reached : Reached grid tx ty)
    (timesteps : ℤ) :
    (scheme kernel grid).Executes initial ((scheme kernel grid).through timesteps.toNat)
      (rivera kernel grid tx ty timesteps) := by
  refine executes_load positive (executes_timeLoop timesteps fun steps => ?_)
  have block : ∀ ii jj, (scheme kernel grid).Executes initial
      (slice steps ii (min (ii + tx) (grid.nx - 1)) jj (min (jj + ty) (grid.ny - 1)) 1
        (grid.nz - 1))
      (boxLoop ii (min (ii + tx) (grid.nx - 1)) jj (min (jj + ty) (grid.ny - 1)) 1 (grid.nz - 1)
        (assign kernel grid (initial false 0) (odd steps) (odd (steps + 1)))) := fun ii jj =>
    executes_boxLoop rfl steps _ _ _ _ _ _
  have row : ∀ jj, (scheme kernel grid).Executes initial
      (slice steps 1 (grid.nx - 1) jj (min (jj + ty) (grid.ny - 1)) 1 (grid.nz - 1))
      (forLoop tx (grid.nx - 1) (fun ii => checked [ii + tx] <|
        boxLoop ii (min (ii + tx) (grid.nx - 1)) jj (min (jj + ty) (grid.ny - 1)) 1 (grid.nz - 1)
          (assign kernel grid (initial false 0) (odd steps) (odd (steps + 1)))) 1) := by
    intro jj
    refine (executes_timed reached.positiveX 1 steps
      (fun ii => slice steps ii (min (ii + tx) (grid.nx - 1)) jj (min (jj + ty) (grid.ny - 1)) 1
        (grid.nz - 1)) (fun ii above below => ?_) (fun ii point found => found.1) ?_).congr ?_
    · rw [checked_add_eq reached.isIntX reached.positiveX above below]
      exact block ii jj
    · rintro ii ii' - less aligned alignedOther point ⟨-, isColumn, -⟩ ⟨-, isOther, -⟩
      have := block_add_le less aligned alignedOther
      omega
    · ext ⟨time, x, y, z⟩
      constructor
      · rintro ⟨ii, above, below, -, isTime, isColumn, rest⟩
        exact ⟨isTime, by omega, rest⟩
      · rintro ⟨isTime, isColumn, rest⟩
        obtain ⟨ii, above, aligned, first, last⟩ := exists_block reached.positiveX isColumn.1
        exact ⟨ii, above, by omega, aligned, isTime, by omega, rest⟩
  refine (executes_timed reached.positiveY 1 steps
    (fun jj => slice steps 1 (grid.nx - 1) jj (min (jj + ty) (grid.ny - 1)) 1 (grid.nz - 1))
    (fun jj above below => ?_) (fun jj point found => found.1) ?_).congr ?_
  · rw [checked_add_eq reached.isIntY reached.positiveY above below]
    exact row jj
  · rintro jj jj' - less aligned alignedOther point ⟨-, -, isRow, -⟩ ⟨-, -, isOther, -⟩
    have := block_add_le less aligned alignedOther
    omega
  · ext ⟨time, x, y, z⟩
    constructor
    · rintro ⟨jj, above, below, -, isTime, isColumn, isRow, isPlane⟩
      exact ⟨isTime, isColumn, by omega, isPlane⟩
    · rintro ⟨isTime, isColumn, isRow, isPlane⟩
      obtain ⟨jj, above, aligned, first, last⟩ := exists_block reached.positiveY isRow.1
      exact ⟨jj, above, by omega, aligned, isTime, isColumn, by omega, isPlane⟩

/-- `probe_heat_blocked.c` returns what `probe_heat.c` returns, for all sizes of its blocks with
which no `int` overflows. It stays in the arrays where the last blocks do not fit into the grid. -/
theorem rivera_eq_naive (kernel : α → Seven α → α) {grid : Grid} (counted : grid.Counted)
    {tx ty : ℤ} (reached : Reached grid tx ty) (timesteps : ℤ) (arrays : Arrays α) :
    ∃ after, rivera kernel grid tx ty timesteps arrays = some after ∧
      naive kernel grid timesteps arrays = some after :=
  (executes_rivera counted.positive reached timesteps).eq
    (executes_naive counted.positive timesteps)

/-- Blocks of 3 by 2 on a grid with 3 by 3 inner columns. -/
theorem rivera_uneven_blocks :
    ∃ after, rivera heat ⟨5, 5, 4⟩ 3 2 7 (fun _ address => address) = some after ∧
      naive heat ⟨5, 5, 4⟩ 7 (fun _ address => address) = some after :=
  rivera_eq_naive heat ⟨by decide, by decide, by decide, by decide⟩
    ⟨by decide, by decide, by decide, by decide⟩ 7 fun _ address => address

/-! ### Regions -/

/-- The updates at some steps of the cells whose coordinates are in three moving ranges. -/
def region (low high : ℤ) (xs ys zs : ℤ → ℤ → Prop) : Set (Point Cell) :=
  {point | (low ≤ point.1 ∧ point.1 < high) ∧ xs point.1 point.2.x ∧ ys point.1 point.2.y ∧
    zs point.1 point.2.z}

section Region

variable {low high : ℤ} {xs ys zs : ℤ → ℤ → Prop} {point : Point Cell}

theorem mem_region_x : point ∈ region low high xs ys zs ↔
    point ∈ region low high (fun _ _ => True) ys zs ∧ xs point.1 point.2.x := by
  simp only [region, Set.mem_ofPred_eq]
  tauto

theorem mem_region_y : point ∈ region low high xs ys zs ↔
    point ∈ region low high xs (fun _ _ => True) zs ∧ ys point.1 point.2.y := by
  simp only [region, Set.mem_ofPred_eq]
  tauto

theorem mem_region_z : point ∈ region low high xs ys zs ↔
    point ∈ region low high xs ys (fun _ _ => True) ∧ zs point.1 point.2.z := by
  simp only [region, Set.mem_ofPred_eq]
  tauto

end Region

/-- One range moves ahead of another one: no place in it is next to a place that the other had at
the step before. -/
structure Leads (low high : ℤ) (first second : ℤ → ℤ → Prop) : Prop where
  disjoint : ∀ t place, low ≤ t → t < high → first t place → ¬ second t place
  apart : ∀ t place other, low ≤ t → t + 1 < high → first (t + 1) place → second t other →
    1 < (other - place).natAbs

theorem precedes_region {low high : ℤ} {xs ys zs xs' ys' zs' : ℤ → ℤ → Prop}
    (leads : Leads low high xs xs' ∨ Leads low high ys ys' ∨ Leads low high zs zs') :
    (scheme kernel grid).Precedes (region low high xs ys zs) (region low high xs' ys' zs') := by
  constructor
  · rintro point ⟨⟨above, below⟩, isX, isY, isZ⟩ ⟨-, isX', isY', isZ'⟩
    rcases leads with leads | leads | leads
    · exact leads.disjoint _ _ above below isX isX'
    · exact leads.disjoint _ _ above below isY isY'
    · exact leads.disjoint _ _ above below isZ isZ'
  · rintro steps cell other ⟨⟨-, below⟩, isX, isY, isZ⟩ - near ⟨⟨above, -⟩, isX', isY', isZ'⟩
    have near : Near cell other := near
    unfold Near at near
    dsimp only at above below isX isY isZ isX' isY' isZ'
    push_cast at below isX isY isZ
    rcases leads with leads | leads | leads
    · have := leads.apart _ _ _ above below isX isX'
      omega
    · have := leads.apart _ _ _ above below isY isY'
      omega
    · have := leads.apart _ _ _ above below isZ isZ'
      omega

/-! ### Blocks that move -/

/-- The range of a block in one dimension. -/
def Skewed (n size block t place : ℤ) : Prop :=
  blockMin block t ≤ place ∧ place < blockMax n block size t

theorem leads_skewed {n size first second : ℤ} (above : 1 ≤ first) (less : first < second)
    (below : second < n - 1) (alignedFirst : size ∣ first - 1) (alignedSecond : size ∣ second - 1)
    (high : ℤ) : Leads 0 high (Skewed n size first) (Skewed n size second) := by
  have gap := block_add_le less alignedFirst alignedSecond
  have notLast : first ≠ n - size - 1 := by omega
  have notFirst : second ≠ 1 := by omega
  constructor
  · intro t place start _ isFirst isSecond
    unfold Skewed blockMin blockMax at isFirst isSecond
    rw [if_neg notLast] at isFirst
    rw [if_neg notFirst] at isSecond
    omega
  · intro t place other start _ isFirst isSecond
    unfold Skewed blockMin blockMax at isFirst isSecond
    rw [if_neg notLast] at isFirst
    rw [if_neg notFirst] at isSecond
    have inside : 1 ≤ place := le_trans (le_max_left _ _) isFirst.1
    omega

/-- At each step the blocks cover the grid. -/
theorem exists_skewed_iff {n size t : ℤ} (positive : 0 < size) (fits : size ∣ n - 2)
    (start : 0 ≤ t) (place : ℤ) :
    (∃ block, 1 ≤ block ∧ block < n - 1 ∧ size ∣ block - 1 ∧ Skewed n size block t place) ↔
      1 ≤ place ∧ place < n - 1 := by
  constructor
  · rintro ⟨block, above, below, aligned, isBlock⟩
    have whole : block + size ≤ n - 1 :=
      block_add_le below aligned (by rwa [show n - 1 - 1 = n - 2 by omega])
    unfold Skewed blockMin blockMax at isBlock
    refine ⟨le_trans (le_max_left _ _) isBlock.1, ?_⟩
    by_cases last : block = n - size - 1
    · rw [if_pos last] at isBlock
      omega
    · rw [if_neg last] at isBlock
      omega
  · rintro ⟨above, below⟩
    -- The block that would have the place if it had not moved.
    obtain ⟨block, first, aligned, low, high⟩ :=
      exists_block positive (show 1 ≤ place + t by omega)
    by_cases late : n - size - 1 ≤ block
    · have whole : size ≤ n - 2 := Int.le_of_dvd (by omega) fits
      refine ⟨n - size - 1, by omega, by omega, ?_, ?_⟩
      · rw [show n - size - 1 - 1 = n - 2 - size by omega]
        exact Int.dvd_sub fits (Int.dvd_refl size)
      · unfold Skewed blockMin blockMax
        rw [if_pos rfl]
        split <;> omega
    · refine ⟨block, first, by omega, aligned, ?_⟩
      unfold Skewed blockMin blockMax
      rw [if_neg (show block ≠ n - size - 1 by omega)]
      split <;> omega

/-- A range in one dimension that does not move. -/
def Whole (n _ place : ℤ) : Prop := 1 ≤ place ∧ place < n - 1

/-- The blocks of one dimension, one after the other. -/
theorem executes_blocks {n size : ℤ} (positive : 0 < size) (fits : size ∣ n - 2) {timesteps : ℤ}
    {program : ℤ → Arrays α → Option (Arrays α)} (ranges : (ℤ → ℤ → Prop) → Set (Point Cell))
    (coordinate : Cell → ℤ) (rest : Set (Point Cell))
    (mem_ranges : ∀ range point,
      point ∈ ranges range ↔ point ∈ rest ∧ range point.1 (coordinate point.2))
    (precedes : ∀ first second, Leads 0 timesteps first second →
      (scheme kernel grid).Precedes (ranges first) (ranges second))
    (each : ∀ block, (scheme kernel grid).Executes initial (ranges (Skewed n size block))
      (program block)) :
    (scheme kernel grid).Executes initial (ranges (Whole n)) (forLoop size (n - 1) program 1) := by
  refine (executes_forLoop positive (fun block => ranges (Skewed n size block)) 1
    (fun block _ _ _ => each block) ?_).congr ?_
  · intro first second above less below alignedFirst alignedSecond
    exact precedes _ _ (leads_skewed above less below alignedFirst alignedSecond timesteps)
  · ext point
    have covered := exists_skewed_iff positive fits (Int.natCast_nonneg point.1)
      (coordinate point.2)
    rw [mem_ranges]
    constructor
    · rintro ⟨block, above, below, aligned, found⟩
      obtain ⟨isRest, isRange⟩ := (mem_ranges _ point).mp found
      exact ⟨isRest, covered.mp ⟨block, above, below, aligned, isRange⟩⟩
    · rintro ⟨isRest, isWhole⟩
      obtain ⟨block, above, below, aligned, isRange⟩ := covered.mpr isWhole
      exact ⟨block, above, below, aligned, (mem_ranges _ point).mpr ⟨isRest, isRange⟩⟩

/-- The blocks fit into the grid. -/
structure Blocked (grid : Grid) (tx ty tz : ℤ) : Prop where
  positiveX : 0 < tx
  positiveY : 0 < ty
  positiveZ : 0 < tz
  fitsX : tx ∣ grid.nx - 2
  fitsY : ty ∣ grid.ny - 2
  fitsZ : tz ∣ grid.nz - 2

theorem executes_timeskew (positive : 0 < grid.size) {tx ty tz : ℤ}
    (blocked : Blocked grid tx ty tz) (timesteps : ℤ) :
    (scheme kernel grid).Executes initial ((scheme kernel grid).through timesteps.toNat)
      (timeskew kernel grid tx ty tz timesteps) := by
  refine executes_load positive ?_
  have block : ∀ ii jj kk, (scheme kernel grid).Executes initial
      (region 0 timesteps (Skewed grid.nx tx ii) (Skewed grid.ny ty jj) (Skewed grid.nz tz kk))
      (timeLoop timesteps fun t source target =>
        boxLoop (blockMin ii t) (blockMax grid.nx ii tx t) (blockMin jj t)
          (blockMax grid.ny jj ty t) (blockMin kk t) (blockMax grid.nz kk tz t)
          (assign kernel grid (initial false 0) source target)) := by
    intro ii jj kk
    rw [show timeLoop timesteps _ = _ from funext (timeLoop_eq timesteps _)]
    refine (executes_steps le_rfl timesteps
      (fun t source target => boxLoop (blockMin ii t) (blockMax grid.nx ii tx t) (blockMin jj t)
        (blockMax grid.ny jj ty t) (blockMin kk t) (blockMax grid.nz kk tz t)
        (assign kernel grid (initial false 0) source target))
      (fun t => slice t (blockMin ii t) (blockMax grid.nx ii tx t) (blockMin jj t)
        (blockMax grid.ny jj ty t) (blockMin kk t) (blockMax grid.nz kk tz t))
      (fun steps _ _ => executes_boxLoop rfl steps _ _ _ _ _ _)
      fun t point found => found.1).congr ?_
    ext ⟨time, cell⟩
    constructor
    · rintro ⟨t, above, below, -, rfl, inside⟩
      exact ⟨⟨above, below⟩, inside⟩
    · rintro ⟨⟨above, below⟩, inside⟩
      exact ⟨time, above, below, one_dvd _, rfl, inside⟩
  have row : ∀ jj kk, (scheme kernel grid).Executes initial
      (region 0 timesteps (Whole grid.nx) (Skewed grid.ny ty jj) (Skewed grid.nz tz kk)) _ :=
    fun jj kk => executes_blocks blocked.positiveX blocked.fitsX
      (fun xs => region 0 timesteps xs (Skewed grid.ny ty jj) (Skewed grid.nz tz kk)) Cell.x
      (region 0 timesteps (fun _ _ => True) (Skewed grid.ny ty jj) (Skewed grid.nz tz kk))
      (fun _ _ => mem_region_x)
      (fun _ _ leads => precedes_region (Or.inl leads)) fun ii => block ii jj kk
  have plane : ∀ kk, (scheme kernel grid).Executes initial
      (region 0 timesteps (Whole grid.nx) (Whole grid.ny) (Skewed grid.nz tz kk)) _ :=
    fun kk => executes_blocks blocked.positiveY blocked.fitsY
      (fun ys => region 0 timesteps (Whole grid.nx) ys (Skewed grid.nz tz kk)) Cell.y
      (region 0 timesteps (Whole grid.nx) (fun _ _ => True) (Skewed grid.nz tz kk))
      (fun _ _ => mem_region_y)
      (fun _ _ leads => precedes_region (Or.inr (Or.inl leads))) fun jj => row jj kk
  refine (executes_blocks blocked.positiveZ blocked.fitsZ
    (fun zs => region 0 timesteps (Whole grid.nx) (Whole grid.ny) zs) Cell.z
    (region 0 timesteps (Whole grid.nx) (Whole grid.ny) fun _ _ => True)
    (fun _ _ => mem_region_z)
    (fun _ _ leads => precedes_region (Or.inr (Or.inr leads))) plane).congr ?_
  ext ⟨time, cell⟩
  constructor
  · rintro ⟨⟨above, below⟩, inner⟩
    dsimp only at above below
    exact ⟨by dsimp only; omega, inner⟩
  · rintro ⟨early, inner⟩
    dsimp only at early
    exact ⟨⟨by dsimp only; omega, by dsimp only; omega⟩, inner⟩

/-- `probe_heat_timeskew.c` returns what `probe_heat.c` returns when its blocks fit into the grid,
for any number of steps: the limit that its comment states is not needed. -/
theorem timeskew_eq_naive (kernel : α → Seven α → α) {grid : Grid} (positive : 0 < grid.size)
    {tx ty tz : ℤ} (blocked : Blocked grid tx ty tz) (timesteps : ℤ) (arrays : Arrays α) :
    ∃ after, timeskew kernel grid tx ty tz timesteps arrays = some after ∧
      naive kernel grid timesteps arrays = some after :=
  (executes_timeskew positive blocked timesteps).eq (executes_naive positive timesteps)

/-- Seven steps with blocks of two cells. -/
theorem timeskew_many_steps :
    ∃ after, timeskew heat ⟨6, 6, 4⟩ 2 2 1 7 (fun _ address => address) = some after ∧
      naive heat ⟨6, 6, 4⟩ 7 (fun _ address => address) = some after :=
  timeskew_eq_naive heat (by decide)
    ⟨by decide, by decide, by decide, by decide, by decide, by decide⟩ 7 fun _ address => address

end ClusterJobs.StencilProbe
