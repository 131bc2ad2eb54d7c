/-
This file models the stencil probes that are among the applications
(`stencilprobe_bench/probe_heat*.c`).

They all do the same: a number of steps of the heat equation on a grid, in two arrays that are
swapped after each step. `probe_heat.c` does it in the plain order. `probe_heat_blocked.c` goes
through each step block by block, `probe_heat_timeskew.c` does all steps of a block before the next
block, with blocks that move with the steps, and `probe_heat_oblivious.c` cuts space and time
recursively. `probe_heat_circqueue.c` does all steps for a slab of rows, and keeps the values
between the steps in queues of three planes each.

The values are of any type with the operations that are used. An access outside of the arrays, a
loop without an end and an `int` that overflows have no result.

An index is not checked. Where an `int` can count the values of the grid, all that is computed for
an index within the grid is below their number. Nor are the counters of `probe_heat.c` and of
`probe_heat_timeskew.c`: with blocks that fit into such a grid their sizes stay below the sizes of
the grid and the number of steps. But the blocks of `probe_heat_blocked.c` may reach beyond the
grid, `probe_heat_oblivious.c` computes with multiples of the sizes and of the number of steps, and
`probe_heat_circqueue.c` adds them.
-/

import ClusterJobs.SpaceTime
import Mathlib.Algebra.Order.Ring.Int

namespace ClusterJobs.StencilProbe

open SpaceTime

variable {α : Type}

/-- What an `int` can be. -/
def IsInt (value : ℤ) : Prop := -2147483648 ≤ value ∧ value ≤ 2147483647

instance (value : ℤ) : Decidable (IsInt value) := inferInstanceAs (Decidable (_ ∧ _))

/-- A program that goes on after some computations with `int`. -/
def checked {State : Type} (values : List ℤ) (program : State → Option State) (state : State) :
    Option State :=
  if ∀ value ∈ values, IsInt value then program state else none

structure Grid where
  nx : ℤ
  ny : ℤ
  nz : ℤ

/-- `Index3D`. -/
def index3D (nx ny i j k : ℤ) : ℤ := i + nx * (j + ny * k)

namespace Grid

/-- The number of values in each array. -/
def size (grid : Grid) : ℤ := grid.nx * grid.ny * grid.nz

def index (grid : Grid) (i j k : ℤ) : ℤ := index3D grid.nx grid.ny i j k

end Grid

/-- The arrays that `main` allocates: `A0` is `false`, `Anext` is `true`. -/
abbrev Arrays (α : Type) := Buffers ℤ α

def load (grid : Grid) (array : ℤ → α) (address : ℤ) : Option α :=
  if 0 ≤ address ∧ address < grid.size then some (array address) else none

def store (grid : Grid) (target : Bool) (address : ℤ) (value : α) (arrays : Arrays α) :
    Option (Arrays α) :=
  if 0 ≤ address ∧ address < grid.size then
    some (Function.update arrays target (Function.update (arrays target) address value))
  else none

/-! ### One value -/

/-- The seven values that are read. -/
structure Seven (α : Type) where
  above : α
  below : α
  back : α
  front : α
  right : α
  left : α
  centre : α

/-- A value with those around it. -/
def seven (grid : Grid) (array : ℤ → α) (i j k : ℤ) : Option (Seven α) :=
  (load grid array (grid.index i j (k + 1))).bind fun above =>
  (load grid array (grid.index i j (k - 1))).bind fun below =>
  (load grid array (grid.index i (j + 1) k)).bind fun back =>
  (load grid array (grid.index i (j - 1) k)).bind fun front =>
  (load grid array (grid.index (i + 1) j k)).bind fun right =>
  (load grid array (grid.index (i - 1) j k)).bind fun left =>
  (load grid array (grid.index i j k)).map fun centre =>
    ⟨above, below, back, front, right, left, centre⟩

section Kernels

variable [Add α] [Sub α] [Mul α] [Div α] [OfNat α 6]

/-- The new value in `probe_heat.c`, `probe_heat_blocked.c` and `probe_heat_timeskew.c`. -/
def heat (fac : α) (values : Seven α) : α :=
  values.above + values.below + values.back + values.front + values.right + values.left -
    6 * values.centre / (fac * fac)

/-- The new value in `probe_heat_circqueue.c`: the same in another order. -/
def queueHeat (fac : α) (values : Seven α) : α :=
  values.below + values.above + values.front + values.left + values.right + values.back -
    6 * values.centre / (fac * fac)

/-- The new value in `probe_heat_oblivious.c`: here the whole sum is divided. -/
def obliviousHeat (fac : α) (values : Seven α) : α :=
  (values.right + values.left + values.back + values.front + values.above + values.below -
    6 * values.centre) / (fac * fac)

end Kernels

/-- The assignment in the innermost loop. -/
def assign (kernel : α → Seven α → α) (grid : Grid) (fac : α) (source target : Bool) (i j k : ℤ)
    (arrays : Arrays α) : Option (Arrays α) :=
  (seven grid (arrays source) i j k).bind fun values =>
    store grid target (grid.index i j k) (kernel fac values) arrays

/-! ### The probes -/

/-- The arrays, and the pointers to them that are swapped. -/
structure Swapped (α : Type) where
  arrays : Arrays α
  source : Bool := false
  target : Bool := true

/-- A step, and then the pointers are swapped. -/
def Swapped.step (sweep : Bool → Bool → Arrays α → Option (Arrays α)) (swapped : Swapped α) :
    Option (Swapped α) :=
  (sweep swapped.source swapped.target swapped.arrays).map fun arrays =>
    ⟨arrays, swapped.target, swapped.source⟩

/-- The loop over the steps. -/
def timeLoop (timesteps : ℤ) (sweep : ℤ → Bool → Bool → Arrays α → Option (Arrays α))
    (arrays : Arrays α) : Option (Arrays α) :=
  (forLoop 1 timesteps (fun t => Swapped.step (sweep t)) 0 { arrays := arrays }).map
    Swapped.arrays

/-- `StencilProbe` of `probe_heat.c`. -/
def naive (kernel : α → Seven α → α) (grid : Grid) (timesteps : ℤ) (arrays : Arrays α) :
    Option (Arrays α) :=
  (load grid (arrays false) 0).bind fun fac =>
    timeLoop timesteps (fun _ source target =>
      forLoop 1 (grid.nz - 1) (fun k =>
        forLoop 1 (grid.ny - 1) (fun j =>
          forLoop 1 (grid.nx - 1) (fun i => assign kernel grid fac source target i j k) 1) 1) 1)
      arrays

/-- `StencilProbe` of `probe_heat_blocked.c`. -/
def rivera (kernel : α → Seven α → α) (grid : Grid) (tx ty timesteps : ℤ) (arrays : Arrays α) :
    Option (Arrays α) :=
  (load grid (arrays false) 0).bind fun fac =>
    timeLoop timesteps (fun _ source target =>
      forLoop ty (grid.ny - 1) (fun jj => checked [jj + ty] <|
        forLoop tx (grid.nx - 1) (fun ii => checked [ii + tx] <|
          forLoop 1 (grid.nz - 1) (fun k =>
            forLoop 1 (min (jj + ty) (grid.ny - 1)) (fun j =>
              forLoop 1 (min (ii + tx) (grid.nx - 1)) (fun i =>
                assign kernel grid fac source target i j k) ii) jj) 1) 1) 1)
      arrays

/-- Where a block begins at a step: `neg_slope` is 0 for the first block. -/
def blockMin (block t : ℤ) : ℤ := max 1 (block - t * if block = 1 then 0 else 1)

/-- Where it ends: `pos_slope` is 0 for the last block. -/
def blockMax (n block size t : ℤ) : ℤ :=
  max 1 (block + size + t * if block = n - size - 1 then 0 else -1)

/-- `StencilProbe` of `probe_heat_timeskew.c`. -/
def timeskew (kernel : α → Seven α → α) (grid : Grid) (tx ty tz timesteps : ℤ) (arrays : Arrays α) :
    Option (Arrays α) :=
  (load grid (arrays false) 0).bind fun fac =>
    forLoop tz (grid.nz - 1) (fun kk =>
      forLoop ty (grid.ny - 1) (fun jj =>
        forLoop tx (grid.nx - 1) (fun ii =>
          timeLoop timesteps (fun t source target =>
            forLoop 1 (blockMax grid.nz kk tz t) (fun k =>
              forLoop 1 (blockMax grid.ny jj ty t) (fun j =>
                forLoop 1 (blockMax grid.nx ii tx t) (fun i =>
                  assign kernel grid fac source target i j k)
                (blockMin ii t)) (blockMin jj t)) (blockMin kk t))) 1) 1) 1 arrays

/-- The extent of a trapezoid in one dimension, as the arguments `x0`, `dx0`, `x1` and `dx1`. -/
structure Extent where
  low : ℤ
  lowSlope : ℤ
  high : ℤ
  highSlope : ℤ

namespace Extent

/-- The width at the first step. -/
def width (extent : Extent) : ℤ := extent.high - extent.low

/-- The extent some steps later. -/
def later (extent : Extent) (steps : ℤ) : Extent :=
  { extent with
    low := extent.low + extent.lowSlope * steps
    high := extent.high + extent.highSlope * steps }

/-- The test for a cut in space, with `ds = 1`. -/
def IsWide (extent : Extent) (dt : ℤ) : Prop :=
  2 * (extent.high - extent.low) + (extent.highSlope - extent.lowSlope) * dt ≥ 4 * dt

instance (extent : Extent) (dt : ℤ) : Decidable (extent.IsWide dt) :=
  inferInstanceAs (Decidable (_ ≥ _))

/-- Where the cut is. -/
def middle (extent : Extent) (dt : ℤ) : ℤ :=
  (2 * (extent.low + extent.high) + (2 + extent.lowSlope + extent.highSlope) * dt).tdiv 4

def lower (extent : Extent) (dt : ℤ) : Extent :=
  { extent with high := extent.middle dt, highSlope := -1 }

def upper (extent : Extent) (dt : ℤ) : Extent :=
  { extent with low := extent.middle dt, lowSlope := -1 }

/-- What is computed for `later`. -/
def laterInts (extent : Extent) (steps : ℤ) : List ℤ :=
  [steps, extent.lowSlope * steps, extent.low + extent.lowSlope * steps, extent.highSlope * steps,
    extent.high + extent.highSlope * steps]

/-- What is computed for `IsWide`. -/
def wideInts (extent : Extent) (dt : ℤ) : List ℤ :=
  [extent.high - extent.low, 2 * (extent.high - extent.low), extent.highSlope - extent.lowSlope,
    (extent.highSlope - extent.lowSlope) * dt,
    2 * (extent.high - extent.low) + (extent.highSlope - extent.lowSlope) * dt, 4 * dt]

/-- What is computed for `middle`. -/
def middleInts (extent : Extent) (dt : ℤ) : List ℤ :=
  [extent.low + extent.high, 2 * (extent.low + extent.high), 2 + extent.lowSlope,
    2 + extent.lowSlope + extent.highSlope, (2 + extent.lowSlope + extent.highSlope) * dt,
    2 * (extent.low + extent.high) + (2 + extent.lowSlope + extent.highSlope) * dt]

end Extent

/-- `CUTOFF`. -/
def cutoff : ℤ := 4096

/-- The array of a step: `A[t % 2]`. -/
def parity (t : ℤ) : Bool := decide (t % 2 = 1)

/-- A trapezoid, step by step. -/
def walkBase (kernel : α → Seven α → α) (grid : Grid) (t0 t1 : ℤ) (x y z : Extent)
    (arrays : Arrays α) : Option (Arrays α) :=
  (load grid (arrays false) 0).bind fun fac =>
    forLoop 1 t1 (fun t => checked (z.laterInts (t - t0)) <|
      forLoop 1 (z.high + (t - t0) * z.highSlope) (fun k => checked (y.laterInts (t - t0)) <|
        forLoop 1 (y.high + (t - t0) * y.highSlope) (fun j => checked (x.laterInts (t - t0)) <|
          forLoop 1 (x.high + (t - t0) * x.highSlope) (fun i =>
            assign kernel grid fac (parity t) (parity (t + 1)) i j k)
          (x.low + (t - t0) * x.lowSlope)) (y.low + (t - t0) * y.lowSlope))
        (z.low + (t - t0) * z.lowSlope)) t0 arrays

/-- What is computed in a call of `walk3`, before the base case and for its own calls. -/
def walkInts (t0 t1 : ℤ) (x y z : Extent) : List ℤ :=
  let dt := t1 - t0
  dt :: if dt = 1 then [] else
    [x.width, y.width, x.width * y.width, z.width, x.width * y.width * z.width] ++
      if x.width * y.width * z.width < cutoff ∨ ¬ dt > 1 then []
      else z.wideInts dt ++
        if z.IsWide dt then z.middleInts dt
        else y.wideInts dt ++
          if y.IsWide dt then y.middleInts dt
          else
            let s := dt.tdiv 2
            (t0 + s) :: (x.laterInts s ++ y.laterInts s ++ z.laterInts s)

/-- `walk3`, with a bound on the depth of the recursion. -/
def walk3 (kernel : α → Seven α → α) (grid : Grid) :
    ℕ → ℤ → ℤ → Extent → Extent → Extent → Arrays α → Option (Arrays α)
  | 0, _, _, _, _, _, _ => none
  | depth + 1, t0, t1, x, y, z, arrays =>
    let dt := t1 - t0
    if ¬ ∀ value ∈ walkInts t0 t1 x y z, IsInt value then none
    else if dt = 1 ∨ x.width * y.width * z.width < cutoff then
      walkBase kernel grid t0 t1 x y z arrays
    else if dt > 1 then
      if z.IsWide dt then
        (walk3 kernel grid depth t0 t1 x y (z.lower dt) arrays).bind
          (walk3 kernel grid depth t0 t1 x y (z.upper dt))
      else if y.IsWide dt then
        (walk3 kernel grid depth t0 t1 x (y.lower dt) z arrays).bind
          (walk3 kernel grid depth t0 t1 x (y.upper dt) z)
      else
        let s := dt.tdiv 2
        (walk3 kernel grid depth t0 (t0 + s) x y z arrays).bind
          (walk3 kernel grid depth (t0 + s) t1 (x.later s) (y.later s) (z.later s))
    else some arrays

/-- `StencilProbe` of `probe_heat_oblivious.c`. -/
def oblivious (kernel : α → Seven α → α) (grid : Grid) (depth : ℕ) (timesteps : ℤ)
    (arrays : Arrays α) : Option (Arrays α) :=
  walk3 kernel grid depth 0 timesteps ⟨1, 0, grid.nx - 1, 0⟩ ⟨1, 0, grid.ny - 1, 0⟩
    ⟨1, 0, grid.nz - 1, 0⟩ arrays

/-! ### Circular queues -/

/-- What `malloc` has returned: the two arrays and the queues. -/
inductive Block
  | a0
  | anext
  | queuePlanes
  deriving DecidableEq

structure Pointer where
  block : Block
  offset : ℤ
  deriving DecidableEq

/-- `&pointer[n]`. -/
def Pointer.at (pointer : Pointer) (n : ℤ) : Pointer :=
  { pointer with offset := pointer.offset + n }

abbrev Memory (α : Type) := Pointer → α

/-- `queuePlanesIndices`, and `queuePlanesIndexPtr` after the loop: the number of values in each of
the three parts of `queuePlanes`. -/
structure Layout where
  queuePlanesIndices : List ℤ
  queuePlanesIndexPtr : ℤ

/-- `CircularQueueInit`. The program exits when there is no memory for the queues. -/
def circularQueueInit (nx ty timesteps : ℤ) : Option Layout :=
  (forLoop 1 timesteps (fun t (layout : Layout) =>
    let numPointsInQueuePlane := (ty + 2 * (timesteps - t)) * nx
    let queuePlanesIndexPtr := layout.queuePlanesIndexPtr + numPointsInQueuePlane
    if ∀ value ∈ [2 * (timesteps - t), ty + 2 * (timesteps - t), numPointsInQueuePlane,
        queuePlanesIndexPtr], IsInt value then
      some ⟨layout.queuePlanesIndices ++ [layout.queuePlanesIndexPtr], queuePlanesIndexPtr⟩
    else none) 1 ⟨[], 0⟩).bind fun layout =>
      if 0 ≤ layout.queuePlanesIndexPtr ∧ IsInt (3 * layout.queuePlanesIndexPtr) then some layout
      else none

namespace Layout

variable (layout : Layout)

/-- `queuePlanesIndices[t]`. -/
def index (t : ℤ) : Option ℤ := if 0 ≤ t then layout.queuePlanesIndices[t.toNat]? else none

def Valid (grid : Grid) (pointer : Pointer) : Prop :=
  0 ≤ pointer.offset ∧ pointer.offset < match pointer.block with
    | .a0 => grid.size
    | .anext => grid.size
    | .queuePlanes => 3 * layout.queuePlanesIndexPtr

instance (grid : Grid) (pointer : Pointer) : Decidable (layout.Valid grid pointer) :=
  inferInstanceAs (Decidable (_ ∧ _))

def read (grid : Grid) (memory : Memory α) (pointer : Pointer) : Option α :=
  if layout.Valid grid pointer then some (memory pointer) else none

def write (grid : Grid) (pointer : Pointer) (value : α) (memory : Memory α) :
    Option (Memory α) :=
  if layout.Valid grid pointer then some (Function.update memory pointer value) else none

end Layout

/-- The edges of the rows that are written at a step. -/
structure Edges where
  writeBlockMin : ℤ
  writeBlockMax : ℤ
  writeBlockRealMin : ℤ
  writeBlockRealMax : ℤ

def edges (grid : Grid) (ty timesteps s t : ℤ) : Edges :=
  let low := s * ty - (timesteps - t) + 2
  let high := (s + 1) * ty + (timesteps - t)
  { writeBlockMin := if low < 1 then 0 else low
    writeBlockMax := if high > grid.ny - 1 then grid.ny else high
    writeBlockRealMin := if low < 1 then 1 else low
    writeBlockRealMax := if high > grid.ny - 1 then grid.ny - 1 else high }

/-- What is computed for `edges`. -/
def edgesInts (ty timesteps s t : ℤ) : List ℤ :=
  [s * ty, s * ty - (timesteps - t), s * ty - (timesteps - t) + 2, (s + 1) * ty,
    (s + 1) * ty + (timesteps - t)]

/-- The memory, and the three pointers into `queuePlanes` that revolve. -/
structure Queues (α : Type) where
  memory : Memory α
  queuePlane0 : ℤ
  queuePlane1 : ℤ
  queuePlane2 : ℤ

/-- The pointers that a step reads from and writes to. -/
structure Pass where
  readQueuePlane0 : Pointer
  readQueuePlane1 : Pointer
  readQueuePlane2 : Pointer
  writeQueuePlane : Pointer
  readOffset : ℤ
  writeOffset : ℤ

/-- One of the planes to read from: for the first step a plane of `A0`, then one of a queue. -/
def readQueuePlane (grid : Grid) (layout : Layout) (plane k t : ℤ) : Option Pointer :=
  if t = 0 then some ⟨.a0, grid.index 0 0 k⟩
  else (layout.index (t - 1)).map fun index => ⟨.queuePlanes, plane + index⟩

/-- How the pointers are set. At the bottom and at the top a plane of `A0` is read instead, with the
same offset. -/
def pass (grid : Grid) (layout : Layout) (ty timesteps s k t : ℤ) (queues : Queues α) :
    Option Pass :=
  let writeBlockMin := (edges grid ty timesteps s t).writeBlockMin
  (readQueuePlane grid layout queues.queuePlane0 (k - 1) t).bind fun plane0 =>
  (readQueuePlane grid layout queues.queuePlane1 k t).bind fun plane1 =>
  (readQueuePlane grid layout queues.queuePlane2 (k + 1) t).bind fun plane2 =>
  (if t = timesteps - 1 then some (⟨.anext, 0⟩, 0)
    else (layout.index t).map fun index => (⟨.queuePlanes, queues.queuePlane2 + index⟩,
      grid.index 0 writeBlockMin (k - t))).map fun (target : Pointer × ℤ) =>
    { readQueuePlane0 := if k = t + 1 then ⟨.a0, 0⟩ else plane0
      readQueuePlane1 := plane1
      readQueuePlane2 := if k = grid.nz + t - 2 then ⟨.a0, grid.index 0 0 (grid.nz - 1)⟩ else plane2
      writeQueuePlane := target.1
      readOffset := if writeBlockMin = 0 ∨ t = 0 then grid.index 0 0 (k - t)
        else grid.index 0 (writeBlockMin - 1) (k - t)
      writeOffset := target.2 }

section Pass

variable (grid : Grid) (layout : Layout) (pass : Pass)

/-- A ghost cell is copied. -/
def copyGhost (i j z : ℤ) (memory : Memory α) : Option (Memory α) :=
  (layout.read grid memory (pass.readQueuePlane1.at (grid.index i j z - pass.readOffset))).bind
    fun value => layout.write grid
      (pass.writeQueuePlane.at (grid.index i j z - pass.writeOffset)) value memory

/-- The ghost cells of a plane are copied: at both ends of each row, and a whole row at the edge of
the grid. -/
def copyGhosts (edges : Edges) (z : ℤ) (memory : Memory α) : Option (Memory α) :=
  (forLoop 1 (edges.writeBlockMax - 1) (fun j memory =>
    (copyGhost grid layout pass 0 j z memory).bind
      (copyGhost grid layout pass (grid.nx - 1) j z)) (edges.writeBlockMin + 1) memory).bind
    fun memory =>
  (if edges.writeBlockMin = 0 then
    forLoop 1 (grid.nx - 1) (fun i => copyGhost grid layout pass i edges.writeBlockMin z) 1 memory
    else some memory).bind fun memory =>
  if edges.writeBlockMax = grid.ny then
    forLoop 1 (grid.nx - 1) (fun i => copyGhost grid layout pass i edges.writeBlockRealMax z) 1
      memory
  else some memory

/-- The actual calculation. -/
def calculate (kernel : α → Seven α → α) (fac : α) (i j z : ℤ) (memory : Memory α) :
    Option (Memory α) :=
  let read := fun (plane : Pointer) i j =>
    layout.read grid memory (plane.at (grid.index i j z - pass.readOffset))
  (read pass.readQueuePlane0 i j).bind fun below =>
  (read pass.readQueuePlane2 i j).bind fun above =>
  (read pass.readQueuePlane1 i (j - 1)).bind fun front =>
  (read pass.readQueuePlane1 (i - 1) j).bind fun left =>
  (read pass.readQueuePlane1 (i + 1) j).bind fun right =>
  (read pass.readQueuePlane1 i (j + 1)).bind fun back =>
  (read pass.readQueuePlane1 i j).bind fun centre =>
    layout.write grid (pass.writeQueuePlane.at (grid.index i j z - pass.writeOffset))
      (kernel fac ⟨above, below, back, front, right, left, centre⟩) memory

def calculateAll (kernel : α → Seven α → α) (fac : α) (edges : Edges) (z : ℤ)
    (memory : Memory α) : Option (Memory α) :=
  forLoop 1 edges.writeBlockRealMax (fun j =>
    forLoop 1 (grid.nx - 1) (fun i => calculate grid layout pass kernel fac i j z) 1)
    edges.writeBlockRealMin memory

end Pass

/-- The body of the loop over the steps. -/
def queueStep (kernel : α → Seven α → α) (grid : Grid) (layout : Layout) (fac : α)
    (ty timesteps s k t : ℤ) (queues : Queues α) : Option (Queues α) :=
  if k > t ∧ k < grid.nz + t - 1 then
    if ∀ value ∈ edgesInts ty timesteps s t, IsInt value then
      (pass grid layout ty timesteps s k t queues).bind fun pass =>
        let edges := edges grid ty timesteps s t
        ((if t < timesteps - 1 then copyGhosts grid layout pass edges (k - t) queues.memory
          else some queues.memory).bind
          (calculateAll grid layout pass kernel fac edges (k - t))).map fun memory =>
            { queues with memory := memory }
    else none
  else some queues

def Queues.revolve (queues : Queues α) : Queues α :=
  { queues with
    queuePlane0 := queues.queuePlane1
    queuePlane1 := queues.queuePlane2
    queuePlane2 := queues.queuePlane0 }

/-- The body of the loop over the planes. The test after the inner loop is on its counter. -/
def queueRound (kernel : α → Seven α → α) (grid : Grid) (layout : Layout) (fac : α)
    (ty timesteps s k : ℤ) (queues : Queues α) : Option (Queues α) :=
  (forLoop 1 timesteps (queueStep kernel grid layout fac ty timesteps s k) 0 queues).map
    fun queues => if max 0 timesteps > 0 then queues.revolve else queues

/-- The memory before the probe. The queues have not been initialised. -/
def startMemory (arrays : Arrays α) (queuePlanes : ℤ → α) : Memory α := fun pointer =>
  match pointer.block with
  | .a0 => arrays false pointer.offset
  | .anext => arrays true pointer.offset
  | .queuePlanes => queuePlanes pointer.offset

def Queues.arrays (queues : Queues α) : Arrays α := fun buffer address =>
  queues.memory ⟨if buffer then .anext else .a0, address⟩

/-- `StencilProbe` of `probe_heat_circqueue.c`, after `CircularQueueInit`. -/
def circqueue (kernel : α → Seven α → α) (grid : Grid) (ty timesteps : ℤ) (queuePlanes : ℤ → α)
    (arrays : Arrays α) : Option (Arrays α) :=
  (circularQueueInit grid.nx ty timesteps).bind fun layout =>
  (load grid (arrays false) 0).bind fun fac =>
  if ty = 0 then none else
    (forLoop 1 ((grid.ny - 2).tdiv ty) (fun s => checked [grid.nz + timesteps] <|
      forLoop 1 (grid.nz + timesteps - 2) (queueRound kernel grid layout fac ty timesteps s) 1) 0
      { memory := startMemory arrays queuePlanes
        queuePlane0 := 0
        queuePlane1 := layout.queuePlanesIndexPtr
        queuePlane2 := 2 * layout.queuePlanesIndexPtr }).map Queues.arrays

end ClusterJobs.StencilProbe
