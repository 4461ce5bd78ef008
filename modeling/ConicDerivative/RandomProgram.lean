import ConicDerivative.Program
import ConicDerivative.Projection.Arrays

/-!
Random programs with a known solution. A random vector, split into its projection and the rest,
gives a complementary pair; the number of variables is the number of equations that the faces around
the pair put on them, and the data are chosen so that the pair is optimal.
-/

namespace ConicDerivative

variable {α : Type} [Scalar α] [EigenSolver α] {n : Nat}

/--
The equations that a block puts on the solution, given the rows of `z` in the block. A row of
several numbers counts by its norm, but the first row of a second-order cone must be a single number.
-/
def Block.conditionsOn (block : Block) (rows : Tensor α) : Outcome α Int :=
  match block.kind with
  | .cone .zero => return block.size
  | .cone .nonnegative => return rows.entries.toList.countP fun v => decide (v < 0)
  | .cone .secondOrder =>
    match rows.shape, SecondOrder.regionOf? rows.entries with
    | 0 :: _, _ => throw (.invalid .index)
    | _ :: further, some region =>
      if Tensor.count further ≠ 1 then throw (.invalid .value)
      else match region with
        | .polar => return block.size
        | .between => return 1
        | .inside => return 0
    | _, _ => throw (.invalid .value)
  | .cone .semidefinite => do
    let X ← Packed.ofTensor rows block.dim
    if square : X.rows = X.cols then
      match EigenSolver.decompose (square ▸ X.value) with
      | none => throw (.invalid .linearAlgebra)
      | some eigen =>
        let rank := eigen.values.toList.countP fun l => decide (0 < l)
        return block.size - (← packedSize rank)
    else throw (.invalid .linearAlgebra)
  | .cone .free | .other _ | .literal _ | .unnamed => return 0

def Block.conditionCount (block : Block) (z : Vector α n) : Outcome α Int :=
  block.conditionsOn (.ofVector (Vec.slice z (block.span n)))

def conditionCount (blocks : List Block) (z : Vector α n) : Outcome α Int :=
  blocks.foldlM (fun count block => do return count + (← block.conditionCount z)) 0

def conditionCountOf (blocks : List Block) (z : Tensor α) : Outcome α Int :=
  blocks.foldlM
    (fun count block => do return count + (← block.conditionsOn (← block.rowsOf z))) 0

/-- A program with its solution, and the number of draws that went into it. -/
structure RandomProgram (α : Type) (m n : Nat) where
  A : Sparse α m n
  b : Vector α m
  c : Vector α n
  point : Point α m n
  used : Nat

namespace RandomProgram

def ofDraws {m : Nat} (blocks : List Block) (n : Nat) (z : Vector α m) (draw : Nat → α)
    (used : Nat) : Outcome α (RandomProgram α m n) := do
  let s ← ProductCone.project blocks z false
  let y := s - z
  let A := Sparse.ofMat (Mat.ofFn fun (i : Fin m) (j : Fin n) => draw (used + i * n + j))
  let x : Vector α n := Vector.ofFn fun j => draw (used + m * n + j)
  return {
    A, point := ⟨x, y, s⟩, used := used + m * n + n
    b := A.mulVec x + s
    c := -(A.transposeMulVec y) }

def draw (blocks : List Block) (m : Nat) (numbers : Nat → α) :
    Nat → Nat → Outcome α (Sized (RandomProgram α))
  | 0, _ => .error .noVariable
  | tries + 1, used => do
    let z : Vector α m := Vector.ofFn fun i => numbers (used + i)
    let count ← conditionCount blocks z
    if 0 < count then return ⟨← ofDraws blocks count.toNat z numbers (used + m)⟩
    else draw blocks m numbers tries (used + m)

def ofTable (cones : ConeTable) (tries : Int) (numbers : Nat → α) :
    Outcome α (Sized (RandomProgram α)) := do
  let blocks ← cones.blocks
  let rows := blocks.foldl (fun rows block => rows + block.size) 0
  draw blocks rows.toNat numbers tries.toNat 0

end RandomProgram

end ConicDerivative
