import ConicDerivative.Axes
import ConicDerivative.Projection

/-!
Projections of arrays of any shape. The cones of rows take each entry by itself. The second-order
cone takes a single column as a vector, and the semidefinite cone an array whose entries all lie
along its last axis. A product cone divides an array along its first axis.
-/

namespace ConicDerivative

open Scalar

variable {α : Type} [Scalar α] [EigenSolver α]

namespace SecondOrder

def entriesOf (t : Tensor α) : Outcome α (Tensor.Column α) :=
  match t.shape with
  | [] | 0 :: _ => .error (.invalid .index)
  | [_] => .ok t.flat
  | [rows, 1] =>
    if rows = 1 then .error (.invalid .value)
    else if t.entries.toList.tail.any isNaN then .error (.invalid .linearAlgebra)
    else .ok t.flat
  | _ => .error (.invalid .value)

/-- A column that lies neither inside the cone nor in its polar is returned as a vector. -/
def projectTensor (t : Tensor α) : Outcome α (Tensor α) := do
  let x ← entriesOf t
  let projection ← (Cone.secondOrder.project x.entries : Outcome α _)
  if regionOf? x.entries = some .between then return .ofVector projection
  else return (Tensor.ofShape? t.shape projection.toList).getD (.ofVector projection)

/-- The entries at which there is a derivative; between the cones a column has at most two rows. -/
def differentiableAt (t : Tensor α) : Outcome α (Tensor.Column α) := do
  let x ← entriesOf t
  if 1 < t.shape.length && 2 < x.size && regionOf? x.entries = some .between then
    throw (.invalid .value)
  return x

end SecondOrder

namespace Semidefinite

def entriesOf (t : Tensor α) : Outcome α (Tensor.Column α) :=
  let size := Packed.triangle (packedSide t.entries.toList.length)
  match Packed.broadcast? t size with
  | some x => .ok ⟨x⟩
  | none => .error (.invalid .value)

end Semidefinite

def Tensor.diagonal (t : Tensor α) : Outcome α (Tensor.Column α) :=
  match t.shape with
  | [] => .error (.invalid .type)
  | [_] | 0 :: _ => .ok t.flat
  | _ => .error (.invalid .value)

namespace Cone

def projectTensor (cone : Cone) (t : Tensor α) : Outcome α (Tensor α) :=
  match cone with
  | zero => .ok ⟨t.shape, Vector.replicate _ 0⟩
  | free => .ok t
  | nonnegative => .ok ⟨t.shape, t.entries.map positivePart⟩
  | secondOrder => SecondOrder.projectTensor t
  | semidefinite => do
    let x ← Semidefinite.entriesOf t
    return .ofVector (← semidefinite.project x.entries)

def vectorOf (cone : Cone) (t : Tensor α) : Outcome α (Tensor.Column α) :=
  match cone with
  | zero | free => .ok t.flat
  | nonnegative => t.diagonal
  | secondOrder => SecondOrder.differentiableAt t
  | semidefinite => Semidefinite.entriesOf t

def derivativeAt (cone : Cone) (t : Tensor α) : Outcome α (Sized (Operator α)) := do
  return ⟨← cone.derivative (← cone.vectorOf t).entries⟩

def derivativeMatrixAt (cone : Cone) (t : Tensor α) : Outcome α (Sized (Sparse α)) := do
  return ⟨← cone.derivativeMatrix (← cone.vectorOf t).entries⟩

end Cone

def Block.rowsOf (block : Block) (t : Tensor α) : Outcome α (Tensor α) :=
  (t.slice? block.start block.stop).elim (.error (.invalid .index)) .ok

namespace ProductCone

def projectTensor (blocks : List Block) (t : Tensor α) (dual : Bool) : Outcome α (Tensor α) :=
  blocks.foldlM
    (fun projection block => do
      let rows ← block.rowsOf t
      let cone ← block.kind.target dual
      let part ← cone.projectTensor rows
      (projection.overwrite? block.start block.stop part).elim (.error (.invalid .value)) .ok)
    ⟨t.shape, Vector.replicate _ 0⟩

def derivativeAt (blocks : List Block) (t : Tensor α) (dual : Bool) :
    Outcome α (Sized (Operator α)) := do
  let parts ← blocks.mapM fun block => do
    let rows ← block.rowsOf t
    (← block.kind.target dual).derivativeAt rows
  return Operator.blockDiagonal parts

def derivativeMatrixAt (blocks : List Block) (t : Tensor α) (dual : Bool) :
    Outcome α (Sized (Sparse α)) := do
  let parts ← blocks.mapM fun block => do
    let rows ← block.rowsOf t
    (← block.kind.target dual).derivativeMatrixAt rows
  return Sparse.blockDiagonal parts

end ProductCone

end ConicDerivative
