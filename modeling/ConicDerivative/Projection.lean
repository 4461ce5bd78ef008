import ConicDerivative.SecondOrder
import ConicDerivative.Semidefinite

/-!
Projections onto cones, their duals and products of them, and the derivatives of the projections.
The derivative of a product is block diagonal; it is given as a linear map that assembles nothing,
and as a sparse matrix.
-/

namespace ConicDerivative

open Scalar

variable {α : Type} [Scalar α] [EigenSolver α] {k n : Nat}

/-- The cone that is projected onto: that of the block, or its dual. -/
def Kind.target (kind : Kind) (dual : Bool) : Except LayoutError Cone :=
  match kind with
  | .cone c => .ok (if dual then c.dual else c)
  | kind => .error (.unsupported kind)

namespace Cone

def project (cone : Cone) (x : Vector α k) : Outcome α (Vector α k) :=
  match cone, k, x with
  | zero, k, _ => .ok (Vector.replicate k 0)
  | free, _, x => .ok x
  | nonnegative, _, x => .ok (x.map positivePart)
  | secondOrder, 0, _ => .error (.invalid .index)
  | secondOrder, _ + 1, x => .ok (SecondOrder.project x)
  | semidefinite, _, x => do
    let ⟨eigen, size_eq⟩ ← Semidefinite.decompose x
    return (Semidefinite.project eigen).cast size_eq.symm

/-- The diagonal matrix of ones and zeros where `keep` tells which cells are ones. -/
def mask (keep : Vector Bool k) : Sparse α k k :=
  ⟨Vector.ofFn fun j => if keep j then [(j, 1)] else []⟩

def derivative (cone : Cone) (x : Vector α k) : Outcome α (Operator α k k) :=
  match cone, k, x with
  | zero, k, _ => .ok (.ofSparse (mask (Vector.replicate k false)))
  | free, k, _ => .ok (.ofSparse (mask (Vector.replicate k true)))
  | nonnegative, _, x => .ok (.ofSparse (mask (x.map fun v => decide (0 < v))))
  | secondOrder, 0, _ => .error (.invalid .index)
  | secondOrder, _ + 1, x => .ok (.ofMat (SecondOrder.derivative x))
  | semidefinite, _, x => do
    let ⟨eigen, size_eq⟩ ← Semidefinite.decompose x
    let apply dx := (Semidefinite.derivative eigen (dx.cast size_eq)).cast size_eq.symm
    return ⟨apply, apply⟩

/-- The derivative of the projection as a matrix. An empty semidefinite block has none. -/
def derivativeMatrix (cone : Cone) (x : Vector α k) : Outcome α (Sparse α k k) :=
  match cone, k, x with
  | zero, k, _ => .ok (mask (Vector.replicate k false))
  | free, k, _ => .ok (mask (Vector.replicate k true))
  | nonnegative, _, x => .ok (mask (x.map fun v => decide (0 < v)))
  | secondOrder, 0, _ => .error (.invalid .index)
  | secondOrder, _ + 1, x => .ok (.ofMat (SecondOrder.derivative x))
  | semidefinite, k, x => do
    let map ← derivative semidefinite x
    if k = 0 then throw (.invalid .value)
    return .ofMat map.toMat

end Cone

namespace Block

def span (block : Block) (n : Nat) : Vec.Span n := .between n block.start block.stop

def project (block : Block) (x : Vector α n) (dual : Bool) :
    Outcome α (Vector α (block.span n).size) := do
  let cone ← block.kind.target dual
  cone.project (Vec.slice x (block.span n))

def derivative (block : Block) (x : Vector α n) (dual : Bool) :
    Outcome α (Operator α (block.span n).size (block.span n).size) := do
  let cone ← block.kind.target dual
  cone.derivative (Vec.slice x (block.span n))

def derivativeMatrix (block : Block) (x : Vector α n) (dual : Bool) :
    Outcome α (Sparse α (block.span n).size (block.span n).size) := do
  let cone ← block.kind.target dual
  cone.derivativeMatrix (Vec.slice x (block.span n))

end Block

def Sized.expect {F : Nat → Nat → Type} (A : Sized F) (m n : Nat) : Outcome α (F m n) :=
  (A.at? m n).elim (.error (.invalid .value)) .ok

namespace ProductCone

/-- Projects onto a product of cones, or of their duals. A row of no block becomes zero. -/
def project (blocks : List Block) (x : Vector α n) (dual : Bool) : Outcome α (Vector α n) :=
  blocks.foldlM
    (fun projection block => do
      return Vec.overwrite projection (block.span n) (← block.project x dual))
    (Vector.replicate n 0)

def derivative (blocks : List Block) (x : Vector α n) (dual : Bool) :
    Outcome α (Sized (Operator α)) := do
  let parts ← blocks.mapM fun block => do return ⟨← block.derivative x dual⟩
  return Operator.blockDiagonal parts

def derivativeMatrix (blocks : List Block) (x : Vector α n) (dual : Bool) :
    Outcome α (Sized (Sparse α)) := do
  let parts ← blocks.mapM fun block => do return ⟨← block.derivativeMatrix x dual⟩
  return Sparse.blockDiagonal parts

end ProductCone

end ConicDerivative
