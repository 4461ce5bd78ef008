import ConicDerivative.Program

/-!
The linear system of the derivative. With `v = y - s` a solution is a zero of

    F(x, v) = (Aᵀ Π(v) + c, A x + Π(v) - v - b),

where `Π` projects onto the dual cone. The Jacobian of `F` in `(x, v)` is the matrix of the system;
its derivative in the data gives the right-hand sides. Each map comes with its transpose.
-/

namespace ConicDerivative

/-- A matrix that stores all its cells, or only some, by columns or as a list. -/
inductive AnyMat (α : Type) (m n : Nat) where
  | dense (A : Mat α m n)
  | sparse (A : Sparse α m n)
  | listed (A : Listed α m n)

/-- A matrix, or a linear map of which no matrix is formed. -/
inductive Jacobian (α : Type) (m n : Nat) where
  | assembled (A : AnyMat α m n)
  | operator (A : Operator α m n)

inductive Form where
  | sparse
  | dense
  | operator
  deriving DecidableEq

variable {α : Type} [Scalar α] {m n : Nat}

namespace AnyMat

def toMat : AnyMat α m n → Mat α m n
  | dense A => A
  | sparse A => A.toMat
  | listed A => A.toMat

def toOperator : AnyMat α m n → Operator α m n
  | dense A => .ofMat A
  | sparse A => .ofSparse A
  | listed A => .ofListed A

/-- The stored cells are finite, those stored more than once by their sums. -/
def storesFinite : AnyMat α m n → Bool
  | dense A => A.allFinite
  | sparse A => A.sumDuplicates.allFinite
  | listed A => A.toSparse.sumDuplicates.allFinite

end AnyMat

namespace Jacobian

def toOperator : Jacobian α m n → Operator α m n
  | assembled A => A.toOperator
  | operator A => A

def toMat : Jacobian α m n → Mat α m n
  | assembled A => A.toMat
  | operator A => A.toMat

def ofOperator (A : Sparse α m n) (D : Operator α m m) : Operator α (n + m) (n + m) where
  apply z :=
    let dv := Vec.right z
    let dy := D.apply dv
    A.transposeMulVec dy ++ (A.mulVec (Vec.left z) + dy - dv)
  adjoint r :=
    let rv := Vec.right r
    A.transposeMulVec rv ++ (D.adjoint (A.mulVec (Vec.left r) + rv) - rv)

def ofSparse (A : Sparse α m n) (D : Sparse α m m) : Sparse α (n + m) (n + m) :=
  let upper := (Sparse.empty n n).beside (A.transposeMul D)
  let lower := A.beside (D.combine (· - ·) (.identity m))
  upper.above lower

end Jacobian

/-- A change of the data of a program with `m` rows and `n` columns. -/
structure Perturbation (α : Type) (m n : Nat) where
  dA : AnyMat α m n
  db : Vector α m
  dc : Vector α n

/-- A change of the solution, or a direction in which it is observed. -/
structure Direction (α : Type) (m n : Nat) where
  dx : Vector α n
  dy : Vector α m
  ds : Vector α m

/-- The weights that a direction puts on the data of a program. -/
structure Gradient (α : Type) (m n : Nat) where
  dA : Mat α m n
  db : Vector α m
  dc : Vector α n

structure OptimalitySystem (α : Type) (m n : Nat) where
  point : Point α m n
  jacobian : Jacobian α (n + m) (n + m)
  projection : Operator α m m

namespace OptimalitySystem

/-- Minus the derivative of `F` in the data. -/
def rightSide (system : OptimalitySystem α m n) (change : Perturbation α m n) : Vector α (n + m) :=
  let dA := change.dA.toOperator
  let dF := (dA.adjoint system.point.y + change.dc) ++ (dA.apply system.point.x - change.db);
  -dF

def rightSideAdjoint (system : OptimalitySystem α m n) (r : Vector α (n + m)) : Gradient α m n :=
  let rx := Vec.left r
  let rv := Vec.right r
  { dA := (Mat.add (Mat.outer system.point.y rx) (Mat.outer rv system.point.x)).neg
    db := rv
    dc := -rx }

/-- The change of the solution that belongs to a change of `x` and `v`. -/
def recover (system : OptimalitySystem α m n) (dz : Vector α (n + m)) : Direction α m n :=
  let dv := Vec.right dz
  let dy := system.projection.apply dv
  { dx := Vec.left dz, dy := dy, ds := dy - dv }

def recoverAdjoint (system : OptimalitySystem α m n) (target : Direction α m n) :
    Vector α (n + m) :=
  target.dx ++ (system.projection.adjoint (target.dy + target.ds) - target.ds)

end OptimalitySystem

namespace Program

variable [EigenSolver α]

def systemAt (program : Program α) (point : Point α program.rows program.cols) (form : Form) :
    Outcome α (OptimalitySystem α program.rows program.cols) := do
  let v := point.y - point.s
  match form with
  | .operator =>
    let D ← (← ProductCone.derivative program.blocks v true).expect program.rows program.rows
    return ⟨point, .operator (Jacobian.ofOperator program.A D), D⟩
  | .sparse =>
    let D ← (← ProductCone.derivativeMatrix program.blocks v true).expect program.rows program.rows
    return ⟨point, .assembled (.sparse (Jacobian.ofSparse program.A D)), .ofSparse D⟩
  | .dense =>
    let D ← (← ProductCone.derivativeMatrix program.blocks v true).expect program.rows program.rows
    return ⟨point, .assembled (.dense (Jacobian.ofSparse program.A D).toMat), .ofSparse D⟩

end Program

end ConicDerivative
