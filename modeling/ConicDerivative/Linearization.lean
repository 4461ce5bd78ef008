import ConicDerivative.SystemSolver

/-!
The derivative of the solution of a program in its data, applied to a change of the data, and its
transpose, applied to a direction of the solution. A change that the system does not notice needs no
solve.
-/

namespace ConicDerivative

variable {α : Type} [Scalar α] {m n : Nat}

/-- The vector of length `n` given for `field`, zero if none is given. -/
def Data.vectorOr (field : Field) (n : Nat) : Option (Data α) → Outcome α (Vector α n)
  | none => .ok (Vector.replicate n 0)
  | some (.dense t) => t.expect field n
  | some (.sparse rows cols _) => .error (.wrongShape field [rows, cols] [n])

def Data.changeOr (m n : Nat) : Option (Data α) → Outcome α (AnyMat α m n)
  | none => .ok (.sparse (.empty m n))
  | some (.dense t) =>
    match t.toMat? m n with
    | some A => .ok (.dense A)
    | none => .error (.wrongShape .dA t.shape [m, n])
  | some (.sparse rows cols A) =>
    if h : rows = m ∧ cols = n then .ok (.listed (h.1 ▸ h.2 ▸ A.toListed))
    else .error (.wrongShape .dA [rows, cols] [m, n])

/-- A change of the data as it is handed in; what is absent does not change. -/
structure ChangeData (α : Type) where
  dA : Option (Data α)
  db : Option (Data α)
  dc : Option (Data α)

structure DirectionData (α : Type) where
  dx : Option (Data α)
  dy : Option (Data α)
  ds : Option (Data α)

def ChangeData.fit (change : ChangeData α) (m n : Nat) : Outcome α (Perturbation α m n) :=
  return {
    dA := ← Data.changeOr m n change.dA
    db := ← Data.vectorOr .db m change.db
    dc := ← Data.vectorOr .dc n change.dc }

def DirectionData.fit (target : DirectionData α) (m n : Nat) : Outcome α (Direction α m n) :=
  return {
    dx := ← Data.vectorOr .dx n target.dx
    dy := ← Data.vectorOr .dy m target.dy
    ds := ← Data.vectorOr .ds m target.ds }

def ChangeData.ofList : List (Option (Data α)) → Outcome α (ChangeData α)
  | [dA, db, dc] => .ok ⟨dA, db, dc⟩
  | parts => .error (.notTriple parts.length)

def DirectionData.ofList : List (Option (Data α)) → Outcome α (DirectionData α)
  | [dx, dy, ds] => .ok ⟨dx, dy, ds⟩
  | parts => .error (.notTriple parts.length)

/-- A system and a solver for it. -/
structure Linearization (α : Type) (m n : Nat) where
  system : OptimalitySystem α m n
  solver : SystemSolver α

namespace Linearization

/-- The solution of a system, of which a zero right-hand side needs none. -/
def solveUnlessNull {k : Nat} (solver : SystemSolver α) (transposed : Bool) (r : Vector α k) :
    Outcome α (Vector α k) :=
  if Vec.isNull r then .ok (Vector.replicate k 0) else solver.solveVector transposed r

/-- The change of the solution that a change of the data brings about. -/
def forward (d : Linearization α m n) (change : Perturbation α m n) :
    Outcome α (Direction α m n) := do
  let dz ← solveUnlessNull d.solver false (d.system.rightSide change)
  return d.system.recover dz

/-- The data's share in a direction of the solution. -/
def backward (d : Linearization α m n) (target : Direction α m n) :
    Outcome α (Gradient α m n) := do
  let r ← solveUnlessNull d.solver true (d.system.recoverAdjoint target)
  return d.system.rightSideAdjoint r

def factorize (d : Linearization α m n) : Outcome α Unit × Linearization α m n :=
  let (outcome, solver) := d.solver.factorize ⟨d.system.jacobian⟩
  (outcome, { d with solver })

end Linearization

end ConicDerivative
