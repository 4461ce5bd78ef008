import ConicDerivative.Solve

/-!
Solutions of programs whose data are moved in a direction, and the central difference of two of
them.
-/

namespace ConicDerivative.FiniteDifference

variable {α : Type} [Scalar α] {m n : Nat}

def moveStored (A : Sparse α m n) (tau : α) (dA : Sparse α m n) : Sparse α m n :=
  A.combine (· + ·) (Sparse.sumDuplicates ⟨dA.columns.map (·.map fun (i, v) => (i, tau * v))⟩)

def moveMatrix (A : Sparse α m n) (tau : α) : AnyMat α m n → Sparse α m n
  | .dense dA => .ofMat (Mat.ofFn fun i j => A i j + tau * dA i j)
  | .sparse dA => moveStored A tau dA
  | .listed dA => moveStored A tau dA.toSparse

/-- Solves the program with its data moved by `tau` times the change. -/
def moved (solvers : Solvers α) (program : Program α) (tau : α) (change : ChangeData α)
    (request : Request α) : Consulting α (Option (Values α)) := do
  let change ← change.fit program.rows program.cols
  let b := program.b + Vec.scale tau change.db
  let c := program.c + Vec.scale tau change.dc
  let cones ← program.table
  let solution ← Solve.full solvers
    ⟨moveMatrix program.A tau change.dA, b.toList, cones⟩ c.toList request
  return solution.values

def quotient (right left : List α) (step : α) : Outcome α (List α) := do
  return (← Loose.zipWith (· - ·) right left).map (· / step)

/-- The central difference of the solution in the direction of the change. -/
def central (solvers : Solvers α) (program : Program α) (tau : α) (change : ChangeData α)
    (request : Request α) : Consulting α (Values α) := do
  let right ← moved solvers program tau change request
  let left ← moved solvers program (-tau) change request
  let step := Scalar.two * tau
  match right, left with
  | some right, some left =>
    return ⟨← quotient right.x left.x step, ← quotient right.y left.y step,
      ← quotient right.s left.s step⟩
  | _, _ => throw (.invalid .type)

end ConicDerivative.FiniteDifference
