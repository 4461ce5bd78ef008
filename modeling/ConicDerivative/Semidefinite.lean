import ConicDerivative.Eigen.ShiftedSweep
import ConicDerivative.Packed

/-!
The cone of positive semidefinite matrices, on packed vectors. The projection keeps the eigenvectors
and drops the negative eigenvalues. Its derivative scales the cell of two eigenvectors by the
divided difference of the positive part at their eigenvalues.
-/

namespace ConicDerivative.Semidefinite

open Scalar Packed

variable {α : Type} [Scalar α] {d : Nat}

def project (eigen : Eigen α d) : Vector α (triangle d) :=
  pack (Eigen.compose (eigen.values.map positivePart) eigen.vectors)

/-- The divided difference of the positive part at two eigenvalues. -/
def slope (l l' : α) : α :=
  if 0 < l ∧ 0 < l' then 1
  else if ¬0 < l ∧ ¬0 < l' then 0
  else (positivePart l - positivePart l') / (l - l')

def derivative (eigen : Eigen α d) (dx : Vector α (triangle d)) : Vector α (triangle d) :=
  let Q := eigen.vectors
  let turned := (Q.transpose.mul (unpack d dx)).mul Q
  let scaled : Mat α d d :=
    Mat.ofFn fun i j => slope (eigen.values i) (eigen.values j) * turned i j
  pack ((Q.mul scaled).mul Q.transpose)

structure Decomposed (α : Type) (k : Nat) where
  {side : Nat}
  eigen : Eigen α side
  size_eq : k = triangle side

def decompose [EigenSolver α] {k : Nat} (x : Vector α k) : Outcome α (Decomposed α k) :=
  if h : k = triangle (packedSide k) then
    match EigenSolver.decompose (unpack (packedSide k) (x.cast h)) with
    | some eigen => .ok ⟨eigen, h⟩
    | none => .error (.invalid .linearAlgebra)
  else .error (.invalid .value)

end ConicDerivative.Semidefinite
