import ConicDerivative.Mat

/-!
Eigendecompositions of symmetric matrices. The projections need some orthonormal basis of
eigenvectors and do not care which; a solver is therefore a class.
-/

namespace ConicDerivative

/-- Eigenvalues, and the eigenvectors as columns in the same order. -/
structure Eigen (α : Type) (n : Nat) where
  values : Vector α n
  vectors : Mat α n n

class EigenSolver (α : Type) where
  /-- A decomposition of a symmetric matrix, or none if the search for one fails. -/
  decompose : ∀ {n : Nat}, Mat α n n → Option (Eigen α n)

namespace Eigen

open Scalar

variable {α : Type} [Scalar α] {n : Nat}

/-- The matrix with the same eigenvectors whose eigenvalues are `values`. -/
def compose (values : Vector α n) (vectors : Mat α n n) : Mat α n n :=
  Mat.mul (Mat.ofFn fun i j => vectors i j * values j) vectors.transpose

end Eigen

end ConicDerivative
