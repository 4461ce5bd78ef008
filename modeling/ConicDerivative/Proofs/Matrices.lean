import ConicDerivative.OptimalitySystem
import ConicDerivative.Proofs.Reals

/-!
Stored matrices over the real numbers, read as matrices. Each way of storing a matrix has one view,
and each operation on stored matrices is an operation on their views. A product with a stored
matrix, or with its transpose, is the product with its view, whichever way it is stored.
-/

namespace ConicDerivative

open Scalar Matrix

variable {m n k : Nat}

namespace Mat

def matrix {α : Type} (A : Mat α m n) : Matrix (Fin m) (Fin n) α := fun i j => A i j

@[simp]
theorem matrix_ofFn {α : Type} (f : Fin m → Fin n → α) : (ofFn f).matrix = f := by
  funext i j
  exact ofFn_apply f i j

theorem matrix_injective {α : Type} :
    Function.Injective (matrix : Mat α m n → Matrix (Fin m) (Fin n) α) := by
  intro A B same
  exact ext fun i j => congrFun (congrFun same i) j

@[simp]
theorem matrix_transpose {α : Type} (A : Mat α m n) : A.transpose.matrix = A.matrixᵀ := by
  rw [transpose, matrix_ofFn]
  rfl

@[simp]
theorem get_column {α : Type} (A : Mat α m n) (j : Fin n) : (A.column j).get = fun i => A i j := by
  rw [column, Vec.get_ofFn]

@[simp]
theorem get_mulVec (A : Mat ℝ m n) (x : Vector ℝ n) : (A.mulVec x).get = A.matrix *ᵥ x.get := by
  rw [mulVec, Vec.get_ofFn]
  funext i
  exact sumOver_eq_sum n _

@[simp]
theorem get_transposeMulVec (A : Mat ℝ m n) (y : Vector ℝ m) :
    (A.transposeMulVec y).get = A.matrixᵀ *ᵥ y.get := by
  rw [transposeMulVec, Vec.get_ofFn]
  funext j
  exact sumOver_eq_sum m _

@[simp]
theorem matrix_mul (A : Mat ℝ m n) (B : Mat ℝ n k) : (A.mul B).matrix = A.matrix * B.matrix := by
  rw [mul, matrix_ofFn]
  funext i j
  rw [sumOver_eq_sum, Matrix.mul_apply]
  rfl

@[simp]
theorem matrix_identity (n : Nat) : (identity n : Mat ℝ n n).matrix = 1 := by
  rw [identity, matrix_ofFn]
  funext i j
  rw [Matrix.one_apply]

@[simp]
theorem matrix_add (A B : Mat ℝ m n) : (A.add B).matrix = A.matrix + B.matrix := by
  rw [add, matrix_ofFn]
  rfl

@[simp]
theorem matrix_neg (A : Mat ℝ m n) : A.neg.matrix = -A.matrix := by
  rw [neg, matrix_ofFn]
  rfl

@[simp]
theorem matrix_outer (x : Vector ℝ m) (y : Vector ℝ n) :
    (outer x y).matrix = vecMulVec x.get y.get := by
  rw [outer, matrix_ofFn]
  rfl

theorem allFinite_real (A : Mat ℝ m n) : A.allFinite = true := by
  simp only [allFinite, Vector.all_eq_true]
  exact fun i inside => Vec.allFinite_real _

end Mat

end ConicDerivative
