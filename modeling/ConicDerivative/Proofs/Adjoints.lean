import ConicDerivative.Proofs.SparseBlocks

/-!
Linear maps whose second map is the transpose of the first. A map and its transpose have the same
inner products; this alone makes the map linear and fixes it by its matrix. Stored matrices are such
maps, however they are stored, and so are block diagonal sums of them.
-/

namespace ConicDerivative

open Scalar Matrix

variable {m n k l : Nat}

namespace Operator

def IsAdjoint (A : Operator ℝ m n) : Prop :=
  ∀ x y, (A.apply x).get ⬝ᵥ y.get = x.get ⬝ᵥ (A.adjoint y).get

theorem IsAdjoint.transpose {A : Operator ℝ m n} (pair : A.IsAdjoint) : A.transpose.IsAdjoint := by
  intro y x
  rw [dotProduct_comm, dotProduct_comm y.get]
  exact (pair x y).symm

/-- Both maps multiply with a matrix, the second one with its transpose. -/
structure Represents (A : Operator ℝ m n) (M : Matrix (Fin m) (Fin n) ℝ) : Prop where
  apply : ∀ x, (A.apply x).get = M *ᵥ x.get
  adjoint : ∀ y, (A.adjoint y).get = Mᵀ *ᵥ y.get

theorem Represents.isAdjoint {A : Operator ℝ m n} {M : Matrix (Fin m) (Fin n) ℝ}
    (same : A.Represents M) : A.IsAdjoint := by
  intro x y
  rw [same.apply, same.adjoint, mulVec_transpose, dotProduct_comm, dotProduct_mulVec,
    dotProduct_comm]

theorem Represents.unique {A B : Operator ℝ m n} {M : Matrix (Fin m) (Fin n) ℝ}
    (first : A.Represents M) (second : B.Represents M) : A = B := by
  obtain ⟨apply, adjoint⟩ := A
  obtain ⟨apply', adjoint'⟩ := B
  congr 1
  · funext x
    apply Vec.get_injective
    exact (first.apply x).trans (second.apply x).symm
  · funext y
    apply Vec.get_injective
    exact (first.adjoint y).trans (second.adjoint y).symm

theorem represents_ofMat (A : Mat ℝ m n) : (ofMat A).Represents A.matrix :=
  ⟨A.get_mulVec, A.get_transposeMulVec⟩

theorem represents_ofSparse (A : Sparse ℝ m n) : (ofSparse A).Represents A.matrix :=
  ⟨A.get_mulVec, A.get_transposeMulVec⟩

theorem represents_ofListed (A : Listed ℝ m n) : (ofListed A).Represents A.toMat.matrix :=
  ⟨A.get_mulVec, A.get_transposeMulVec⟩

theorem ofMat_toMat_sparse (A : Sparse ℝ m n) : ofMat A.toMat = ofSparse A := by
  have dense := represents_ofMat A.toMat
  rw [Sparse.matrix_toMat] at dense
  exact dense.unique (represents_ofSparse A)

theorem ofSparse_ofMat (A : Mat ℝ m n) : ofSparse (.ofMat A) = ofMat A := by
  have sparse := represents_ofSparse (.ofMat A)
  rw [Sparse.matrix_ofMat] at sparse
  exact sparse.unique (represents_ofMat A)

theorem get_unit (j : Fin n) : ((Mat.identity n : Mat ℝ n n).column j).get = Pi.single j 1 := by
  rw [Mat.get_column]
  funext i
  have cell := congrFun (congrFun (Mat.matrix_identity n) i) j
  rw [Matrix.one_apply] at cell
  rw [Pi.single_apply]
  exact cell

theorem toMat_apply (A : Operator ℝ m n) (i : Fin m) (j : Fin n) :
    A.toMat i j = A.apply ((Mat.identity n).column j) i := by
  rw [toMat, Mat.ofFn_apply, Vec.ofFn_apply]

theorem IsAdjoint.represents {A : Operator ℝ m n} (pair : A.IsAdjoint) :
    A.Represents A.toMat.matrix := by
  have entry (x : Vector ℝ n) (i : Fin m) :
      A.apply x i = x.get ⬝ᵥ (A.adjoint ((Mat.identity m).column i)).get := by
    rw [← pair, get_unit, dotProduct_single, mul_one]
  have cell (i : Fin m) (j : Fin n) :
      A.toMat i j = A.adjoint ((Mat.identity m).column i) j := by
    rw [toMat_apply, entry, get_unit, single_dotProduct, one_mul]
  constructor
  · intro x
    funext i
    rw [entry, dotProduct_comm]
    simp only [Matrix.mulVec, dotProduct, Mat.matrix, cell]
  · intro y
    funext j
    have image := pair ((Mat.identity n).column j) y
    rw [get_unit, single_dotProduct, one_mul] at image
    rw [← image]
    simp only [Matrix.mulVec, dotProduct, Matrix.transpose_apply, Mat.matrix, toMat_apply]

theorem IsAdjoint.ofMat_toMat {A : Operator ℝ m n} (pair : A.IsAdjoint) : ofMat A.toMat = A :=
  (represents_ofMat A.toMat).unique pair.represents

theorem isAdjoint_diagonal {A : Operator ℝ m n} {B : Operator ℝ k l} (first : A.IsAdjoint)
    (second : B.IsAdjoint) : (diagonal A B).IsAdjoint := by
  intro x y
  have upper := first (Vec.left x) (Vec.left y)
  have lower := second (Vec.right x) (Vec.right y)
  calc
    _ = (A.apply (Vec.left x)).get ⬝ᵥ (Vec.left y).get +
        (B.apply (Vec.right x)).get ⬝ᵥ (Vec.right y).get := Vec.dot_append ..
    _ = (A.adjoint (Vec.left y)).get ⬝ᵥ (Vec.left x).get +
        (B.adjoint (Vec.right y)).get ⬝ᵥ (Vec.right x).get := by
      rw [upper, lower, dotProduct_comm, dotProduct_comm (Vec.right x).get]
    _ = ((diagonal A B).adjoint y).get ⬝ᵥ x.get := (Vec.dot_append ..).symm
    _ = _ := dotProduct_comm ..

theorem isAdjoint_empty : (empty : Operator ℝ 0 0).IsAdjoint := by
  intro x y
  simp [Vec.get_empty]

theorem ofSparse_diagonal (A : Sparse ℝ m n) (B : Sparse ℝ k l) :
    ofSparse (A.diagonal B) = diagonal (ofSparse A) (ofSparse B) := by
  unfold ofSparse diagonal
  congr 1
  · funext x
    exact Sparse.mulVec_diagonal A B x
  · funext y
    exact Sparse.transposeMulVec_diagonal A B y

theorem ofSparse_empty : ofSparse (Sparse.empty 0 0 : Sparse ℝ 0 0) = empty := by
  have nothing : (empty : Operator ℝ 0 0).Represents (Sparse.empty 0 0 : Sparse ℝ 0 0).matrix :=
    ⟨fun x => Subsingleton.elim _ _, fun y => Subsingleton.elim _ _⟩
  exact (represents_ofSparse _).unique nothing

theorem ofSparse_blockDiagonal (parts : List (Sized (Sparse ℝ))) :
    (Sparse.blockDiagonal parts).map (G := Operator ℝ) ofSparse =
      blockDiagonal (parts.map fun part => part.map ofSparse) := by
  induction parts with
  | nil =>
    have nothing := ofSparse_empty
    unfold Sparse.blockDiagonal blockDiagonal Sized.map
    simp only [List.foldr_nil, List.map_nil, nothing]
  | cons part parts ih =>
    have step : (Sparse.blockDiagonal (part :: parts)).map (G := Operator ℝ) ofSparse =
        ⟨diagonal (ofSparse part.value)
          ((Sparse.blockDiagonal parts).map (G := Operator ℝ) ofSparse).value⟩ := by
      exact congrArg Sized.mk (ofSparse_diagonal part.value (Sparse.blockDiagonal parts).value)
    rw [step, ih]
    rfl

end Operator

end ConicDerivative
