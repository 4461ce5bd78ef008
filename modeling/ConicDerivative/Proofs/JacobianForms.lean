import ConicDerivative.Proofs.ProductDerivatives

/-!
The Jacobian in all its forms over the real numbers. Assembled as a sparse or a dense matrix it acts
as the map that assembles nothing, and the second map is in each form the transpose of the first.
-/

namespace ConicDerivative

open Scalar Matrix Outcomes

variable {m n : Nat}

theorem AnyMat.represents_toOperator (A : AnyMat ℝ m n) :
    A.toOperator.Represents A.toMat.matrix := by
  cases A with
  | dense A => exact Operator.represents_ofMat A
  | sparse A =>
    have stored := Operator.represents_ofSparse A
    rw [← Sparse.matrix_toMat] at stored
    exact stored
  | listed A => exact Operator.represents_ofListed A

namespace Jacobian

theorem ofSparse_eq_ofOperator (A : Sparse ℝ m n) (D : Sparse ℝ m m) :
    Operator.ofSparse (ofSparse A D) = ofOperator A (.ofSparse D) := by
  have product (x : Vector ℝ m) :
      (A.transposeMul D).mulVec x = A.transposeMulVec (D.mulVec x) := by
    apply Vec.get_injective
    rw [Sparse.get_mulVec, Sparse.get_transposeMulVec, Sparse.get_mulVec,
      Sparse.matrix_transposeMul, Matrix.mulVec_mulVec]
  have product' (x : Vector ℝ n) :
      (A.transposeMul D).transposeMulVec x = D.transposeMulVec (A.mulVec x) := by
    apply Vec.get_injective
    rw [Sparse.get_transposeMulVec, Sparse.get_transposeMulVec, Sparse.get_mulVec,
      Sparse.matrix_transposeMul, Matrix.transpose_mul, Matrix.transpose_transpose,
      Matrix.mulVec_mulVec]
  have difference (x : Vector ℝ m) :
      (D.combine (· - ·) (.identity m)).mulVec x = D.mulVec x - x := by
    apply Vec.get_injective
    rw [Vec.get_sub, Sparse.get_mulVec, Sparse.get_mulVec, Sparse.matrix_sub,
      Sparse.matrix_identity, Matrix.sub_mulVec, Matrix.one_mulVec]
  have difference' (x : Vector ℝ m) :
      (D.combine (· - ·) (.identity m)).transposeMulVec x = D.transposeMulVec x - x := by
    apply Vec.get_injective
    rw [Vec.get_sub, Sparse.get_transposeMulVec, Sparse.get_transposeMulVec, Sparse.matrix_sub,
      Sparse.matrix_identity, Matrix.transpose_sub, Matrix.transpose_one, Matrix.sub_mulVec,
      Matrix.one_mulVec]
  unfold Operator.ofSparse ofOperator ofSparse
  congr 1
  · funext z
    rw [Sparse.mulVec_above, Sparse.mulVec_beside, Sparse.mulVec_beside, Sparse.mulVec_empty,
      Vec.replicate_zero_add, product, difference]
    congr 1
    apply Vec.get_injective
    simp only [Vec.get_add, Vec.get_sub, add_sub_assoc]
  · funext r
    rw [Sparse.transposeMulVec_above, Sparse.transposeMulVec_beside, Sparse.transposeMulVec_beside,
      Sparse.transposeMulVec_empty, product', difference']
    apply Vec.ext_parts
    · rw [Vec.left_add, Vec.left_append, Vec.left_append, Vec.left_append, Vec.replicate_zero_add]
    · rw [Vec.right_add, Vec.right_append, Vec.right_append, Vec.right_append]
      apply Vec.get_injective
      simp only [Vec.get_add, Vec.get_sub, Sparse.get_transposeMulVec, Matrix.mulVec_add,
        add_sub_assoc]

theorem isAdjoint_ofOperator (A : Sparse ℝ m n) {D : Operator ℝ m m} (pair : D.IsAdjoint) :
    (ofOperator A D).IsAdjoint := by
  have matrix := (Operator.represents_ofSparse A).isAdjoint
  intro z r
  have upper := (Operator.represents_ofSparse A).isAdjoint.transpose (D.apply (Vec.right z))
    (Vec.left r)
  have lower := matrix (Vec.left z) (Vec.right r)
  have middle := pair (Vec.right z) (A.mulVec (Vec.left r) + Vec.right r)
  simp only [Operator.ofSparse, Operator.transpose] at upper lower
  rw [Vec.get_add, dotProduct_add] at middle
  unfold ofOperator
  simp only [Vec.dot_parts _ r, Vec.dot_parts z, Vec.left_append, Vec.right_append, Vec.get_add,
    Vec.get_sub, add_dotProduct, sub_dotProduct, dotProduct_sub]
  linarith

end Jacobian

namespace Program

variable [EigenSolver ℝ] {program : Program ℝ} {point : Point ℝ program.rows program.cols}
  {form : Form} {system : OptimalitySystem ℝ program.rows program.cols}

/--
In every form the system is that of the point, its projection is the derivative of the projection,
and its Jacobian acts as the map put together from the data and this derivative.
-/
theorem systemAt_ok (built : program.systemAt point form = .ok system) :
    system.point = point ∧
      ProductCone.derivative program.blocks (point.y - point.s) true = .ok ⟨system.projection⟩ ∧
      system.jacobian.toOperator = Jacobian.ofOperator program.A system.projection := by
  cases form with
  | operator =>
    obtain ⟨sized, derived, rest⟩ := bind_eq_ok.1 built
    obtain ⟨D, shaped, joined⟩ := bind_eq_ok.1 rest
    cases Sized.expect_eq_ok.1 shaped
    cases pure_eq_ok.1 joined
    exact ⟨rfl, derived, rfl⟩
  | sparse =>
    obtain ⟨sized, derived, rest⟩ := bind_eq_ok.1 built
    obtain ⟨D, shaped, joined⟩ := bind_eq_ok.1 rest
    cases Sized.expect_eq_ok.1 shaped
    cases pure_eq_ok.1 joined
    exact ⟨rfl, ProductCone.derivative_of_derivativeMatrix derived,
      Jacobian.ofSparse_eq_ofOperator program.A D⟩
  | dense =>
    obtain ⟨sized, derived, rest⟩ := bind_eq_ok.1 built
    obtain ⟨D, shaped, joined⟩ := bind_eq_ok.1 rest
    cases Sized.expect_eq_ok.1 shaped
    cases pure_eq_ok.1 joined
    refine ⟨rfl, ProductCone.derivative_of_derivativeMatrix derived, ?_⟩
    exact (Operator.ofMat_toMat_sparse _).trans (Jacobian.ofSparse_eq_ofOperator program.A D)

theorem projection_isSelfAdjoint (built : program.systemAt point form = .ok system) :
    system.projection.IsSelfAdjoint :=
  ProductCone.derivative_isSelfAdjoint program.tiling (systemAt_ok built).2.1

theorem jacobian_isAdjoint (built : program.systemAt point form = .ok system) :
    system.jacobian.toOperator.IsAdjoint := by
  rw [(systemAt_ok built).2.2]
  exact Jacobian.isAdjoint_ofOperator program.A (projection_isSelfAdjoint built).pair

end Program

end ConicDerivative
