import ConicDerivative.Semidefinite
import ConicDerivative.Proofs.PackedIsometry

/-!
The semidefinite projection and its derivative over the real numbers, from any orthogonal
eigendecomposition. The derivative is its own transpose. At the point of the decomposition it sends
both the point and its projection to the projection.
-/

namespace ConicDerivative

open Scalar Matrix

variable {d n : Nat}

namespace Eigen

structure Decomposes (eigen : Eigen ℝ n) (X : Mat ℝ n n) : Prop where
  orthogonal : eigen.vectors.matrixᵀ * eigen.vectors.matrix = 1
  composes : compose eigen.values eigen.vectors = X

theorem matrix_compose (values : Vector ℝ n) (vectors : Mat ℝ n n) :
    (compose values vectors).matrix =
      vectors.matrix * diagonal values.get * vectors.matrixᵀ := by
  rw [compose, Mat.matrix_mul, Mat.matrix_ofFn, Mat.matrix_transpose]
  congr 1
  funext i j
  rw [mul_diagonal]
  rfl

theorem compose_symm (values : Vector ℝ n) (vectors : Mat ℝ n n) :
    (compose values vectors).matrix.IsSymm := by
  unfold Matrix.IsSymm
  rw [matrix_compose, transpose_mul, transpose_mul, transpose_transpose, diagonal_transpose,
    Matrix.mul_assoc]

theorem Decomposes.matrix_eq {eigen : Eigen ℝ n} {X : Mat ℝ n n} (decomposes : eigen.Decomposes X) :
    X.matrix = eigen.vectors.matrix * diagonal eigen.values.get * eigen.vectors.matrixᵀ := by
  rw [← decomposes.composes, matrix_compose]

theorem Decomposes.orthogonal' {eigen : Eigen ℝ n} {X : Mat ℝ n n}
    (decomposes : eigen.Decomposes X) : eigen.vectors.matrix * eigen.vectors.matrixᵀ = 1 :=
  mul_eq_one_comm.1 decomposes.orthogonal

end Eigen

class LawfulEigenSolver [EigenSolver ℝ] : Prop where
  decompose_symm : ∀ {n : Nat} (X : Mat ℝ n n), X.matrix.IsSymm →
    ∃ eigen, EigenSolver.decompose X = some eigen ∧ eigen.Decomposes X

noncomputable instance EigenSolver.spectral : EigenSolver ℝ where
  decompose X := by
    classical
    exact if symm : X.matrix.IsHermitian then
      some ⟨Vector.ofFn symm.eigenvalues, Mat.ofFn fun i j => symm.eigenvectorUnitary.1 i j⟩
    else none

instance LawfulEigenSolver.spectral : LawfulEigenSolver where
  decompose_symm X symm := by
    have hermitian : X.matrix.IsHermitian := by
      rw [Matrix.IsHermitian, conjTranspose_eq_transpose_of_trivial]
      exact symm
    have vectors : (Mat.ofFn fun i j => hermitian.eigenvectorUnitary.1 i j : Mat ℝ _ _).matrix =
        hermitian.eigenvectorUnitary.1 := Mat.matrix_ofFn _
    refine ⟨_, dif_pos hermitian, ?_, ?_⟩
    · rw [vectors, ← conjTranspose_eq_transpose_of_trivial]
      exact Unitary.coe_star_mul_self hermitian.eigenvectorUnitary
    · apply Mat.matrix_injective
      rw [Eigen.matrix_compose, vectors, Vec.get_ofFn, ← conjTranspose_eq_transpose_of_trivial]
      have spectral := hermitian.spectral_theorem
      rw [Unitary.conjStarAlgAut_apply] at spectral
      exact spectral.symm

namespace Semidefinite

open Packed

theorem slope_comm (l l' : ℝ) : slope l l' = slope l' l := by
  unfold slope
  by_cases first : 0 < l
  · by_cases second : 0 < l'
    · simp [first, second]
    · simp only [first, second, and_false, and_true, false_and, not_true_eq_false, if_false]
      rw [← neg_div_neg_eq, neg_sub, neg_sub]
  · by_cases second : 0 < l'
    · simp only [first, second, and_false, and_true, false_and, not_true_eq_false, if_false]
      rw [← neg_div_neg_eq, neg_sub, neg_sub]
    · simp [first, second]

theorem slope_self_mul (l : ℝ) : slope l l * l = positivePart l := by
  rw [positivePart_eq_max]
  by_cases positive : 0 < l
  · simp [slope, positive, positive.le]
  · simp [slope, positive, not_lt.1 positive]

theorem slope_self_mul_positivePart (l : ℝ) : slope l l * positivePart l = positivePart l := by
  by_cases positive : 0 < l
  · simp [slope, positive]
  · simp [slope, positive, positivePart_eq_max, not_lt.1 positive]

theorem abs_add_abs_mul_slope (l l' : ℝ) : (|l| + |l'|) * slope l l' = max l 0 + max l' 0 := by
  unfold slope
  rw [positivePart_eq_max, positivePart_eq_max]
  split_ifs with both neither
  · rw [abs_of_pos both.1, abs_of_pos both.2, max_eq_left both.1.le, max_eq_left both.2.le, mul_one]
  · rw [max_eq_right (not_lt.1 neither.1), max_eq_right (not_lt.1 neither.2), mul_zero, add_zero]
  · rcases lt_or_ge 0 l with first | first
    · have second : l' ≤ 0 := not_lt.1 fun positive => both ⟨first, positive⟩
      have apart : l - l' ≠ 0 := by linarith
      rw [abs_of_pos first, abs_of_nonpos second, max_eq_left first.le, max_eq_right second]
      field_simp
      ring
    · have second : 0 < l' := not_le.1 fun negative => neither ⟨not_lt.2 first, not_lt.2 negative⟩
      have apart : l - l' ≠ 0 := by linarith
      rw [abs_of_nonpos first, abs_of_pos second, max_eq_right first, max_eq_left second.le]
      field_simp
      ring

noncomputable def scaled (eigen : Eigen ℝ d) (X : Matrix (Fin d) (Fin d) ℝ) :
    Matrix (Fin d) (Fin d) ℝ :=
  fun i j => slope (eigen.values i) (eigen.values j) *
    (eigen.vectors.matrixᵀ * X * eigen.vectors.matrix) i j

theorem derivative_eq (eigen : Eigen ℝ d) (dx : Vector ℝ (triangle d)) :
    ∃ W : Mat ℝ d d, derivative eigen dx = pack W ∧ W.matrix =
      eigen.vectors.matrix * scaled eigen (unpack d dx).matrix * eigen.vectors.matrixᵀ := by
  have turned : ((eigen.vectors.transpose.mul (unpack d dx)).mul eigen.vectors).matrix =
      eigen.vectors.matrixᵀ * (unpack d dx).matrix * eigen.vectors.matrix := by
    rw [Mat.matrix_mul, Mat.matrix_mul, Mat.matrix_transpose]
  refine ⟨_, rfl, ?_⟩
  rw [Mat.matrix_mul, Mat.matrix_mul, Mat.matrix_transpose, Mat.matrix_ofFn]
  unfold scaled
  rw [← turned]
  rfl

theorem conjugate_symm {X Q : Matrix (Fin d) (Fin d) ℝ} (symm : X.IsSymm) :
    (Q * X * Qᵀ).IsSymm := by
  unfold Matrix.IsSymm
  rw [transpose_mul, transpose_mul, transpose_transpose, symm.eq, Matrix.mul_assoc]

theorem turned_symm (Q : Matrix (Fin d) (Fin d) ℝ) {X : Matrix (Fin d) (Fin d) ℝ}
    (symm : X.IsSymm) : (Qᵀ * X * Q).IsSymm := by
  have conjugate := conjugate_symm (Q := Qᵀ) symm
  rwa [transpose_transpose] at conjugate

theorem scaled_symm (eigen : Eigen ℝ d) {X : Matrix (Fin d) (Fin d) ℝ} (symm : X.IsSymm) :
    (scaled eigen X).IsSymm := by
  ext i j
  rw [transpose_apply, scaled, scaled, slope_comm, (turned_symm _ symm).apply]

theorem unpack_derivative (eigen : Eigen ℝ d) (dx : Vector ℝ (triangle d)) :
    (unpack d (derivative eigen dx)).matrix =
      eigen.vectors.matrix * scaled eigen (unpack d dx).matrix * eigen.vectors.matrixᵀ := by
  obtain ⟨W, image, W_eq⟩ := derivative_eq eigen dx
  have W_symm : W.matrix.IsSymm := W_eq ▸ conjugate_symm (scaled_symm eigen (unpack_symm dx))
  rw [image, unpack_pack W_symm, W_eq]

theorem turned_derivative {eigen : Eigen ℝ d}
    (orthogonal : eigen.vectors.matrixᵀ * eigen.vectors.matrix = 1) (dx : Vector ℝ (triangle d)) :
    eigen.vectors.matrixᵀ * (unpack d (derivative eigen dx)).matrix * eigen.vectors.matrix =
      scaled eigen (unpack d dx).matrix := by
  rw [unpack_derivative, Matrix.mul_assoc, Matrix.mul_assoc, orthogonal, Matrix.mul_one,
    ← Matrix.mul_assoc, orthogonal, Matrix.one_mul]

theorem trace_conjugate (Q S Y : Matrix (Fin d) (Fin d) ℝ) :
    (Q * S * Qᵀ * Y).trace = (S * (Qᵀ * Y * Q)).trace := by
  rw [Matrix.mul_assoc, Matrix.mul_assoc, trace_mul_comm]
  congr 1
  simp only [Matrix.mul_assoc]

theorem trace_scaled_comm (eigen : Eigen ℝ d) (X Y : Matrix (Fin d) (Fin d) ℝ) :
    (scaled eigen X * (eigen.vectors.matrixᵀ * Y * eigen.vectors.matrix)).trace =
      (scaled eigen Y * (eigen.vectors.matrixᵀ * X * eigen.vectors.matrix)).trace := by
  simp only [Matrix.trace, Matrix.diag_apply, Matrix.mul_apply (M := scaled eigen _)]
  rw [Finset.sum_comm]
  apply Finset.sum_congr rfl
  intro i _
  apply Finset.sum_congr rfl
  intro j _
  rw [scaled, scaled, slope_comm]
  ring

theorem derivative_selfAdjoint (eigen : Eigen ℝ d) (dx dy : Vector ℝ (triangle d)) :
    (derivative eigen dx).get ⬝ᵥ dy.get = dx.get ⬝ᵥ (derivative eigen dy).get := by
  calc
    _ = ((unpack d (derivative eigen dx)).matrix * (unpack d dy).matrix).trace := dot_eq_trace ..
    _ = ((unpack d (derivative eigen dy)).matrix * (unpack d dx).matrix).trace := by
      rw [unpack_derivative, unpack_derivative, trace_conjugate, trace_conjugate, trace_scaled_comm]
    _ = _ := by rw [← dot_eq_trace, dotProduct_comm]

theorem scaled_compose {eigen : Eigen ℝ d} (values : Vector ℝ d)
    (orthogonal : eigen.vectors.matrixᵀ * eigen.vectors.matrix = 1) :
    scaled eigen (Eigen.compose values eigen.vectors).matrix =
      Matrix.diagonal fun i => slope (eigen.values i) (eigen.values i) * values i := by
  have turned : eigen.vectors.matrixᵀ * (Eigen.compose values eigen.vectors).matrix *
      eigen.vectors.matrix = Matrix.diagonal values.get := by
    rw [Eigen.matrix_compose]
    calc
      _ = (eigen.vectors.matrixᵀ * eigen.vectors.matrix) * Matrix.diagonal values.get *
          (eigen.vectors.matrixᵀ * eigen.vectors.matrix) := by simp only [Matrix.mul_assoc]
      _ = _ := by rw [orthogonal, Matrix.one_mul, Matrix.mul_one]
  funext i j
  rw [scaled, turned]
  by_cases diagonal : i = j
  · subst diagonal
    rw [diagonal_apply_eq, diagonal_apply_eq]
  · rw [diagonal_apply_ne _ diagonal, diagonal_apply_ne _ diagonal, mul_zero]

/-- On matrices with the same eigenvectors the derivative scales the eigenvalues one by one. -/
theorem derivative_pack_compose {eigen : Eigen ℝ d} (values : Vector ℝ d)
    (orthogonal : eigen.vectors.matrixᵀ * eigen.vectors.matrix = 1) :
    derivative eigen (pack (Eigen.compose values eigen.vectors)) =
      pack (Eigen.compose
        (Vector.ofFn fun i => slope (eigen.values i) (eigen.values i) * values i)
        eigen.vectors) := by
  obtain ⟨W, image, W_eq⟩ := derivative_eq eigen (pack (Eigen.compose values eigen.vectors))
  rw [unpack_pack (Eigen.compose_symm ..), scaled_compose values orthogonal] at W_eq
  rw [image]
  congr 1
  apply Mat.matrix_injective
  rw [W_eq, Eigen.matrix_compose, Vec.get_ofFn]

theorem derivative_point {eigen : Eigen ℝ d} {x : Vector ℝ (triangle d)}
    (decomposes : eigen.Decomposes (unpack d x)) : derivative eigen x = project eigen := by
  have point : x = pack (Eigen.compose eigen.values eigen.vectors) := by
    rw [decomposes.composes, pack_unpack]
  conv_lhs => rw [point]
  rw [derivative_pack_compose _ decomposes.orthogonal, project]
  congr 2
  apply Vec.ext
  intro i
  rw [Vec.ofFn_apply, slope_self_mul]
  simp [Vec.apply_eq_getElem]

theorem derivative_project {eigen : Eigen ℝ d} {x : Vector ℝ (triangle d)}
    (decomposes : eigen.Decomposes (unpack d x)) :
    derivative eigen (project eigen) = project eigen := by
  rw [project, derivative_pack_compose _ decomposes.orthogonal]
  congr 2
  apply Vec.ext
  intro i
  have value : (eigen.values.map positivePart) i = positivePart (eigen.values i) := by
    simp [Vec.apply_eq_getElem]
  rw [Vec.ofFn_apply, value, slope_self_mul_positivePart]

end Semidefinite

end ConicDerivative
