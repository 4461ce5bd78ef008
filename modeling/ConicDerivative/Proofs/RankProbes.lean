import ConicDerivative.Proofs.FirmDerivatives
import ConicDerivative.Proofs.FirstDraws
import ConicDerivative.Proofs.ResidualChecks
import ConicDerivative.Proofs.SolverRuns

/-!
How an iterative solver finds a matrix to be singular: it solves for one fixed vector, and refuses
the matrix if the residual is large. This vector is the same for all matrices of a size. A singular
matrix is refused unless the vector lies, up to the tolerance, in the range of the matrix, and so at a
right angle to all that the transpose takes to zero; there are singular matrices of this kind that are
taken.
-/

namespace ConicDerivative

open Scalar Matrix Outcomes

variable {n : Nat}

theorem Operator.Represents.abs_dotProduct_le {A : Operator ℝ n n} {M : Matrix (Fin n) (Fin n) ℝ}
    (same : A.Represents M) (z g : Vector ℝ n) {w : Vector ℝ n} (kernel : Mᵀ *ᵥ w.get = 0) :
    |w.get ⬝ᵥ g.get| ≤ Vec.norm (A.apply z - g) * Vec.norm w := by
  have image : w.get ⬝ᵥ (A.apply z).get = 0 := by
    rw [same.apply, dotProduct_mulVec, ← mulVec_transpose, kernel, zero_dotProduct]
  have square := SecondOrder.sq_dot_le w (A.apply z - g)
  rw [Vec.get_sub, dotProduct_sub, image, zero_sub, neg_sq, ← Vec.get_sub, ← Vec.norm_mul_self,
    ← Vec.norm_mul_self, mul_mul_mul_comm, ← sq, mul_comm (Vec.norm w)] at square
  exact abs_le_of_sq_le_sq square (mul_nonneg (Vec.norm_nonneg _) (Vec.norm_nonneg w))

namespace SystemSolver

variable {solver : SystemSolver ℝ} {J : Jacobian ℝ n n} {M : Matrix (Fin n) (Fin n) ℝ} {tol : ℝ}

theorem factorize_iterative_cases (iterative : solver.options.method.isIterative = true)
    (readable : solver.options.IsReadable) (read : solver.options.residualTol.number = .ok tol) :
    (∃ detail, solver.factorize ⟨J⟩ = (.error (.singular detail), solver.reset)) ∨
    solver.factorize ⟨J⟩ = (.ok (), ⟨solver.options, some ⟨.iterative J.toOperator⟩⟩) ∧
      ∃ z, Vec.norm (J.toOperator.apply z - Draws.normal n) ≤
        tol * max 1 (Vec.norm (Draws.normal n : Vector ℝ n)) := by
  cases solved : Factor.iterate solver.options J.toOperator (Draws.normal n) with
  | ok z =>
    exact .inr ⟨factorize_of_iterate iterative solved, z, ((Factor.iterate_eq_ok read).1 solved).2⟩
  | error cause =>
    obtain ⟨detail, rfl⟩ := Factor.singular_of_iterate_error readable solved
    refine .inl ⟨detail, ?_⟩
    simp only [factorize, factorization_iterative iterative, Factor.checkRank, solved]
    rfl

/--
A singular matrix is refused and leaves nothing to solve with, unless the fixed vector is within the
tolerance of its range. Then this vector is almost at right angles to the kernel of the transpose.
-/
theorem factorize_singular_or_near (iterative : solver.options.method.isIterative = true)
    (readable : solver.options.IsReadable) (read : solver.options.residualTol.number = .ok tol)
    (same : J.toOperator.Represents M) (singular : ¬IsUnit M) :
    (∃ w : Vector ℝ n, w.get ≠ 0 ∧ Mᵀ *ᵥ w.get = 0) ∧
    ((∃ detail, solver.factorize ⟨J⟩ = (.error (.singular detail), solver.reset)) ∨
      (∃ z : Vector ℝ n, Vec.norm (J.toOperator.apply z - Draws.normal n) ≤
        tol * max 1 (Vec.norm (Draws.normal n : Vector ℝ n))) ∧
      ∀ w : Vector ℝ n, Mᵀ *ᵥ w.get = 0 → |w.get ⬝ᵥ (Draws.normal n).get| ≤
        tol * max 1 (Vec.norm (Draws.normal n : Vector ℝ n)) * Vec.norm w) := by
  constructor
  · have determinant : Mᵀ.det = 0 := by
      rw [det_transpose, ← not_ne_iff, ← isUnit_iff_ne_zero, ← isUnit_iff_isUnit_det]
      exact singular
    obtain ⟨v, nonzero, kernel⟩ := exists_mulVec_eq_zero_iff.2 determinant
    refine ⟨Vector.ofFn v, ?_, ?_⟩
    · rwa [Vec.get_ofFn]
    · rwa [Vec.get_ofFn]
  · rcases factorize_iterative_cases iterative readable read with refused | ⟨_, z, near⟩
    · exact .inl refused
    · refine .inr ⟨⟨z, near⟩, fun w kernel => ?_⟩
      refine (same.abs_dotProduct_le z _ kernel).trans ?_
      exact mul_le_mul_of_nonneg_right near (Vec.norm_nonneg w)

def collinear : Mat ℝ 2 2 := Mat.ofFn fun i j => ((![![1, 1], ![2, 2]] i j : Nat) : ℝ)

theorem matrix_collinear : collinear.matrix = !![1, 1; 2, 2] := by
  ext i j
  refine (Mat.ofFn_apply ..).trans ?_
  fin_cases i <;> fin_cases j <;> norm_num

theorem normal_two_apart : 1e-6 * max 1 (Vec.norm (Draws.normal 2 : Vector ℝ 2)) *
      Vec.norm (#v[2, -1] : Vector ℝ 2) <
    |(#v[2, -1] : Vector ℝ 2).get ⬝ᵥ (Draws.normal 2).get| := by
  obtain ⟨factor, x, y, drawn, large, left, right, low, high⟩ := Draws.normal_two
  have long : Vec.norm (Draws.normal 2 : Vector ℝ 2) ≤ factor := by
    rw [drawn, Vec.norm_eq_sqrt, vec2_dotProduct]
    refine Real.sqrt_le_iff.2 ⟨zero_le_one.trans large, ?_⟩
    change factor * y * (factor * y) + factor * x * (factor * x) ≤ factor ^ 2
    have inside : y * y + x * x ≤ 1 := by nlinarith
    nlinarith [mul_le_mul_of_nonneg_left inside (sq_nonneg factor)]
  have kernel : Vec.norm (#v[2, -1] : Vector ℝ 2) ≤ 3 := by
    rw [Vec.norm_eq_sqrt, vec2_dotProduct]
    refine Real.sqrt_le_iff.2 ⟨by norm_num, ?_⟩
    change (2 : ℝ) * 2 + -1 * -1 ≤ 3 ^ 2
    norm_num
  have along : (#v[2, -1] : Vector ℝ 2).get ⬝ᵥ (Draws.normal 2).get = factor * (2 * y - x) := by
    rw [drawn, vec2_dotProduct]
    change 2 * (factor * y) + -1 * (factor * x) = factor * (2 * y - x)
    ring
  calc
    _ ≤ 1e-6 * factor * 3 := by
      have length := Vec.norm_nonneg (#v[2, -1] : Vector ℝ 2)
      gcongr
      exact max_le large long
    _ < factor * (2 * y - x) := by nlinarith
    _ ≤ _ := along ▸ le_abs_self _

theorem factorize_collinear :
    (SolverOptions.default .lsqr : SolverOptions ℝ).method.isIterative = true ∧
    (SolverOptions.default .lsqr : SolverOptions ℝ).IsReadable ∧
    (SolverOptions.default .lsqr : SolverOptions ℝ).residualTol.number = .ok 1e-6 ∧
    (Operator.ofMat collinear).Represents collinear.matrix ∧ ¬IsUnit collinear.matrix ∧
    ∃ detail, (new (.default .lsqr)).factorize ⟨.assembled (.dense collinear)⟩ =
      (.error (.singular detail), new (.default .lsqr)) := by
  let solver : SystemSolver ℝ := new (.default .lsqr)
  let J : Jacobian ℝ 2 2 := .assembled (.dense collinear)
  have iterative : solver.options.method.isIterative = true := rfl
  have readable : solver.options.IsReadable := SolverOptions.isReadable_default .lsqr
  have read : solver.options.residualTol.number = .ok 1e-6 := rfl
  have same : J.toOperator.Represents collinear.matrix := Operator.represents_ofMat collinear
  have singular : ¬IsUnit collinear.matrix := by
    rw [matrix_collinear, isUnit_iff_isUnit_det, det_fin_two_of]
    norm_num
  refine ⟨rfl, readable, rfl, same, singular, ?_⟩
  rcases (factorize_singular_or_near iterative readable read same singular).2 with
    refused | ⟨_, near⟩
  · exact refused
  · have kernel : collinear.matrixᵀ *ᵥ (#v[2, -1] : Vector ℝ 2).get = 0 := by
      rw [matrix_collinear]
      ext i
      fin_cases i <;> norm_num [Matrix.mulVec, dotProduct, Fin.sum_univ_two, Vector.get]
    exact absurd (near _ kernel) (not_le.2 normal_two_apart)

/-- Both columns are the fixed vector, so that the first step solves for it. -/
noncomputable def probeColumns : Mat ℝ 2 2 := .outer (Draws.normal 2) (.replicate 2 1)

theorem not_isUnit_outer (g : Vector ℝ 2) :
    ¬IsUnit (Mat.outer g (Vector.replicate 2 1)).matrix := by
  rw [isUnit_iff_isUnit_det, det_fin_two, Mat.matrix_outer, Vec.get_replicate]
  simp only [vecMulVec_apply, mul_one, mul_comm (g.get 0), sub_self]
  exact not_isUnit_zero

theorem outer_image (g : Vector ℝ n) :
    ((Operator.ofMat (.outer g (.replicate n 1))).apply
      ((Operator.ofMat (.outer g (.replicate n 1))).adjoint g)).get =
        (n * (g.get ⬝ᵥ g.get)) • g.get := by
  have same := Operator.represents_ofMat (Mat.outer g (Vector.replicate n 1))
  rw [same.apply, same.adjoint, Mat.matrix_outer, Vec.get_replicate]
  have ones : (fun _ : Fin n => (1 : ℝ)) ⬝ᵥ (fun _ => 1) = n := by simp [dotProduct]
  rw [transpose_vecMulVec, vecMulVec_mulVec, op_smul_eq_smul, vecMulVec_mulVec, op_smul_eq_smul,
    dotProduct_smul, ones, smul_eq_mul, mul_comm]

theorem iterate_outer (g : Vector ℝ (n + 1)) :
    ∃ z, Factor.iterate (.default .lsqr) (.ofMat (.outer g (.replicate (n + 1) 1))) g = .ok z := by
  have same := Operator.represents_ofMat (Mat.outer g (Vector.replicate (n + 1) 1))
  have image := outer_image g
  have limited : (SolverOptions.default .lsqr : SolverOptions ℝ).limit (n + 1) =
    .ok (10 * n + 9 + 1) := rfl
  have nonneg : (0 : ℝ) ≤ 1e-6 := by norm_num
  obtain ⟨l, nonzero, image⟩ : ∃ l : ℝ, l ≠ 0 ∧
      ((Operator.ofMat (.outer g (.replicate (n + 1) 1))).apply
        ((Operator.ofMat (.outer g (.replicate (n + 1) 1))).adjoint g)).get = l • g.get := by
    by_cases null : g.get = 0
    · refine ⟨1, one_ne_zero, image.trans ?_⟩
      rw [null, smul_zero, smul_zero]
    · refine ⟨_, mul_ne_zero (Nat.cast_ne_zero.2 n.succ_ne_zero) ?_, image⟩
      exact dotProduct_self_eq_zero.not.2 null
  exact Factor.iterate_of_eigenvector rfl limited rfl rfl nonneg same nonzero image

/-- A singular matrix that is taken. -/
theorem factorize_probeColumns : ¬IsUnit probeColumns.matrix ∧
    (new (.default .lsqr)).factorize ⟨.assembled (.dense probeColumns)⟩ =
      (.ok (), ⟨.default .lsqr, some ⟨.iterative (.ofMat probeColumns)⟩⟩) := by
  obtain ⟨z, solved⟩ := iterate_outer (Draws.normal 2)
  exact ⟨not_isUnit_outer _, factorize_of_iterate rfl solved⟩

end SystemSolver

end ConicDerivative
