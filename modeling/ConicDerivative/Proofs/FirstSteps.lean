import ConicDerivative.LeastSquares.Lsqr
import ConicDerivative.Proofs.Adjoints

/-!
The first step of the iteration over the real numbers. It goes from zero along the product of the
transpose with the right-hand side, and as far as the residual shrinks. Where the matrix takes this
direction back to the right-hand side, nothing is left of the residual, and the iteration stops.
-/

namespace ConicDerivative.LeastSquares

open Scalar Matrix

variable {n : Nat}

theorem sign_mul_self {x : ℝ} (nonzero : x ≠ 0) : sign x * sign x = 1 := by
  unfold sign
  split_ifs with positive negative
  · exact mul_one 1
  · exact (neg_mul_neg 1 1).trans (mul_one 1)
  · exact absurd (le_antisymm (not_lt.1 positive) (not_lt.1 negative)) nonzero

theorem sign_div_abs (x : ℝ) : sign x / |x| = x / (x * x) := by
  rcases eq_or_ne x 0 with rfl | nonzero
  · rw [abs_zero, div_zero, zero_div]
  · have length : |x| = sign x * x := by
      unfold sign
      split_ifs with positive negative
      · rw [one_mul, abs_of_pos positive]
      · rw [neg_one_mul, abs_of_neg negative]
      · exact absurd (le_antisymm (not_lt.1 positive) (not_lt.1 negative)) nonzero
    have unit : sign x ≠ 0 := left_ne_zero_of_mul_eq_one (sign_mul_self nonzero)
    rw [length, div_mul_cancel_left₀ unit, div_mul_cancel_left₀ nonzero]

theorem sign_div_sqrt_mul_self {x : ℝ} (nonzero : x ≠ 0) (t : ℝ) :
    sign x / sqrt (1 + t * t) * (sign x / sqrt (1 + t * t)) = 1 / (1 + t * t) := by
  have square : sqrt (1 + t * t) * sqrt (1 + t * t) = 1 + t * t :=
    Real.mul_self_sqrt (add_nonneg zero_le_one (mul_self_nonneg t))
  rw [div_mul_div_comm, sign_mul_self nonzero, square]

theorem rotation_cosine_div_length (a b : ℝ) :
    (rotation a b).cosine / (rotation a b).length = a / (a * a + b * b) := by
  unfold rotation
  split_ifs with flat upright steep
  · rw [isZero_iff.1 flat, abs_real, mul_zero, add_zero, sign_div_abs]
  · rw [isZero_iff.1 upright, zero_div, zero_div]
  · have nonzero : b ≠ 0 := fun null => flat (isZero_iff.2 null)
    have square := sign_div_sqrt_mul_self nonzero (a / b)
    have sum : a * a + b * b ≠ 0 :=
      (add_pos_of_nonneg_of_pos (mul_self_nonneg a) (mul_self_pos.2 nonzero)).ne'
    simp only
    rw [div_div_eq_mul_div, mul_right_comm, square]
    field_simp
    ring
  · have nonzero : a ≠ 0 := fun null => upright (isZero_iff.2 null)
    have square := sign_div_sqrt_mul_self nonzero (b / a)
    have sum : a * a + b * b ≠ 0 :=
      (add_pos_of_pos_of_nonneg (mul_self_pos.2 nonzero) (mul_self_nonneg b)).ne'
    simp only
    rw [div_div_eq_mul_div, square]
    field_simp

theorem isDone_of_normR (tol : Tolerances ℝ) (normB : ℝ) {e : Estimates ℝ} (null : e.normR = 0) :
    isDone tol normB e = true := by
  have relative : 1 + e.normR / normB / (1 + e.normA * e.normX / normB) ≤ 1 := by
    rw [null, zero_div, zero_div, add_zero]
  simp only [isDone, decide_eq_true relative, Bool.or_true, Bool.true_or]

section

variable {A : Operator ℝ n n} {M : Matrix (Fin n) (Fin n) ℝ} {r : Vector ℝ n}

theorem adjoint_scale (same : A.Represents M) (t : ℝ) (y : Vector ℝ n) :
    A.adjoint (Vec.scale t y) = Vec.scale t (A.adjoint y) := by
  apply Vec.get_injective
  rw [same.adjoint, Vec.get_scale, Vec.get_scale, mulVec_smul, same.adjoint]

theorem norm_pos (direction : (A.adjoint r).get ≠ 0) (same : A.Represents M) : 0 < Vec.norm r := by
  refine (Vec.norm_nonneg r).lt_of_ne' fun null => direction ?_
  rw [same.adjoint, Vec.norm_eq_zero_iff.1 null, mulVec_zero]

theorem start_eq (same : A.Represents M) (direction : (A.adjoint r).get ≠ 0) :
    Bidiagonal.start A r =
      { u := Vec.scale (1 / Vec.norm r) r
        v := Vec.scale (1 / Vec.norm (A.adjoint r)) (A.adjoint r)
        alpha := Vec.norm (A.adjoint r) / Vec.norm r
        beta := Vec.norm r } := by
  have positive := norm_pos direction same
  have long : 0 < Vec.norm (A.adjoint r) :=
    (Vec.norm_nonneg _).lt_of_ne' (mt Vec.norm_eq_zero_iff.1 direction)
  have alpha : Vec.norm (A.adjoint (Vec.scale (1 / Vec.norm r) r)) =
      Vec.norm (A.adjoint r) / Vec.norm r := by
    rw [adjoint_scale same, Vec.norm_scale, abs_of_pos (one_div_pos.2 positive), one_div_mul_eq_div]
  simp only [Bidiagonal.start, if_pos positive, alpha, if_pos (div_pos long positive)]
  congr 1
  apply Vec.get_injective
  rw [adjoint_scale same]
  simp only [Vec.get_scale, smul_smul]
  congr 1
  field_simp

theorem isSolvedByZero_iff (same : A.Represents M) :
    isSolvedByZero A r = true ↔ (A.adjoint r).get = 0 := by
  rw [isSolvedByZero, isZero_iff]
  by_cases direction : (A.adjoint r).get = 0
  · have null : Vec.norm (A.adjoint (Vec.scale (1 / Vec.norm r) r)) = 0 := by
      rw [Vec.norm_eq_zero_iff, adjoint_scale same, Vec.get_scale, direction, smul_zero]
    refine iff_of_true ?_ direction
    simp only [Bidiagonal.start, null]
    split_ifs <;> exact zero_mul _
  · rw [start_eq same direction, div_mul_cancel₀ _ (norm_pos direction same).ne',
      Vec.norm_eq_zero_iff]

theorem next_beta (state : Bidiagonal ℝ n) : (Bidiagonal.next A state).beta =
    Vec.norm (A.apply state.v - Vec.scale state.alpha state.u) := by
  simp only [Bidiagonal.next]
  split_ifs <;> rfl

theorem next_beta_mul_self (same : A.Represents M) (direction : (A.adjoint r).get ≠ 0) :
    (Bidiagonal.next A (Bidiagonal.start A r)).beta *
        (Bidiagonal.next A (Bidiagonal.start A r)).beta =
      Vec.norm (A.apply (A.adjoint r)) * Vec.norm (A.apply (A.adjoint r)) /
          (Vec.norm (A.adjoint r) * Vec.norm (A.adjoint r)) -
        Vec.norm (A.adjoint r) / Vec.norm r * (Vec.norm (A.adjoint r) / Vec.norm r) := by
  have positive := norm_pos direction same
  have long : 0 < Vec.norm (A.adjoint r) :=
    (Vec.norm_nonneg _).lt_of_ne' (mt Vec.norm_eq_zero_iff.1 direction)
  have back : (A.apply (A.adjoint r)).get ⬝ᵥ r.get =
      Vec.norm (A.adjoint r) * Vec.norm (A.adjoint r) := by
    rw [same.isAdjoint, Vec.norm_mul_self]
  have image : (A.apply (Vec.scale (1 / Vec.norm (A.adjoint r)) (A.adjoint r))).get =
      (1 / Vec.norm (A.adjoint r)) • (A.apply (A.adjoint r)).get := by
    rw [same.apply, Vec.get_scale, mulVec_smul, same.apply]
  rw [next_beta, start_eq same direction, Vec.norm_mul_self, Vec.get_sub, image]
  simp only [Vec.get_scale, smul_smul, sub_dotProduct, dotProduct_sub, smul_dotProduct,
    dotProduct_smul, smul_eq_mul, dotProduct_comm r.get, back, ← Vec.norm_mul_self]
  field_simp
  ring

namespace Lsqr

/-- The first step is one of steepest descent, and as long as to leave the least residual. -/
theorem step_start (same : A.Represents M) (direction : (A.adjoint r).get ≠ 0) :
    (step A (start A r)).1.x = Vec.scale
      (Vec.norm (A.adjoint r) * Vec.norm (A.adjoint r) /
        (Vec.norm (A.apply (A.adjoint r)) * Vec.norm (A.apply (A.adjoint r)))) (A.adjoint r) := by
  let process := Bidiagonal.start A r
  let turn := rotation process.alpha (Bidiagonal.next A process).beta
  have positive := norm_pos direction same
  have long : Vec.norm (A.adjoint r) ≠ 0 := mt Vec.norm_eq_zero_iff.1 direction
  have alpha : process.alpha = Vec.norm (A.adjoint r) / Vec.norm r := by
    simp only [process, start_eq same direction]
  have length : process.alpha * process.alpha +
      (Bidiagonal.next A process).beta * (Bidiagonal.next A process).beta =
        Vec.norm (A.apply (A.adjoint r)) * Vec.norm (A.apply (A.adjoint r)) /
          (Vec.norm (A.adjoint r) * Vec.norm (A.adjoint r)) := by
    rw [next_beta_mul_self same direction, alpha]
    ring
  have stepped : (step A (start A r)).1.x = Vec.scale (turn.cosine * process.beta / turn.length)
      process.v := by
    have moved : (step A (start A r)).1.x = Vector.replicate n 0 +
      Vec.scale (turn.cosine * process.beta / turn.length) process.v := rfl
    rw [moved, Vec.replicate_zero_add]
  rw [stepped, mul_div_right_comm, rotation_cosine_div_length, length, alpha]
  simp only [process, start_eq same direction]
  apply Vec.get_injective
  simp only [Vec.get_scale, smul_smul]
  congr 1
  field_simp

theorem run_succ (tol : Tolerances ℝ) (normB : ℝ) (limit : Nat) (state : State ℝ n) :
    run A tol normB (limit + 1) state = if isDone tol normB (step A state).2 then (step A state).1.x
      else run A tol normB limit (step A state).1 := rfl

theorem solve_one (same : A.Represents M) (direction : (A.adjoint r).get ≠ 0) (tol : Tolerances ℝ) :
    solve A tol 1 r = (step A (start A r)).1.x := by
  have unsolved : ¬isSolvedByZero A r = true := mt (isSolvedByZero_iff same).1 direction
  rw [solve, if_neg unsolved, run_succ]
  exact ite_self _

/-- The first step solves the system if its direction is taken back to the right-hand side. -/
theorem solve_of_eigenvector (same : A.Represents M) {l : ℝ} (nonzero : l ≠ 0)
    (direction : (A.adjoint r).get ≠ 0) (image : (A.apply (A.adjoint r)).get = l • r.get)
    (tol : Tolerances ℝ) (limit : Nat) :
    solve A tol (limit + 1) r = Vec.scale (1 / l) (A.adjoint r) := by
  have positive := norm_pos direction same
  have adjoint : Vec.norm (A.adjoint r) * Vec.norm (A.adjoint r) =
      l * (Vec.norm r * Vec.norm r) := by
    rw [Vec.norm_mul_self, ← same.isAdjoint, image, smul_dotProduct, smul_eq_mul, Vec.norm_mul_self]
  have apply : Vec.norm (A.apply (A.adjoint r)) * Vec.norm (A.apply (A.adjoint r)) =
      l * l * (Vec.norm r * Vec.norm r) := by
    rw [Vec.norm_mul_self, image, smul_dotProduct, dotProduct_smul, smul_eq_mul, smul_eq_mul,
      Vec.norm_mul_self, mul_assoc]
  have nothing : (Bidiagonal.next A (Bidiagonal.start A r)).beta = 0 := by
    rw [← mul_self_eq_zero, next_beta_mul_self same direction, div_mul_div_comm, adjoint, apply]
    field_simp
    ring
  have still : (step A (start A r)).2.normR = 0 := by
    have turned : (step A (start A r)).2.normR = sqrt (square
      ((rotation (Bidiagonal.start A r).alpha
        (Bidiagonal.next A (Bidiagonal.start A r)).beta).sine * (Bidiagonal.start A r).beta)) := rfl
    have flat : isZero (0 : ℝ) = true := isZero_iff.2 rfl
    rw [turned, nothing, rotation, if_pos flat, zero_mul, square, mul_zero, sqrt_real,
      Real.sqrt_zero]
  have unsolved : ¬isSolvedByZero A r = true := mt (isSolvedByZero_iff same).1 direction
  rw [solve, if_neg unsolved, run_succ, if_pos (isDone_of_normR _ _ still),
    step_start same direction, adjoint, apply]
  congr 1
  field_simp

end Lsqr

end

end ConicDerivative.LeastSquares
