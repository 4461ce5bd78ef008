import Mathlib.Analysis.Matrix.Normed
import ConicDerivative.Proofs.ConeProjections
import ConicDerivative.Proofs.EigenChoices
import ConicDerivative.Proofs.FrechetDerivatives

/-!
The semidefinite projection is differentiable where no eigenvalue is zero, and its derivative there is
the map that is computed, repeated eigenvalues included. A point is the difference of its projection and
of what the projection adds, whose product is zero. Both parts move by no more than the point, so that
the remainder of the derivative, which solves a Sylvester equation, is of second order.
-/

namespace ConicDerivative

open Scalar Matrix Packed
open scoped Matrix.Norms.Frobenius

variable {d k : Nat}

theorem frobenius_sq (A : Matrix (Fin d) (Fin d) ℝ) : ‖A‖ ^ 2 = (Aᵀ * A).trace := by
  have nonneg : 0 ≤ ∑ i, ∑ j, ‖A i j‖ ^ (2 : ℝ) := by positivity
  have squares : ‖A‖ ^ 2 = ∑ i, ∑ j, A i j * A i j := by
    rw [frobenius_norm_def, ← Real.sqrt_eq_rpow, Real.sq_sqrt nonneg]
    simp only [Real.rpow_two, Real.norm_eq_abs, pow_two, abs_mul_abs_self]
  rw [squares, Finset.sum_comm]
  rfl

theorem frobenius_turned {Q : Matrix (Fin d) (Fin d) ℝ} (orthogonal : Q * Qᵀ = 1)
    (A : Matrix (Fin d) (Fin d) ℝ) : ‖Qᵀ * A * Q‖ = ‖A‖ := by
  have square : ‖Qᵀ * A * Q‖ ^ 2 = ‖A‖ ^ 2 := by
    rw [frobenius_sq, frobenius_sq, transpose_mul, transpose_mul, transpose_transpose]
    calc
      (Qᵀ * (Aᵀ * Q) * (Qᵀ * A * Q)).trace = (Qᵀ * (Aᵀ * (Q * Qᵀ) * A) * Q).trace := by
        simp only [Matrix.mul_assoc]
      _ = (Aᵀ * A).trace := by
        rw [orthogonal, Matrix.mul_one, trace_mul_comm, ← Matrix.mul_assoc, orthogonal,
          Matrix.one_mul]
  exact (sq_eq_sq₀ (norm_nonneg _) (norm_nonneg _)).1 square

theorem frobenius_le {A B : Matrix (Fin d) (Fin d) ℝ} (cells : ∀ i j, |A i j| ≤ |B i j|) :
    ‖A‖ ≤ ‖B‖ := by
  rw [frobenius_norm_def, frobenius_norm_def]
  gcongr with i _ j _
  exact cells i j

theorem Packed.norm_unpack (x : Vector ℝ (triangle d)) : ‖(unpack d x).matrix‖ = Vec.norm x := by
  have square : ‖(unpack d x).matrix‖ ^ 2 = Vec.norm x ^ 2 := by
    rw [frobenius_sq, (unpack_symm x).eq, ← dot_eq_trace, pow_two, Vec.norm_mul_self]
  exact (sq_eq_sq₀ (norm_nonneg _) (Vec.norm_nonneg _)).1 square

/-- The projection and what it adds move apart: together they move by no more than the point. -/
theorem Cone.IsProjection.moved_le {cone : Cone} {x y p q : Vector ℝ k}
    (first : cone.IsProjection x p) (second : cone.IsProjection y q) :
    (q - p).get ⬝ᵥ (q - p).get + (q - y - (p - x)).get ⬝ᵥ (q - y - (p - x)).get ≤
      (y - x).get ⬝ᵥ (y - x).get := by
  have across := second.inside.dot_nonneg first.residual
  have across' := first.inside.dot_nonneg second.residual
  have right := first.orthogonal
  have right' := second.orthogonal
  have apart : (q - p).get ⬝ᵥ (q - y - (p - x)).get ≤ 0 := by
    rw [Vec.get_sub q p, Vec.get_sub (q - y), sub_dotProduct, dotProduct_sub, dotProduct_sub]
    linarith
  have split : (y - x).get = (q - p).get - (q - y - (p - x)).get := by
    simp only [Vec.get_sub]
    abel
  rw [split, dotProduct_sub, sub_dotProduct, sub_dotProduct,
    dotProduct_comm (q - y - (p - x)).get (q - p).get]
  linarith

namespace Semidefinite

theorem turned_injective {Q : Matrix (Fin d) (Fin d) ℝ} (orthogonal : Q * Qᵀ = 1)
    {A B : Matrix (Fin d) (Fin d) ℝ} (same : Qᵀ * A * Q = Qᵀ * B * Q) : A = B := by
  have back (Y : Matrix (Fin d) (Fin d) ℝ) : Q * (Qᵀ * Y * Q) * Qᵀ = Y := by
    calc
      _ = Q * Qᵀ * Y * (Q * Qᵀ) := by simp only [Matrix.mul_assoc]
      _ = Y := by rw [orthogonal, Matrix.one_mul, Matrix.mul_one]
  rw [← back A, same, back B]

theorem turned_products {Q : Matrix (Fin d) (Fin d) ℝ} (orthogonal : Qᵀ * Q = 1) (u : Fin d → ℝ)
    (E : Matrix (Fin d) (Fin d) ℝ) (i j : Fin d) :
    (Qᵀ * (Q * diagonal u * Qᵀ * E + E * (Q * diagonal u * Qᵀ)) * Q) i j =
      (u i + u j) * (Qᵀ * E * Q) i j := by
  have turned : Qᵀ * (Q * diagonal u * Qᵀ * E + E * (Q * diagonal u * Qᵀ)) * Q =
      diagonal u * (Qᵀ * E * Q) + Qᵀ * E * Q * diagonal u := by
    calc
      _ = Qᵀ * Q * diagonal u * (Qᵀ * E * Q) + Qᵀ * E * Q * diagonal u * (Qᵀ * Q) := by
        simp only [Matrix.mul_add, Matrix.add_mul, Matrix.mul_assoc]
      _ = _ := by rw [orthogonal, Matrix.one_mul, Matrix.mul_one]
  rw [turned, Matrix.add_apply, diagonal_mul, mul_diagonal]
  ring

theorem frobenius_le_products {Q : Matrix (Fin d) (Fin d) ℝ} (orthogonal : Qᵀ * Q = 1)
    {u : Fin d → ℝ} {a : ℝ} (nonneg : 0 ≤ a) (large : ∀ i, a ≤ u i)
    (E : Matrix (Fin d) (Fin d) ℝ) :
    2 * a * ‖E‖ ≤ ‖Q * diagonal u * Qᵀ * E + E * (Q * diagonal u * Qᵀ)‖ := by
  have orthogonal' := mul_eq_one_comm.1 orthogonal
  calc
    2 * a * ‖E‖ = ‖(2 * a) • (Qᵀ * E * Q)‖ := by
      rw [norm_smul, frobenius_turned orthogonal', Real.norm_of_nonneg (by linarith)]
    _ ≤ ‖Qᵀ * (Q * diagonal u * Qᵀ * E + E * (Q * diagonal u * Qᵀ)) * Q‖ := by
      apply frobenius_le
      intro i j
      rw [turned_products orthogonal, Matrix.smul_apply, smul_eq_mul, abs_mul (2 * a),
        abs_mul (u i + u j)]
      apply mul_le_mul_of_nonneg_right _ (abs_nonneg _)
      apply abs_le_abs_of_nonneg (by linarith)
      linarith [large i, large j]
    _ = _ := frobenius_turned orthogonal' _

section

variable {eigen other : Eigen ℝ d} {x y : Vector ℝ (triangle d)}

theorem project_mul_residual (decomposes : eigen.Decomposes (unpack d x)) :
    (unpack d (project eigen)).matrix * (unpack d (project eigen - x)).matrix = 0 ∧
      (unpack d (project eigen - x)).matrix * (unpack d (project eigen)).matrix = 0 := by
  rw [unpack_project, unpack_residual decomposes, conjugate_mul decomposes.orthogonal,
    conjugate_mul decomposes.orthogonal]
  simp only [mul_comm (max _ _ - _), max_zero_mul_sub, diagonal_zero, Matrix.mul_zero,
    Matrix.zero_mul, and_self]

theorem project_add_residual (decomposes : eigen.Decomposes (unpack d x)) :
    (unpack d (project eigen)).matrix + (unpack d (project eigen - x)).matrix =
      eigen.vectors.matrix * diagonal (fun i => |eigen.values i|) * eigen.vectors.matrixᵀ := by
  have value (l : ℝ) : max l 0 + (max l 0 - l) = |l| := by
    rcases le_total l 0 with negative | positive
    · rw [max_eq_right negative, abs_of_nonpos negative, zero_add, zero_sub]
    · rw [max_eq_left positive, abs_of_nonneg positive, sub_self, add_zero]
  rw [unpack_project, unpack_residual decomposes, ← Matrix.add_mul, ← Matrix.mul_add, diagonal_add]
  simp only [value]

/-- The derivative solves a Sylvester equation, in which no eigenvectors occur. -/
theorem derivative_products (decomposes : eigen.Decomposes (unpack d x)) (h : Vector ℝ (triangle d)) :
    ((unpack d (project eigen)).matrix + (unpack d (project eigen - x)).matrix) *
        (unpack d (derivative eigen h)).matrix +
      (unpack d (derivative eigen h)).matrix *
        ((unpack d (project eigen)).matrix + (unpack d (project eigen - x)).matrix) =
      (unpack d (project eigen)).matrix * (unpack d h).matrix +
        (unpack d h).matrix * (unpack d (project eigen)).matrix := by
  have orthogonal := decomposes.orthogonal
  rw [project_add_residual decomposes, unpack_project]
  apply turned_injective decomposes.orthogonal'
  ext i j
  rw [turned_products orthogonal, turned_products orthogonal, turned_derivative orthogonal, scaled,
    ← mul_assoc, abs_add_abs_mul_slope]

/-- What remains beside the derivative solves the same equation for the products of the moves. -/
theorem remainder_products {R : Type*} [Ring R] {P N P' N' D : R} (here : P * N = 0 ∧ N * P = 0)
    (there : P' * N' = 0 ∧ N' * P' = 0)
    (solves : (P + N) * D + D * (P + N) = P * (P' - N' - (P - N)) + (P' - N' - (P - N)) * P) :
    (P + N) * (P' - P - D) + (P' - P - D) * (P + N) =
      -((P' - P) * (N' - N) + (N' - N) * (P' - P)) := by
  calc
    _ = (P + N) * (P' - P) + (P' - P) * (P + N) - ((P + N) * D + D * (P + N)) := by noncomm_ring
    _ = _ := by
      rw [solves]
      simp only [mul_sub, sub_mul, mul_add, add_mul, here, there]
      abel

theorem project_remainder_le (first : eigen.Decomposes (unpack d x))
    (second : other.Decomposes (unpack d y)) {a : ℝ} (nonneg : 0 ≤ a)
    (large : ∀ i, a ≤ |eigen.values i|) :
    2 * a * Vec.norm (project other - project eigen - derivative eigen (y - x)) ≤
      (y - x).get ⬝ᵥ (y - x).get := by
  obtain ⟨P, P_eq⟩ : ∃ P, (unpack d (project eigen)).matrix = P := ⟨_, rfl⟩
  obtain ⟨N, N_eq⟩ : ∃ N, (unpack d (project eigen - x)).matrix = N := ⟨_, rfl⟩
  obtain ⟨P', P'_eq⟩ : ∃ P', (unpack d (project other)).matrix = P' := ⟨_, rfl⟩
  obtain ⟨N', N'_eq⟩ : ∃ N', (unpack d (project other - y)).matrix = N' := ⟨_, rfl⟩
  obtain ⟨D, D_eq⟩ : ∃ D, (unpack d (derivative eigen (y - x))).matrix = D := ⟨_, rfl⟩
  have step : (unpack d (y - x)).matrix = P' - N' - (P - N) := by
    rw [← P_eq, ← N_eq, ← P'_eq, ← N'_eq]
    simp only [unpack_sub]
    abel
  have here := project_mul_residual first
  have there := project_mul_residual second
  have solves := derivative_products first (y - x)
  rw [P_eq, N_eq] at here
  rw [P'_eq, N'_eq] at there
  rw [P_eq, N_eq, D_eq, step] at solves
  have parts : P + N = eigen.vectors.matrix * diagonal (fun i => |eigen.values i|) *
      eigen.vectors.matrixᵀ := by rw [← P_eq, ← N_eq, project_add_residual first]
  have moves : ‖P' - P‖ * ‖P' - P‖ + ‖N' - N‖ * ‖N' - N‖ ≤ (y - x).get ⬝ᵥ (y - x).get := by
    rw [← P_eq, ← N_eq, ← P'_eq, ← N'_eq, ← unpack_sub, ← unpack_sub, norm_unpack, norm_unpack,
      Vec.norm_mul_self, Vec.norm_mul_self]
    exact (project_isProjection first).moved_le (project_isProjection second)
  calc
    _ = 2 * a * ‖P' - P - D‖ := by
      rw [← norm_unpack, unpack_sub, unpack_sub, P_eq, P'_eq, D_eq]
    _ ≤ ‖(P + N) * (P' - P - D) + (P' - P - D) * (P + N)‖ :=
      parts ▸ frobenius_le_products first.orthogonal nonneg large _
    _ = ‖(P' - P) * (N' - N) + (N' - N) * (P' - P)‖ := by
      rw [remainder_products here there solves, norm_neg]
    _ ≤ ‖P' - P‖ * ‖N' - N‖ + ‖N' - N‖ * ‖P' - P‖ :=
      norm_add_le_of_le (frobenius_norm_mul _ _) (frobenius_norm_mul _ _)
    _ ≤ ‖P' - P‖ * ‖P' - P‖ + ‖N' - N‖ * ‖N' - N‖ := by
      linarith [mul_self_nonneg (‖P' - P‖ - ‖N' - N‖)]
    _ ≤ _ := moves

end

section

variable {eigen : Eigen ℝ d} {x : Vector ℝ (triangle d)}

theorem exists_le_abs_values (nonzero : ∀ i, eigen.values i ≠ 0) :
    ∃ a, 0 < a ∧ ∀ i, a ≤ |eigen.values i| := by
  let sizes (i : Fin d) : Set.Ioi (0 : ℝ) := ⟨|eigen.values i|, abs_pos.2 (nonzero i)⟩
  obtain ⟨⟨a, positive⟩, least⟩ := Finite.exists_ge sizes
  exact ⟨a, positive, least⟩

theorem isDerivative_of_choices {choices : Vector ℝ (triangle d) → Eigen ℝ d}
    (decompose : ∀ v, (choices v).Decomposes (unpack d v)) (regular : IsUnit (unpack d x).matrix) :
    (⟨derivative (choices x), derivative (choices x)⟩ :
      Operator ℝ (triangle d) (triangle d)).IsDerivative (fun v => .ok (project (choices v))) x := by
  obtain ⟨a, positive, large⟩ := exists_le_abs_values (values_ne_zero (decompose x) regular)
  let map : Operator ℝ (triangle d) (triangle d) := ⟨derivative (choices x), derivative (choices x)⟩
  have adjoint : map.IsAdjoint := fun dx dy => derivative_selfAdjoint (choices x) dx dy
  refine ⟨_, _, fun v => rfl, adjoint.represents, ?_⟩
  apply adjoint.represents.hasFDerivAt (C := (2 * a)⁻¹) (by positivity)
  intro v
  rw [← div_eq_inv_mul, le_div_iff₀' (by positivity)]
  exact project_remainder_le (decompose x) (decompose v) positive.le large

end

end Semidefinite

/--
Where the matrix of a vector has no zero eigenvalue, the map that is computed from any choice of
eigenvectors is the Fréchet derivative of the projection onto the semidefinite cone, and so is the
derivative of the cone with any solver that decomposes symmetric matrices.
-/
theorem Cone.semidefinite_isDerivative [EigenSolver ℝ] [LawfulEigenSolver]
    {x : Vector ℝ (triangle d)} (regular : IsUnit (unpack d x).matrix) :
    (∀ choices : Vector ℝ (triangle d) → Eigen ℝ d, (∀ v, (choices v).Decomposes (unpack d v)) →
      (⟨Semidefinite.derivative (choices x), Semidefinite.derivative (choices x)⟩ :
        Operator ℝ (triangle d) (triangle d)).IsDerivative
          (fun v => .ok (Semidefinite.project (choices v))) x) ∧
    (triangle d < 2 ^ 53 →
      ∃ P, semidefinite.derivative x = .ok P ∧ P.IsDerivative semidefinite.project x) := by
  refine ⟨fun choices decompose => Semidefinite.isDerivative_of_choices decompose regular, ?_⟩
  intro small
  choose choices solved decompose using fun v : Vector ℝ (triangle d) =>
    LawfulEigenSolver.decompose_symm (unpack d v) (unpack_symm v)
  have side := packedSide_triangle small
  have projects : semidefinite.project = fun v => .ok (Semidefinite.project (choices v)) := by
    funext v
    rw [Semidefinite.project_of_solved (solved v), if_pos side]
  refine ⟨_, (Semidefinite.derivative_of_solved (solved x)).trans (if_pos side), ?_⟩
  rw [projects]
  exact Semidefinite.isDerivative_of_choices decompose regular

noncomputable def Semidefinite.mirror : Mat ℝ 3 3 :=
  .ofFn fun i j => if i = j then if i.val = 0 then -1 else 1 else 0

theorem Cone.semidefinite_isDerivative_of_mirror : triangle 3 < 2 ^ 53 ∧
    IsUnit (unpack 3 (pack Semidefinite.mirror)).matrix ∧
    ∃ P, semidefinite.derivative (pack Semidefinite.mirror) = .ok P ∧
      P.IsDerivative semidefinite.project (pack Semidefinite.mirror) := by
  have cells : Semidefinite.mirror.matrix =
      diagonal fun i : Fin 3 => if i.val = 0 then (-1 : ℝ) else 1 := Mat.matrix_ofFn _
  have regular : IsUnit (unpack 3 (pack Semidefinite.mirror)).matrix := by
    rw [unpack_pack (cells ▸ isSymm_diagonal _), cells, isUnit_diagonal, Pi.isUnit_iff]
    intro i
    split_ifs
    · exact isUnit_one.neg
    · exact isUnit_one
  have small : triangle 3 < 2 ^ 53 := by decide
  exact ⟨small, regular, (semidefinite_isDerivative regular).2 small⟩

end ConicDerivative
