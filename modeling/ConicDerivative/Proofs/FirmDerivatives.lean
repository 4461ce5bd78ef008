import ConicDerivative.Proofs.ProductDerivatives

/-!
Derivatives of projections are firm: the square of the length of an image is at most its inner
product with the argument. This holds of every cone in every region, the band of points that count as
inside and ties of eigenvalues included, and so it holds of products of cones.
-/

namespace ConicDerivative

open Scalar Matrix

variable {n k : Nat}

namespace Operator

def IsFirm (D : Operator ℝ k k) : Prop :=
  ∀ v, (D.apply v).get ⬝ᵥ (D.apply v).get ≤ (D.apply v).get ⬝ᵥ v.get

theorem Represents.isFirm {D : Operator ℝ k k} {M : Matrix (Fin k) (Fin k) ℝ}
    (given : D.Represents M) (firm : ∀ v : Vector ℝ k, M *ᵥ v.get ⬝ᵥ M *ᵥ v.get ≤ M *ᵥ v.get ⬝ᵥ v.get) :
    D.IsFirm := by
  intro v
  rw [given.apply]
  exact firm v

end Operator

theorem Cone.isFirm_mask (keep : Vector Bool k) :
    (Operator.ofSparse (mask keep : Sparse ℝ k k)).IsFirm := by
  apply (Operator.represents_ofSparse _).isFirm
  intro v
  apply le_of_eq
  apply Finset.sum_congr rfl
  intro i _
  rw [matrix_mask, mulVec_diagonal]
  split_ifs <;> ring

namespace SecondOrder

theorem dot_cons (t s : ℝ) (z w : Vector ℝ n) :
    (Vec.cons t z).get ⬝ᵥ (Vec.cons s w).get = t * s + z.get ⬝ᵥ w.get := by
  rw [dotProduct, Fin.sum_univ_succ]
  simp only [Vec.cons_zero, Vec.cons_succ, dotProduct]

theorem sq_dot_le (z w : Vector ℝ n) :
    (z.get ⬝ᵥ w.get) ^ 2 ≤ (z.get ⬝ᵥ z.get) * (w.get ⬝ᵥ w.get) := by
  have schwarz := Finset.sum_mul_sq_le_sq_mul_sq Finset.univ z.get w.get
  simp only [sq (z.get _), sq (w.get _)] at schwarz
  exact schwarz

variable {t norm : ℝ} {z : Vector ℝ n}

/-- What is lost is the part of `w` across `z`, times `1 - (t / ‖z‖)²`. -/
theorem derivativeBetween_firm (bound : |t| < norm) (square : norm * norm = z.get ⬝ᵥ z.get)
    (τ : ℝ) (w : Vector ℝ n) :
    (derivativeBetween t norm z).matrix *ᵥ (Vec.cons τ w).get ⬝ᵥ
        (derivativeBetween t norm z).matrix *ᵥ (Vec.cons τ w).get ≤
      (derivativeBetween t norm z).matrix *ᵥ (Vec.cons τ w).get ⬝ᵥ (Vec.cons τ w).get := by
  have positive : 0 < norm := (abs_nonneg t).trans_lt bound
  -- Only the ratio `r` and the coordinate `q` of `w` along `z` matter from here on.
  obtain ⟨r, ratio⟩ : ∃ r, t / norm = r := ⟨_, rfl⟩
  obtain ⟨q, along⟩ : ∃ q, z.get ⬝ᵥ w.get / norm = q := ⟨_, rfl⟩
  have product : z.get ⬝ᵥ w.get = q * norm := by rw [← along, div_mul_cancel₀ _ positive.ne']
  have inside : r ^ 2 ≤ 1 := by
    rw [← ratio, sq_le_one_iff_abs_le_one, abs_div, abs_of_pos positive, div_le_one positive]
    exact bound.le
  have across : q ^ 2 ≤ w.get ⬝ᵥ w.get := by
    have schwarz := sq_dot_le z w
    rw [product, ← square, mul_pow, ← sq, mul_comm] at schwarz
    exact le_of_mul_le_mul_left schwarz (pow_pos positive 2)
  have lost : 0 ≤ (1 - r ^ 2) / 4 * (w.get ⬝ᵥ w.get - q ^ 2) :=
    mul_nonneg (by linarith) (by linarith)
  rw [mulVec_derivativeBetween_cons, along, ratio, dot_cons, dot_cons]
  simp only [Vec.get_add, Vec.get_scale, add_dotProduct, dotProduct_add, smul_dotProduct,
    dotProduct_smul, smul_eq_mul, dotProduct_comm w.get z.get, product, ← square]
  have nonzero := positive.ne'
  field_simp
  linarith

theorem derivative_firm (x v : Vector ℝ (n + 1)) :
    (derivative x).matrix *ᵥ v.get ⬝ᵥ (derivative x).matrix *ᵥ v.get ≤
      (derivative x).matrix *ᵥ v.get ⬝ᵥ v.get := by
  cases found : region (Vec.head x) (Vec.norm (Vec.tail x)) with
  | inside => rw [derivative_of_inside found, one_mulVec]
  | polar => rw [derivative_of_polar found, zero_mulVec, zero_dotProduct, zero_dotProduct]
  | between =>
    rw [derivative_of_between found, ← Vec.cons_tail v]
    exact derivativeBetween_firm (abs_lt_of_between found) (Vec.norm_mul_self _) _ _

end SecondOrder

namespace Semidefinite

open Packed

variable {d : Nat}

theorem slope_mem (l l' : ℝ) : 0 ≤ slope l l' ∧ slope l l' ≤ 1 := by
  have mean := abs_add_abs_mul_slope l l'
  have first : 0 ≤ max l 0 ∧ max l 0 ≤ |l| := ⟨le_max_right _ _, max_le (le_abs_self l) (abs_nonneg l)⟩
  have second : 0 ≤ max l' 0 ∧ max l' 0 ≤ |l'| :=
    ⟨le_max_right _ _, max_le (le_abs_self l') (abs_nonneg l')⟩
  rcases (add_nonneg (abs_nonneg l) (abs_nonneg l')).eq_or_lt with zero | positive
  · have l_zero : l = 0 := abs_eq_zero.1 (by linarith [abs_nonneg l, abs_nonneg l'])
    have l'_zero : l' = 0 := abs_eq_zero.1 (by linarith [abs_nonneg l, abs_nonneg l'])
    rw [l_zero, l'_zero]
    simp [slope]
  · refine ⟨nonneg_of_mul_nonneg_right ?_ positive, le_of_mul_le_mul_left ?_ positive⟩
    · linarith
    · linarith

/-- In the basis of the eigenvectors every cell is scaled by a number between zero and one. -/
theorem derivative_firm {eigen : Eigen ℝ d}
    (orthogonal : eigen.vectors.matrixᵀ * eigen.vectors.matrix = 1) (dx : Vector ℝ (triangle d)) :
    (derivative eigen dx).get ⬝ᵥ (derivative eigen dx).get ≤
      (derivative eigen dx).get ⬝ᵥ dx.get := by
  have S_symm := scaled_symm eigen (unpack_symm dx)
  have T_symm := turned_symm eigen.vectors.matrix (unpack_symm dx)
  calc
    _ = ((unpack d (derivative eigen dx)).matrix * (unpack d (derivative eigen dx)).matrix).trace :=
      dot_eq_trace ..
    _ = (scaled eigen (unpack d dx).matrix * scaled eigen (unpack d dx).matrix).trace := by
      conv_lhs => rw [unpack_derivative, trace_conjugate, ← unpack_derivative,
        turned_derivative orthogonal]
    _ ≤ (scaled eigen (unpack d dx).matrix *
        (eigen.vectors.matrixᵀ * (unpack d dx).matrix * eigen.vectors.matrix)).trace := by
      rw [trace_mul_of_symm _ S_symm, trace_mul_of_symm _ T_symm]
      apply Finset.sum_le_sum
      intro cell _
      obtain ⟨nonneg, le_one⟩ := slope_mem (eigen.values cell.1) (eigen.values cell.2)
      unfold scaled
      nlinarith [mul_nonneg (mul_nonneg nonneg (sub_nonneg.2 le_one)) (mul_self_nonneg
        ((eigen.vectors.matrixᵀ * (unpack d dx).matrix * eigen.vectors.matrix) cell.1 cell.2))]
    _ = ((unpack d (derivative eigen dx)).matrix * (unpack d dx).matrix).trace := by
      rw [unpack_derivative, trace_conjugate]
    _ = _ := (dot_eq_trace ..).symm

end Semidefinite

variable [EigenSolver ℝ] [LawfulEigenSolver]

theorem Cone.derivative_isFirm {cone : Cone} {x : Vector ℝ k} {P : Operator ℝ k k}
    (success : cone.derivative x = .ok P) : P.IsFirm := by
  cases cone with
  | zero | free | nonnegative =>
    cases success
    exact isFirm_mask _
  | secondOrder =>
    cases k with
    | zero => cases success
    | succ k =>
      cases success
      exact (Operator.represents_ofMat _).isFirm (SecondOrder.derivative_firm x)
  | semidefinite =>
    obtain ⟨⟨eigen, size_eq⟩, solved, apply_eq, _⟩ := derivative_semidefinite_ok success
    have decomposes := Semidefinite.decompose_lawful solved
    subst size_eq
    intro dx
    rw [apply_eq]
    exact Semidefinite.derivative_firm decomposes.orthogonal dx

theorem Block.derivative_isFirm {block : Block} {dual : Bool} {v : Vector ℝ n}
    {P : Operator ℝ (block.span n).size (block.span n).size}
    (success : block.derivative v dual = .ok P) : P.IsFirm := by
  obtain ⟨cone, _, single⟩ := derivative_eq_ok.1 success
  exact Cone.derivative_isFirm single

theorem ProductCone.derivative_isFirm {blocks : List Block} {dual : Bool} {v : Vector ℝ n}
    {D : Operator ℝ n n} (tiling : Block.checkTiling blocks n = .ok ())
    (success : derivative blocks v dual = .ok ⟨D⟩) : D.IsFirm := by
  obtain ⟨E, same, slices⟩ := derivative_slices tiling success
  cases same
  intro x
  rw [← Block.dot_slices tiling, ← Block.dot_slices tiling]
  apply List.sum_le_sum
  intro block listed
  obtain ⟨P, single, apply, _⟩ := slices x x block listed
  rw [apply]
  exact Block.derivative_isFirm single _

end ConicDerivative
