import ConicDerivative.SecondOrder
import ConicDerivative.Proofs.Adjoints

/-!
The second-order projection and its derivative over the real numbers. In every region, the band of
points that count as inside included, the derivative is symmetric and sends both the point and its
projection to the projection.
-/

namespace ConicDerivative.SecondOrder

open Scalar Matrix

variable {n : Nat}

theorem half_real : (half : ℝ) = 1 / 2 := by
  unfold half
  norm_num

theorem abs_lt_of_between {t norm : ℝ} (between : region t norm = .between) : |t| < norm := by
  unfold region at between
  split_ifs at between with inside polar
  have above : ¬norm ≤ t := fun below => inside (Or.inl below)
  exact abs_lt.2 ⟨by linarith [not_le.1 polar], not_le.1 above⟩

section Between

variable (t norm : ℝ) (z : Vector ℝ n)

theorem unit_apply (i : Fin n) : (z.map (· / norm)) i = z i / norm := by
  simp [Vec.apply_eq_getElem]

theorem derivativeBetween_zero_zero : derivativeBetween t norm z 0 0 = 1 / 2 := by
  rw [derivativeBetween, Mat.ofFn_apply, half_real]
  exact mul_one _

theorem derivativeBetween_zero_succ (j : Fin n) :
    derivativeBetween t norm z 0 j.succ = 1 / 2 * (z j / norm) := by
  rw [derivativeBetween, Mat.ofFn_apply, half_real, ← unit_apply]
  rfl

theorem derivativeBetween_succ_zero (i : Fin n) :
    derivativeBetween t norm z i.succ 0 = 1 / 2 * (z i / norm) := by
  rw [derivativeBetween, Mat.ofFn_apply, half_real, ← unit_apply]
  rfl

theorem derivativeBetween_succ_succ (i j : Fin n) : derivativeBetween t norm z i.succ j.succ =
    1 / 2 * ((1 + t / norm) * (if i = j then 1 else 0) - t / norm * (z i / norm * (z j / norm))) := by
  have cell : (Mat.identity n : Mat ℝ n n) i j = if i = j then 1 else 0 := Mat.ofFn_apply ..
  rw [derivativeBetween, Mat.ofFn_apply, half_real, ← unit_apply, ← unit_apply, ← cell]
  rfl

theorem derivativeBetween_symm : (derivativeBetween t norm z).matrix.IsSymm := by
  ext i j
  change derivativeBetween t norm z j i = derivativeBetween t norm z i j
  cases i using Fin.cases with
  | zero =>
    cases j using Fin.cases with
    | zero => rfl
    | succ j => rw [derivativeBetween_zero_succ, derivativeBetween_succ_zero]
  | succ i =>
    cases j using Fin.cases with
    | zero => rw [derivativeBetween_zero_succ, derivativeBetween_succ_zero]
    | succ j =>
      rw [derivativeBetween_succ_succ, derivativeBetween_succ_succ, mul_comm (z j / norm)]
      simp only [eq_comm]

theorem mulVec_derivativeBetween_cons (τ : ℝ) (w : Vector ℝ n) :
    (derivativeBetween t norm z).matrix *ᵥ (Vec.cons τ w).get =
      (Vec.cons ((τ + z.get ⬝ᵥ w.get / norm) / 2)
        (Vec.scale ((τ - t / norm * (z.get ⬝ᵥ w.get / norm)) / (2 * norm)) z +
          Vec.scale ((1 + t / norm) / 2) w)).get := by
  have total : ∑ j, z j / norm * w j = z.get ⬝ᵥ w.get / norm := by
    rw [dotProduct, Finset.sum_div]
    apply Finset.sum_congr rfl
    intro j _
    ring
  funext i
  cases i using Fin.cases with
  | zero =>
    rw [Matrix.mulVec, dotProduct, Fin.sum_univ_succ, Vec.cons_zero, Vec.cons_zero]
    simp only [Vec.cons_succ, Mat.matrix, derivativeBetween_zero_zero, derivativeBetween_zero_succ,
      mul_assoc]
    rw [← Finset.mul_sum, total]
    ring
  | succ i =>
    rw [Matrix.mulVec, dotProduct, Fin.sum_univ_succ, Vec.cons_zero, Vec.cons_succ]
    simp only [Vec.cons_succ, Vec.add_apply, Vec.scale_apply, Mat.matrix,
      derivativeBetween_succ_zero, derivativeBetween_succ_succ]
    have split : ∀ j : Fin n, 1 / 2 * ((1 + t / norm) * (if i = j then 1 else 0) -
        t / norm * (z i / norm * (z j / norm))) * w j =
        (if i = j then 1 / 2 * (1 + t / norm) * w j else 0) -
          1 / 2 * (t / norm) * (z i / norm) * (z j / norm * w j) := by
      intro j
      split_ifs <;> ring
    simp only [split, Finset.sum_sub_distrib, ← Finset.mul_sum, total, Finset.sum_ite_eq,
      Finset.mem_univ, if_true]
    ring

variable {t norm z}

/-- On the plane of the first axis and of `z` the derivative averages. -/
theorem mulVec_derivativeBetween (positive : 0 < norm) (square : norm * norm = z.get ⬝ᵥ z.get)
    (τ a : ℝ) : (derivativeBetween t norm z).matrix *ᵥ (Vec.cons τ (Vec.scale a z)).get =
      (Vec.cons ((τ + a * norm) / 2) (Vec.scale ((τ / norm + a) / 2) z)).get := by
  have nonzero := positive.ne'
  have along : z.get ⬝ᵥ (Vec.scale a z).get / norm = a * norm := by
    rw [Vec.get_scale, dotProduct_smul, smul_eq_mul, ← square]
    field_simp
  rw [mulVec_derivativeBetween_cons, along]
  congr 2
  apply Vec.ext
  intro i
  rw [Vec.add_apply, Vec.scale_apply, Vec.scale_apply, Vec.scale_apply, Vec.scale_apply]
  field_simp
  ring

end Between

section Regions

variable {x : Vector ℝ (n + 1)}

theorem project_of_inside (found : region (Vec.head x) (Vec.norm (Vec.tail x)) = .inside) :
    project x = x := by
  simp only [project, found]

theorem project_of_polar (found : region (Vec.head x) (Vec.norm (Vec.tail x)) = .polar) :
    project x = Vector.replicate (n + 1) 0 := by
  simp only [project, found]

theorem project_of_between (found : region (Vec.head x) (Vec.norm (Vec.tail x)) = .between) :
    project x = Vec.scale (1 / 2 * (1 + Vec.head x / Vec.norm (Vec.tail x)))
      (Vec.cons (Vec.norm (Vec.tail x)) (Vec.tail x)) := by
  simp only [project, found, half_real]

theorem derivative_of_inside (found : region (Vec.head x) (Vec.norm (Vec.tail x)) = .inside) :
    (derivative x).matrix = 1 := by
  simp only [derivative, found, Mat.matrix_identity]

theorem derivative_of_polar (found : region (Vec.head x) (Vec.norm (Vec.tail x)) = .polar) :
    (derivative x).matrix = 0 := by
  simp only [derivative, found, Mat.matrix_ofFn]
  rfl

theorem derivative_of_between (found : region (Vec.head x) (Vec.norm (Vec.tail x)) = .between) :
    derivative x = derivativeBetween (Vec.head x) (Vec.norm (Vec.tail x)) (Vec.tail x) := by
  simp only [derivative, found]

end Regions

theorem derivative_symm (x : Vector ℝ (n + 1)) : (derivative x).matrix.IsSymm := by
  cases found : region (Vec.head x) (Vec.norm (Vec.tail x)) with
  | inside =>
    rw [derivative_of_inside found]
    exact isSymm_one
  | polar =>
    rw [derivative_of_polar found]
    exact isSymm_zero
  | between =>
    rw [derivative_of_between found]
    exact derivativeBetween_symm ..

theorem cons_head_tail (x : Vector ℝ (n + 1)) :
    Vec.cons (Vec.head x) (Vec.scale 1 (Vec.tail x)) = x := by
  conv_rhs => rw [← Vec.cons_tail x]
  congr 1
  apply Vec.ext
  intro i
  rw [Vec.scale_apply, one_mul]

theorem scale_cons (c t : ℝ) (z : Vector ℝ n) :
    Vec.scale c (Vec.cons t z) = Vec.cons (c * t) (Vec.scale c z) := by
  apply Vec.ext
  intro i
  cases i using Fin.cases with
  | zero => rw [Vec.scale_apply, Vec.cons_zero, Vec.cons_zero]
  | succ i => rw [Vec.scale_apply, Vec.cons_succ, Vec.cons_succ, Vec.scale_apply]

theorem derivative_point (x : Vector ℝ (n + 1)) :
    (derivative x).matrix *ᵥ x.get = (project x).get := by
  cases found : region (Vec.head x) (Vec.norm (Vec.tail x)) with
  | inside => rw [derivative_of_inside found, project_of_inside found, one_mulVec]
  | polar =>
    rw [derivative_of_polar found, project_of_polar found, zero_mulVec, Vec.get_zeros]
  | between =>
    have positive := (abs_nonneg _).trans_lt (abs_lt_of_between found)
    have nonzero := positive.ne'
    have image := mulVec_derivativeBetween (t := Vec.head x) positive (Vec.norm_mul_self _)
      (Vec.head x) 1
    rw [cons_head_tail] at image
    rw [derivative_of_between found, project_of_between found, image, scale_cons]
    congr 2
    · field_simp
      ring
    · congr 1
      ring

theorem derivative_project (x : Vector ℝ (n + 1)) :
    (derivative x).matrix *ᵥ (project x).get = (project x).get := by
  cases found : region (Vec.head x) (Vec.norm (Vec.tail x)) with
  | inside => rw [derivative_of_inside found, one_mulVec]
  | polar =>
    rw [derivative_of_polar found, project_of_polar found, zero_mulVec, Vec.get_zeros]
  | between =>
    have positive := (abs_nonneg _).trans_lt (abs_lt_of_between found)
    have nonzero := positive.ne'
    rw [derivative_of_between found, project_of_between found, scale_cons,
      mulVec_derivativeBetween positive (Vec.norm_mul_self _)]
    congr 2
    · ring
    · congr 1
      field_simp
      ring

end ConicDerivative.SecondOrder
