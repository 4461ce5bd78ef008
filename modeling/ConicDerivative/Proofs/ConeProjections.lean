import ConicDerivative.Proofs.ConeMembers

/-!
Projections onto single cones. What the projection adds to a point lies in the dual cone and is
orthogonal to the projection. This holds of every cone and at every point, but for the band around a
second-order cone whose points count as inside.
-/

namespace ConicDerivative

open Scalar Matrix Packed Outcomes

variable {k n d : Nat}

/-- The point is the difference of a vector of the cone and one of the dual, which are orthogonal. -/
structure Cone.IsProjection (cone : Cone) (x p : Vector ℝ k) : Prop where
  inside : cone.Holds p
  residual : cone.dual.Holds (p - x)
  orthogonal : p.get ⬝ᵥ (p - x).get = 0

theorem max_zero_mul_sub (a : ℝ) : max a 0 * (max a 0 - a) = 0 := by
  rcases le_total a 0 with negative | positive
  · rw [max_eq_right negative, zero_mul]
  · rw [max_eq_left positive, sub_self, mul_zero]

namespace Cone

variable {cone : Cone} {x p : Vector ℝ k}

theorem Holds.isProjection (inside : cone.Holds p) : cone.IsProjection p p := by
  obtain ⟨dim, rows, _⟩ := id inside
  have difference : p - p = Vector.replicate k 0 := Vec.get_injective (by simp)
  refine ⟨inside, ?_, ?_⟩
  · rw [difference]
    exact holds_zeros ((cone.rows_dual dim).trans rows)
  · rw [difference, Vec.get_zeros, dotProduct_zero]

theorem isProjection_zeros (polar : cone.dual.Holds (-x)) :
    cone.IsProjection x (Vector.replicate k 0) := by
  obtain ⟨dim, rows, _⟩ := id polar
  have difference : Vector.replicate k 0 - x = -x := Vec.get_injective (by simp)
  refine ⟨?_, ?_, ?_⟩
  · exact holds_zeros ((cone.rows_dual dim).symm.trans rows)
  · rwa [difference]
  · rw [Vec.get_zeros, zero_dotProduct]

end Cone

namespace Vec

theorem cons_neg (t : ℝ) (z : Vector ℝ n) : -cons t z = cons (-t) (scale (-1) z) := by
  apply ext
  intro i
  cases i using Fin.cases with
  | zero => rw [neg_apply, cons_zero, cons_zero]
  | succ i => rw [neg_apply, cons_succ, cons_succ, scale_apply, neg_one_mul]

theorem head_cons (t : ℝ) (z : Vector ℝ n) : head (cons t z) = t := cons_zero t z

theorem tail_cons (t : ℝ) (z : Vector ℝ n) : tail (cons t z) = z := by
  apply ext
  intro i
  rw [tail_apply, cons_succ]

theorem cons_sub (t s : ℝ) (z w : Vector ℝ n) : cons t z - cons s w = cons (t - s) (z - w) := by
  apply ext
  intro i
  cases i using Fin.cases with
  | zero => rw [sub_apply, cons_zero, cons_zero, cons_zero]
  | succ i => rw [sub_apply, cons_succ, cons_succ, cons_succ, sub_apply]

end Vec

namespace SecondOrder

/-- The point is outside the cone, and so close to it that it counts as inside. -/
def InBand : {k : Nat} → Vector ℝ k → Prop
  | 0, _ => False
  | _ + 1, x => Vec.head x < Vec.norm (Vec.tail x) ∧ isClose (Vec.head x) (Vec.norm (Vec.tail x))

theorem inBand_iff {x : Vector ℝ (n + 1)} : InBand x ↔ Vec.head x < Vec.norm (Vec.tail x) ∧
    |Vec.norm (Vec.tail x) - Vec.head x| ≤ 1e-8 + 1e-5 * |Vec.head x| := by
  rw [InBand, isClose, isFinite_real, Bool.and_true, decide_eq_true_eq, abs_real, abs_real]

theorem holds_cons {t : ℝ} {z : Vector ℝ n} :
    Cone.secondOrder.Holds (Vec.cons t z) ↔ Vec.norm z ≤ t := by
  rw [Cone.holds_secondOrder, Vec.head_cons, Vec.tail_cons]

theorem norm_le_of_polar {t norm : ℝ} (polar : region t norm = .polar) : norm ≤ -t := by
  unfold region at polar
  split_ifs at polar with inside found
  exact found

theorem norm_le_of_inside {x : Vector ℝ (n + 1)} (clear : ¬InBand x)
    (found : region (Vec.head x) (Vec.norm (Vec.tail x)) = .inside) :
    Vec.norm (Vec.tail x) ≤ Vec.head x := by
  unfold region at found
  split_ifs at found with inside polar
  by_contra outside
  exact clear ⟨not_le.1 outside, inside.resolve_left outside⟩

theorem share_nonneg {t norm : ℝ} (bound : |t| < norm) : 0 ≤ 1 / 2 * (1 + t / norm) := by
  have positive : 0 < norm := (abs_nonneg t).trans_lt bound
  have lower : -1 ≤ t / norm := (le_div_iff₀ positive).2 (by linarith [(abs_lt.1 bound).1])
  linarith

/-- What the projection adds to the point is the projection of the opposite point. -/
theorem share_sub {t N : ℝ} (z : Vector ℝ n) (positive : 0 < N) :
    Vec.scale (1 / 2 * (1 + t / N)) (Vec.cons N z) - Vec.cons t z =
      Vec.cons (1 / 2 * (1 + -t / N) * N) (Vec.scale (-(1 / 2 * (1 + -t / N))) z) := by
  rw [scale_cons, Vec.cons_sub]
  congr 1
  · field_simp
    ring
  · apply Vec.ext
    intro i
    rw [Vec.sub_apply, Vec.scale_apply, Vec.scale_apply]
    ring

theorem isProjection_between {t : ℝ} {z : Vector ℝ n} (bound : |t| < Vec.norm z) :
    Cone.secondOrder.IsProjection (Vec.cons t z)
      (Vec.scale (1 / 2 * (1 + t / Vec.norm z)) (Vec.cons (Vec.norm z) z)) := by
  have square := Vec.norm_mul_self z
  have first := share_nonneg bound
  have second := share_nonneg ((abs_neg t).trans_lt bound)
  have added := share_sub (t := t) z ((abs_nonneg t).trans_lt bound)
  constructor
  · rw [scale_cons, holds_cons, Vec.norm_scale, abs_of_nonneg first]
  · rw [added]
    exact holds_cons.2 (by rw [Vec.norm_scale, abs_neg, abs_of_nonneg second])
  · rw [added, scale_cons, dot_cons, Vec.get_scale, Vec.get_scale, smul_dotProduct, dotProduct_smul,
      ← square, smul_eq_mul, smul_eq_mul]
    ring

theorem project_isProjection {x : Vector ℝ (n + 1)} (clear : ¬InBand x) :
    Cone.secondOrder.IsProjection x (project x) := by
  cases found : region (Vec.head x) (Vec.norm (Vec.tail x)) with
  | inside =>
    rw [project_of_inside found]
    exact (Cone.holds_secondOrder.2 (norm_le_of_inside clear found)).isProjection
  | polar =>
    rw [project_of_polar found]
    apply Cone.isProjection_zeros
    rw [← Vec.cons_tail x, Vec.cons_neg]
    refine holds_cons.2 ?_
    rw [Vec.norm_scale, abs_neg, abs_one, one_mul]
    exact norm_le_of_polar found
  | between =>
    have projection := isProjection_between (abs_lt_of_between found)
    rwa [Vec.cons_tail, ← project_of_between found] at projection

end SecondOrder

namespace Semidefinite

theorem conjugate_mul {Q : Matrix (Fin d) (Fin d) ℝ} (orthogonal : Qᵀ * Q = 1) (u v : Fin d → ℝ) :
    Q * diagonal u * Qᵀ * (Q * diagonal v * Qᵀ) = Q * diagonal (fun i => u i * v i) * Qᵀ := by
  calc
    _ = Q * diagonal u * (Qᵀ * Q) * diagonal v * Qᵀ := by simp only [Matrix.mul_assoc]
    _ = _ := by rw [orthogonal, Matrix.mul_one, Matrix.mul_assoc Q, diagonal_mul_diagonal]

theorem trace_conjugate_mul {Q : Matrix (Fin d) (Fin d) ℝ} (orthogonal : Qᵀ * Q = 1)
    (u v : Fin d → ℝ) :
    (Q * diagonal u * Qᵀ * (Q * diagonal v * Qᵀ)).trace = ∑ i, u i * v i := by
  rw [conjugate_mul orthogonal, trace_mul_cycle, orthogonal, Matrix.one_mul, trace_diagonal]

theorem posSemidef_conjugate (Q : Matrix (Fin d) (Fin d) ℝ) {u : Fin d → ℝ} (nonneg : 0 ≤ u) :
    (Q * diagonal u * Qᵀ).PosSemidef := by
  rw [← conjTranspose_eq_transpose_of_trivial]
  exact (PosSemidef.diagonal nonneg).mul_mul_conjTranspose_same Q

theorem unpack_project (eigen : Eigen ℝ d) : (unpack d (project eigen)).matrix =
    eigen.vectors.matrix * diagonal (fun i => max (eigen.values i) 0) * eigen.vectors.matrixᵀ := by
  rw [project, unpack_pack (Eigen.compose_symm ..), Eigen.matrix_compose]
  congr 2
  exact congrArg diagonal (funext (Cone.get_map_positivePart eigen.values))

theorem unpack_residual {eigen : Eigen ℝ d} {x : Vector ℝ (triangle d)}
    (decomposes : eigen.Decomposes (unpack d x)) : (unpack d (project eigen - x)).matrix =
      eigen.vectors.matrix * diagonal (fun i => max (eigen.values i) 0 - eigen.values i) *
        eigen.vectors.matrixᵀ := by
  rw [unpack_sub, unpack_project, decomposes.matrix_eq, ← Matrix.sub_mul, ← Matrix.mul_sub,
    diagonal_sub]

theorem project_isProjection {eigen : Eigen ℝ d} {x : Vector ℝ (triangle d)}
    (decomposes : eigen.Decomposes (unpack d x)) :
    Cone.semidefinite.IsProjection x (project eigen) := by
  constructor
  · refine (Cone.holds_semidefinite rfl).2 ?_
    change (unpack d (project eigen)).matrix.PosSemidef
    rw [unpack_project]
    exact posSemidef_conjugate _ fun i => le_max_right _ _
  · refine (Cone.holds_semidefinite rfl).2 ?_
    change (unpack d (project eigen - x)).matrix.PosSemidef
    rw [unpack_residual decomposes]
    exact posSemidef_conjugate _ fun i => sub_nonneg.2 (le_max_left _ _)
  · rw [dot_eq_trace, unpack_project, unpack_residual decomposes,
      trace_conjugate_mul decomposes.orthogonal]
    apply Finset.sum_eq_zero
    intro i _
    exact max_zero_mul_sub _

end Semidefinite

namespace Cone

variable [EigenSolver ℝ] [LawfulEigenSolver]

theorem project_isProjection {cone : Cone} {x p : Vector ℝ k} (success : cone.project x = .ok p)
    (clear : cone = secondOrder → ¬SecondOrder.InBand x) : cone.IsProjection x p := by
  cases cone with
  | zero =>
    cases success
    exact isProjection_zeros (holds_free _)
  | free =>
    cases success
    exact (holds_free x).isProjection
  | nonnegative =>
    cases success
    have value := get_map_positivePart x
    constructor
    · exact holds_nonnegative.2 fun i => (value i).symm ▸ le_max_right _ _
    · refine holds_nonnegative.2 fun i => ?_
      rw [Vec.sub_apply, value]
      exact sub_nonneg.2 (le_max_left _ _)
    · apply Finset.sum_eq_zero
      intro i _
      rw [Vec.sub_apply, value]
      exact max_zero_mul_sub _
  | secondOrder =>
    cases k with
    | zero => cases success
    | succ k =>
      cases success
      exact SecondOrder.project_isProjection (clear rfl)
  | semidefinite =>
    obtain ⟨⟨eigen, size_eq⟩, solved, projected⟩ := bind_eq_ok.1 success
    have decomposes := Semidefinite.decompose_lawful solved
    subst size_eq
    cases projected
    exact Semidefinite.project_isProjection decomposes

end Cone

end ConicDerivative
