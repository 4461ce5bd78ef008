import ConicDerivative.Proofs.NearestPoints

/-!
How far the projection onto a second-order cone is from the nearest point. It misses that point only
in the band around the cone, where points are left alone, and there by no more than the width of the
band. The band also has points of the polar cone, whose nearest point is zero.
-/

namespace ConicDerivative

open Scalar Matrix

variable {n : Nat}

namespace Vec

theorem norm_sub_comm (x y : Vector ℝ n) : norm (x - y) = norm (y - x) := by
  have opposite : x - y = scale (-1) (y - x) := get_injective (by simp)
  rw [opposite, norm_scale, abs_neg, abs_one, one_mul]

theorem norm_cons_le (t : ℝ) (z : Vector ℝ n) : norm (cons t z) ≤ |t| + norm z := by
  have product := mul_nonneg (abs_nonneg t) (norm_nonneg z)
  refine le_of_sq_le_sq ?_ (add_nonneg (abs_nonneg t) (norm_nonneg z))
  rw [sq, norm_mul_self, SecondOrder.dot_cons, ← norm_mul_self, add_sq, sq_abs, sq, sq]
  linarith

end Vec

namespace SecondOrder

/-- A point of the cone that is nearer than all others. -/
structure IsNearest (x q : Vector ℝ (n + 1)) : Prop where
  inside : Vec.norm (Vec.tail q) ≤ Vec.head q
  nearer : ∀ r : Vector ℝ (n + 1), Vec.norm (Vec.tail r) ≤ Vec.head r → r ≠ q →
    Vec.norm (x - q) < Vec.norm (x - r)

theorem isNearest_of_isProjection {x q : Vector ℝ (n + 1)}
    (projection : Cone.secondOrder.IsProjection x q) : IsNearest x q := by
  constructor
  · exact Cone.holds_secondOrder.1 projection.inside
  · intro r inside other
    have acute := (Cone.holds_secondOrder.2 inside).dot_nonneg projection.residual
    exact Vec.norm_sub_lt projection.orthogonal acute other

/-- A point outside of the cone is no farther from it than its norm exceeds its head. -/
theorem exists_isProjection_near {t : ℝ} {z : Vector ℝ n} (outside : t < Vec.norm z) : ∃ q,
    Cone.secondOrder.IsProjection (Vec.cons t z) q ∧
      Vec.norm (q - Vec.cons t z) ≤ Vec.norm z - t := by
  by_cases polar : Vec.norm z ≤ -t
  · -- The nearest point is zero.
    have dual : Cone.secondOrder.dual.Holds (-Vec.cons t z) := by
      rw [Vec.cons_neg]
      refine holds_cons.2 ?_
      rwa [Vec.norm_scale, abs_neg, abs_one, one_mul]
    refine ⟨_, Cone.isProjection_zeros dual, ?_⟩
    have negative : t ≤ 0 := by linarith [Vec.norm_nonneg z]
    have length := Vec.norm_cons_le t z
    rw [abs_of_nonpos negative] at length
    have away : Vector.replicate (n + 1) 0 - Vec.cons t z = Vec.scale (-1) (Vec.cons t z) :=
      Vec.get_injective (by simp)
    rw [away, Vec.norm_scale, abs_neg, abs_one, one_mul]
    linarith
  · have bound : |t| < Vec.norm z := abs_lt.2 ⟨by linarith, outside⟩
    have positive := (abs_nonneg t).trans_lt bound
    have share := share_nonneg ((abs_neg t).trans_lt bound)
    refine ⟨_, isProjection_between bound, ?_⟩
    rw [share_sub z positive]
    calc _ ≤ _ := Vec.norm_cons_le _ _
      _ = 1 / 2 * (1 + -t / Vec.norm z) * Vec.norm z +
          1 / 2 * (1 + -t / Vec.norm z) * Vec.norm z := by
        rw [Vec.norm_scale, abs_neg, abs_of_nonneg share, abs_of_nonneg (by positivity)]
      _ = Vec.norm z - t := by
        field_simp
        ring

theorem exists_isNearest_of_inBand {x : Vector ℝ (n + 1)} (band : InBand x) : ∃ q,
    IsNearest x q ∧ q ≠ x ∧ Vec.norm (q - x) ≤ 1e-8 + 1e-5 * |Vec.head x| := by
  obtain ⟨outside, near⟩ := inBand_iff.1 band
  obtain ⟨q, projection, distance⟩ := exists_isProjection_near outside
  rw [Vec.cons_tail] at projection distance
  refine ⟨q, isNearest_of_isProjection projection, ?_, ?_⟩
  · -- The nearest point is in the cone, and the point itself is not.
    rintro rfl
    exact not_le.2 outside (Cone.holds_secondOrder.1 projection.inside)
  · exact distance.trans ((le_abs_self _).trans near)

/--
The projection is off the nearest point by no more than the tolerance of the test, and only where a
point outside of the cone passes the test.
-/
theorem project_near_nearest [EigenSolver ℝ] (x : Vector ℝ (n + 1)) :
    let t := Vec.head x
    let norm := Vec.norm (Vec.tail x)
    ∃ p q, Cone.secondOrder.project x = .ok p ∧ IsNearest x q ∧
      Vec.norm (p - q) ≤ 1e-8 + 1e-5 * |t| ∧
      (Vec.norm (p - q) = 0 ↔ ¬(t < norm ∧ |norm - t| ≤ 1e-8 + 1e-5 * |t|)) := by
  intro t norm
  have success : Cone.secondOrder.project x = .ok (project x) := rfl
  refine ⟨project x, ?_⟩
  rw [← inBand_iff]
  by_cases band : InBand x
  · obtain ⟨q, nearest, other, near⟩ := exists_isNearest_of_inBand band
    have same : project x = x := project_of_inside (if_pos (.inr band.2))
    have apart : Vec.norm (project x - q) ≠ 0 := by
      rw [same]
      intro zero
      exact other (Vec.get_injective (Vec.norm_sub_eq_zero_iff.1 zero)).symm
    refine ⟨q, success, nearest, ?_, iff_of_false apart (not_not.2 band)⟩
    rw [same, Vec.norm_sub_comm]
    exact near
  · have distance : Vec.norm (project x - project x) = 0 := Vec.norm_sub_eq_zero_iff.2 rfl
    have nearest := isNearest_of_isProjection (project_isProjection band)
    refine ⟨project x, success, nearest, ?_, iff_of_true distance band⟩
    rw [distance]
    positivity

end SecondOrder

end ConicDerivative
