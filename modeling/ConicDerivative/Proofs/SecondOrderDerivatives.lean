import ConicDerivative.Proofs.ConeProjections
import ConicDerivative.Proofs.FrechetDerivatives

/-!
The second-order projection is differentiable where its regions are separated, and its derivative there
is the matrix that is computed. On the surface of the cone and of its polar, and in the band of points
that count as inside, nothing is said.
-/

namespace ConicDerivative

open Scalar Matrix Filter Topology

variable {n : Nat}

namespace SecondOrder

theorem region_of_lt {t norm : ℝ} (below : norm < t) : region t norm = .inside :=
  if_pos (Or.inl below.le)

theorem region_of_far {t norm : ℝ} (above : t < norm)
    (far : 1e-8 + 1e-5 * |t| < |norm - t|) :
    region t norm = if norm ≤ -t then .polar else .between := by
  have apart : ¬(norm ≤ t ∨ isClose t norm = true) := by
    rw [isClose, isFinite_real, Bool.and_true, decide_eq_true_eq, abs_real, abs_real]
    exact not_or.2 ⟨not_le.2 above, not_le.2 far⟩
  exact if_neg apart

theorem eventually_region {t norm : ℝ} (nonneg : 0 ≤ norm) (apart : norm ≠ |t|)
    (clear : t < norm → 1e-8 + 1e-5 * |t| < |norm - t|) :
    ∀ᶠ p : ℝ × ℝ in 𝓝 (t, norm), region p.1 p.2 = region t norm := by
  have first : Continuous fun p : ℝ × ℝ => p.1 := continuous_fst
  have second : Continuous fun p : ℝ × ℝ => p.2 := continuous_snd
  have opposite : Continuous fun p : ℝ × ℝ => -p.1 := continuous_fst.neg
  rcases lt_trichotomy norm t with below | same | above
  · filter_upwards [second.continuousAt.eventually_lt first.continuousAt below] with p inside
    rw [region_of_lt inside, region_of_lt below]
  · rw [same, abs_of_nonneg (same ▸ nonneg)] at apart
    exact absurd rfl apart
  · have outside : ∀ᶠ p : ℝ × ℝ in 𝓝 (t, norm), p.1 < p.2 :=
      first.continuousAt.eventually_lt second.continuousAt above
    have band : Continuous fun p : ℝ × ℝ => 1e-8 + 1e-5 * |p.1| := by fun_prop
    have distance : Continuous fun p : ℝ × ℝ => |p.2 - p.1| := by fun_prop
    have far : ∀ᶠ p : ℝ × ℝ in 𝓝 (t, norm), 1e-8 + 1e-5 * |p.1| < |p.2 - p.1| :=
      band.continuousAt.eventually_lt distance.continuousAt (clear above)
    have separate : norm ≠ -t := by
      intro same
      rw [same, abs_of_nonpos (by linarith)] at apart
      exact apart rfl
    rw [region_of_far above (clear above)]
    rcases lt_or_gt_of_ne separate with polar | between
    · filter_upwards [outside, far, second.continuousAt.eventually_lt opposite.continuousAt polar]
        with p outside far polar'
      rw [region_of_far outside far, if_pos polar'.le, if_pos polar.le]
    · filter_upwards [outside, far, opposite.continuousAt.eventually_lt second.continuousAt between]
        with p outside far between'
      rw [region_of_far outside far, if_neg (not_le.2 between'), if_neg (not_le.2 between)]

theorem norm_tail_ofFn (v : Fin (n + 1) → ℝ) :
    Vec.norm (Vec.tail (Vector.ofFn v)) = √(∑ i : Fin n, v i.succ * v i.succ) := by
  rw [Vec.norm_eq_sqrt, dotProduct]
  simp only [Vec.tail_apply, Vec.ofFn_apply]

theorem continuous_norm_tail :
    Continuous fun v : Fin (n + 1) → ℝ => Vec.norm (Vec.tail (Vector.ofFn v)) := by
  simp only [norm_tail_ofFn]
  fun_prop

theorem exists_hasFDerivAt_norm_tail {x : Vector ℝ (n + 1)}
    (positive : 0 < Vec.norm (Vec.tail x)) : ∃ D : (Fin (n + 1) → ℝ) →L[ℝ] ℝ,
      HasFDerivAt (fun v => Vec.norm (Vec.tail (Vector.ofFn v))) D x.get ∧
      ∀ τ (w : Vector ℝ n),
        D (Vec.cons τ w).get = (Vec.tail x).get ⬝ᵥ w.get / Vec.norm (Vec.tail x) := by
  let entry (i : Fin n) : (Fin (n + 1) → ℝ) →L[ℝ] ℝ := ContinuousLinearMap.proj i.succ
  have squares : HasFDerivAt (fun v : Fin (n + 1) → ℝ => ∑ i : Fin n, v i.succ * v i.succ)
      (∑ i : Fin n, (x i.succ • entry i + x i.succ • entry i)) x.get := by
    apply HasFDerivAt.fun_sum
    intro i _
    exact (hasFDerivAt_apply i.succ x.get).fun_mul (hasFDerivAt_apply i.succ x.get)
  have value : √(∑ i : Fin n, x i.succ * x i.succ) = Vec.norm (Vec.tail x) := by
    rw [← norm_tail_ofFn, Vec.ofFn_get]
  have nonzero : ∑ i : Fin n, x i.succ * x i.succ ≠ 0 := by
    intro zero
    rw [zero, Real.sqrt_zero] at value
    exact positive.ne value
  have root := squares.sqrt nonzero
  simp only [← norm_tail_ofFn, Vec.ofFn_get] at root
  refine ⟨_, root, ?_⟩
  intro τ w
  have part (i : Fin n) : entry i (Vec.cons τ w).get = w i := Vec.cons_succ τ w i
  have double : (∑ i, (x i.succ • entry i + x i.succ • entry i)) (Vec.cons τ w).get =
      2 * ((Vec.tail x).get ⬝ᵥ w.get) := by
    rw [dotProduct, Finset.mul_sum]
    simp [part, two_mul]
  rw [FunLike.coe_smul, Pi.smul_apply, double, smul_eq_mul]
  field_simp

noncomputable def share (x : Vector ℝ (n + 1)) : ℝ :=
  half * (1 + Vec.head x / Vec.norm (Vec.tail x))

noncomputable def reflection (x : Vector ℝ (n + 1)) : Vector ℝ (n + 1) :=
  Vec.cons (Vec.norm (Vec.tail x)) (Vec.tail x)

section

variable {x : Vector ℝ (n + 1)} (positive : 0 < Vec.norm (Vec.tail x))

include positive

theorem exists_hasFDerivAt_share : ∃ D : (Fin (n + 1) → ℝ) →L[ℝ] ℝ,
    HasFDerivAt (fun v => share (Vector.ofFn v)) D x.get ∧
    ∀ τ (w : Vector ℝ n), D (Vec.cons τ w).get =
      1 / 2 * (τ / Vec.norm (Vec.tail x) - Vec.head x *
        ((Vec.tail x).get ⬝ᵥ w.get / Vec.norm (Vec.tail x)) / Vec.norm (Vec.tail x) ^ 2) := by
  obtain ⟨D, norm_derivative, D_apply⟩ := exists_hasFDerivAt_norm_tail positive
  have outer : HasDerivAt (fun y : ℝ => y⁻¹) (-(Vec.norm (Vec.tail x) ^ 2)⁻¹)
      (Vec.norm (Vec.tail (Vector.ofFn x.get))) := by
    rw [Vec.ofFn_get]
    exact hasDerivAt_inv positive.ne'
  have quotient := (hasFDerivAt_apply 0 x.get).fun_mul (outer.comp_hasFDerivAt x.get norm_derivative)
  have total := (quotient.const_add 1).const_mul (1 / 2)
  refine ⟨_, total.congr_of_eventuallyEq (Eventually.of_forall fun v => ?_), ?_⟩
  · have head : Vec.head (Vector.ofFn v) = v 0 := Vec.ofFn_apply ..
    change share (Vector.ofFn v) = 1 / 2 * (1 + v 0 * (Vec.norm (Vec.tail (Vector.ofFn v)))⁻¹)
    rw [share, half_real, head, div_eq_mul_inv (v 0)]
  intro τ w
  have first : (ContinuousLinearMap.proj 0 : (Fin (n + 1) → ℝ) →L[ℝ] ℝ) (Vec.cons τ w).get = τ :=
    Vec.cons_zero τ w
  simp only [FunLike.coe_smul, FunLike.coe_add, Pi.add_apply, Pi.smul_apply, smul_eq_mul, first,
    D_apply, Function.comp_apply, Vec.ofFn_get]
  have head : x.get 0 = Vec.head x := rfl
  rw [head]
  field_simp
  ring

theorem exists_hasFDerivAt_reflection : ∃ D : (Fin (n + 1) → ℝ) →L[ℝ] Fin (n + 1) → ℝ,
    HasFDerivAt (fun v => (reflection (Vector.ofFn v)).get) D x.get ∧
    ∀ τ (w : Vector ℝ n), D (Vec.cons τ w).get =
      (Vec.cons ((Vec.tail x).get ⬝ᵥ w.get / Vec.norm (Vec.tail x)) w).get := by
  obtain ⟨D, norm_derivative, D_apply⟩ := exists_hasFDerivAt_norm_tail positive
  let parts : Fin (n + 1) → (Fin (n + 1) → ℝ) →L[ℝ] ℝ :=
    Fin.cons D fun i => ContinuousLinearMap.proj i.succ
  refine ⟨ContinuousLinearMap.pi parts, ?_, ?_⟩
  · refine hasFDerivAt_pi.2 fun i => ?_
    cases i using Fin.cases with
    | zero =>
      refine norm_derivative.congr_of_eventuallyEq (Eventually.of_forall fun v => ?_)
      exact Vec.cons_zero ..
    | succ i =>
      refine (hasFDerivAt_apply i.succ x.get).congr_of_eventuallyEq (Eventually.of_forall fun v => ?_)
      exact (Vec.cons_succ ..).trans ((Vec.tail_apply ..).trans (Vec.ofFn_apply ..))
  · intro τ w
    funext i
    cases i using Fin.cases with
    | zero => exact (D_apply τ w).trans (Vec.cons_zero ..).symm
    | succ i => exact (Vec.cons_succ ..).trans (Vec.cons_succ ..).symm

theorem hasFDerivAt_average : HasFDerivAt
    (Vec.onEntries fun y : Vector ℝ (n + 1) => Vec.scale (share y) (reflection y))
    (derivativeBetween (Vec.head x) (Vec.norm (Vec.tail x))
      (Vec.tail x)).matrix.mulVecLin.toContinuousLinearMap x.get := by
  obtain ⟨D, share_derivative, D_apply⟩ := exists_hasFDerivAt_share positive
  obtain ⟨R, reflection_derivative, R_apply⟩ := exists_hasFDerivAt_reflection positive
  have total := share_derivative.fun_smul reflection_derivative
  refine (total.congr_fderiv ?_).congr_of_eventuallyEq (Eventually.of_forall fun v => ?_)
  · apply ContinuousLinearMap.ext
    intro v
    obtain ⟨y, rfl⟩ : ∃ y : Vector ℝ (n + 1), v = y.get := ⟨_, (Vec.get_ofFn v).symm⟩
    obtain ⟨τ, w, rfl⟩ : ∃ τ w, y = Vec.cons τ w := ⟨_, _, (Vec.cons_tail y).symm⟩
    have image := mulVec_derivativeBetween_cons (Vec.head x) (Vec.norm (Vec.tail x)) (Vec.tail x) τ w
    refine Eq.trans ?_ image.symm
    rw [FunLike.coe_add, Pi.add_apply, FunLike.coe_smul, Pi.smul_apply, R_apply,
      ContinuousLinearMap.smulRight_apply, D_apply, Vec.ofFn_get]
    funext i
    rw [Pi.add_apply, Pi.smul_apply, Pi.smul_apply, smul_eq_mul, smul_eq_mul, share, half_real,
      reflection]
    cases i using Fin.cases with
    | zero =>
      rw [Vec.cons_zero, Vec.cons_zero, Vec.cons_zero]
      field_simp
      ring
    | succ i =>
      rw [Vec.cons_succ, Vec.cons_succ, Vec.cons_succ, Vec.add_apply, Vec.scale_apply,
        Vec.scale_apply]
      field_simp
      ring
  · exact Vec.get_scale ..

end

theorem hasFDerivAt_project {x : Vector ℝ (n + 1)}
    (apart : Vec.norm (Vec.tail x) ≠ |Vec.head x|) (clear : ¬InBand x) :
    HasFDerivAt (Vec.onEntries project)
      (derivative x).matrix.mulVecLin.toContinuousLinearMap x.get := by
  have far : Vec.head x < Vec.norm (Vec.tail x) →
      1e-8 + 1e-5 * |Vec.head x| < |Vec.norm (Vec.tail x) - Vec.head x| := by
    intro above
    by_contra near
    exact clear (inBand_iff.2 ⟨above, not_lt.1 near⟩)
  have place : Tendsto
      (fun v : Fin (n + 1) → ℝ => (v 0, Vec.norm (Vec.tail (Vector.ofFn v)))) (𝓝 x.get)
      (𝓝 (Vec.head x, Vec.norm (Vec.tail x))) := by
    have continuous := ((continuous_apply 0).prodMk continuous_norm_tail).tendsto x.get
    rwa [Vec.ofFn_get] at continuous
  have nearby : ∀ᶠ v : Fin (n + 1) → ℝ in 𝓝 x.get,
      region (Vec.head (Vector.ofFn v)) (Vec.norm (Vec.tail (Vector.ofFn v))) =
        region (Vec.head x) (Vec.norm (Vec.tail x)) := by
    filter_upwards [place.eventually (eventually_region (Vec.norm_nonneg _) apart far)] with v same
    rwa [show Vec.head (Vector.ofFn v) = v 0 from Vec.ofFn_apply ..]
  cases found : region (Vec.head x) (Vec.norm (Vec.tail x)) with
  | inside =>
    have whole : (1 : Matrix (Fin (n + 1)) (Fin (n + 1)) ℝ).mulVecLin.toContinuousLinearMap =
        ContinuousLinearMap.id ℝ (Fin (n + 1) → ℝ) := by
      ext v : 1
      exact one_mulVec v
    rw [derivative_of_inside found, whole]
    refine (hasFDerivAt_id x.get).congr_of_eventuallyEq ?_
    filter_upwards [nearby] with v same
    rw [Vec.onEntries, project_of_inside (same.trans found), Vec.get_ofFn]
    rfl
  | polar =>
    have nothing : (0 : Matrix (Fin (n + 1)) (Fin (n + 1)) ℝ).mulVecLin.toContinuousLinearMap = 0 := by
      ext v : 1
      exact zero_mulVec v
    rw [derivative_of_polar found, nothing]
    refine (hasFDerivAt_const 0 x.get).congr_of_eventuallyEq ?_
    filter_upwards [nearby] with v same
    rw [Vec.onEntries, project_of_polar (same.trans found), Vec.get_zeros]
  | between =>
    rw [derivative_of_between found]
    refine (hasFDerivAt_average ((abs_nonneg _).trans_lt (abs_lt_of_between found))).congr_of_eventuallyEq ?_
    filter_upwards [nearby] with v same
    rw [Vec.onEntries, project_of_between (same.trans found), ← half_real]
    rfl

end SecondOrder

/--
Off the boundaries between the regions, and out of the band of points that count as inside, the matrix
that is computed is the Fréchet derivative of the projection onto the second-order cone.
-/
theorem Cone.secondOrder_isDerivative [EigenSolver ℝ] (x : Vector ℝ (n + 1))
    (apart : Vec.norm (Vec.tail x) ≠ |Vec.head x|) (clear : ¬SecondOrder.InBand x) :
    ∃ S, secondOrder.derivativeMatrix x = .ok S ∧
      (Operator.ofSparse S).IsDerivative secondOrder.project x := by
  refine ⟨.ofMat (SecondOrder.derivative x), rfl, SecondOrder.project, (SecondOrder.derivative x).matrix,
    fun v => rfl, ?_, SecondOrder.hasFDerivAt_project apart clear⟩
  rw [Operator.ofSparse_ofMat]
  exact Operator.represents_ofMat _

theorem Cone.secondOrder_isDerivative_of_between :
    ∃ S, secondOrder.derivativeMatrix (Vec.cons (-1) (.replicate 3 1) : Vector ℝ (3 + 1)) = .ok S ∧
      (Operator.ofSparse S).IsDerivative secondOrder.project (Vec.cons (-1) (.replicate 3 1)) := by
  have norm : Vec.norm (Vec.tail (Vec.cons (-1) (.replicate 3 1) : Vector ℝ (3 + 1))) = √3 := by
    rw [Vec.tail_cons, Vec.norm_eq_sqrt, Vec.get_replicate, dotProduct]
    norm_num
  have head : Vec.head (Vec.cons (-1) (.replicate 3 1) : Vector ℝ (3 + 1)) = -1 := Vec.head_cons ..
  have above : 1 < √3 := Real.lt_sqrt_of_sq_lt (by norm_num)
  apply secondOrder_isDerivative
  · rw [norm, head, abs_neg, abs_one]
    exact above.ne'
  · rw [SecondOrder.inBand_iff, norm, head, abs_neg, abs_one]
    intro band
    have near := (le_abs_self _).trans band.2
    norm_num at near
    linarith

end ConicDerivative
