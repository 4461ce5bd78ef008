import ConicDerivative.Proofs.ExactSolvers
import ConicDerivative.Proofs.FirmDerivatives
import ConicDerivative.Proofs.PolyhedralRows

/-!
When a point is regular. The Jacobian at a point has an inverse just if the derivative `D` of the
projection takes no change of `x` to zero, and no nonzero prices that `D` keeps are orthogonal to all
columns. For this `D` has to be symmetric and firm, which it is for every product of cones.
-/

namespace ConicDerivative

open Scalar Matrix Outcomes

variable {m n k : Nat}

theorem Operator.IsFirm.mulVec {D : Operator ℝ k k} {M : Matrix (Fin k) (Fin k) ℝ}
    (firm : D.IsFirm) (given : D.Represents M) (v : Fin k → ℝ) :
    M *ᵥ v ⬝ᵥ M *ᵥ v ≤ M *ᵥ v ⬝ᵥ v := by
  have image := firm (Vector.ofFn v)
  rwa [given.apply, Vec.get_ofFn] at image

theorem Operator.IsSelfAdjoint.isSymm {D : Operator ℝ k k} {M : Matrix (Fin k) (Fin k) ℝ}
    (own : D.IsSelfAdjoint) (given : D.Represents M) : M.IsSymm := by
  apply Matrix.mulVec_injective
  funext v
  have image := given.adjoint (Vector.ofFn v)
  rw [own.same, given.apply, Vec.get_ofFn] at image
  exact image.symm

section Firm

variable {D : Matrix (Fin m) (Fin m) ℝ} {A : Matrix (Fin m) (Fin n) ℝ}

theorem mulVec_mulVec_of_tight (symm : D.IsSymm) (firm : ∀ v, D *ᵥ v ⬝ᵥ D *ᵥ v ≤ D *ᵥ v ⬝ᵥ v)
    {v : Fin m → ℝ} (tight : D *ᵥ v ⬝ᵥ D *ᵥ v = D *ᵥ v ⬝ᵥ v) : D *ᵥ (D *ᵥ v) = D *ᵥ v := by
  -- The form of `D - D²` measures what is lost; it is semidefinite, so its zeros are its kernel.
  have lost (u : Fin m → ℝ) : u ⬝ᵥ (D - D * D) *ᵥ u = D *ᵥ u ⬝ᵥ u - D *ᵥ u ⬝ᵥ D *ᵥ u := by
    have moved : u ⬝ᵥ D *ᵥ (D *ᵥ u) = D *ᵥ u ⬝ᵥ D *ᵥ u := by
      rw [dotProduct_mulVec, ← mulVec_transpose, symm.eq]
    rw [sub_mulVec, dotProduct_sub, ← mulVec_mulVec, moved, dotProduct_comm u]
  have semidefinite : (D - D * D).PosSemidef := by
    refine .of_dotProduct_mulVec_nonneg ?_ ?_
    · rw [IsHermitian, conjTranspose_eq_transpose_of_trivial, transpose_sub, transpose_mul, symm.eq]
    · intro u
      rw [star_trivial, lost]
      exact sub_nonneg.2 (firm u)
  have zero := (semidefinite.dotProduct_mulVec_zero_iff v).1 <| by
    rw [star_trivial, lost, tight, sub_self]
  rw [sub_mulVec, ← mulVec_mulVec] at zero
  exact (sub_eq_zero.1 zero).symm

/--
The kernel of the block matrix. From a vector of the kernel, `D` keeps its lower part once it has
been applied, as the two block rows together say that nothing is lost.
-/
theorem kernel_trivial_iff (symm : D.IsSymm) (firm : ∀ v, D *ᵥ v ⬝ᵥ D *ᵥ v ≤ D *ᵥ v ⬝ᵥ v) :
    (∀ dx dv, Aᵀ *ᵥ (D *ᵥ dv) = 0 → A *ᵥ dx + D *ᵥ dv - dv = 0 → dx = 0 ∧ dv = 0) ↔
      (∀ dx, D *ᵥ (A *ᵥ dx) = 0 → dx = 0) ∧ ∀ u, D *ᵥ u = u → Aᵀ *ᵥ u = 0 → u = 0 := by
  constructor
  · intro trivial
    constructor
    · intro dx null
      exact (trivial dx (A *ᵥ dx) (by rw [null, mulVec_zero]) (by rw [null, add_zero, sub_self])).1
    · intro u kept null
      exact (trivial 0 u (by rw [kept, null]) (by rw [kept, mulVec_zero, zero_add, sub_self])).2
  · rintro ⟨moving, priced⟩ dx dv upper lower
    have image : A *ᵥ dx = dv - D *ᵥ dv := by
      linear_combination lower
    -- The upper row makes `D dv` orthogonal to all columns, so nothing of its length is lost.
    have tight : D *ᵥ dv ⬝ᵥ D *ᵥ dv = D *ᵥ dv ⬝ᵥ dv := by
      have orthogonal : D *ᵥ dv ⬝ᵥ A *ᵥ dx = 0 := by
        rw [dotProduct_mulVec, ← mulVec_transpose, upper, zero_dotProduct]
      rw [image, dotProduct_sub] at orthogonal
      exact (sub_eq_zero.1 orthogonal).symm
    have nothing : D *ᵥ dv = 0 := priced _ (mulVec_mulVec_of_tight symm firm tight) upper
    rw [nothing, sub_zero] at image
    have still : dx = 0 := moving dx (by rw [image, nothing])
    exact ⟨still, by rw [← image, still, mulVec_zero]⟩

end Firm

theorem Vec.get_eq_zero_iff {z : Vector ℝ (n + m)} :
    z.get = 0 ↔ (left z).get = 0 ∧ (right z).get = 0 := by
  constructor
  · intro null
    constructor
    · funext i
      exact (left_apply z i).trans (congrFun null _)
    · funext i
      exact (right_apply z i).trans (congrFun null _)
  · rintro ⟨upper, lower⟩
    funext i
    cases i using Fin.addCases with
    | left i => exact (left_apply z i).symm.trans (congrFun upper i)
    | right i => exact (right_apply z i).symm.trans (congrFun lower i)

theorem Operator.Represents.isUnit_iff {J : Operator ℝ k k} {M : Matrix (Fin k) (Fin k) ℝ}
    (given : J.Represents M) : IsUnit M ↔ ∀ z, (J.apply z).get = 0 → z.get = 0 := by
  rw [← mulVec_injective_iff_isUnit, ← coe_mulVecLin, injective_iff_map_eq_zero]
  constructor
  · intro trivial z null
    exact trivial z.get ((given.apply z).symm.trans null)
  · intro trivial v null
    have unread := trivial (Vector.ofFn v) (by rw [given.apply, Vec.get_ofFn]; exact null)
    rwa [Vec.get_ofFn] at unread

namespace Jacobian

theorem represents_toMat {J : Jacobian ℝ m n} (pair : J.toOperator.IsAdjoint) :
    J.toOperator.Represents J.toMat.matrix := by
  cases J with
  | assembled A => exact A.represents_toOperator
  | operator A => exact pair.represents

theorem injective_iff (A : Sparse ℝ m n) {D : Operator ℝ m m} {M : Matrix (Fin m) (Fin m) ℝ}
    (own : D.IsSelfAdjoint) (firm : D.IsFirm) (given : D.Represents M) :
    (∀ z, ((ofOperator A D).apply z).get = 0 → z.get = 0) ↔
      (∀ dx, M *ᵥ (A.matrix *ᵥ dx) = 0 → dx = 0) ∧ ∀ u, M *ᵥ u = u → A.matrixᵀ *ᵥ u = 0 → u = 0 := by
  rw [← kernel_trivial_iff (own.isSymm given) (firm.mulVec given)]
  have parts (z : Vector ℝ (n + m)) : ((ofOperator A D).apply z).get = 0 ↔
      A.matrixᵀ *ᵥ (M *ᵥ (Vec.right z).get) = 0 ∧
        A.matrix *ᵥ (Vec.left z).get + M *ᵥ (Vec.right z).get - (Vec.right z).get = 0 := by
    rw [Vec.get_eq_zero_iff, ofOperator, Vec.left_append, Vec.right_append,
      Sparse.get_transposeMulVec, Vec.get_sub, Vec.get_add, Sparse.get_mulVec, given.apply]
  constructor
  · intro trivial dx dv upper lower
    have null := trivial (Vector.ofFn dx ++ Vector.ofFn dv)
    rw [parts, Vec.get_eq_zero_iff, Vec.left_append, Vec.right_append, Vec.get_ofFn,
      Vec.get_ofFn] at null
    exact null ⟨upper, lower⟩
  · intro trivial z null
    obtain ⟨upper, lower⟩ := (parts z).1 null
    exact Vec.get_eq_zero_iff.2 (trivial _ _ upper lower)

end Jacobian

namespace Program

section

variable [EigenSolver ℝ] {program : Program ℝ} {point : Point ℝ program.rows program.cols}

theorem exists_systemAt {D : Sparse ℝ program.rows program.rows}
    (derived : ProductCone.derivativeMatrix program.blocks (point.y - point.s) true = .ok ⟨D⟩)
    (form : Form) : ∃ system, program.systemAt point form = .ok system := by
  have shaped : (Sized.expect ⟨D⟩ program.rows program.rows : Outcome ℝ _) = .ok D :=
    Sized.expect_eq_ok.2 rfl
  cases form with
  | operator =>
    have shaped' : (Sized.expect ⟨Operator.ofSparse D⟩ program.rows program.rows : Outcome ℝ _) =
        .ok (Operator.ofSparse D) := Sized.expect_eq_ok.2 rfl
    exact ⟨_, bind_eq_ok.2 ⟨_, ProductCone.derivative_of_derivativeMatrix derived,
      bind_eq_ok.2 ⟨_, shaped', rfl⟩⟩⟩
  | sparse | dense => exact ⟨_, bind_eq_ok.2 ⟨_, derived, bind_eq_ok.2 ⟨D, shaped, rfl⟩⟩⟩

theorem jacobian_injective_iff [LawfulEigenSolver] {D : Sparse ℝ program.rows program.rows}
    {form : Form} {system : OptimalitySystem ℝ program.rows program.cols}
    (derived : ProductCone.derivativeMatrix program.blocks (point.y - point.s) true = .ok ⟨D⟩)
    (built : program.systemAt point form = .ok system) :
    (∀ z, (system.jacobian.toOperator.apply z).get = 0 → z.get = 0) ↔
      (∀ dx, D.matrix *ᵥ (program.A.matrix *ᵥ dx) = 0 → dx = 0) ∧
        ∀ u, D.matrix *ᵥ u = u → program.A.matrixᵀ *ᵥ u = 0 → u = 0 := by
  obtain ⟨_, derived', jacobian⟩ := systemAt_ok built
  have own := projection_isSelfAdjoint built
  have firm := ProductCone.derivative_isFirm program.tiling derived'
  obtain ⟨_, _, projection⟩ := system
  cases derived'.symm.trans (ProductCone.derivative_of_derivativeMatrix derived)
  rw [jacobian]
  exact Jacobian.injective_iff program.A own firm (Operator.represents_ofSparse D)

omit [EigenSolver ℝ] in
theorem leastBound_regular {D : Sparse ℝ 2 2} (keeps : ∀ w, D.matrix *ᵥ w = ![w 0, 0]) :
    (∀ dx, D.matrix *ᵥ (leastBound.A.matrix *ᵥ dx) = 0 → dx = 0) ∧
      ∀ u, D.matrix *ᵥ u = u → leastBound.A.matrixᵀ *ᵥ u = 0 → u = 0 := by
  rw [leastBound_matrix]
  constructor
  · intro dx null
    rw [keeps] at null
    have first := congrFun null 0
    funext j
    fin_cases j
    simpa [mulVec, dotProduct] using first
  · intro u kept null
    rw [keeps] at kept
    have second : 0 = u 1 := congrFun kept 1
    have total : u 0 + u 1 = 0 := by simpa [mulVec, dotProduct] using congrFun null 0
    funext i
    fin_cases i
    · exact (by linarith : u 0 = 0)
    · exact second.symm

theorem leastBound_solvable [LawfulEigenSolver] (form : Form) : ∃ system solver,
    leastBound.systemAt leastBoundPoint form = .ok system ∧
      SystemSolver.Exact solver system.jacobian.toOperator := by
  obtain ⟨D, derived, keeps⟩ := leastBound_derivative
  obtain ⟨system, built⟩ := exists_systemAt derived form
  have injective := (jacobian_injective_iff derived built).2 (leastBound_regular keeps)
  exact ⟨system, _, built,
    SystemSolver.exact_direct (.default .lu) (jacobian_isAdjoint built) injective⟩

/--
The criterion of regularity, for the matrix of the system in each of its forms: it has an inverse
just if `D A dx = 0` only for `dx = 0`, and `D u = u` with `Aᵀ u = 0` only for `u = 0`.
-/
theorem jacobian_isUnit_iff [LawfulEigenSolver] {D : Sparse ℝ program.rows program.rows}
    (derived : ProductCone.derivativeMatrix program.blocks (point.y - point.s) true = .ok ⟨D⟩)
    (form : Form) : ∃ system, program.systemAt point form = .ok system ∧
      (IsUnit system.jacobian.toMat.matrix ↔
        (∀ dx, D.matrix *ᵥ (program.A.matrix *ᵥ dx) = 0 → dx = 0) ∧
          ∀ u, D.matrix *ᵥ u = u → program.A.matrixᵀ *ᵥ u = 0 → u = 0) := by
  obtain ⟨system, built⟩ := exists_systemAt derived form
  refine ⟨system, built, ?_⟩
  rw [(Jacobian.represents_toMat (jacobian_isAdjoint built)).isUnit_iff,
    jacobian_injective_iff derived built]

end

theorem jacobian_isUnit_of_leastBound :
    ∃ D : Sparse ℝ leastBound.rows leastBound.rows,
      ProductCone.derivativeMatrix leastBound.blocks (leastBoundPoint.y - leastBoundPoint.s) true =
        .ok ⟨D⟩ ∧
      ∀ form, ∃ system, leastBound.systemAt leastBoundPoint form = .ok system ∧
        IsUnit system.jacobian.toMat.matrix := by
  obtain ⟨D, derived, keeps⟩ := leastBound_derivative
  refine ⟨D, derived, ?_⟩
  intro form
  obtain ⟨system, built, criterion⟩ := jacobian_isUnit_iff derived form
  exact ⟨system, built, criterion.2 (leastBound_regular keeps)⟩

end Program

end ConicDerivative
