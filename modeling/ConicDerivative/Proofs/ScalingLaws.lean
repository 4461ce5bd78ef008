import ConicDerivative.Proofs.GivenChanges
import ConicDerivative.Proofs.LinearizedOptimality
import ConicDerivative.Proofs.Regularity

/-!
Scaling the data of a program. With an exact solver the derivative is the only change that satisfies
the linearized equations. Where the multipliers are the projection of `y - s`, this gives it in
closed form for the data as changes of themselves: the solution scales with the right-hand side and
the multipliers with the costs.
-/

namespace ConicDerivative

open Scalar Matrix Outcomes

namespace Linearization

section

variable [EigenSolver ℝ] {program : Program ℝ} {point : Point ℝ program.rows program.cols}
  {form : Form} {system : OptimalitySystem ℝ program.rows program.cols} {solver : SystemSolver ℝ}
  (built : program.systemAt point form = .ok system)
  (exact : solver.Exact system.jacobian.toOperator)

include built exact

theorem forward_eq_of_equations {change : Perturbation ℝ program.rows program.cols}
    {d : Direction ℝ program.rows program.cols}
    (tangent : system.projection.apply (d.dy - d.ds) = d.dy)
    (primal : program.A.matrix *ᵥ d.dx.get + change.dA.toMat.matrix *ᵥ point.x.get + d.ds.get =
      change.db.get)
    (dual : program.A.matrixᵀ *ᵥ d.dy.get + change.dA.toMat.matrixᵀ *ᵥ point.y.get +
      change.dc.get = 0) :
    forward ⟨system, solver⟩ change = .ok d := by
  obtain ⟨same, _, jacobian⟩ := Program.systemAt_ok built
  obtain ⟨apply, adjoint⟩ := change.dA.represents_toOperator
  have pair := Program.jacobian_isAdjoint built
  obtain ⟨dz, answered, solved⟩ := solveUnlessNull_exact pair exact (system.rightSide change)
  -- In the unknowns of the system the change is `dx` and `dv = dy - ds`.
  have solution : system.jacobian.toOperator.apply (d.dx ++ (d.dy - d.ds)) =
      system.rightSide change := by
    rw [jacobian, OptimalitySystem.rightSide, same]
    apply Vec.ext_parts
    · apply Vec.get_injective
      simp only [Jacobian.ofOperator, Vec.left_append, Vec.right_append, Vec.left_neg, tangent,
        Vec.get_neg, Vec.get_add, Sparse.get_transposeMulVec, adjoint]
      linear_combination dual
    · apply Vec.get_injective
      simp only [Jacobian.ofOperator, Vec.left_append, Vec.right_append, Vec.right_neg, tangent,
        Vec.get_neg, Vec.get_add, Vec.get_sub, Sparse.get_mulVec, apply]
      linear_combination primal
  obtain rfl : dz = d.dx ++ (d.dy - d.ds) := exact.apply_injective pair (solved.trans solution.symm)
  have recovered : system.recover (d.dx ++ (d.dy - d.ds)) = d := by
    have slack : d.dy - (d.dy - d.ds) = d.ds := by
      apply Vec.get_injective
      rw [Vec.get_sub, Vec.get_sub, sub_sub_cancel]
    rw [OptimalitySystem.recover, Vec.left_append, Vec.right_append, tangent, slack]
  exact bind_eq_ok.2 ⟨_, answered, congrArg Except.ok recovered⟩

variable [LawfulEigenSolver]
  (projected : ProductCone.project program.blocks (point.y - point.s) true = .ok point.y)

include projected

theorem forward_rightHandSide
    (primal : program.A.matrix *ᵥ point.x.get + point.s.get = program.b.get) :
    forwardOf ⟨system, solver⟩ ⟨none, some (.ofVector program.b), none⟩ =
      .ok ⟨point.x, Vector.replicate _ 0, point.s⟩ := by
  have read : ChangeData.fit ⟨none, some (.ofVector program.b), none⟩ program.rows program.cols =
      .ok ⟨.sparse (.empty _ _), program.b, Vector.replicate _ 0⟩ :=
    ChangeData.fit_ok rfl (Data.vectorOr_ofVector ..) rfl
  obtain ⟨M, image, _, dropped⟩ := projection_point built projected
  rw [forwardOf_eq read]
  apply forward_eq_of_equations built exact
  · exact Vec.get_injective (by simp [image, mulVec_neg, dropped])
  · simpa [AnyMat.toMat] using primal
  · simp [AnyMat.toMat]

theorem forward_costs (dual : program.A.matrixᵀ *ᵥ point.y.get + program.c.get = 0) :
    forwardOf ⟨system, solver⟩ ⟨none, none, some (.ofVector program.c)⟩ =
      .ok ⟨Vector.replicate _ 0, point.y, Vector.replicate _ 0⟩ := by
  have read : ChangeData.fit ⟨none, none, some (.ofVector program.c)⟩ program.rows program.cols =
      .ok ⟨.sparse (.empty _ _), Vector.replicate _ 0, program.c⟩ :=
    ChangeData.fit_ok rfl rfl (Data.vectorOr_ofVector ..)
  obtain ⟨M, image, kept, _⟩ := projection_point built projected
  rw [forwardOf_eq read]
  apply forward_eq_of_equations built exact
  · exact Vec.get_injective (by simp [image, kept])
  · simp [AnyMat.toMat]
  · simpa [AnyMat.toMat] using dual

theorem forward_matrix {given : Data ℝ} (holds : given.Holds program.A.matrix) :
    forwardOf ⟨system, solver⟩ ⟨some given, none, none⟩ =
      .ok ⟨-point.x, -point.y, Vector.replicate _ 0⟩ := by
  obtain ⟨dA, found, entries⟩ := holds
  have read : ChangeData.fit ⟨some given, none, none⟩ program.rows program.cols =
      .ok ⟨dA, Vector.replicate _ 0, Vector.replicate _ 0⟩ := ChangeData.fit_ok found rfl rfl
  obtain ⟨M, image, kept, _⟩ := projection_point built projected
  rw [forwardOf_eq read]
  apply forward_eq_of_equations built exact
  · exact Vec.get_injective (by simp [image, mulVec_neg, kept])
  · simp [entries, mulVec_neg]
  · simp [entries, mulVec_neg]

/--
The scaling laws. The solution scales with the right-hand side and the multipliers with the costs;
where the matrix grows, all but the slacks shrink. The matrix may be handed in in any storage.
-/
theorem forward_scaling
    (primal : program.A.matrix *ᵥ point.x.get + point.s.get = program.b.get)
    (dual : program.A.matrixᵀ *ᵥ point.y.get + program.c.get = 0) :
    forwardOf ⟨system, solver⟩ ⟨none, some (.ofVector program.b), none⟩ =
        .ok ⟨point.x, Vector.replicate _ 0, point.s⟩ ∧
      forwardOf ⟨system, solver⟩ ⟨none, none, some (.ofVector program.c)⟩ =
        .ok ⟨Vector.replicate _ 0, point.y, Vector.replicate _ 0⟩ ∧
      ∀ given : Data ℝ, given.Holds program.A.matrix →
        forwardOf ⟨system, solver⟩ ⟨some given, none, none⟩ =
          .ok ⟨-point.x, -point.y, Vector.replicate _ 0⟩ :=
  ⟨forward_rightHandSide built exact projected primal, forward_costs built exact projected dual,
    fun _ holds => forward_matrix built exact projected holds⟩

end

theorem forward_scaling_of_leastBound : ∃ system solver,
    Program.leastBound.systemAt Program.leastBoundPoint .sparse = .ok system ∧
      SystemSolver.Exact solver system.jacobian.toOperator ∧
      forwardOf ⟨system, solver⟩ ⟨none, some (.ofVector #v[1, 1 + 1]), none⟩ =
        .ok ⟨#v[1], Vector.replicate _ 0, #v[0, 1]⟩ ∧
      forwardOf ⟨system, solver⟩ ⟨none, none, some (.ofVector #v[-1])⟩ =
        .ok ⟨Vector.replicate _ 0, #v[1, 0], Vector.replicate _ 0⟩ ∧
      forwardOf ⟨system, solver⟩ ⟨some (.sparse 2 1 (.ofSparse Program.leastBound.A)), none, none⟩ =
        .ok ⟨-#v[1], -#v[1, 0], Vector.replicate _ 0⟩ := by
  obtain ⟨system, solver, built, exact⟩ := Program.leastBound_solvable .sparse
  have optimal := Program.leastBound_optimal
  obtain ⟨side, costs, matrix⟩ := forward_scaling built exact Program.leastBound_projected
    optimal.primal optimal.dual
  exact ⟨system, solver, built, exact, side, costs, matrix _ (Data.holds_ofSparse _)⟩

end Linearization

end ConicDerivative
