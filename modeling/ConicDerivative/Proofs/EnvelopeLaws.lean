import ConicDerivative.Proofs.GivenChanges
import ConicDerivative.Proofs.LinearizedOptimality
import ConicDerivative.Proofs.Regularity

/-!
The gradients of the two values of a program. With an exact solver the transpose of the derivative is
known from any solution of the transposed system. Where the multipliers are the projection of
`y - s`, this gives it in closed form in the direction of the costs, which is the gradient of the
primal value, and in the direction of the right-hand side, which is that of the dual value.
-/

namespace ConicDerivative

open Scalar Matrix Outcomes

namespace Linearization

section

variable [EigenSolver ℝ] {program : Program ℝ} {point : Point ℝ program.rows program.cols}
  {form : Form} {system : OptimalitySystem ℝ program.rows program.cols} {solver : SystemSolver ℝ}
  (built : program.systemAt point form = .ok system)
  (exact : solver.Exact system.jacobian.toOperator)

include built exact

theorem backward_eq_of_solution {target : Direction ℝ program.rows program.cols}
    {g : Gradient ℝ program.rows program.cols} (rx : Vector ℝ program.cols)
    (upper : program.A.matrixᵀ *ᵥ g.db.get = target.dx.get)
    (lower : system.projection.apply (program.A.mulVec rx + g.db) - g.db =
      system.projection.apply (target.dy + target.ds) - target.ds)
    (weights : g.dA.matrix = -(vecMulVec point.y.get rx.get + vecMulVec g.db.get point.x.get))
    (costs : g.dc = -rx) : backward ⟨system, solver⟩ target = .ok g := by
  obtain ⟨same, _, jacobian⟩ := Program.systemAt_ok built
  have pair := Program.jacobian_isAdjoint built
  have own := Program.projection_isSelfAdjoint built
  obtain ⟨r, answered, solved⟩ :=
    solveUnlessNull_exact_transposed pair exact (system.recoverAdjoint target)
  have solution : system.jacobian.toOperator.adjoint (rx ++ g.db) =
      system.recoverAdjoint target := by
    have image : program.A.transposeMulVec g.db = target.dx := by
      apply Vec.get_injective
      rw [Sparse.get_transposeMulVec, upper]
    rw [jacobian, Jacobian.ofOperator, OptimalitySystem.recoverAdjoint, own.same, ← lower]
    simp only [Vec.left_append, Vec.right_append, image]
  obtain rfl : r = rx ++ g.db := exact.adjoint_injective pair (solved.trans solution.symm)
  have shared : system.rightSideAdjoint (rx ++ g.db) = g := by
    have matrix : (Mat.add (Mat.outer point.y rx) (Mat.outer g.db point.x)).neg = g.dA := by
      apply Mat.matrix_injective
      rw [weights, Mat.matrix_neg, Mat.matrix_add, Mat.matrix_outer, Mat.matrix_outer]
    rw [OptimalitySystem.rightSideAdjoint, same, Vec.left_append, Vec.right_append, matrix, ← costs]
  exact bind_eq_ok.2 ⟨_, answered, congrArg Except.ok shared⟩

variable [LawfulEigenSolver]
  (projected : ProductCone.project program.blocks (point.y - point.s) true = .ok point.y)

include projected

theorem backward_costs (dual : program.A.matrixᵀ *ᵥ point.y.get + program.c.get = 0) :
    backwardOf ⟨system, solver⟩ ⟨some (.ofVector program.c), none, none⟩ =
      .ok ⟨Mat.outer point.y point.x, -point.y, Vector.replicate _ 0⟩ := by
  have read : DirectionData.fit ⟨some (.ofVector program.c), none, none⟩ program.rows program.cols =
      .ok ⟨program.c, Vector.replicate _ 0, Vector.replicate _ 0⟩ :=
    DirectionData.fit_ok (Data.vectorOr_ofVector ..) rfl rfl
  obtain ⟨M, image, kept, _⟩ := projection_point built projected
  rw [backwardOf_eq read]
  apply backward_eq_of_solution built exact (Vector.replicate _ 0)
  · rw [Vec.get_neg, mulVec_neg]
    exact (eq_neg_of_add_eq_zero_right dual).symm
  · exact Vec.get_injective (by simp [image, mulVec_neg, kept])
  · funext i j
    simp [vecMulVec_apply]
  · exact Vec.get_injective (by simp)

theorem backward_rightHandSide
    (primal : program.A.matrix *ᵥ point.x.get + point.s.get = program.b.get) :
    backwardOf ⟨system, solver⟩ ⟨none, some (.ofVector program.b), none⟩ =
      .ok ⟨(Mat.outer point.y point.x).neg, Vector.replicate _ 0, -point.x⟩ := by
  have read : DirectionData.fit ⟨none, some (.ofVector program.b), none⟩ program.rows program.cols =
      .ok ⟨Vector.replicate _ 0, program.b, Vector.replicate _ 0⟩ :=
    DirectionData.fit_ok rfl (Data.vectorOr_ofVector ..) rfl
  obtain ⟨M, image, _, dropped⟩ := projection_point built projected
  rw [backwardOf_eq read]
  apply backward_eq_of_solution built exact point.x
  · simp
  · exact Vec.get_injective (by simp [image, ← primal, mulVec_add, dropped])
  · simp
  · rfl

/--
The envelope laws. In the direction of the costs the transpose gives what a change of the data adds
to the costs of the solution, `y xᵀ` for the matrix and `-y` for the right-hand side; in the direction
of the right-hand side it gives the same of the multipliers.
-/
theorem backward_envelope
    (primal : program.A.matrix *ᵥ point.x.get + point.s.get = program.b.get)
    (dual : program.A.matrixᵀ *ᵥ point.y.get + program.c.get = 0) :
    backwardOf ⟨system, solver⟩ ⟨some (.ofVector program.c), none, none⟩ =
        .ok ⟨Mat.outer point.y point.x, -point.y, Vector.replicate _ 0⟩ ∧
      backwardOf ⟨system, solver⟩ ⟨none, some (.ofVector program.b), none⟩ =
        .ok ⟨(Mat.outer point.y point.x).neg, Vector.replicate _ 0, -point.x⟩ :=
  ⟨backward_costs built exact projected dual, backward_rightHandSide built exact projected primal⟩

end

theorem backward_envelope_of_leastBound : ∃ system solver,
    Program.leastBound.systemAt Program.leastBoundPoint .sparse = .ok system ∧
      SystemSolver.Exact solver system.jacobian.toOperator ∧
      backwardOf ⟨system, solver⟩ ⟨some (.ofVector #v[-1]), none, none⟩ =
        .ok ⟨Mat.outer #v[1, 0] #v[1], -#v[1, 0], Vector.replicate _ 0⟩ ∧
      backwardOf ⟨system, solver⟩ ⟨none, some (.ofVector #v[1, 1 + 1]), none⟩ =
        .ok ⟨(Mat.outer #v[1, 0] #v[1]).neg, Vector.replicate _ 0, -#v[1]⟩ := by
  obtain ⟨system, solver, built, exact⟩ := Program.leastBound_solvable .sparse
  have optimal := Program.leastBound_optimal
  obtain ⟨costs, side⟩ := backward_envelope built exact Program.leastBound_projected
    optimal.primal optimal.dual
  exact ⟨system, solver, built, exact, costs, side⟩

end Linearization

end ConicDerivative
