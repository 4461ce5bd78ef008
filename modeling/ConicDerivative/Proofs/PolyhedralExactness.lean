import ConicDerivative.Proofs.GivenChanges
import ConicDerivative.Proofs.LinearizedOptimality
import ConicDerivative.Proofs.Regularity

/-!
Programs whose cones constrain each row by itself. At an optimal point where no inequality is at the
border of both its slack and its price, moving the data along a line moves the solution along one:
the derivative is then the change of the solution itself, for every move that is small enough.
-/

namespace ConicDerivative

open Scalar Matrix Outcomes

open scoped Topology

section

variable [EigenSolver ℝ] {program : Program ℝ} {point : Point ℝ program.rows program.cols}
  {form : Form} {system : OptimalitySystem ℝ program.rows program.cols} {solver : SystemSolver ℝ}

namespace Program

/-- The slack and the price of an inequality differ, so that they are not both zero. -/
def IsStrict (program : Program ℝ) (point : Point ℝ program.rows program.cols) : Prop :=
  ∀ block ∈ program.blocks, block.kind = .cone .nonnegative →
    ∀ i, (block.span program.rows).Contains i → point.y i ≠ point.s i

theorem eventually_complementary (built : program.systemAt point form = .ok system)
    (polyhedral : ∀ block ∈ program.blocks, block.IsPolyhedral) (optimal : program.IsOptimal point)
    (strict : program.IsStrict point) (dv : Vector ℝ program.rows) :
    ∀ᶠ τ in 𝓝 (0 : ℝ), ∀ block ∈ program.blocks, ∀ cone, block.kind = .cone cone →
      ∀ i, (block.span program.rows).Contains i → cone.Complementary
        (point.s i + τ * (system.projection.apply dv i - dv i))
        (point.y i + τ * system.projection.apply dv i) := by
  obtain ⟨_, derived, _⟩ := systemAt_ok built
  obtain ⟨_, _, rows⟩ := (isOptimal_iff_rows polyhedral).1 optimal
  refine Block.eventually_rows polyhedral ?_
  intro block listed cone kind rowwise i contained
  have image := ProductCone.derivative_row program.tiling derived listed kind rowwise dv contained
  rw [Vec.sub_apply] at image
  exact (rows block listed cone kind i contained).eventually rowwise
    (fun same => strict block listed (same ▸ kind) i contained) image

end Program

namespace Linearization

theorem exists_forward_eventually_optimal (built : program.systemAt point form = .ok system)
    (exact : solver.Exact system.jacobian.toOperator)
    (polyhedral : ∀ block ∈ program.blocks, block.IsPolyhedral) (optimal : program.IsOptimal point)
    (strict : program.IsStrict point) (db : Vector ℝ program.rows) (dc : Vector ℝ program.cols) :
    ∃ d, forwardOf ⟨system, solver⟩ (.ofVectors db dc) = .ok d ∧
      ∀ᶠ τ in 𝓝 (0 : ℝ), (program.move τ db dc).IsOptimal (point.move τ d) := by
  let change : Perturbation ℝ program.rows program.cols := ⟨.sparse (.empty _ _), db, dc⟩
  obtain ⟨dz, answered, solved⟩ :=
    solveUnlessNull_exact (Program.jacobian_isAdjoint built) exact (system.rightSide change)
  obtain ⟨primal', dual'⟩ := recover_equations built solved
  have fixed : change.dA.toMat.matrix = 0 := by simp [change, AnyMat.toMat]
  rw [fixed, zero_mulVec, add_zero] at primal'
  rw [fixed, transpose_zero, zero_mulVec, add_zero] at dual'
  refine ⟨system.recover dz, ?_, ?_⟩
  · rw [forwardOf_eq (ChangeData.fit_ofVectors db dc)]
    exact bind_eq_ok.2 ⟨dz, answered, rfl⟩
  filter_upwards [Program.eventually_complementary built polyhedral optimal strict (Vec.right dz)]
    with τ rows
  refine optimal.move polyhedral primal' dual' ?_
  intro block listed cone kind i contained
  have row := rows block listed cone kind i contained
  rwa [← Vec.sub_apply] at row

/--
The derivative is exact on polyhedral programs. At an optimal point that is strict, and with an exact
solver, the point moved along the derivative is an optimal point of the program moved along the
change, for all moves up to some length and in both directions.
-/
theorem forward_exact_of_polyhedral (built : program.systemAt point form = .ok system)
    (exact : solver.Exact system.jacobian.toOperator)
    (polyhedral : ∀ block ∈ program.blocks, block.IsPolyhedral) (optimal : program.IsOptimal point)
    (strict : program.IsStrict point) (db : Vector ℝ program.rows) (dc : Vector ℝ program.cols) :
    ∃ d, forwardOf ⟨system, solver⟩ ⟨none, some (.ofVector db), some (.ofVector dc)⟩ = .ok d ∧
      ∃ bound > 0, ∀ τ : ℝ, |τ| < bound →
        (program.move τ db dc).IsOptimal (point.move τ d) := by
  obtain ⟨d, answered, near⟩ :=
    exists_forward_eventually_optimal built exact polyhedral optimal strict db dc
  obtain ⟨bound, positive, near⟩ := Metric.eventually_nhds_iff.1 near
  refine ⟨d, answered, bound, positive, ?_⟩
  intro τ short
  exact near (by rwa [Real.dist_0_eq_abs])

end Linearization

end

theorem Program.leastBound_strict : leastBound.IsStrict leastBoundPoint := by
  intro block _ _ i _
  rw [leastBoundPoint, Vec.get_pair, Vec.get_pair]
  fin_cases i <;> simp

theorem Linearization.forward_exact_of_leastBound : ∃ system solver,
    Program.leastBound.systemAt Program.leastBoundPoint .sparse = .ok system ∧
      SystemSolver.Exact solver system.jacobian.toOperator ∧
      ∃ d, forwardOf ⟨system, solver⟩ ⟨none, some (.ofVector #v[1, -1]), some (.ofVector #v[1])⟩ =
          .ok d ∧
        ∃ bound > 0, ∀ τ : ℝ, |τ| < bound → (Program.leastBound.move τ #v[1, -1] #v[1]).IsOptimal
          (Program.leastBoundPoint.move τ d) := by
  obtain ⟨system, solver, built, exact⟩ := Program.leastBound_solvable .sparse
  exact ⟨system, solver, built, exact, forward_exact_of_polyhedral built exact
    Program.leastBound_polyhedral Program.leastBound_optimal Program.leastBound_strict _ _⟩

end ConicDerivative
