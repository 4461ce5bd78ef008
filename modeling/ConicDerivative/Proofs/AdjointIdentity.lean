import ConicDerivative.Proofs.ExactSolvers

/-!
The derivative and its transpose belong together. The change of the solution, weighted by a
direction, is the change of the data weighted by what the transpose makes of the direction. Each of
the three maps that the derivative is made of has this property, and so has their composition.
-/

namespace ConicDerivative

open Scalar Matrix Outcomes

variable {m n : Nat}

noncomputable def Direction.inner (d e : Direction ℝ m n) : ℝ :=
  d.dx.get ⬝ᵥ e.dx.get + d.dy.get ⬝ᵥ e.dy.get + d.ds.get ⬝ᵥ e.ds.get

/-- A change of the data under the weights of a gradient, matrices entry by entry. -/
noncomputable def Perturbation.inner (change : Perturbation ℝ m n) (weights : Gradient ℝ m n) : ℝ :=
  (∑ i, ∑ j, change.dA.toMat i j * weights.dA i j) + change.db.get ⬝ᵥ weights.db.get +
    change.dc.get ⬝ᵥ weights.dc.get

theorem sum_mul_outer (M : Matrix (Fin m) (Fin n) ℝ) (y : Fin m → ℝ) (x : Fin n → ℝ) :
    ∑ i, ∑ j, M i j * (y i * x j) = y ⬝ᵥ M *ᵥ x := by
  simp only [dotProduct, Matrix.mulVec, Finset.mul_sum]
  apply Finset.sum_congr rfl
  intro i _
  apply Finset.sum_congr rfl
  intro j _
  ring

namespace OptimalitySystem

variable (system : OptimalitySystem ℝ m n)

theorem rightSide_inner (change : Perturbation ℝ m n) (r : Vector ℝ (n + m)) :
    (system.rightSide change).get ⬝ᵥ r.get = change.inner (system.rightSideAdjoint r) := by
  obtain ⟨apply, adjoint⟩ := change.dA.represents_toOperator
  have upper : (change.dA.toOperator.adjoint system.point.y).get ⬝ᵥ (Vec.left r).get =
      system.point.y.get ⬝ᵥ change.dA.toMat.matrix *ᵥ (Vec.left r).get := by
    rw [adjoint, mulVec_transpose, dotProduct_mulVec]
  have lower : (change.dA.toOperator.apply system.point.x).get ⬝ᵥ (Vec.right r).get =
      (Vec.right r).get ⬝ᵥ change.dA.toMat.matrix *ᵥ system.point.x.get := by
    rw [apply, dotProduct_comm]
  have weights : (∑ i, ∑ j, change.dA.toMat i j * (system.rightSideAdjoint r).dA i j) =
      -(system.point.y.get ⬝ᵥ change.dA.toMat.matrix *ᵥ (Vec.left r).get) -
        (Vec.right r).get ⬝ᵥ change.dA.toMat.matrix *ᵥ system.point.x.get := by
    rw [← sum_mul_outer, ← sum_mul_outer, ← Finset.sum_neg_distrib, ← Finset.sum_sub_distrib]
    apply Finset.sum_congr rfl
    intro i _
    rw [← Finset.sum_neg_distrib, ← Finset.sum_sub_distrib]
    apply Finset.sum_congr rfl
    intro j _
    simp only [rightSideAdjoint, Mat.neg, Mat.add, Mat.outer, Mat.ofFn_apply, Mat.matrix]
    ring
  have split : (system.rightSide change).get ⬝ᵥ r.get =
      -((change.dA.toOperator.adjoint system.point.y + change.dc).get ⬝ᵥ (Vec.left r).get +
        (change.dA.toOperator.apply system.point.x - change.db).get ⬝ᵥ (Vec.right r).get) := by
    rw [rightSide, Vec.get_neg, neg_dotProduct, Vec.dot_append]
  rw [split, Vec.get_add, Vec.get_sub, add_dotProduct, sub_dotProduct, upper, lower,
    Perturbation.inner, weights]
  simp only [rightSideAdjoint, Vec.get_neg, dotProduct_neg]
  ring

theorem recover_inner (pair : system.projection.IsAdjoint) (dz : Vector ℝ (n + m))
    (target : Direction ℝ m n) :
    (system.recover dz).inner target = dz.get ⬝ᵥ (system.recoverAdjoint target).get := by
  have middle := pair (Vec.right dz) (target.dy + target.ds)
  rw [Vec.get_add, dotProduct_add] at middle
  rw [Vec.dot_parts, recoverAdjoint, Vec.left_append, Vec.right_append, Vec.get_sub,
    dotProduct_sub, ← middle]
  simp only [Direction.inner, recover, Vec.get_sub, sub_dotProduct]
  ring

end OptimalitySystem

namespace Linearization

section

variable [EigenSolver ℝ] {program : Program ℝ} {point : Point ℝ program.rows program.cols}
  {form : Form} {system : OptimalitySystem ℝ program.rows program.cols} {solver : SystemSolver ℝ}

/--
The adjoint identity. With a solver that is exact for the Jacobian, both the derivative and its
transpose have a value for every argument, and the two values weigh the same.
-/
theorem forward_inner_eq_inner_backward (built : program.systemAt point form = .ok system)
    (exact : solver.Exact system.jacobian.toOperator)
    (change : Perturbation ℝ program.rows program.cols)
    (target : Direction ℝ program.rows program.cols) :
    ∃ d g, forward ⟨system, solver⟩ change = .ok d ∧ backward ⟨system, solver⟩ target = .ok g ∧
      d.inner target = change.inner g := by
  have projection := (Program.projection_isSelfAdjoint built).pair
  have pair := Program.jacobian_isAdjoint built
  obtain ⟨dz, solved, forwards⟩ := solveUnlessNull_exact pair exact (system.rightSide change)
  obtain ⟨r, solved', backwards⟩ :=
    solveUnlessNull_exact_transposed pair exact (system.recoverAdjoint target)
  refine ⟨system.recover dz, system.rightSideAdjoint r, bind_eq_ok.2 ⟨dz, solved, rfl⟩,
    bind_eq_ok.2 ⟨r, solved', rfl⟩, ?_⟩
  calc
    _ = dz.get ⬝ᵥ (system.recoverAdjoint target).get := system.recover_inner projection dz target
    _ = dz.get ⬝ᵥ (system.jacobian.toOperator.adjoint r).get := by rw [backwards]
    _ = (system.jacobian.toOperator.apply dz).get ⬝ᵥ r.get := (pair dz r).symm
    _ = (system.rightSide change).get ⬝ᵥ r.get := by rw [forwards]
    _ = _ := system.rightSide_inner change r

end

theorem forward_inner_of_equations : ∃ system solver,
    Program.equations.systemAt Program.equationsPoint .operator = .ok system ∧
      SystemSolver.Exact solver system.jacobian.toOperator ∧
      ∃ d g, forward ⟨system, solver⟩ ⟨.sparse (.identity 2), #v[1, 0], #v[0, 2]⟩ = .ok d ∧
        backward ⟨system, solver⟩ ⟨#v[1, 0], #v[0, 1], #v[1, 1]⟩ = .ok g ∧
        d.inner ⟨#v[1, 0], #v[0, 1], #v[1, 1]⟩ =
          Perturbation.inner ⟨.sparse (.identity 2), #v[1, 0], #v[0, 2]⟩ g := by
  obtain ⟨system, solver, built, exact⟩ := Program.equations_solvable
  exact ⟨system, solver, built, exact, forward_inner_eq_inner_backward built exact _ _⟩

end Linearization

end ConicDerivative
