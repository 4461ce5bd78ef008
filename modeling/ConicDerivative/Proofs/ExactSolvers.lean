import ConicDerivative.Linearization
import ConicDerivative.Proofs.ExactElimination
import ConicDerivative.Proofs.JacobianForms

/-!
Solvers that are exact for one linear map: every right-hand side is answered with a solution, and so
is every one of the transposed system. A direct solver is exact for a map without a kernel.
-/

namespace ConicDerivative

open Scalar Matrix Outcomes

variable {k : Nat} {solver : SystemSolver ℝ} {J : Operator ℝ k k}

namespace SystemSolver

/-- Every right-hand side has a solution that the solver returns, also for the transposed map. -/
structure Exact (solver : SystemSolver ℝ) (J : Operator ℝ k k) : Prop where
  solves : ∀ r : Vector ℝ k, ∃ z, solver.solveVector false r = .ok z ∧ J.apply z = r
  solvesTransposed : ∀ r : Vector ℝ k, ∃ z, solver.solveVector true r = .ok z ∧ J.adjoint z = r

theorem solveVector_of_factored {factor : Factor ℝ k} (transposed : Bool) {r z : Vector ℝ k}
    (kept : solver.factored = some ⟨factor⟩)
    (solved : factor.solve solver.options transposed r = .ok z) :
    solver.solveVector transposed r = .ok z := by
  rw [solveVector, kept]
  have same : (⟨factor⟩ : Factored ℝ).size = k := rfl
  refine (dif_pos same).trans ?_
  exact bind_eq_ok.2 ⟨z, solved, rfl⟩

end SystemSolver

theorem Factor.solve_direct (options : SolverOptions ℝ) (A : Mat ℝ k k) (steps : Elimination ℝ k)
    (transposed : Bool) (r : Vector ℝ k) :
    (direct A steps).solve options transposed r = .ok (solveSteps steps transposed r) := by
  -- Over the real numbers nothing is infinite, so the solution of the steps is the answer.
  simp only [solve, Vec.allFinite_real, if_true, ite_self]

/-- The elimination of the matrix of a map without a kernel solves exactly. -/
theorem SystemSolver.exact_direct (options : SolverOptions ℝ) (pair : J.IsAdjoint)
    (injective : ∀ z, (J.apply z).get = 0 → z.get = 0) :
    (SystemSolver.mk options
      (some ⟨.direct J.toMat (Elimination.eliminate J.toMat)⟩)).Exact J := by
  have same := pair.ofMat_toMat
  have apply : J.toMat.mulVec = J.apply := congrArg Operator.apply same
  have adjoint : J.toMat.transposeMulVec = J.adjoint := congrArg Operator.adjoint same
  have regular := Elimination.pivots_ne_zero J.toMat (by rwa [apply])
  constructor
  · intro r
    refine ⟨_, solveVector_of_factored false rfl (Factor.solve_direct ..), ?_⟩
    rw [← apply]
    exact Elimination.mulVec_solve J.toMat regular r
  · intro r
    refine ⟨_, solveVector_of_factored true rfl (Factor.solve_direct ..), ?_⟩
    rw [← adjoint]
    exact Elimination.transposeMulVec_solveTranspose J.toMat regular r

theorem Operator.IsAdjoint.apply_injective (pair : J.IsAdjoint)
    (onto : Function.Surjective J.adjoint) : Function.Injective J.apply := by
  intro x z same
  apply Vec.get_injective
  apply dotProduct_eq
  intro r
  obtain ⟨w, image⟩ := onto (Vector.ofFn r)
  calc
    x.get ⬝ᵥ r = x.get ⬝ᵥ (J.adjoint w).get := by rw [image, Vec.get_ofFn]
    _ = (J.apply x).get ⬝ᵥ w.get := (pair x w).symm
    _ = (J.apply z).get ⬝ᵥ w.get := by rw [same]
    _ = z.get ⬝ᵥ (J.adjoint w).get := pair z w
    _ = z.get ⬝ᵥ r := by rw [image, Vec.get_ofFn]

namespace SystemSolver.Exact

theorem apply_injective (exact : solver.Exact J) (pair : J.IsAdjoint) :
    Function.Injective J.apply :=
  pair.apply_injective fun r => (exact.solvesTransposed r).imp fun _ => And.right

theorem adjoint_injective (exact : solver.Exact J) (pair : J.IsAdjoint) :
    Function.Injective J.adjoint :=
  pair.transpose.apply_injective fun r => (exact.solves r).imp fun _ => And.right

end SystemSolver.Exact

namespace Operator

variable {m n : Nat} {A : Operator ℝ m n}

theorem IsAdjoint.apply_null (pair : A.IsAdjoint) : A.apply (Vector.replicate n 0) =
    Vector.replicate m 0 := by
  apply Vec.get_injective
  rw [pair.represents.apply, Vec.get_zeros, Vec.get_zeros, mulVec_zero]

end Operator

namespace Linearization

theorem null_of_isNull {r : Vector ℝ k} (null : Vec.isNull r = true) :
    r = Vector.replicate k 0 := by
  apply Vec.get_injective
  rw [Vec.isNull_iff.1 null, Vec.get_zeros]

theorem solveUnlessNull_exact (pair : J.IsAdjoint) (exact : solver.Exact J) (r : Vector ℝ k) :
    ∃ z, solveUnlessNull solver false r = .ok z ∧ J.apply z = r := by
  unfold solveUnlessNull
  split_ifs with null
  · refine ⟨Vector.replicate k 0, rfl, ?_⟩
    rw [pair.apply_null, null_of_isNull null]
  · exact exact.solves r

theorem solveUnlessNull_exact_transposed (pair : J.IsAdjoint) (exact : solver.Exact J)
    (r : Vector ℝ k) : ∃ z, solveUnlessNull solver true r = .ok z ∧ J.adjoint z = r := by
  unfold solveUnlessNull
  split_ifs with null
  · refine ⟨Vector.replicate k 0, rfl, ?_⟩
    rw [null_of_isNull null]
    exact pair.transpose.apply_null
  · exact exact.solvesTransposed r

end Linearization

theorem Jacobian.injective_of_identity {D : Operator ℝ k k} (keeps : ∀ v, D.apply v = v)
    (z : Vector ℝ (k + k)) (null : ((ofOperator (.identity k) D).apply z).get = 0) :
    z.get = 0 := by
  have straight (x : Vector ℝ k) : (Sparse.identity k).mulVec x = x := by
    apply Vec.get_injective
    rw [Sparse.get_mulVec, Sparse.matrix_identity, one_mulVec]
  have turned (y : Vector ℝ k) : (Sparse.identity k).transposeMulVec y = y := by
    apply Vec.get_injective
    rw [Sparse.get_transposeMulVec, Sparse.matrix_identity, transpose_one, one_mulVec]
  have lower : Vec.left z + Vec.right z - Vec.right z = Vec.left z := by
    apply Vec.get_injective
    rw [Vec.get_sub, Vec.get_add, add_sub_cancel_right]
  simp only [ofOperator, straight, turned, keeps, lower] at null
  have square : (Vec.right z ++ Vec.left z).get ⬝ᵥ (Vec.right z ++ Vec.left z).get =
      z.get ⬝ᵥ z.get := by
    rw [Vec.dot_append, Vec.left_append, Vec.right_append, Vec.dot_parts z, add_comm]
  rw [null, dotProduct_zero] at square
  exact dotProduct_self_eq_zero.1 square.symm

namespace Program

noncomputable def equations : Program ℝ where
  A := .identity 2
  b := #v[3, 5]
  c := #v[1, -1]
  blocks := [⟨.cone .zero, 2, 0, 2⟩]
  tiling := rfl

noncomputable def equationsPoint : Point ℝ equations.rows equations.cols :=
  ⟨equations.b, -equations.c, Vector.replicate 2 0⟩

theorem equations_solvable : ∃ system solver,
    equations.systemAt equationsPoint .operator = .ok system ∧
      SystemSolver.Exact solver system.jacobian.toOperator := by
  let D : Operator ℝ 2 2 := .diagonal (.ofSparse (Cone.mask (Vector.replicate 2 true))) .empty
  have built : equations.systemAt equationsPoint .operator =
      .ok ⟨equationsPoint, .operator (Jacobian.ofOperator equations.A D), D⟩ := rfl
  have keeps (v : Vector ℝ 2) : D.apply v = v := by
    have kept (w : Vector ℝ 2) : (Cone.mask (Vector.replicate 2 true)).mulVec w = w :=
      Cone.mulVec_mask fun i => by simp
    apply Vec.ext_parts
    · exact (Vec.left_append ..).trans (kept _)
    · exact Vec.ext fun i => i.elim0
  exact ⟨_, _, built, SystemSolver.exact_direct (.default .lu) (jacobian_isAdjoint built)
    (Jacobian.injective_of_identity keeps)⟩

end Program

end ConicDerivative
