import ConicDerivative.Proofs.AdjointIdentity

/-!
The change of a solution satisfies the linearized conditions of optimality. Both systems of
equations hold to first order. Where the multipliers are the projection of `y - s`, complementary
parts stay orthogonal, and the duality gap of an optimal point stays closed.
-/

namespace ConicDerivative

open Scalar Matrix Outcomes

variable {m n : Nat}

theorem Operator.IsAdjoint.apply_slack {D : Operator ℝ m m} (pair : D.IsAdjoint)
    {y s : Vector ℝ m} (point : D.apply (y - s) = y) (fixed : D.apply y = y) :
    (D.apply s).get = 0 := by
  have image := pair.represents.apply
  have whole := image (y - s)
  have kept := image y
  rw [point, Vec.get_sub, mulVec_sub, ← kept, fixed] at whole
  rw [image]
  exact sub_eq_self.1 whole.symm

theorem Operator.IsSelfAdjoint.orthogonal {D : Operator ℝ m m} (own : D.IsSelfAdjoint)
    {y s : Vector ℝ m} (point : D.apply (y - s) = y) (fixed : D.apply y = y) (dv : Vector ℝ m) :
    y.get ⬝ᵥ (D.apply dv - dv).get = 0 ∧ s.get ⬝ᵥ (D.apply dv).get = 0 := by
  constructor
  · rw [Vec.get_sub, dotProduct_sub, dotProduct_comm, own.pair, own.same, fixed,
      dotProduct_comm, sub_self]
  · rw [dotProduct_comm, own.pair, own.same, own.pair.apply_slack point fixed, dotProduct_zero]

namespace Linearization

/-- The changes of an optimal point keep the duality gap closed. -/
theorem gap_of_orthogonal (A dA : Matrix (Fin m) (Fin n) ℝ) {x dx c dc : Fin n → ℝ}
    {y s dy ds b db : Fin m → ℝ} (primal : A *ᵥ x + s = b) (dual : Aᵀ *ᵥ y + c = 0)
    (primal' : A *ᵥ dx + dA *ᵥ x + ds = db) (dual' : Aᵀ *ᵥ dy + dAᵀ *ᵥ y + dc = 0)
    (first : y ⬝ᵥ ds = 0) (second : s ⬝ᵥ dy = 0) :
    c ⬝ᵥ dx + dc ⬝ᵥ x + b ⬝ᵥ dy + db ⬝ᵥ y = 0 := by
  have transposed (M : Matrix (Fin m) (Fin n) ℝ) (u : Fin m → ℝ) (w : Fin n → ℝ) :
      Mᵀ *ᵥ u ⬝ᵥ w = M *ᵥ w ⬝ᵥ u := by
    rw [mulVec_transpose, ← dotProduct_mulVec, dotProduct_comm]
  have costs := congrArg (· ⬝ᵥ dx) dual
  have costs' := congrArg (· ⬝ᵥ x) dual'
  simp only [add_dotProduct, zero_dotProduct, transposed] at costs costs'
  rw [← primal, ← primal']
  simp only [add_dotProduct]
  rw [dotProduct_comm ds y, first, second]
  linarith

section

variable [EigenSolver ℝ] {program : Program ℝ} {point : Point ℝ program.rows program.cols}
  {form : Form} {system : OptimalitySystem ℝ program.rows program.cols} {solver : SystemSolver ℝ}

theorem recover_equations (built : program.systemAt point form = .ok system)
    {change : Perturbation ℝ program.rows program.cols}
    {dz : Vector ℝ (program.cols + program.rows)}
    (solved : system.jacobian.toOperator.apply dz = system.rightSide change) :
    program.A.matrix *ᵥ (system.recover dz).dx.get + change.dA.toMat.matrix *ᵥ point.x.get +
        (system.recover dz).ds.get = change.db.get ∧
      program.A.matrixᵀ *ᵥ (system.recover dz).dy.get + change.dA.toMat.matrixᵀ *ᵥ point.y.get +
        change.dc.get = 0 := by
  obtain ⟨same, _, jacobian⟩ := Program.systemAt_ok built
  obtain ⟨apply, adjoint⟩ := change.dA.represents_toOperator
  rw [jacobian, OptimalitySystem.rightSide, same] at solved
  have upper := congrArg (fun z => (Vec.left z).get) solved
  have lower := congrArg (fun z => (Vec.right z).get) solved
  simp only [Jacobian.ofOperator, Vec.left_append, Vec.left_neg, Vec.right_append, Vec.right_neg,
    Vec.get_neg, Vec.get_add, Vec.get_sub, Sparse.get_mulVec, Sparse.get_transposeMulVec, apply,
    adjoint] at upper lower
  constructor
  · simp only [OptimalitySystem.recover, Vec.get_sub]
    linear_combination lower
  · simp only [OptimalitySystem.recover]
    linear_combination upper

/-- Where the multipliers are the projection, the derivative keeps them and drops the slacks. -/
theorem projection_point [LawfulEigenSolver] (built : program.systemAt point form = .ok system)
    (projected : ProductCone.project program.blocks (point.y - point.s) true = .ok point.y) :
    ∃ M : Matrix _ _ ℝ, (∀ v, (system.projection.apply v).get = M *ᵥ v.get) ∧
      M *ᵥ point.y.get = point.y.get ∧ M *ᵥ point.s.get = 0 := by
  obtain ⟨_, derived, _⟩ := Program.systemAt_ok built
  obtain ⟨sent, fixed⟩ := ProductCone.derivative_point program.tiling derived projected
  have pair := (Program.projection_isSelfAdjoint built).pair
  have image := pair.represents.apply
  refine ⟨_, image, ?_, ?_⟩
  · rw [← image, fixed]
  · rw [← image, pair.apply_slack sent fixed]

/--
The linearized optimality conditions. With a solver that is exact for the Jacobian every change of
the data has a change of the solution, which satisfies both equations; at a point whose multipliers
are the projection it is orthogonal to the complementary parts, and closes the gap.
-/
theorem forward_linearized_optimality [LawfulEigenSolver]
    (built : program.systemAt point form = .ok system)
    (exact : solver.Exact system.jacobian.toOperator)
    (change : Perturbation ℝ program.rows program.cols) :
    ∃ d, forward ⟨system, solver⟩ change = .ok d ∧
      program.A.matrix *ᵥ d.dx.get + change.dA.toMat.matrix *ᵥ point.x.get + d.ds.get =
        change.db.get ∧
      program.A.matrixᵀ *ᵥ d.dy.get + change.dA.toMat.matrixᵀ *ᵥ point.y.get + change.dc.get = 0 ∧
      (ProductCone.project program.blocks (point.y - point.s) true = .ok point.y →
        point.y.get ⬝ᵥ d.ds.get = 0 ∧ point.s.get ⬝ᵥ d.dy.get = 0 ∧
        (program.A.matrix *ᵥ point.x.get + point.s.get = program.b.get →
          program.A.matrixᵀ *ᵥ point.y.get + program.c.get = 0 →
          program.c.get ⬝ᵥ d.dx.get + change.dc.get ⬝ᵥ point.x.get +
            program.b.get ⬝ᵥ d.dy.get + change.db.get ⬝ᵥ point.y.get = 0)) := by
  obtain ⟨_, derived, _⟩ := Program.systemAt_ok built
  obtain ⟨dz, answered, solved⟩ :=
    solveUnlessNull_exact (Program.jacobian_isAdjoint built) exact (system.rightSide change)
  obtain ⟨primal', dual'⟩ := recover_equations built solved
  refine ⟨system.recover dz, bind_eq_ok.2 ⟨dz, answered, rfl⟩, primal', dual', ?_⟩
  intro projected
  have own := Program.projection_isSelfAdjoint built
  obtain ⟨sent, fixed⟩ := ProductCone.derivative_point program.tiling derived projected
  obtain ⟨first, second⟩ := own.orthogonal sent fixed (Vec.right dz)
  refine ⟨first, second, ?_⟩
  intro primal dual
  exact gap_of_orthogonal _ _ primal dual primal' dual' first second

end

theorem project_equationsPoint : ProductCone.project Program.equations.blocks
    (Program.equationsPoint.y - Program.equationsPoint.s) true = .ok Program.equationsPoint.y := by
  let v : Vector ℝ 2 := Program.equationsPoint.y - Program.equationsPoint.s
  have written : ProductCone.project Program.equations.blocks v true =
      .ok (Vec.overwrite (Vector.replicate 2 0) _ (Vec.slice v (.between 2 0 2))) := rfl
  have whole : Vec.overwrite (Vector.replicate 2 0) _ (Vec.slice v (.between 2 0 2)) = v := by
    apply Block.ext_slices Program.equations.tiling
    intro block listed
    rw [List.mem_singleton.1 listed]
    exact Vec.slice_overwrite ..
  have same : v = Program.equationsPoint.y := by
    apply Vec.get_injective
    exact (Vec.get_sub ..).trans (by rw [Program.equationsPoint, Vec.get_zeros, sub_zero])
  exact written.trans (congrArg Except.ok (whole.trans same))

theorem forward_optimality_of_equations : ∃ system solver,
    Program.equations.systemAt Program.equationsPoint .operator = .ok system ∧
      SystemSolver.Exact solver system.jacobian.toOperator ∧
      ∃ d, forward ⟨system, solver⟩ ⟨.sparse (.identity 2), #v[1, 0], #v[0, 2]⟩ = .ok d ∧
        Program.equationsPoint.y.get ⬝ᵥ d.ds.get = 0 ∧
        Program.equationsPoint.s.get ⬝ᵥ d.dy.get = 0 ∧
        Program.equations.c.get ⬝ᵥ d.dx.get + #v[0, 2].get ⬝ᵥ Program.equationsPoint.x.get +
          Program.equations.b.get ⬝ᵥ d.dy.get + #v[1, 0].get ⬝ᵥ Program.equationsPoint.y.get = 0 := by
  obtain ⟨system, solver, built, exact⟩ := Program.equations_solvable
  obtain ⟨d, answered, _, _, complementary⟩ :=
    forward_linearized_optimality built exact ⟨.sparse (.identity 2), #v[1, 0], #v[0, 2]⟩
  obtain ⟨first, second, gap⟩ := complementary project_equationsPoint
  have primal (x : Vector ℝ 2) : (Sparse.identity 2).matrix *ᵥ x.get +
      (Vector.replicate 2 (0 : ℝ)).get = x.get := by
    rw [Sparse.matrix_identity, one_mulVec, Vec.get_zeros, add_zero]
  have dual (c : Vector ℝ 2) : (Sparse.identity 2).matrixᵀ *ᵥ (-c).get + c.get = 0 := by
    rw [Sparse.matrix_identity, transpose_one, one_mulVec, Vec.get_neg, neg_add_cancel]
  exact ⟨system, solver, built, exact, d, answered, first, second, gap (primal _) (dual _)⟩

end Linearization

end ConicDerivative
