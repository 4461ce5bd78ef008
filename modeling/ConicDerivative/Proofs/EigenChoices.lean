import ConicDerivative.Proofs.PackedSizes
import ConicDerivative.Proofs.ConeMaps

/-!
Which orthonormal eigenvectors a solver finds does not matter. Repeated eigenvalues leave the basis of
their eigenspace open, and the order and the signs are open in any case; the projection onto the
semidefinite cone and its derivative are the same for every choice.
-/

namespace ConicDerivative

open Scalar Matrix Packed

variable {d : Nat} {eigen other : Eigen ℝ d}

namespace Eigen.Decomposes

variable {X : Mat ℝ d d}

/-- Eigenvectors of different eigenvalues are orthogonal, also across two decompositions. -/
theorem overlap_eq_zero (first : eigen.Decomposes X) (second : other.Decomposes X) {i j : Fin d}
    (apart : eigen.values i ≠ other.values j) :
    (eigen.vectors.matrixᵀ * other.vectors.matrix) i j = 0 := by
  obtain ⟨U, overlap⟩ : ∃ U, eigen.vectors.matrixᵀ * other.vectors.matrix = U := ⟨_, rfl⟩
  have intertwined : diagonal eigen.values.get * U = U * diagonal other.values.get := by
    calc
      _ = eigen.vectors.matrixᵀ * eigen.vectors.matrix * (diagonal eigen.values.get *
          eigen.vectors.matrixᵀ * other.vectors.matrix) := by
        rw [first.orthogonal, Matrix.one_mul, ← overlap, Matrix.mul_assoc]
      _ = eigen.vectors.matrixᵀ * X.matrix * other.vectors.matrix := by
        rw [first.matrix_eq]
        simp only [Matrix.mul_assoc]
      _ = eigen.vectors.matrixᵀ * other.vectors.matrix * diagonal other.values.get *
          (other.vectors.matrixᵀ * other.vectors.matrix) := by
        rw [second.matrix_eq]
        simp only [Matrix.mul_assoc]
      _ = _ := by rw [second.orthogonal, Matrix.mul_one, overlap]
  have cell : eigen.values i * U i j = U i j * other.values j := by
    have entry := congrFun (congrFun intertwined i) j
    rwa [diagonal_mul, mul_diagonal] at entry
  rw [overlap]
  have product : (eigen.values i - other.values j) * U i j = 0 := by linarith
  exact (mul_eq_zero.1 product).resolve_left (sub_ne_zero.2 apart)

end Eigen.Decomposes

namespace Semidefinite

variable {x : Vector ℝ (triangle d)}

theorem values_ne_zero (decomposes : eigen.Decomposes (unpack d x))
    (regular : IsUnit (unpack d x).matrix) (i : Fin d) : eigen.values i ≠ 0 := by
  have det := ((isUnit_iff_isUnit_det _).1 regular).ne_zero
  rw [decomposes.matrix_eq, det_mul, det_mul, det_diagonal] at det
  have product := right_ne_zero_of_mul (left_ne_zero_of_mul det)
  exact Finset.prod_ne_zero_iff.1 product i (Finset.mem_univ i)

/-- Weights that agree wherever the change of basis is nonzero are carried along by it. -/
theorem weighted_turned {U K S : Matrix (Fin d) (Fin d) ℝ} {w : Fin d → Fin d → ℝ} {a : ℝ}
    (weighted : ∀ k l, S k l = w k l * K k l) (i j : Fin d)
    (agree : ∀ k l, U k i ≠ 0 → U l j ≠ 0 → w k l = a) :
    (Uᵀ * S * U) i j = a * (Uᵀ * K * U) i j := by
  simp only [Matrix.mul_apply, transpose_apply, Finset.sum_mul, Finset.mul_sum]
  apply Finset.sum_congr rfl
  intro l _
  apply Finset.sum_congr rfl
  intro k _
  by_cases row : U k i = 0
  · rw [row]
    ring
  · by_cases column : U l j = 0
    · rw [column]
      ring
    · rw [weighted, agree k l row column]
      ring

theorem scaled_turned (first : eigen.Decomposes (unpack d x)) (second : other.Decomposes (unpack d x))
    (Y : Matrix (Fin d) (Fin d) ℝ) :
    (eigen.vectors.matrixᵀ * other.vectors.matrix)ᵀ * scaled eigen Y *
      (eigen.vectors.matrixᵀ * other.vectors.matrix) = scaled other Y := by
  have turned : (eigen.vectors.matrixᵀ * other.vectors.matrix)ᵀ *
      (eigen.vectors.matrixᵀ * Y * eigen.vectors.matrix) *
      (eigen.vectors.matrixᵀ * other.vectors.matrix) =
      other.vectors.matrixᵀ * Y * other.vectors.matrix := by
    rw [transpose_mul, transpose_transpose]
    calc
      _ = other.vectors.matrixᵀ * (eigen.vectors.matrix * eigen.vectors.matrixᵀ) * Y *
          (eigen.vectors.matrix * eigen.vectors.matrixᵀ) * other.vectors.matrix := by
        simp only [Matrix.mul_assoc]
      _ = _ := by rw [first.orthogonal', Matrix.mul_one, Matrix.mul_one]
  have same {k i : Fin d} (nonzero : (eigen.vectors.matrixᵀ * other.vectors.matrix) k i ≠ 0) :
      eigen.values k = other.values i := by
    by_contra apart
    exact nonzero (first.overlap_eq_zero second apart)
  funext i j
  rw [scaled, ← turned]
  apply weighted_turned fun k l => rfl
  intro k l row column
  rw [same row, same column]

theorem derivative_unique (first : eigen.Decomposes (unpack d x))
    (second : other.Decomposes (unpack d x)) : derivative eigen = derivative other := by
  funext dx
  rw [← pack_unpack (derivative eigen dx), ← pack_unpack (derivative other dx)]
  refine congrArg pack (Mat.matrix_injective ?_)
  rw [unpack_derivative, unpack_derivative, ← scaled_turned first second, transpose_mul,
    transpose_transpose]
  calc
    _ = other.vectors.matrix * other.vectors.matrixᵀ * eigen.vectors.matrix *
        scaled eigen (unpack d dx).matrix * eigen.vectors.matrixᵀ *
        (other.vectors.matrix * other.vectors.matrixᵀ) := by
      rw [second.orthogonal', Matrix.one_mul, Matrix.mul_one]
    _ = _ := by simp only [Matrix.mul_assoc]

theorem project_unique (first : eigen.Decomposes (unpack d x))
    (second : other.Decomposes (unpack d x)) : project eigen = project other := by
  -- The derivative sends the point to its projection, so that one choice does not matter either.
  rw [← derivative_point first, derivative_unique first second, derivative_point second]

section

variable [EigenSolver ℝ]

theorem decompose_of_solved (solved : EigenSolver.decompose (unpack d x) = some eigen) :
    decompose x =
      if packedSide (triangle d) = d then .ok ⟨eigen, rfl⟩ else .error (.invalid .value) := by
  have read (side : Nat) : (if size_eq : triangle d = triangle side then
      (EigenSolver.decompose (unpack side (x.cast size_eq))).elim (.error (.invalid .linearAlgebra))
        fun found => .ok ⟨found, size_eq⟩
      else .error (.invalid .value) : Outcome ℝ (Decomposed ℝ (triangle d))) =
      if side = d then .ok ⟨eigen, rfl⟩ else .error (.invalid .value) := by
    by_cases same : side = d
    · subst same
      have whole : x.cast rfl = x := rfl
      rw [dif_pos rfl, if_pos rfl, whole, solved]
      rfl
    · rw [if_neg same, dif_neg fun size_eq => same (triangle_injective size_eq).symm]
  rw [← read, decompose]
  split_ifs
  · cases EigenSolver.decompose (unpack (packedSide (triangle d)) (x.cast _)) with
    | some found => rfl
    | none => rfl
  · rfl

theorem project_of_solved (solved : EigenSolver.decompose (unpack d x) = some eigen) :
    Cone.semidefinite.project x =
      if packedSide (triangle d) = d then .ok (project eigen) else .error (.invalid .value) := by
  have reading : Cone.semidefinite.project x =
      decompose x >>= fun found => .ok ((project found.eigen).cast found.size_eq.symm) := rfl
  rw [reading, decompose_of_solved solved]
  split_ifs
  · rfl
  · rfl

theorem derivative_of_solved (solved : EigenSolver.decompose (unpack d x) = some eigen) :
    Cone.semidefinite.derivative x = if packedSide (triangle d) = d
      then .ok ⟨derivative eigen, derivative eigen⟩ else .error (.invalid .value) := by
  have reading : Cone.semidefinite.derivative x = decompose x >>= fun found =>
      .ok ⟨fun dx => (derivative found.eigen (dx.cast found.size_eq)).cast found.size_eq.symm,
        fun dx => (derivative found.eigen (dx.cast found.size_eq)).cast found.size_eq.symm⟩ := rfl
  rw [reading, decompose_of_solved solved]
  split_ifs
  · rfl
  · rfl

end

/--
Any two orthogonal decompositions of the matrix of a vector give the same projection and the same
derivative, and so do any two solvers that find them.
-/
theorem maps_unique (first : eigen.Decomposes (unpack d x)) (second : other.Decomposes (unpack d x)) :
    project eigen = project other ∧ derivative eigen = derivative other ∧
    ∀ solver solver' : EigenSolver ℝ, solver.decompose (unpack d x) = some eigen →
      solver'.decompose (unpack d x) = some other →
        @Cone.project ℝ _ solver _ .semidefinite x = @Cone.project ℝ _ solver' _ .semidefinite x ∧
        @Cone.derivative ℝ _ solver _ .semidefinite x =
          @Cone.derivative ℝ _ solver' _ .semidefinite x := by
  have projections := project_unique first second
  have derivatives := derivative_unique first second
  refine ⟨projections, derivatives, ?_⟩
  intro solver solver' solved solved'
  rw [@project_of_solved _ _ _ solver solved, @project_of_solved _ _ _ solver' solved', projections,
    @derivative_of_solved _ _ _ solver solved, @derivative_of_solved _ _ _ solver' solved', derivatives]
  exact ⟨rfl, rfl⟩

@[reducible]
def solverOf (eigen : Eigen ℝ d) : EigenSolver ℝ where
  decompose {n} _ := if same : d = n then some (same ▸ eigen) else none

theorem solverOf_decompose (eigen : Eigen ℝ d) (X : Mat ℝ d d) :
    (solverOf eigen).decompose X = some eigen := dif_pos rfl

noncomputable def straight : Eigen ℝ 2 := ⟨.replicate 2 1, .identity 2⟩

noncomputable def quarterTurn : Eigen ℝ 2 :=
  ⟨.replicate 2 1, .ofFn fun i j => if i = j then 0 else if i < j then -1 else 1⟩

theorem straight_decomposes : straight.Decomposes (unpack 2 (pack (.identity 2))) := by
  rw [unpack_pack (by rw [Mat.matrix_identity]; exact isSymm_one)]
  constructor
  · rw [straight, Mat.matrix_identity, transpose_one, Matrix.one_mul]
  · apply Mat.matrix_injective
    rw [Eigen.matrix_compose, straight, Mat.matrix_identity, Vec.get_replicate, transpose_one,
      Matrix.one_mul, Matrix.mul_one]
    exact diagonal_one

theorem quarterTurn_decomposes : quarterTurn.Decomposes (unpack 2 (pack (.identity 2))) := by
  have orthogonal : quarterTurn.vectors.matrixᵀ * quarterTurn.vectors.matrix = 1 := by
    have cell (i j : Fin 2) : quarterTurn.vectors.matrix i j =
        if i = j then 0 else if i < j then -1 else 1 := Mat.ofFn_apply ..
    ext i j
    rw [Matrix.mul_apply, Fin.sum_univ_two, transpose_apply, transpose_apply, cell, cell, cell, cell]
    fin_cases i <;> fin_cases j <;> simp
  rw [unpack_pack (by rw [Mat.matrix_identity]; exact isSymm_one)]
  refine ⟨orthogonal, ?_⟩
  apply Mat.matrix_injective
  have values : diagonal quarterTurn.values.get = 1 := by
    rw [quarterTurn, Vec.get_replicate]
    exact diagonal_one
  rw [Eigen.matrix_compose, values, Matrix.mul_one, mul_eq_one_comm.1 orthogonal,
    Mat.matrix_identity]

theorem maps_unique_of_quarterTurn : straight.vectors ≠ quarterTurn.vectors ∧
    project straight = project quarterTurn ∧ derivative straight = derivative quarterTurn ∧
    @Cone.project ℝ _ (solverOf straight) _ .semidefinite (pack (.identity 2)) =
      @Cone.project ℝ _ (solverOf quarterTurn) _ .semidefinite (pack (.identity 2)) := by
  obtain ⟨projections, derivatives, solvers⟩ := maps_unique straight_decomposes quarterTurn_decomposes
  refine ⟨?_, projections, derivatives, ?_⟩
  · intro same
    have cell := congrFun (congrFun (congrArg Mat.matrix same) 0) 0
    rw [straight, quarterTurn, Mat.matrix_identity, Mat.matrix_ofFn] at cell
    simp at cell
  · exact (solvers _ _ (solverOf_decompose ..) (solverOf_decompose ..)).1

end Semidefinite

end ConicDerivative
