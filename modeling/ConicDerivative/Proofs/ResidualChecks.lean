import ConicDerivative.SystemSolver
import ConicDerivative.Proofs.FirstSteps
import ConicDerivative.Proofs.JacobianForms

/-!
The check of iterative solvers. Whatever vector an iteration stops with, it is returned just if its
residual is at most the tolerance, times the length of the right-hand side where this is above one.
So the residual is relative for a long right-hand side, and for a short one it is not: an iteration
that has gone only one step then answers with a residual of half the length.
-/

namespace ConicDerivative

open Scalar Matrix Outcomes

variable {n : Nat}

namespace Factor

section

variable {α : Type} [Scalar α] {options : SolverOptions α} {A : Operator α n n} {r : Vector α n}

def checked (options : SolverOptions α) (A : Operator α n n) (r z : Vector α n) :
    Outcome α (Vector α n) := do
  let residual := Vec.norm (A.apply z - r)
  let norm := Vec.norm r
  let tolerance ← options.residualTol.number
  if tolerance * (if 1 < norm then norm else 1) < residual then
    throw (.singular (.largeResidual options.method residual))
  return z

theorem iterate_eq : iterate options A r = (approximate options A r >>= checked options A r) := rfl

end

variable {options : SolverOptions ℝ} {A : Operator ℝ n n} {r z : Vector ℝ n} {tol : ℝ}

theorem checked_eq (read : options.residualTol.number = .ok tol) : checked options A r z =
    if Vec.norm (A.apply z - r) ≤ tol * max 1 (Vec.norm r) then .ok z
    else .error (.singular (.largeResidual options.method (Vec.norm (A.apply z - r)))) := by
  have most : (if 1 < Vec.norm r then Vec.norm r else 1) = max 1 (Vec.norm r) := by
    split_ifs with long
    · exact (max_eq_right long.le).symm
    · exact (max_eq_left (not_lt.1 long)).symm
  by_cases small : Vec.norm (A.apply z - r) ≤ tol * max 1 (Vec.norm r)
  · simp only [checked, read, bind, Except.bind, most, if_pos small, if_neg (not_lt.2 small)]
    rfl
  · simp only [checked, read, bind, Except.bind, most, if_neg small, if_pos (not_le.1 small)]
    rfl

theorem iterate_eq_ok (read : options.residualTol.number = .ok tol) : iterate options A r = .ok z ↔
    approximate options A r = .ok z ∧ Vec.norm (A.apply z - r) ≤ tol * max 1 (Vec.norm r) := by
  rw [iterate_eq, bind_eq_ok]
  constructor
  · rintro ⟨w, stopped, passed⟩
    rw [checked_eq read] at passed
    split_ifs at passed with small
    cases passed
    exact ⟨stopped, small⟩
  · rintro ⟨stopped, small⟩
    exact ⟨z, stopped, (checked_eq read).trans (if_pos small)⟩

theorem approximate_lsqr {limit : Nat} {tolerances : LeastSquares.Tolerances ℝ}
    (lsqr : options.method = .lsqr) (limited : options.limit n = .ok (limit + 1))
    (tolerated : options.tolerances = .ok tolerances) :
    approximate options A r = .ok (LeastSquares.Lsqr.solve A tolerances (limit + 1) r) := by
  by_cases solved : LeastSquares.isSolvedByZero A r = true
  · rw [approximate, LeastSquares.Lsqr.solve, if_pos solved, if_pos solved]
    rfl
  · rw [approximate, if_neg solved, limited, tolerated, lsqr]
    rfl

theorem iterate_of_eigenvector {M : Matrix (Fin n) (Fin n) ℝ} {l : ℝ} {limit : Nat}
    {tolerances : LeastSquares.Tolerances ℝ} (lsqr : options.method = .lsqr)
    (limited : options.limit n = .ok (limit + 1)) (tolerated : options.tolerances = .ok tolerances)
    (read : options.residualTol.number = .ok tol) (nonneg : 0 ≤ tol) (same : A.Represents M)
    (nonzero : l ≠ 0) (image : (A.apply (A.adjoint r)).get = l • r.get) :
    ∃ z, iterate options A r = .ok z := by
  have exact {z : Vector ℝ n} (stopped : approximate options A r = .ok z)
      (solves : (A.apply z).get = r.get) : iterate options A r = .ok z := by
    refine (iterate_eq_ok read).2 ⟨stopped, ?_⟩
    have null : Vec.norm (A.apply z - r) = 0 := by
      rw [Vec.norm_eq_zero_iff, Vec.get_sub, solves, sub_self]
    rw [null]
    exact mul_nonneg nonneg (zero_le_one.trans (le_max_left _ _))
  by_cases direction : (A.adjoint r).get = 0
  · have solved : LeastSquares.isSolvedByZero A r = true :=
      (LeastSquares.isSolvedByZero_iff same).2 direction
    have null : r.get = 0 := by
      rw [same.apply, direction, mulVec_zero, eq_comm, smul_eq_zero] at image
      exact image.resolve_left nonzero
    refine ⟨Vector.replicate n 0, exact ?_ ?_⟩
    · rw [approximate_lsqr lsqr limited tolerated, LeastSquares.Lsqr.solve, if_pos solved]
    · rw [same.apply, Vec.get_zeros, mulVec_zero, null]
  · refine ⟨Vec.scale (1 / l) (A.adjoint r), exact ?_ ?_⟩
    · rw [approximate_lsqr lsqr limited tolerated,
        LeastSquares.Lsqr.solve_of_eigenvector same nonzero direction image]
    · rw [same.apply, Vec.get_scale, mulVec_smul, ← same.apply, image, smul_smul,
        one_div_mul_cancel nonzero, one_smul]

end Factor

namespace SystemSolver

section

variable {α : Type} [Scalar α] {solver ready : SystemSolver α} {J : Jacobian α n n}

theorem factorization_iterative {options : SolverOptions α}
    (iterative : options.method.isIterative = true) (J : Jacobian α n n) :
    factorization options ⟨J⟩ = .ok ⟨.iterative J.toOperator⟩ := by
  rw [factorization_square]
  cases method : options.method with
  | lu | dense =>
    rw [method] at iterative
    cases iterative
  | lsqr | lsmr => simp only [Factor.ofMatrix, method]; rfl

theorem factorize_of_iterate (iterative : solver.options.method.isIterative = true)
    {z : Vector α n}
    (solved : Factor.iterate solver.options J.toOperator (Draws.normal n) = .ok z) :
    solver.factorize ⟨J⟩ = (.ok (), ⟨solver.options, some ⟨.iterative J.toOperator⟩⟩) := by
  simp only [factorize, factorization_iterative iterative, Factor.checkRank, solved]
  rfl

theorem factored_of_accepted (iterative : solver.options.method.isIterative = true)
    (accepted : solver.factorize ⟨J⟩ = (.ok (), ready)) :
    ready = ⟨solver.options, some ⟨.iterative J.toOperator⟩⟩ := by
  cases solved : Factor.iterate solver.options J.toOperator (Draws.normal n) with
  | ok z =>
    rw [factorize_of_iterate iterative solved] at accepted
    exact (congrArg Prod.snd accepted).symm
  | error cause =>
    simp only [factorize, factorization_iterative iterative, Factor.checkRank, solved, bind,
      Except.bind] at accepted
    split at accepted <;> cases accepted

def side (J : Jacobian α n n) (transposed : Bool) : Operator α n n :=
  if transposed then J.toOperator.transpose else J.toOperator

theorem solve_iterative (options : SolverOptions α) (J : Jacobian α n n) (transposed : Bool)
    (r : Vector α n) :
    (SystemSolver.mk options (some ⟨.iterative J.toOperator⟩)).solve transposed (.ofVector r) =
      (Factor.iterate options (side J transposed) r).map fun z => ⟨z⟩ := by
  simp only [solve, Tensor.toVector?_ofVector]
  rfl

end

variable {solver ready : SystemSolver ℝ} {J : Jacobian ℝ n n} {tol : ℝ}

/-- Every answer for `r` has a residual of at most `tol` times the length of `r`. -/
def MeetsTolerance (solver : SystemSolver ℝ) (tol : ℝ) (A : Operator ℝ n n) (transposed : Bool)
    (r : Vector ℝ n) : Prop :=
  ∀ z, solver.solve transposed (.ofVector r) = .ok ⟨z⟩ →
    Vec.norm (A.apply z - r) ≤ tol * Vec.norm r

theorem solve_iterative_eq_ok (read : solver.options.residualTol.number = .ok tol)
    {transposed : Bool} {r z : Vector ℝ n} :
    (SystemSolver.mk solver.options (some ⟨.iterative J.toOperator⟩)).solve transposed
        (.ofVector r) = .ok ⟨z⟩ ↔
      Factor.approximate solver.options (side J transposed) r = .ok z ∧
        Vec.norm ((side J transposed).apply z - r) ≤ tol * max 1 (Vec.norm r) := by
  rw [solve_iterative, map_eq_ok, ← Factor.iterate_eq_ok read]
  constructor
  · rintro ⟨w, solved, same⟩
    cases same
    exact solved
  · exact fun solved => ⟨z, solved, rfl⟩

/--
A solve is an iteration and then a check, which any vector passes just if its residual is at most the
tolerance, times the length of the right-hand side if that is above one. So the answers meet the
tolerance relative to the right-hand side if it is not shorter than one, and otherwise just if the
iteration stops with no residual between the two bounds.
-/
theorem solve_meetsTolerance_iff (iterative : solver.options.method.isIterative = true)
    (accepted : solver.factorize ⟨J⟩ = (.ok (), ready))
    (read : solver.options.residualTol.number = .ok tol) (nonneg : 0 ≤ tol) (transposed : Bool)
    (r : Vector ℝ n) :
    ready.solve transposed (.ofVector r) =
      (Factor.approximate solver.options (side J transposed) r >>=
        Factor.checked solver.options (side J transposed) r).map (fun z => ⟨z⟩) ∧
    (∀ z, Factor.checked solver.options (side J transposed) r z =
      if Vec.norm ((side J transposed).apply z - r) ≤ tol * max 1 (Vec.norm r) then .ok z
      else .error (.singular (.largeResidual solver.options.method
        (Vec.norm ((side J transposed).apply z - r))))) ∧
    (1 ≤ Vec.norm r → ready.MeetsTolerance tol (side J transposed) transposed r) ∧
    (ready.MeetsTolerance tol (side J transposed) transposed r ↔
      ∀ z, Factor.approximate solver.options (side J transposed) r = .ok z →
        Vec.norm ((side J transposed).apply z - r) ≤ tol →
        Vec.norm ((side J transposed).apply z - r) ≤ tol * Vec.norm r) := by
  rw [factored_of_accepted iterative accepted]
  have long (above : 1 ≤ Vec.norm r) : MeetsTolerance
      ⟨solver.options, some ⟨.iterative J.toOperator⟩⟩ tol (side J transposed) transposed r := by
    intro z solved
    have small := ((solve_iterative_eq_ok read).1 solved).2
    rwa [max_eq_right above] at small
  refine ⟨solve_iterative .., fun z => Factor.checked_eq read, long, ?_, ?_⟩
  · intro meets z stopped small
    refine meets z ((solve_iterative_eq_ok read).2 ⟨stopped, small.trans ?_⟩)
    exact le_mul_of_one_le_right nonneg (le_max_left _ _)
  · intro between
    rcases le_total 1 (Vec.norm r) with above | below
    · exact long above
    · intro z solved
      obtain ⟨stopped, small⟩ := (solve_iterative_eq_ok read).1 solved
      rw [max_eq_left below, mul_one] at small
      exact between z stopped small

end SystemSolver

def Mat.stretch {α : Type} [Scalar α] (u : Vector α n) : Mat α n n :=
  (Mat.identity n).add (Mat.outer u u)

namespace Mat

variable {u h : Vector ℝ n}

theorem transpose_stretch (u : Vector ℝ n) : (stretch u).matrixᵀ = (stretch u).matrix := by
  rw [stretch, matrix_add, matrix_identity, matrix_outer, transpose_add, transpose_one,
    transpose_vecMulVec]

theorem stretch_mulVec (unit : u.get ⬝ᵥ u.get = 1) (orthogonal : u.get ⬝ᵥ h.get = 0) (a b : ℝ) :
    (stretch u).matrix *ᵥ (a • u.get + b • h.get) = (a + a) • u.get + b • h.get := by
  rw [stretch, matrix_add, matrix_identity, matrix_outer, add_mulVec, one_mulVec, vecMulVec_mulVec,
    dotProduct_add, dotProduct_smul, dotProduct_smul, unit, orthogonal, smul_zero, add_zero,
    smul_eq_mul, mul_one, add_smul, op_smul_eq_smul, add_right_comm]

theorem norm_mul_self_pair (unit : u.get ⬝ᵥ u.get = 1) (unit' : h.get ⬝ᵥ h.get = 1)
    (orthogonal : u.get ⬝ᵥ h.get = 0) {x : Vector ℝ n} {a b : ℝ}
    (parts : x.get = a • u.get + b • h.get) : Vec.norm x * Vec.norm x = a * a + b * b := by
  rw [Vec.norm_mul_self, parts]
  simp only [add_dotProduct, dotProduct_add, smul_dotProduct, dotProduct_smul, smul_eq_mul,
    dotProduct_comm h.get u.get, unit, unit', orthogonal]
  ring

/-- One step leaves more than half of a right-hand side that has both singular values in it. -/
theorem residual_of_one_step (unit : u.get ⬝ᵥ u.get = 1) (unit' : h.get ⬝ᵥ h.get = 1)
    (orthogonal : u.get ⬝ᵥ h.get = 0) {s : ℝ} (nonzero : s ≠ 0)
    (tol : LeastSquares.Tolerances ℝ) {r : Vector ℝ n} (parts : r.get = s • u.get + s • h.get) :
    let z := LeastSquares.Lsqr.solve (.ofMat (stretch u)) tol 1 r
    Vec.norm ((stretch u).mulVec z - r) * Vec.norm ((stretch u).mulVec z - r) =
      9 / 17 * (s * s) := by
  intro z
  have same := Operator.represents_ofMat (stretch u)
  let A : Operator ℝ n n := .ofMat (stretch u)
  have adjoint : (A.adjoint r).get = (s + s) • u.get + s • h.get := by
    rw [same.adjoint, transpose_stretch, parts, stretch_mulVec unit orthogonal]
  have apply : (A.apply (A.adjoint r)).get = (s + s + (s + s)) • u.get + s • h.get := by
    rw [same.apply, adjoint, stretch_mulVec unit orthogonal]
  have norm := norm_mul_self_pair unit unit' orthogonal adjoint
  have norm' := norm_mul_self_pair unit unit' orthogonal apply
  have direction : (A.adjoint r).get ≠ 0 := by
    intro null
    rw [Vec.norm_eq_zero_iff.2 null] at norm
    nlinarith [mul_self_pos.2 nonzero]
  have stepped : z = Vec.scale (5 / 17) (A.adjoint r) := by
    have first := (LeastSquares.Lsqr.solve_one same direction tol).trans
      (LeastSquares.Lsqr.step_start same direction)
    rw [norm, norm'] at first
    refine first.trans (congrArg (Vec.scale · _) ?_)
    field_simp
    ring
  have left : ((stretch u).mulVec z - r).get = (3 / 17 * s) • u.get + (-(12 / 17 * s)) • h.get := by
    have image : ((stretch u).mulVec z).get = (5 / 17 : ℝ) • (A.apply (A.adjoint r)).get := by
      rw [get_mulVec, stepped, Vec.get_scale, mulVec_smul, same.apply]
    rw [Vec.get_sub, image, apply, parts]
    module
  rw [norm_mul_self_pair unit unit' orthogonal left]
  ring

theorem stretch_mulVec_self (unit : u.get ⬝ᵥ u.get = 1) (t : ℝ) :
    (stretch u).matrix *ᵥ (t • u.get) = (t + t) • u.get := by
  have orthogonal : u.get ⬝ᵥ (Vector.replicate n (0 : ℝ)).get = 0 := by
    rw [Vec.get_zeros, dotProduct_zero]
  have image := stretch_mulVec unit orthogonal t 0
  rwa [zero_smul, add_zero, add_zero] at image

theorem isUnit_stretch (unit : u.get ⬝ᵥ u.get = 1) : IsUnit (stretch u).matrix := by
  have square : vecMulVec u.get u.get * vecMulVec u.get u.get = vecMulVec u.get u.get := by
    rw [vecMulVec_mul_vecMulVec, unit, one_smul]
  refine IsUnit.of_mul_eq_one (1 - (1 / 2 : ℝ) • vecMulVec u.get u.get) ?_
  rw [stretch, matrix_add, matrix_identity, matrix_outer, mul_sub, mul_one, add_mul, one_mul,
    mul_smul_comm, square]
  module

theorem stretch_image (unit : u.get ⬝ᵥ u.get = 1) {r : Vector ℝ n} {t : ℝ}
    (along : r.get = t • u.get) : ((Operator.ofMat (stretch u)).apply
      ((Operator.ofMat (stretch u)).adjoint r)).get = (4 : ℝ) • r.get := by
  have same := Operator.represents_ofMat (stretch u)
  rw [same.apply, same.adjoint, transpose_stretch, along, stretch_mulVec_self unit,
    stretch_mulVec_self unit]
  module

end Mat

namespace Plane

def direction {α : Type} [Scalar α] (g : Vector α 2) : Vector α 2 :=
  if Vec.isNull g then Vec.cons 1 (Vec.cons 0 Vec.empty) else Vec.scale (1 / Vec.norm g) g

def turned {α : Type} [Scalar α] (u : Vector α 2) : Vector α 2 :=
  Vec.cons (-Vec.head (Vec.tail u)) (Vec.cons (Vec.head u) Vec.empty)

theorem dot_cons (a b c d : ℝ) : (Vec.cons a (Vec.cons b Vec.empty)).get ⬝ᵥ
    (Vec.cons c (Vec.cons d Vec.empty)).get = a * c + b * d := by
  rw [dotProduct, Fin.sum_univ_two]
  rfl

theorem exists_entries (u : Vector ℝ 2) : ∃ a b, u = Vec.cons a (Vec.cons b Vec.empty) ∧
    turned u = Vec.cons (-b) (Vec.cons a Vec.empty) := by
  refine ⟨Vec.head u, Vec.head (Vec.tail u), ?_, rfl⟩
  have last : Vec.tail (Vec.tail u) = Vec.empty := Vec.ext fun i => i.elim0
  rw [← last, Vec.cons_tail, Vec.cons_tail]

theorem direction_unit (g : Vector ℝ 2) : (direction g).get ⬝ᵥ (direction g).get = 1 := by
  unfold direction
  split_ifs with null
  · rw [dot_cons]
    ring
  · have nonzero : Vec.norm g ≠ 0 := mt (Vec.isNull_iff.2 <| Vec.norm_eq_zero_iff.1 ·) null
    rw [Vec.get_scale, smul_dotProduct, dotProduct_smul, ← Vec.norm_mul_self, smul_eq_mul,
      smul_eq_mul]
    field_simp

theorem direction_along (g : Vector ℝ 2) : ∃ t : ℝ, g.get = t • (direction g).get := by
  unfold direction
  split_ifs with null
  · exact ⟨0, (Vec.isNull_iff.1 null).trans (zero_smul ..).symm⟩
  · have nonzero : Vec.norm g ≠ 0 := mt (Vec.isNull_iff.2 <| Vec.norm_eq_zero_iff.1 ·) null
    refine ⟨Vec.norm g, ?_⟩
    rw [Vec.get_scale, smul_smul, mul_one_div_cancel nonzero, one_smul]

theorem turned_orthogonal (u : Vector ℝ 2) : u.get ⬝ᵥ (turned u).get = 0 := by
  obtain ⟨a, b, entries, turn⟩ := exists_entries u
  rw [turn, entries, dot_cons]
  ring

theorem turned_unit (u : Vector ℝ 2) : (turned u).get ⬝ᵥ (turned u).get = u.get ⬝ᵥ u.get := by
  obtain ⟨a, b, entries, turn⟩ := exists_entries u
  rw [turn, entries, dot_cons, dot_cons]
  ring

end Plane

namespace SystemSolver

noncomputable def coarse : SolverOptions ℝ :=
  { SolverOptions.default .lsqr with iterationLimit := .integer 1 }

/-- A matrix for which one step is enough to solve for the fixed vector. -/
noncomputable def stretched : Mat ℝ 2 2 := .stretch (Plane.direction (Draws.normal 2))

theorem coarse_residualTol : coarse.residualTol.number = .ok 1e-6 := rfl

theorem coarse_nonneg : (0 : ℝ) ≤ 1e-6 := by norm_num

theorem coarse_solves {r u : Vector ℝ n} (unit : u.get ⬝ᵥ u.get = 1)
    (along : ∃ t : ℝ, r.get = t • u.get) :
    ∃ z, Factor.iterate coarse (.ofMat (.stretch u)) r = .ok z := by
  obtain ⟨t, along⟩ := along
  have limited : coarse.limit n = .ok (0 + 1) := rfl
  have tolerated : coarse.tolerances = .ok ⟨1e-12, 1e-12⟩ := rfl
  exact Factor.iterate_of_eigenvector rfl limited tolerated coarse_residualTol coarse_nonneg
    (Operator.represents_ofMat _) four_ne_zero (Mat.stretch_image unit along)

theorem coarse_accepts : (new coarse).factorize ⟨.assembled (.dense stretched)⟩ =
    (.ok (), ⟨coarse, some ⟨.iterative (.ofMat stretched)⟩⟩) := by
  obtain ⟨z, solved⟩ := coarse_solves (Plane.direction_unit (Draws.normal 2))
    (Plane.direction_along (Draws.normal 2))
  exact factorize_of_iterate rfl solved

theorem meetsTolerance_of_direction : coarse.method.isIterative = true ∧
    (new coarse).factorize ⟨.assembled (.dense stretched)⟩ =
      (.ok (), ⟨coarse, some ⟨.iterative (.ofMat stretched)⟩⟩) ∧
    coarse.residualTol.number = .ok 1e-6 ∧ (0 : ℝ) ≤ 1e-6 ∧
    ∃ r z : Vector ℝ 2, (SystemSolver.mk coarse (some ⟨.iterative (.ofMat stretched)⟩)).solve false
        (.ofVector r) = .ok ⟨z⟩ ∧
      Vec.norm r = 1 ∧ Vec.norm (stretched.mulVec z - r) ≤ 1e-6 * Vec.norm r := by
  let u : Vector ℝ 2 := Plane.direction (Draws.normal 2)
  have unit : u.get ⬝ᵥ u.get = 1 := Plane.direction_unit _
  have length : Vec.norm u = 1 := by rw [Vec.norm_eq_sqrt, unit, Real.sqrt_one]
  obtain ⟨z, solved⟩ := coarse_solves unit ⟨1, (one_smul ..).symm⟩
  have answer : (SystemSolver.mk coarse (some ⟨.iterative (.ofMat stretched)⟩)).solve false
      (.ofVector u) = .ok ⟨z⟩ := by
    refine (solve_iterative coarse (.assembled (.dense stretched)) false u).trans ?_
    exact map_eq_ok.2 ⟨z, solved, rfl⟩
  have meets := (solve_meetsTolerance_iff rfl coarse_accepts coarse_residualTol coarse_nonneg false
    u).2.2.1 length.ge
  exact ⟨rfl, coarse_accepts, coarse_residualTol, coarse_nonneg, u, z, answer, length,
    meets z answer⟩

/-- An invertible matrix, and a short right-hand side of which the answer leaves more than half. -/
theorem not_meetsTolerance_of_short : IsUnit stretched.matrix ∧
    (new coarse).factorize ⟨.assembled (.dense stretched)⟩ =
      (.ok (), ⟨coarse, some ⟨.iterative (.ofMat stretched)⟩⟩) ∧
    coarse.residualTol.number = .ok 1e-6 ∧
    ∃ r z : Vector ℝ 2, (SystemSolver.mk coarse (some ⟨.iterative (.ofMat stretched)⟩)).solve false
        (.ofVector r) = .ok ⟨z⟩ ∧
      Vec.norm r / 2 < Vec.norm (stretched.mulVec z - r) ∧
      1e-6 * Vec.norm r < Vec.norm (stretched.mulVec z - r) := by
  let u : Vector ℝ 2 := Plane.direction (Draws.normal 2)
  let h := Plane.turned u
  have unit : u.get ⬝ᵥ u.get = 1 := Plane.direction_unit _
  have unit' : h.get ⬝ᵥ h.get = 1 := (Plane.turned_unit u).trans unit
  have orthogonal : u.get ⬝ᵥ h.get = 0 := Plane.turned_orthogonal u
  let r := Vec.scale 1e-6 u + Vec.scale 1e-6 h
  have parts : r.get = (1e-6 : ℝ) • u.get + (1e-6 : ℝ) • h.get := by
    simp only [r, Vec.get_add, Vec.get_scale]
  have length := Mat.norm_mul_self_pair unit unit' orthogonal parts
  let z := LeastSquares.Lsqr.solve (.ofMat stretched) ⟨1e-12, 1e-12⟩ 1 r
  have left : Vec.norm (stretched.mulVec z - r) * Vec.norm (stretched.mulVec z - r) =
      9 / 17 * (1e-6 * 1e-6) :=
    Mat.residual_of_one_step unit unit' orthogonal (by norm_num) ⟨1e-12, 1e-12⟩ parts
  have small : Vec.norm (stretched.mulVec z - r) ≤ 1e-6 := by
    rw [mul_self_le_mul_self_iff (Vec.norm_nonneg _) coarse_nonneg, left]
    norm_num
  have half : Vec.norm r / 2 < Vec.norm (stretched.mulVec z - r) := by
    have nonneg : 0 ≤ Vec.norm r / 2 := div_nonneg (Vec.norm_nonneg r) zero_le_two
    rw [mul_self_lt_mul_self_iff nonneg (Vec.norm_nonneg _), left, div_mul_div_comm, length]
    norm_num
  have stopped : Factor.approximate coarse (.ofMat stretched) r = .ok z :=
    Factor.approximate_lsqr rfl rfl rfl
  have answer : (SystemSolver.mk coarse (some ⟨.iterative (.ofMat stretched)⟩)).solve false
      (.ofVector r) = .ok ⟨z⟩ := by
    refine (solve_iterative coarse (.assembled (.dense stretched)) false r).trans ?_
    refine map_eq_ok.2 ⟨z, (Factor.iterate_eq_ok coarse_residualTol).2 ⟨stopped, ?_⟩, rfl⟩
    exact small.trans (le_mul_of_one_le_right coarse_nonneg (le_max_left _ _))
  refine ⟨Mat.isUnit_stretch unit, coarse_accepts, coarse_residualTol, r, z, answer, half, ?_⟩
  have above : 1e-6 * Vec.norm r ≤ Vec.norm r / 2 := by linarith [Vec.norm_nonneg r]
  exact above.trans_lt half

end SystemSolver

end ConicDerivative
