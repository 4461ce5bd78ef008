import ConicDerivative.Proofs.DirectSolvers

/-!
Elimination as a library of the direct methods. The system solver calls it as the sparse library,
which gives up on a zero pivot, or as the dense one, which never does. So what holds of any exact
library holds of the system solver, and all of them give the same answers.
-/

namespace ConicDerivative

open Scalar Matrix Outcomes

variable {Flag : Type} {n : Nat}

namespace Elimination

def library {α Flag : Type} [Scalar α] (transposes : Flag → Bool) (givesUp : Bool) :
    DirectLibrary α Flag where
  Kept := Elimination α
  factorize A := if givesUp && (eliminate A).pivots.any isZero then none else some (eliminate A)
  pivots := pivots
  solve steps flag r := Factor.solveSteps steps (transposes flag) r

def sparseLibrary {α : Type} [Scalar α] : DirectLibrary α String := library (· = "T") true

def denseLibrary {α : Type} [Scalar α] : DirectLibrary α Nat := library (· = 1) false

theorem library_isExact {transposes : Flag → Bool} (givesUp : Bool) {plain transposed : Flag}
    (straight : transposes plain = false) (turned : transposes transposed = true) :
    (library transposes givesUp : DirectLibrary ℝ Flag).IsExact plain transposed := by
  intro n A kept found
  have steps : kept = eliminate A := by
    simp only [library] at found
    split_ifs at found with zero
    exact (Option.some.inj found).symm
  subst steps
  refine ⟨_, factors_isExact A, pivots_eq_diagonal _, fun nonzero r => ?_⟩
  have regular : ∀ p ∈ (eliminate A).pivots, p ≠ 0 := by
    rw [pivots_eq_diagonal]
    intro p listed
    obtain ⟨i, rfl⟩ := List.mem_ofFn.1 listed
    exact nonzero i
  constructor
  · rw [(factors_isExact A).solves_iff, ← Mat.get_mulVec]
    simp only [library, straight, Factor.solveSteps]
    exact congrArg Vector.get (mulVec_solve A regular r)
  · rw [(factors_isExact A).solvesTransposed_iff, ← Mat.get_transposeMulVec]
    simp only [library, turned, Factor.solveSteps]
    exact congrArg Vector.get (transposeMulVec_solveTranspose A regular r)

theorem sparseLibrary_isExact : (sparseLibrary : DirectLibrary ℝ String).IsExact "N" "T" :=
  library_isExact true rfl rfl

theorem denseLibrary_isExact : (denseLibrary : DirectLibrary ℝ Nat).IsExact 0 1 :=
  library_isExact false rfl rfl

theorem denseLibrary_isTotal : (denseLibrary : DirectLibrary ℝ Nat).IsTotal :=
  fun _ found => nomatch found

end Elimination

def Attempt.ofSystem {α : Type} [Scalar α] (solver : SystemSolver α) (A : Sized (Jacobian α)) :
    Attempt α :=
  let done := solver.factorize A
  ⟨done.1, done.2.isReady, done.2.solve⟩

theorem AnyMat.storesFinite_real {m : Nat} (A : AnyMat ℝ m n) : A.storesFinite = true := by
  cases A with
  | dense A => exact A.allFinite_real
  | sparse A => exact List.all_eq_true.2 fun v _ => isFinite_real v
  | listed A => exact List.all_eq_true.2 fun v _ => isFinite_real v

namespace Factor

variable {options : SolverOptions ℝ} {A : AnyMat ℝ n n}

theorem map_factors {transposes : Flag → Bool} {givesUp : Bool} {refusal : Failure ℝ}
    {flag : Bool → Flag} {rcond : Setting ℝ}
    (found : (Elimination.library transposes givesUp).factorize A.toMat =
      some (Elimination.eliminate A.toMat)) :
    (DirectSolver.factors ⟨Elimination.library transposes givesUp, refusal, flag⟩ rcond A.toMat).map
      (direct A.toMat) = (do
        checkPivots rcond (Elimination.eliminate A.toMat).pivots
        return direct A.toMat (Elimination.eliminate A.toMat)) := by
  simp only [DirectSolver.factors, found]
  change Except.map _ (do
    checkPivots rcond (Elimination.eliminate A.toMat).pivots
    return Elimination.eliminate A.toMat) = _
  cases checkPivots rcond (Elimination.eliminate A.toMat).pivots with
  | error cause => rfl
  | ok _ => rfl

theorem ofMatrix_lu (method : options.method = .lu) : ofMatrix options (.assembled A) =
    (DirectSolver.factors (.lu Elimination.sparseLibrary) options.rcond A.toMat).map
      (direct A.toMat) := by
  cases zero : (Elimination.eliminate A.toMat).pivots.any isZero with
  | true =>
    have found : Elimination.sparseLibrary.factorize A.toMat = none := if_pos zero
    simp only [ofMatrix, method, A.storesFinite_real, zero, DirectSolver.factors, DirectMethod.lu,
      found]
    rfl
  | false =>
    have found : Elimination.sparseLibrary.factorize A.toMat =
        some (Elimination.eliminate A.toMat) := if_neg (ne_true_of_eq_false zero)
    refine Eq.trans ?_ (map_factors found).symm
    simp only [ofMatrix, method, A.storesFinite_real, zero]
    rfl

theorem ofMatrix_dense (method : options.method = .dense) : ofMatrix options (.assembled A) =
    (DirectSolver.factors (.dense Elimination.denseLibrary) options.rcond A.toMat).map
      (direct A.toMat) := by
  have found : Elimination.denseLibrary.factorize A.toMat =
      some (Elimination.eliminate A.toMat) := rfl
  refine Eq.trans ?_ (map_factors found).symm
  simp only [ofMatrix, method, A.toMat.allFinite_real]
  rfl

end Factor

namespace Attempt

theorem ofSystem_eq (solver : SystemSolver ℝ) {transposes : Flag → Bool} {givesUp : Bool}
    {refusal : Failure ℝ} {flag : Bool → Flag}
    (flags : ∀ transposed, transposes (flag transposed) = transposed) (A : AnyMat ℝ n n)
    (made : Factor.ofMatrix solver.options (.assembled A) =
      (DirectSolver.factors ⟨Elimination.library transposes givesUp, refusal, flag⟩
        solver.options.rcond A.toMat).map (Factor.direct A.toMat)) :
    ofSystem solver ⟨.assembled A⟩ = (DirectSolver.mk solver.options.rcond none :
      DirectSolver ⟨Elimination.library transposes givesUp, refusal, flag⟩).attempt ⟨A⟩ := by
  simp only [ofSystem, SystemSolver.factorize, SystemSolver.factorization_square, made,
    DirectSolver.attempt, DirectSolver.factorize, DirectSolver.factorization_square]
  cases DirectSolver.factors ⟨Elimination.library transposes givesUp, refusal, flag⟩
    solver.options.rcond A.toMat with
  | error cause => rfl
  | ok kept =>
    have answers : (SystemSolver.mk solver.options (some ⟨.direct A.toMat kept⟩)).solve =
        (DirectSolver.mk solver.options.rcond (some ⟨n, kept⟩) : DirectSolver
          ⟨Elimination.library transposes givesUp, refusal, flag⟩).solve := by
      funext transposed r
      simp only [SystemSolver.solve, DirectSolver.solve, Elimination.library, flags]
      cases r.toVector? n with
      | none => rfl
      | some r =>
        have solved := Factor.solve_direct solver.options A.toMat kept transposed r
        exact bind_eq_ok.2 ⟨_, solved, rfl⟩
    exact congrArg (Attempt.mk (.ok ()) true) answers

theorem ofSystem_lu (solver : SystemSolver ℝ) (method : solver.options.method = .lu)
    (A : AnyMat ℝ n n) : ofSystem solver ⟨.assembled A⟩ =
      (DirectSolver.mk solver.options.rcond none :
        DirectSolver (.lu Elimination.sparseLibrary)).attempt ⟨A⟩ :=
  ofSystem_eq solver (by rintro (_ | _) <;> rfl) A (Factor.ofMatrix_lu method)

theorem ofSystem_dense (solver : SystemSolver ℝ) (method : solver.options.method = .dense)
    (A : AnyMat ℝ n n) : ofSystem solver ⟨.assembled A⟩ =
      (DirectSolver.mk solver.options.rcond none :
        DirectSolver (.dense Elimination.denseLibrary)).attempt ⟨A⟩ :=
  ofSystem_eq solver (by rintro (_ | _) <;> rfl) A (Factor.ofMatrix_dense method)

end Attempt

/-- An attempt with a sparse or a dense library on the matrix, or with the system solver. -/
inductive IsDirect (sparse : DirectLibrary ℝ String) (dense : DirectLibrary ℝ Nat)
    (A : AnyMat ℝ n n) : Attempt ℝ → Prop where
  | lu (solver : DirectSolver (.lu sparse)) (nonneg : solver.rcond.IsNonneg) :
    IsDirect sparse dense A (solver.attempt ⟨A⟩)
  | dense (solver : DirectSolver (.dense dense)) (nonneg : solver.rcond.IsNonneg) :
    IsDirect sparse dense A (solver.attempt ⟨A⟩)
  | system (solver : SystemSolver ℝ) (direct : solver.options.method.isIterative = false)
    (nonneg : solver.options.rcond.IsNonneg) :
    IsDirect sparse dense A (.ofSystem solver ⟨.assembled A⟩)

theorem DirectLibrary.IsExact.lu {library : DirectLibrary ℝ String}
    (exact : library.IsExact "N" "T") (solver : DirectSolver (.lu library))
    (nonneg : solver.rcond.IsNonneg) (A : AnyMat ℝ n n) :
    (solver.attempt ⟨A⟩).IsExactFor A.toMat.matrix :=
  solver.attempt_isExactFor nonneg exact (fun _ => ⟨_, rfl⟩) A

theorem DirectLibrary.IsExact.dense {library : DirectLibrary ℝ Nat} (exact : library.IsExact 0 1)
    (total : library.IsTotal) (solver : DirectSolver (.dense library))
    (nonneg : solver.rcond.IsNonneg) (A : AnyMat ℝ n n) :
    (solver.attempt ⟨A⟩).IsExactFor A.toMat.matrix :=
  solver.attempt_isExactFor nonneg exact (fun none => absurd none (total _)) A

theorem Attempt.ofSystem_isExactFor (solver : SystemSolver ℝ)
    (direct : solver.options.method.isIterative = false) (nonneg : solver.options.rcond.IsNonneg)
    (A : AnyMat ℝ n n) : (ofSystem solver ⟨.assembled A⟩).IsExactFor A.toMat.matrix := by
  cases method : solver.options.method with
  | lu =>
    rw [ofSystem_lu solver method]
    exact Elimination.sparseLibrary_isExact.lu _ nonneg A
  | dense =>
    rw [ofSystem_dense solver method]
    exact Elimination.denseLibrary_isExact.dense Elimination.denseLibrary_isTotal _ nonneg A
  | lsqr | lsmr =>
    rw [method] at direct
    cases direct

/--
Whichever exact libraries factorize, an attempt that returns has found an invertible matrix and
answers every right-hand side with the only solution, a singular matrix is refused, and any two
attempts that return give the same answers.
-/
theorem Attempt.isExactFor_of_isDirect {sparse : DirectLibrary ℝ String}
    {dense : DirectLibrary ℝ Nat} (sparseExact : sparse.IsExact "N" "T")
    (denseExact : dense.IsExact 0 1) (total : dense.IsTotal) (A : AnyMat ℝ n n) :
    (∀ attempt, IsDirect sparse dense A attempt → attempt.IsExactFor A.toMat.matrix) ∧
    ∀ first second, IsDirect sparse dense A first → IsDirect sparse dense A second →
      first.outcome = .ok () → second.outcome = .ok () →
      ∀ transposed (r : Vector ℝ n),
        first.solve transposed (.ofVector r) = second.solve transposed (.ofVector r) := by
  have exact (attempt : Attempt ℝ) (direct : IsDirect sparse dense A attempt) :
      attempt.IsExactFor A.toMat.matrix := by
    cases direct with
    | lu solver nonneg => exact sparseExact.lu solver nonneg A
    | dense solver nonneg => exact denseExact.dense total solver nonneg A
    | system solver direct nonneg => exact ofSystem_isExactFor solver direct nonneg A
  refine ⟨exact, fun first second direct direct' accepts accepts' => ?_⟩
  exact (exact first direct).agree (exact second direct') accepts accepts'

namespace Elimination

def exchanging : Mat ℝ 2 2 := Mat.ofFn fun i j => ((![![1, 1], ![2, 4]] i j : Nat) : ℝ)

theorem exchanging_apply (i j : Fin 2) : exchanging i j = ![![1, 1], ![2, 4]] i j := by
  rw [exchanging, Mat.ofFn_apply]
  fin_cases i <;> fin_cases j <;> norm_num

theorem largest_exchanging : largest (exchanging.column 0) = 1 := by
  have most := le_largest (exchanging.column 0) 1
  generalize largest (exchanging.column 0) = row at most ⊢
  match row with
  | 0 =>
    simp only [Mat.column, Vec.ofFn_apply, exchanging_apply] at most
    norm_num at most
  | 1 => rfl

theorem raised_exchanging (i j : Fin 2) : raised exchanging i j = ![![2, 4], ![1, 1]] i j := by
  rw [raised_apply, largest_exchanging, exchanging_apply]
  fin_cases i <;> rfl

theorem complement_exchanging : complement exchanging 0 0 = -1 := by
  have multiplier : multipliers exchanging 0 = 1 / 2 := by
    rw [multipliers_apply, multiplier, if_neg (by simp [isZero_iff, raised_exchanging])]
    simp [raised_exchanging]
  rw [complement, Mat.ofFn_apply, multiplier, upperRow_apply]
  norm_num [raised_exchanging]

theorem pivots_exchanging : (eliminate exchanging).pivots = [2, -1] := by
  have last : raised (complement exchanging) 0 0 = -1 := by
    have only (i : Fin 1) : i = 0 := Subsingleton.elim _ _
    rw [raised_apply, only (exchange _ 0), complement_exchanging]
  rw [eliminate_succ, eliminate_succ, pivots, pivots, last, raised_exchanging]
  rfl

end Elimination

theorem checkPivots_exchanging : checkPivots (.integer 0 : Setting ℝ) [2, -1] = .ok () := by
  have unscaled : (Setting.integer 0 : Setting ℝ).number = .ok 0 := by
    simp [Setting.number, Setting.ofInt, isFinite_real]
  have range : Elimination.pivotRange [(2 : ℝ), -1] = some (1, 2) := by
    norm_num [Elimination.pivotRange, Elimination.smaller_real, Elimination.larger_real, abs_real]
  have above : ¬(1 : ℝ) ≤ 0 := not_le.2 one_pos
  simp only [checkPivots, range, unscaled, isFinite_real, bind, Except.bind, zero_mul, above]
  rfl

/--
Both methods take a matrix whose rows change places and give the same answers, which are not those
of the transposed system.
-/
theorem Attempt.isExactFor_of_exchange :
    (Elimination.sparseLibrary : DirectLibrary ℝ String).IsExact "N" "T" ∧
    (Elimination.denseLibrary : DirectLibrary ℝ Nat).IsExact 0 1 ∧
    (Elimination.denseLibrary : DirectLibrary ℝ Nat).IsTotal ∧
    ∃ first second, IsDirect Elimination.sparseLibrary Elimination.denseLibrary
        (.dense Elimination.exchanging) first ∧
      IsDirect Elimination.sparseLibrary Elimination.denseLibrary
        (.dense Elimination.exchanging) second ∧
      first.outcome = .ok () ∧ second.outcome = .ok () ∧
      first.IsExactFor Elimination.exchanging.matrix ∧
      (∀ transposed (r : Vector ℝ 2),
        first.solve transposed (.ofVector r) = second.solve transposed (.ofVector r)) ∧
      second.solve false (.ofVector #v[1, 0]) = .ok ⟨#v[2, -1]⟩ ∧
      second.solve true (.ofVector #v[1, 0]) = .ok ⟨#v[2, -1 / 2]⟩ := by
  let A : AnyMat ℝ 2 2 := .dense Elimination.exchanging
  let lu : DirectSolver (.lu (Elimination.sparseLibrary (α := ℝ))) := ⟨.integer 0, none⟩
  let dense : DirectSolver (.dense (Elimination.denseLibrary (α := ℝ))) := ⟨.integer 0, none⟩
  have passed : checkPivots (.integer 0) (Elimination.eliminate A.toMat).pivots = .ok () := by
    rw [show A.toMat = Elimination.exchanging from rfl, Elimination.pivots_exchanging,
      checkPivots_exchanging]
  have nonzero : ¬(true && (Elimination.eliminate A.toMat).pivots.any isZero) = true := by
    simp [A, AnyMat.toMat, Elimination.pivots_exchanging, isZero_iff]
  have found : (Elimination.sparseLibrary (α := ℝ)).factorize A.toMat =
      some (Elimination.eliminate A.toMat) := if_neg nonzero
  have found' : (Elimination.denseLibrary (α := ℝ)).factorize A.toMat =
      some (Elimination.eliminate A.toMat) := rfl
  have nonneg : (Setting.integer 0 : Setting ℝ).IsNonneg :=
    ⟨0, by simp [Setting.number, Setting.ofInt, isFinite_real], le_rfl⟩
  have accepts : (lu.attempt ⟨A⟩).outcome = .ok () := by
    rw [lu.attempt_of_ok (DirectSolver.factors_of_passed found passed)]
  have accepts' : (dense.attempt ⟨A⟩).outcome = .ok () := by
    rw [dense.attempt_of_ok (DirectSolver.factors_of_passed found' passed)]
  have direct : IsDirect _ Elimination.denseLibrary A (lu.attempt ⟨A⟩) := .lu lu nonneg
  have direct' : IsDirect Elimination.sparseLibrary _ A (dense.attempt ⟨A⟩) := .dense dense nonneg
  have exact := isExactFor_of_isDirect Elimination.sparseLibrary_isExact
    Elimination.denseLibrary_isExact Elimination.denseLibrary_isTotal A
  have entries : Elimination.exchanging.matrix = !![1, 1; 2, 4] := by
    ext i j
    exact Elimination.exchanging_apply i j
  refine ⟨Elimination.sparseLibrary_isExact, Elimination.denseLibrary_isExact,
    Elimination.denseLibrary_isTotal, _, _, direct, direct', accepts, accepts', exact.1 _ direct,
    exact.2 _ _ direct direct' accepts accepts', ?_, ?_⟩
  · refine (exact.1 _ direct').solve_eq accepts' ?_
    change Elimination.exchanging.matrix *ᵥ _ = _
    rw [entries]
    ext i
    fin_cases i <;> norm_num [Matrix.mulVec, dotProduct, Fin.sum_univ_two, Vector.get]
  · refine (exact.1 _ direct').solve_transposed_eq accepts' ?_
    change Elimination.exchanging.matrixᵀ *ᵥ _ = _
    rw [entries]
    ext i
    fin_cases i <;> norm_num [Matrix.mulVec, dotProduct, Fin.sum_univ_two, Vector.get]

end ConicDerivative
