import ConicDerivative.Proofs.ExactSolvers
import ConicDerivative.Proofs.TriangularFactors

/-!
Direct solvers, whichever library factorizes. A library returns the triangular factors of a matrix,
in an order of its rows and columns, and solves with them. The pivots are the diagonal of the upper
factor, so that no matrix passes their check but an invertible one, and the answers are then the only
solutions.
-/

namespace ConicDerivative

open Scalar Matrix Outcomes

/-- A library that factorizes, or gives up. The system to solve is chosen by a flag of its own. -/
structure DirectLibrary (α Flag : Type) where
  Kept : Nat → Type
  factorize : {n : Nat} → Mat α n n → Option (Kept n)
  pivots : {n : Nat} → Kept n → List α
  solve : {n : Nat} → Kept n → Flag → Vector α n → Vector α n

structure DirectMethod (α Flag : Type) where
  library : DirectLibrary α Flag
  refusal : Failure α
  flag : Bool → Flag

structure DirectSolver {α Flag : Type} (method : DirectMethod α Flag) where
  rcond : Setting α
  kept : Option (Sigma method.library.Kept)

namespace DirectMethod

variable {α : Type}

/-- The sparse library gives up on a zero pivot. -/
def lu (library : DirectLibrary α String) : DirectMethod α String :=
  ⟨library, .singular .zeroPivot, fun transposed => if transposed then "T" else "N"⟩

/-- What the dense library fails with is passed on. -/
def dense (library : DirectLibrary α Nat) : DirectMethod α Nat :=
  ⟨library, .invalid .value, fun transposed => if transposed then 1 else 0⟩

end DirectMethod

structure Attempt (α : Type) where
  outcome : Outcome α Unit
  isReady : Bool
  solve : Bool → Tensor α → Outcome α (Tensor.Column α)

namespace DirectSolver

variable {α Flag : Type} [Scalar α] {method : DirectMethod α Flag}

def factors (method : DirectMethod α Flag) (rcond : Setting α) {n : Nat} (A : Mat α n n) :
    Outcome α (method.library.Kept n) :=
  match method.library.factorize A with
  | none => .error method.refusal
  | some kept => do
    checkPivots rcond (method.library.pivots kept)
    return kept

def factorization (method : DirectMethod α Flag) (rcond : Setting α) (A : Sized (AnyMat α)) :
    Outcome α (Sigma method.library.Kept) := do
  if square : A.rows = A.cols then
    return ⟨_, ← factors method rcond (square ▸ A.value).toMat⟩
  else throw (.notSquare [A.rows, A.cols])

theorem factorization_square (method : DirectMethod α Flag) (rcond : Setting α) {n : Nat}
    (A : AnyMat α n n) : factorization method rcond ⟨A⟩ =
      (factors method rcond A.toMat).map fun kept => ⟨n, kept⟩ :=
  dif_pos rfl

def keep (solver : DirectSolver method) (kept : Option (Sigma method.library.Kept)) :
    DirectSolver method := { solver with kept }

def factorize (solver : DirectSolver method) (A : Sized (AnyMat α)) :
    Outcome α Unit × DirectSolver method :=
  match factorization method solver.rcond A with
  | .error cause => (.error cause, solver.keep none)
  | .ok kept => (.ok (), solver.keep (some kept))

def solve (solver : DirectSolver method) (transposed : Bool) (r : Tensor α) :
    Outcome α (Tensor.Column α) :=
  match solver.kept with
  | none => .error .notFactorized
  | some kept =>
    match r.toVector? kept.1 with
    | none => .error (.wrongRightSide r.shape kept.1)
    | some r => .ok ⟨method.library.solve kept.2 (method.flag transposed) r⟩

def attempt (solver : DirectSolver method) (A : Sized (AnyMat α)) : Attempt α :=
  let done := solver.factorize A
  ⟨done.1, done.2.kept.isSome, done.2.solve⟩

end DirectSolver

variable {Flag : Type} {n : Nat}

namespace DirectLibrary

/--
What is kept stands for exact factors, and the two flags for the system and the transposed one. With
a zero on the diagonal nothing is said of the solves.
-/
def IsExact (library : DirectLibrary ℝ Flag) (plain transposed : Flag) : Prop :=
  ∀ {n : Nat} {A : Mat ℝ n n} {kept : library.Kept n}, library.factorize A = some kept →
    ∃ F : Factors n, F.IsExact A.matrix ∧ library.pivots kept = List.ofFn (fun i => F.upper i i) ∧
      ((∀ i, F.upper i i ≠ 0) → ∀ r : Vector ℝ n,
        F.Solves r.get (library.solve kept plain r).get ∧
        F.SolvesTransposed r.get (library.solve kept transposed r).get)

def IsTotal (library : DirectLibrary ℝ Flag) : Prop :=
  ∀ {n : Nat} (A : Mat ℝ n n), library.factorize A ≠ none

end DirectLibrary

def Setting.IsNonneg (setting : Setting ℝ) : Prop := ∃ x, setting.number = .ok x ∧ 0 ≤ x

namespace Attempt

/--
An attempt that returned has found an invertible matrix, and every right-hand side is answered with
the only solution, also of the transposed system. A singular matrix is refused and leaves nothing to
solve with.
-/
structure IsExactFor (attempt : Attempt ℝ) (A : Matrix (Fin n) (Fin n) ℝ) : Prop where
  invertible : attempt.outcome = .ok () → IsUnit A ∧ attempt.isReady = true
  solves : attempt.outcome = .ok () → ∀ r : Vector ℝ n, ∃ z : Vector ℝ n,
    attempt.solve false (.ofVector r) = .ok ⟨z⟩ ∧ ∀ x, A *ᵥ x = r.get ↔ x = z.get
  solvesTransposed : attempt.outcome = .ok () → ∀ r : Vector ℝ n, ∃ z : Vector ℝ n,
    attempt.solve true (.ofVector r) = .ok ⟨z⟩ ∧ ∀ x, Aᵀ *ᵥ x = r.get ↔ x = z.get
  refuses : ¬IsUnit A → ∃ detail, attempt.outcome = .error (.singular detail) ∧
    attempt.isReady = false ∧
    ∀ transposed r, attempt.solve transposed r = .error .notFactorized

/-- Two exact attempts on one matrix give the same answers, as there is only one solution. -/
theorem IsExactFor.solve_eq {A : Matrix (Fin n) (Fin n) ℝ} {attempt : Attempt ℝ}
    (exact : attempt.IsExactFor A) (accepts : attempt.outcome = .ok ()) {r z : Vector ℝ n}
    (solution : A *ᵥ z.get = r.get) : attempt.solve false (.ofVector r) = .ok ⟨z⟩ := by
  obtain ⟨w, answer, only⟩ := exact.solves accepts r
  rw [answer, Vec.get_injective ((only _).1 solution)]

theorem IsExactFor.solve_transposed_eq {A : Matrix (Fin n) (Fin n) ℝ} {attempt : Attempt ℝ}
    (exact : attempt.IsExactFor A) (accepts : attempt.outcome = .ok ()) {r z : Vector ℝ n}
    (solution : Aᵀ *ᵥ z.get = r.get) : attempt.solve true (.ofVector r) = .ok ⟨z⟩ := by
  obtain ⟨w, answer, only⟩ := exact.solvesTransposed accepts r
  rw [answer, Vec.get_injective ((only _).1 solution)]

theorem IsExactFor.agree {A : Matrix (Fin n) (Fin n) ℝ} {first second : Attempt ℝ}
    (exact : first.IsExactFor A) (exact' : second.IsExactFor A) (accepts : first.outcome = .ok ())
    (accepts' : second.outcome = .ok ()) (transposed : Bool) (r : Vector ℝ n) :
    first.solve transposed (.ofVector r) = second.solve transposed (.ofVector r) := by
  cases transposed with
  | false =>
    obtain ⟨z, answer, only⟩ := exact.solves accepts r
    rw [answer, exact'.solve_eq accepts' ((only _).2 rfl)]
  | true =>
    obtain ⟨z, answer, only⟩ := exact.solvesTransposed accepts r
    rw [answer, exact'.solve_transposed_eq accepts' ((only _).2 rfl)]

end Attempt

namespace Elimination

theorem smaller_real (x y : ℝ) : smaller x y = min x y := by
  unfold smaller
  split_ifs with ordered
  · exact (min_eq_left ordered).symm
  · exact (min_eq_right (le_of_not_ge ordered)).symm
  · exact absurd (le_of_not_ge ordered) ‹_›

theorem larger_real (x y : ℝ) : larger x y = max x y := by
  unfold larger
  split_ifs with ordered
  · exact (max_eq_right ordered).symm
  · exact (max_eq_left (le_of_not_ge ordered)).symm
  · exact absurd (le_of_not_ge ordered) ‹_›

theorem pivotRange_le {pivots : List ℝ} {range : ℝ × ℝ} (found : pivotRange pivots = some range) :
    (∀ p ∈ pivots, range.1 ≤ |p|) ∧ 0 ≤ range.2 := by
  cases pivots with
  | nil => cases found
  | cons pivot rest =>
    cases found
    induction rest using List.reverseRecOn with
    | nil => simp [abs_real]
    | append_singleton rest p ih =>
      rw [List.foldl_append, List.foldl_cons, List.foldl_nil]
      simp only [smaller_real, larger_real, abs_real] at ih ⊢
      refine ⟨?_, ih.2.trans (le_max_left _ _)⟩
      intro q listed
      rw [← List.cons_append, List.mem_append, List.mem_singleton] at listed
      rcases listed with earlier | rfl
      · exact (min_le_left _ _).trans (ih.1 q earlier)
      · exact min_le_right _ _

end Elimination

theorem checkPivots_cases {rcond : Setting ℝ} (nonneg : rcond.IsNonneg) (pivots : List ℝ) :
    checkPivots rcond pivots = .ok () ∧ (∀ p ∈ pivots, p ≠ 0) ∨
      ∃ detail, checkPivots rcond pivots = .error (.singular detail) := by
  obtain ⟨x, read, sign⟩ := nonneg
  cases found : Elimination.pivotRange pivots with
  | none =>
    left
    cases pivots with
    | nil => exact ⟨rfl, fun p listed => absurd listed List.not_mem_nil⟩
    | cons pivot rest => cases found
  | some range =>
    obtain ⟨least, most⟩ := Elimination.pivotRange_le found
    by_cases small : range.1 ≤ x * range.2
    · right
      refine ⟨.smallPivot (if isZero range.2 then 0 else range.1 / range.2) x, ?_⟩
      simp only [checkPivots, found, read, isFinite_real, small, bind, Except.bind]
      rfl
    · left
      refine ⟨?_, ?_⟩
      · simp only [checkPivots, found, read, isFinite_real, small, bind, Except.bind]
        rfl
      · rintro p listed rfl
        refine small ((least _ listed).trans ?_)
        rw [abs_zero]
        exact mul_nonneg sign most

namespace Attempt

variable {A : Matrix (Fin n) (Fin n) ℝ}

theorem isExactFor_of_refused {attempt : Attempt ℝ} {detail : Degeneracy ℝ}
    (refused : attempt.outcome = .error (.singular detail)) (unready : attempt.isReady = false)
    (unsolved : ∀ transposed r, attempt.solve transposed r = .error .notFactorized) :
    attempt.IsExactFor A := by
  have failed : attempt.outcome ≠ .ok () := by
    rw [refused]
    exact fun same => nomatch same
  exact ⟨fun accepted => absurd accepted failed, fun accepted => absurd accepted failed,
    fun accepted => absurd accepted failed, fun _ => ⟨detail, refused, unready, unsolved⟩⟩

theorem isExactFor_of_factors {F : Factors n} (exact : F.IsExact A) (regular : ∀ i, F.upper i i ≠ 0)
    {attempt : Attempt ℝ} (ready : attempt.isReady = true) (answers : ∀ transposed (r : Vector ℝ n),
      ∃ z : Vector ℝ n, attempt.solve transposed (.ofVector r) = .ok ⟨z⟩ ∧
        if transposed then F.SolvesTransposed r.get z.get else F.Solves r.get z.get) :
    attempt.IsExactFor A := by
  have unit := exact.isUnit_iff.2 regular
  refine ⟨fun _ => ⟨unit, ready⟩, fun _ r => ?_, fun _ r => ?_,
    fun singular => absurd unit singular⟩
  · obtain ⟨z, answer, solves⟩ := answers false r
    refine ⟨z, answer, fun x => ?_⟩
    rw [← exact.solves_iff.1 solves]
    exact (mulVec_injective_of_isUnit unit).eq_iff
  · obtain ⟨z, answer, solves⟩ := answers true r
    refine ⟨z, answer, fun x => ?_⟩
    rw [← exact.solvesTransposed_iff.1 solves]
    exact (mulVec_injective_of_isUnit ((isUnit_transpose A).2 unit)).eq_iff

end Attempt

namespace DirectSolver

variable {method : DirectMethod ℝ Flag}

theorem attempt_of_error (solver : DirectSolver method) {A : AnyMat ℝ n n} {cause : Failure ℝ}
    (failed : factors method solver.rcond A.toMat = .error cause) :
    solver.attempt ⟨A⟩ = ⟨.error cause, false, (solver.keep none).solve⟩ := by
  simp only [attempt, factorize, factorization_square, failed]
  rfl

theorem attempt_of_ok (solver : DirectSolver method) {A : AnyMat ℝ n n}
    {kept : method.library.Kept n} (passed : factors method solver.rcond A.toMat = .ok kept) :
    solver.attempt ⟨A⟩ = ⟨.ok (), true, (solver.keep (some ⟨n, kept⟩)).solve⟩ := by
  simp only [attempt, factorize, factorization_square, passed]
  rfl

theorem factors_of_passed {rcond : Setting ℝ} {A : Mat ℝ n n} {kept : method.library.Kept n}
    (found : method.library.factorize A = some kept)
    (passed : checkPivots rcond (method.library.pivots kept) = .ok ()) :
    factors method rcond A = .ok kept := by
  simp only [factors, found, passed]
  rfl

theorem factors_cases {rcond : Setting ℝ} (nonneg : rcond.IsNonneg)
    (refuses : ∀ {n : Nat} {A : Mat ℝ n n}, method.library.factorize A = none →
      ∃ detail, method.refusal = .singular detail) (A : Mat ℝ n n) :
    (∃ kept, factors method rcond A = .ok kept ∧ method.library.factorize A = some kept ∧
      ∀ p ∈ method.library.pivots kept, p ≠ 0) ∨
    ∃ detail, factors method rcond A = .error (.singular detail) := by
  cases found : method.library.factorize A with
  | none =>
    obtain ⟨detail, singular⟩ := refuses found
    refine .inr ⟨detail, ?_⟩
    simp only [factors, found, singular]
  | some kept =>
    rcases checkPivots_cases nonneg (method.library.pivots kept) with
      ⟨passed, regular⟩ | ⟨detail, failed⟩
    · exact .inl ⟨kept, factors_of_passed found passed, rfl, regular⟩
    · refine .inr ⟨detail, ?_⟩
      simp only [factors, found, failed]
      rfl

/-- With an exact library that gives up on singular matrices at most, the answers are exact. -/
theorem attempt_isExactFor (solver : DirectSolver method) (nonneg : solver.rcond.IsNonneg)
    (exact : method.library.IsExact (method.flag false) (method.flag true))
    (refuses : ∀ {n : Nat} {A : Mat ℝ n n}, method.library.factorize A = none →
      ∃ detail, method.refusal = .singular detail)
    (A : AnyMat ℝ n n) : (solver.attempt ⟨A⟩).IsExactFor A.toMat.matrix := by
  rcases factors_cases nonneg refuses A.toMat with ⟨kept, passed, found, regular⟩ | ⟨detail, failed⟩
  · obtain ⟨F, factored, diagonal, solves⟩ := exact found
    have nonzero (i : Fin n) : F.upper i i ≠ 0 := by
      refine regular _ ?_
      rw [diagonal]
      exact List.mem_ofFn.2 ⟨i, rfl⟩
    rw [solver.attempt_of_ok passed]
    refine Attempt.isExactFor_of_factors factored nonzero rfl fun transposed r => ?_
    refine ⟨method.library.solve kept (method.flag transposed) r, ?_, ?_⟩
    · simp only [solve, keep, Tensor.toVector?_ofVector]
    · cases transposed with
      | false => exact (solves nonzero r).1
      | true => exact (solves nonzero r).2
  · rw [solver.attempt_of_error failed]
    exact Attempt.isExactFor_of_refused rfl rfl fun _ _ => rfl

end DirectSolver

end ConicDerivative
