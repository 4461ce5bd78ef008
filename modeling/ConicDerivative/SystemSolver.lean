import ConicDerivative.Draws
import ConicDerivative.LeastSquares.Lsmr
import ConicDerivative.LeastSquares.Lsqr
import ConicDerivative.OptimalitySystem
import ConicDerivative.Parts

/-!
Linear systems that are factorized once and solved many times, also transposed. A direct method
eliminates and refuses a matrix with a relatively small pivot. An iterative one keeps the matrix as
it is and checks the residual of every solution; at first it solves once for a fixed vector, so that
a singular matrix does not go unnoticed.
-/

namespace ConicDerivative

open Scalar

def Setting.number {α : Type} [Scalar α] : Setting α → Outcome α α
  | integer n => if isFinite (ofInt n : α) then .ok (ofInt n) else .error (.invalid .overflow)
  | real x => .ok x
  | flag b => .ok (b.toNat : α)
  | text _ | absent | list _ => .error (.invalid .type)

/--
How systems are solved, and when a matrix counts as singular. Settings are kept as they are handed
in, and each one is read where it is needed.
-/
structure SolverOptions (α : Type) where
  method : Method
  rcond : Setting α
  atol : Setting α
  btol : Setting α
  iterationLimit : Setting α
  residualTol : Setting α

namespace SolverOptions

variable {α : Type} [Scalar α]

def default (method : Method) : SolverOptions α where
  method := method
  rcond := .real 1e-12
  atol := .real 1e-12
  btol := .real 1e-12
  iterationLimit := .absent
  residualTol := .real 1e-6

def set (options : SolverOptions α) (name : String) (value : Setting α) :
    Outcome α (SolverOptions α) :=
  match name with
  | "rcond" => .ok { options with rcond := value }
  | "atol" => .ok { options with atol := value }
  | "btol" => .ok { options with btol := value }
  | "residual_tol" => .ok { options with residualTol := value }
  | "iter_lim" => .ok { options with iterationLimit := value }
  | _ => .error (.invalid .type)

def ofSettings (method : Method) (settings : Settings α) : Outcome α (SolverOptions α) :=
  settings.foldlM (fun options (name, value) => options.set name value) (default method)

def ofNamed (settings : Settings α) : Outcome α (SolverOptions α) := do
  let options ← ofSettings .lu (settings.erase "method")
  match settings.get? "method" with
  | none => return options
  | some given =>
    match given.method? with
    | some method => return { options with method }
    | none => throw (.unknownMethod given)

/-- The most steps of an iteration, ten times the size if no limit is set. -/
def limit (options : SolverOptions α) (size : Nat) : Outcome α Nat :=
  if !options.iterationLimit.isSet then .ok (10 * size)
  else match options.iterationLimit with
    | .integer n => .ok n.toNat
    | .real x => .ok (ceil x)
    | .flag b => .ok b.toNat
    | .text _ | .absent | .list _ => .error (.invalid .type)

def tolerances (options : SolverOptions α) : Outcome α (LeastSquares.Tolerances α) := do
  return ⟨← options.atol.number, ← options.btol.number⟩

end SolverOptions

/-- A solver refuses pivots that are relatively small, or not finite. -/
def checkPivots {α : Type} [Scalar α] (rcond : Setting α) (pivots : List α) : Outcome α Unit :=
  match Elimination.pivotRange pivots with
  | none => .ok ()
  | some (least, most) => do
    let rcond ← rcond.number
    if !isFinite most || decide (least ≤ rcond * most) then
      throw (.singular (.smallPivot (if isZero most then 0 else least / most) rcond))

inductive Factor (α : Type) (n : Nat) where
  | direct (A : Mat α n n) (steps : Elimination α n)
  | iterative (A : Operator α n n)

namespace Factor

variable {α : Type} [Scalar α] {n : Nat}

/-- The vector an iteration stops with, for which its settings are read if it takes a step. -/
def approximate (options : SolverOptions α) (A : Operator α n n) (r : Vector α n) :
    Outcome α (Vector α n) := do
  if LeastSquares.isSolvedByZero A r then return Vector.replicate n 0
  let limit ← options.limit n
  if limit = 0 then return Vector.replicate n 0
  let tolerances ← options.tolerances
  if options.method = .lsqr then return LeastSquares.Lsqr.solve A tolerances limit r
  else return LeastSquares.Lsmr.solve A tolerances limit r

/-- The vector an iterative method stops with, if its residual is small enough. -/
def iterate (options : SolverOptions α) (A : Operator α n n) (r : Vector α n) :
    Outcome α (Vector α n) := do
  let z ← approximate options A r
  let residual := Vec.norm (A.apply z - r)
  let norm := Vec.norm r
  let tolerance ← options.residualTol.number
  if tolerance * (if 1 < norm then norm else 1) < residual then
    throw (.singular (.largeResidual options.method residual))
  return z

def solveSteps (steps : Elimination α n) (transposed : Bool) (r : Vector α n) : Vector α n :=
  if transposed then steps.solveTranspose r else steps.solve r

def solve (options : SolverOptions α) (factor : Factor α n) (transposed : Bool)
    (r : Vector α n) : Outcome α (Vector α n) :=
  match factor with
  | direct A steps =>
    let z := solveSteps steps transposed r
    if options.method = .dense then
      if Vec.allFinite r then .ok z else .error (.invalid .value)
    else .ok (if Vec.allFinite z then z else Parts.solve A transposed r)
  | iterative A => iterate options (if transposed then A.transpose else A) r

def ofMatrix (options : SolverOptions α) (A : Jacobian α n n) : Outcome α (Factor α n) :=
  match options.method, A with
  | .lu, .assembled A => do
    if !A.storesFinite then throw (.singular .zeroPivot)
    let steps := Elimination.eliminate A.toMat
    if steps.pivots.any isZero then throw (.singular .zeroPivot)
    checkPivots options.rcond steps.pivots
    return direct A.toMat steps
  | .dense, .assembled A => do
    if !A.toMat.allFinite then throw (.invalid .value)
    let steps := Elimination.eliminate A.toMat
    checkPivots options.rcond steps.pivots
    return direct A.toMat steps
  | .lu, .operator _ => throw (.invalid .value)
  | .dense, .operator _ => throw (.invalid .type)
  | .lsqr, A | .lsmr, A => return iterative A.toOperator

/-- A matrix that is kept as it is must let a fixed vector be solved for. -/
def checkRank (options : SolverOptions α) : Factor α n → Outcome α Unit
  | direct .. => .ok ()
  | iterative A => do
    let _ ← iterate options A (Draws.normal n)

end Factor

structure Factored (α : Type) where
  {size : Nat}
  factor : Factor α size

structure SystemSolver (α : Type) where
  options : SolverOptions α
  factored : Option (Factored α)

namespace SystemSolver

variable {α : Type} [Scalar α]

def new (options : SolverOptions α) : SystemSolver α := ⟨options, none⟩

def isReady (solver : SystemSolver α) : Bool := solver.factored.isSome

def size? (solver : SystemSolver α) : Option Nat := solver.factored.map (·.size)

def reset (solver : SystemSolver α) : SystemSolver α := { solver with factored := none }

def factorization (options : SolverOptions α) (A : Sized (Jacobian α)) :
    Outcome α (Factored α) := do
  if square : A.rows = A.cols then
    return ⟨← Factor.ofMatrix options (square ▸ A.value)⟩
  else throw (.notSquare [A.rows, A.cols])

theorem factorization_square (options : SolverOptions α) {n : Nat} (J : Jacobian α n n) :
    factorization options ⟨J⟩ = (Factor.ofMatrix options J).map fun factor => ⟨factor⟩ :=
  dif_pos rfl

/--
Replaces the factorization; if there is none of the new matrix, the old one is lost. A matrix that
is found to be singular only by a solve is dropped again, but kept if the solve fails otherwise.
-/
def factorize (solver : SystemSolver α) (A : Sized (Jacobian α)) :
    Outcome α Unit × SystemSolver α :=
  match factorization solver.options A with
  | .error cause => (.error cause, solver.reset)
  | .ok factored =>
    match factored.factor.checkRank solver.options with
    | .error (.singular detail) => (.error (.singular detail), solver.reset)
    | outcome => (outcome, { solver with factored := some factored })

def factorizeMatrix (solver : SystemSolver α) : Data α → Outcome α Unit × SystemSolver α
  | .sparse _ _ A => solver.factorize ⟨.assembled (.listed A.toListed)⟩
  | .dense t =>
    match t.shape with
    | [rows, cols] =>
      match t.toMat? rows cols with
      | some A => solver.factorize ⟨.assembled (.dense A)⟩
      | none => (.error (.invalid .value), solver.reset)
    | rows :: cols :: _ =>
      (.error (if rows = cols then .invalid .value else .notSquare t.shape), solver.reset)
    | _ => (.error (.invalid .index), solver.reset)

/-- Factorizes a matrix as a linear map. What is no matrix is no map, and then nothing changes. -/
def factorizeMap (solver : SystemSolver α) (A : Data α) : Outcome α Unit × SystemSolver α :=
  match A.toOperator with
  | .ok A => solver.factorize ⟨.operator A.value⟩
  | .error cause => (.error cause, solver)

def factorizeData (solver : SystemSolver α) (A : Option (Data α)) (asMap : Bool) :
    Outcome α Unit × SystemSolver α :=
  match A, asMap with
  | some A, false => solver.factorizeMatrix A
  | some A, true => solver.factorizeMap A
  | none, false => (.error (.invalid .attribute), solver.reset)
  | none, true => (.error (.invalid .type), solver)

/-- Solves with the matrix or its transpose; the shape of `r` is checked. -/
def solve (solver : SystemSolver α) (transposed : Bool) (r : Tensor α) :
    Outcome α (Tensor.Column α) :=
  match solver.factored with
  | none => .error .notFactorized
  | some factored =>
    match r.toVector? factored.size with
    | none => .error (.wrongRightSide r.shape factored.size)
    | some r => do return ⟨← factored.factor.solve solver.options transposed r⟩

def solveVector {n : Nat} (solver : SystemSolver α) (transposed : Bool) (r : Vector α n) :
    Outcome α (Vector α n) :=
  match solver.factored with
  | none => .error .notFactorized
  | some factored =>
    if same : factored.size = n then do
      return (← factored.factor.solve solver.options transposed (r.cast same.symm)).cast same
    else .error (.wrongRightSide [n] factored.size)

end SystemSolver

end ConicDerivative
