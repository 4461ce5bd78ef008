import ConicDerivative.Cone.Table
import ConicDerivative.Setting

/-!
What can go wrong. A failure says its cause; its category tells the classes it belongs to, and its
text is written in one place. A failure of plain data, such as a list of the wrong length, has a
category and no text.
-/

namespace ConicDerivative

inductive Field where
  | b
  | c
  | x
  | y
  | s
  | dA
  | db
  | dc
  | dx
  | dy
  | ds
  deriving DecidableEq

def Field.name : Field → String
  | b => "b"
  | c => "c"
  | x => "x"
  | y => "y"
  | s => "s"
  | dA => "dA"
  | db => "db"
  | dc => "dc"
  | dx => "dx"
  | dy => "dy"
  | ds => "ds"

inductive Method where
  | lu
  | dense
  | lsqr
  | lsmr
  deriving DecidableEq

namespace Method

def all : List Method := [lu, dense, lsqr, lsmr]

def name : Method → String
  | lu => "lu"
  | dense => "dense"
  | lsqr => "lsqr"
  | lsmr => "lsmr"

def ofName? (name : String) : Option Method := all.find? (·.name == name)

def isIterative : Method → Bool
  | lu | dense => false
  | lsqr | lsmr => true

end Method

def Setting.method? {α : Type} : Setting α → Option Method
  | text name => Method.ofName? name
  | _ => none

inductive Backend where
  | scs
  | ecos
  | clarabel
  deriving DecidableEq

inductive Degeneracy (α : Type) where
  | zeroPivot
  | smallPivot (ratio rcond : α)
  | largeResidual (method : Method) (residual : α)

inductive Category where
  | general
  | dimension
  | unsupportedCone
  | singularSystem
  | notFactorized
  | solver
  | value
  | type
  | index
  | overflow
  | key
  | runtime
  | notImplemented
  | linearAlgebra
  | attribute
  deriving DecidableEq

namespace Category

/-- The categories that a failure of this category also belongs to. -/
def ancestors : Category → List Category
  | general => [general]
  | dimension => [dimension, general, value]
  | unsupportedCone => [unsupportedCone, general, notImplemented, runtime]
  | singularSystem => [singularSystem, general, linearAlgebra, value]
  | notFactorized => [notFactorized, general, runtime]
  | solver => [solver, general]
  | notImplemented => [notImplemented, runtime]
  | linearAlgebra => [linearAlgebra, value]
  | category => [category]

end Category

inductive Failure (α : Type) where
  | layout (cause : LayoutError)
  | notVector (field : Field) (shape : List Nat)
  | wrongShape (field : Field) (shape expected : List Nat)
  | notTriple (count : Nat)
  | notSquare (shape : List Nat)
  | wrongRightSide (shape : List Nat) (size : Nat)
  | notFactorized
  | noPoint
  | singular (detail : Degeneracy α)
  | nanInMatrix
  | unknownMethod (given : Setting α)
  | unknownMode (given : Setting α)
  | noVariable
  | unknownSolver (name : String)
  | warmStartRefused (backend : Backend)
  | semidefiniteRefused
  | emptyEqualities
  | solverStatus (backend : Backend) (status : String)
  | solverErrored (backend : Backend)
  | invalid (category : Category)

def LayoutError.category : LayoutError → Category
  | unsupported _ => .unsupportedCone
  | negativeDimension .. | misplaced .. | negativeSize _ | wrongSpan .. | wrongTotal .. =>
    .dimension
  | outOfOrder | notAnInteger => .value
  | sizeTooLarge | infiniteEntry | entryTooLarge => .overflow
  | malformedBlock | notANumber => .type

def LayoutError.message : LayoutError → Option String
  | unsupported kind => some ("Cone " ++ kind.text ++ " is not supported")
  | negativeDimension cone dim =>
    some ("Cone " ++ (Kind.cone cone).text ++ " has negative dimension " ++ toString dim)
  | misplaced block row =>
    let fault := if row < block.start then "gap" else "overlap"
    some ("Cone block " ++ block.text ++ " leaves a " ++ fault ++ " at row " ++ toString row)
  | negativeSize block => some ("Cone block " ++ block.text ++ " has a negative size")
  | wrongSpan block expected =>
    some ("Cone block " ++ block.text ++ " spans " ++ toString block.size ++ " rows, expected " ++
      toString expected)
  | wrongTotal covered rows =>
    some ("Cone blocks cover " ++ toString covered ++ " rows, but A has " ++ toString rows ++
      " rows")
  | outOfOrder =>
    some ("Cone blocks are not in solver order " ++
      Text.listed (Cone.solverOrder.map fun cone => Text.quoted cone.letter))
  | sizeTooLarge | malformedBlock | notAnInteger | notANumber | infiniteEntry | entryTooLarge =>
    none

namespace Backend

def name : Backend → String
  | scs => "scs"
  | ecos => "ecos"
  | clarabel => "clarabel"

def warmStartText : Backend → String
  | scs | ecos => "ECOS does not support warmstart."
  | clarabel => "Clarabel currently does not support warmstarting."

end Backend

namespace Failure

variable {α : Type}

def category : Failure α → Category
  | layout cause => cause.category
  | notVector .. | wrongShape .. | notTriple _ | notSquare _ | wrongRightSide .. => .dimension
  | notFactorized | noPoint => .notFactorized
  | singular _ => .singularSystem
  | nanInMatrix => .runtime
  | unknownMethod _ | unknownMode _ | noVariable | unknownSolver _ | warmStartRefused _
  | semidefiniteRefused | emptyEqualities => .value
  | solverStatus .. | solverErrored _ => .solver
  | invalid category => category

def singularText (detail : Option String) : String :=
  "solution point is not differentiable (degenerate KKT system)" ++
    match detail with
    | none | some "" => ""
    | some detail => ": " ++ detail

def choices (what : String) (given : Setting Float) : String :=
  "Unsupported " ++ what ++ " " ++ given.plain ++ "; the supported " ++ what ++ "s are " ++
    Text.listed (Method.all.map fun method => Text.quoted method.name)

end Failure

def Degeneracy.text : Degeneracy Float → String
  | zeroPivot => "Factor is exactly singular"
  | smallPivot ratio rcond =>
    "pivot ratio " ++ Text.general 3 ratio ++ " is below rcond=" ++ Text.general 3 rcond
  | largeResidual method residual =>
    method.name ++ " stopped with residual " ++ Text.general 3 residual

/-- The text of a failure, which those of plain data do not have. -/
def Failure.message : Failure Float → Option String
  | layout cause => cause.message
  | notVector field shape =>
    some (field.name ++ " must be one-dimensional, got shape " ++ Text.shape shape)
  | wrongShape field shape expected =>
    some (field.name ++ " has shape " ++ Text.shape shape ++ ", expected " ++ Text.shape expected)
  | notTriple count => some ("Expected triples, got " ++ toString count ++ " entries")
  | notSquare shape => some ("Cannot factorize a non-square " ++ Text.shape shape ++ " system")
  | wrongRightSide shape size =>
    some ("Right-hand side has shape " ++ Text.shape shape ++ ", expected " ++ Text.shape [size])
  | notFactorized => some "solve called before a successful factorize"
  | noPoint => some "No solution point; call update_point first."
  | singular detail => some (singularText detail.text)
  | nanInMatrix => some "Found a NaN in A."
  | unknownMethod given => some (choices "method" given)
  | unknownMode given => some (choices "mode" given)
  | noVariable => some "Could not draw a program with at least one variable"
  | unknownSolver name => some ("Solver " ++ name ++ " not supported.")
  | warmStartRefused backend => some backend.warmStartText
  | semidefiniteRefused => some "PSD cone not supported by ECOS."
  | emptyEqualities => some "ECOS cannot handle sparse data with nnz == 0."
  | solverStatus backend status =>
    some ("Solver " ++ backend.name ++ " returned status " ++ status)
  | solverErrored backend => some ("Solver " ++ backend.name ++ " errored.")
  | invalid _ => none

abbrev Outcome (α : Type) := Except (Failure α)

instance {α : Type} : MonadLift (Except LayoutError) (Outcome α) where
  monadLift
    | .ok value => .ok value
    | .error cause => .error (.layout cause)

end ConicDerivative
