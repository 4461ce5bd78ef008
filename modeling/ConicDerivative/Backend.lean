import ConicDerivative.Program
import ConicDerivative.Setting

/-!
What is said to the solvers of cone programs and what they answer. A solver is a function of the
number of calls before and of the call; a run that consults solvers keeps a log of the calls and of
the warnings it gave, also when it fails.
-/

namespace ConicDerivative

variable {α : Type}

structure ScsCall (α : Type) where
  {rows : Nat}
  {cols : Nat}
  A : Sparse α rows cols
  b : List α
  c : List α
  cones : ConeTable
  settings : Settings α
  /-- A point to start from: `x`, `y` and `s`. -/
  warmStart : Option (List α × List α × List α)

structure ScsReply (α : Type) where
  status : String
  x : List α
  y : List α
  s : List α

/-- A program whose equations stand apart from its inequalities; each part may be missing. -/
structure EcosCall (α : Type) where
  {cols : Nat}
  {inequalities : Nat}
  {equations : Nat}
  c : List α
  G : Option (Sparse α inequalities cols)
  h : Option (List α)
  cones : ConeTable
  A : Option (Sparse α equations cols)
  b : Option (List α)
  settings : Settings α

structure EcosReply (α : Type) where
  exitFlag : Int
  x : List α
  y : List α
  z : List α
  solveTime : Setting α
  setupTime : Setting α
  iterations : Setting α
  cost : Setting α

/-- A program with a quadratic part, here zero, and a list of cones. -/
structure ClarabelCall (α : Type) where
  {rows : Nat}
  {cols : Nat}
  P : Sized (Sparse α)
  c : List α
  A : Sparse α rows cols
  b : List α
  cones : List (Cone × Int)
  settings : Settings α

structure ClarabelReply (α : Type) where
  status : String
  x : List α
  z : List α
  s : List α
  solveTime : Setting α
  iterations : Setting α
  cost : Setting α

inductive Call (α : Type) where
  | scs (call : ScsCall α)
  | ecos (call : EcosCall α)
  | clarabel (call : ClarabelCall α)

inductive Warning where
  | inaccurate
  deriving DecidableEq

def Warning.text : Warning → String
  | inaccurate => "Solved/Inaccurate."

/-- The solvers at hand, each told how many calls there were before. -/
structure Solvers (α : Type) where
  scs : Nat → ScsCall α → ScsReply α
  ecos : Nat → EcosCall α → EcosReply α
  clarabel : Nat → ClarabelCall α → ClarabelReply α

structure Log (α : Type) where
  calls : List (Call α)
  warnings : List Warning

/-- A run that may consult solvers and may fail. -/
abbrev Consulting (α : Type) := ExceptT (Failure α) (StateM (Log α))

namespace Consulting

def note (call : Call α) : Consulting α Nat := do
  let log ← get
  set { log with calls := log.calls ++ [call] }
  return log.calls.length

def warn (warning : Warning) : Consulting α Unit :=
  modify fun log => { log with warnings := log.warnings ++ [warning] }

def scs (solvers : Solvers α) (call : ScsCall α) : Consulting α (ScsReply α) := do
  return solvers.scs (← note (.scs call)) call

def ecos (solvers : Solvers α) (call : EcosCall α) : Consulting α (EcosReply α) := do
  return solvers.ecos (← note (.ecos call)) call

def clarabel (solvers : Solvers α) (call : ClarabelCall α) : Consulting α (ClarabelReply α) := do
  return solvers.clarabel (← note (.clarabel call)) call

end Consulting

end ConicDerivative
