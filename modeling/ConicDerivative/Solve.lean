import ConicDerivative.Backend
import ConicDerivative.Loose
import ConicDerivative.RowOrder
import ConicDerivative.Session
import ConicDerivative.Text.Capital

/-!
Solving a cone program with one of three solvers. Rows of free cones constrain nothing and are kept
from the solver; each solver gets the other rows in its own layout, and its answer is brought back
to the rows of the program.
-/

namespace ConicDerivative

variable {α : Type} [Scalar α] {m n : Nat}

structure Values (α : Type) where
  x : List α
  y : List α
  s : List α

/-- What a solver found, which may be nothing, and what it says about it. -/
structure Solution (α : Type) where
  values : Option (Values α)
  info : Settings α

structure Request (α : Type) where
  method : Setting α := .absent
  warmStart : Option (List (List α)) := none
  raiseOnError : Bool := true
  settings : Settings α := []

structure Constraints (α : Type) (n : Nat) where
  {rows : Nat}
  A : Sparse α rows n
  b : List α
  cones : ConeTable

namespace Constraints

def kept (blocks : List Block) (rows : Nat) : List Bool :=
  (List.range rows).map fun (i : Nat) => !blocks.any fun block =>
    block.kind = .cone .free && block.start ≤ i && (i : Int) < block.stop

def places (keep : List Bool) : List Nat :=
  (keep.zipIdx.filter (·.1)).map (·.2)

/-- The constraints without the rows of free cones, and whether each row is kept. -/
def dropFree (constraints : Constraints α n) :
    Outcome α (Constraints α n × List Bool) := do
  let blocks ← constraints.cones.blocks
  let keep := kept blocks constraints.rows
  let cones := constraints.cones.erase .free
  if keep.all id then return ({ constraints with cones }, keep)
  let A ← Loose.takeRows constraints.A (places keep)
  if constraints.b.length ≠ keep.length then throw (.invalid .index)
  let b ← Loose.gather constraints.b (places keep)
  return (⟨A, b, cones⟩, keep)

def slack (constraints : Constraints α n) (x : List α) : Outcome α (List α) := do
  Loose.zipWith (· - ·) constraints.b (← Loose.mulVec constraints.A x)

/-- Brings a solution without free rows back to all rows: a free row has its slack and no price. -/
def restoreFree (constraints : Constraints α n) (keep : List Bool) (values : Values α) :
    Outcome α (Values α) := do
  let s ← constraints.slack values.x
  let y ← Loose.scatter (List.replicate constraints.b.length 0) (places keep) values.y
  return ⟨values.x, y, ← Loose.scatter s (places keep) values.s⟩

end Constraints

namespace Scs

def isInaccurate (status : String) : Bool :=
  ["Solved/Inaccurate", "solved (inaccurate - reached max_iters)",
    "solved (inaccurate - reached time_limit_secs)"].contains status

/-- One accuracy stands for the absolute and the relative one. -/
def settings (given : Settings α) : Settings α :=
  let split := match given.get? "eps" with
    | none => given
    | some eps => ((given.insert "eps_abs" eps).insert "eps_rel" eps).erase "eps"
  split.withDefault "verbose" (.flag false)

/-- An inaccurate answer is asked for again without acceleration, unless that was set. -/
def retrySettings? (settings : Settings α) (status : String) : Option (Settings α) :=
  if isInaccurate status && (settings.get? "acceleration_lookback").isNone then
    some (settings.insert "acceleration_lookback" (.integer 0))
  else none

def accept (reply : ScsReply α) (raiseOnError : Bool) : Consulting α (Solution α) := do
  let values : Values α := ⟨reply.x, reply.y, reply.s⟩
  let info : Settings α := [("status", .text reply.status)]
  if isInaccurate reply.status then
    Consulting.warn .inaccurate
    return ⟨some values, info⟩
  else if reply.status.toLower = "solved" then return ⟨some values, info⟩
  else if raiseOnError then throw (.solverStatus .scs reply.status)
  else return ⟨none, info⟩

def startingPoint : Option (List (List α)) → Outcome α (Option (List α × List α × List α))
  | none => .ok none
  | some (x :: y :: s :: _) => .ok (some (x, y, s))
  | some _ => .error (.invalid .index)

def solve (solvers : Solvers α) (constraints : Constraints α n) (c : List α)
    (request : Request α) : Consulting α (Solution α) := do
  let settings := settings request.settings
  let warmStart ← startingPoint request.warmStart
  let call : ScsCall α :=
    { A := constraints.A, b := constraints.b, c, cones := constraints.cones, settings, warmStart }
  let reply ← Consulting.scs solvers call
  match retrySettings? settings reply.status with
  | none => accept reply request.raiseOnError
  | some settings =>
    accept (← Consulting.scs solvers { call with settings }) request.raiseOnError

end Scs

namespace Ecos

/--
The number of equations, which must be given as a whole number. Any other number is only compared
with the numbers of rows, and passes if it is not above zero and there is no row beyond it.
-/
def equations (cones : ConeTable) (rows entries : Nat) : Outcome α Nat :=
  match cones.get? .zero with
  | none => .ok 0
  | some (.integer count) => .ok count.toNat
  | some (.flag b) => .ok b.toNat
  | some (.real x) =>
    if x < Float.ofNat rows || x < Float.ofNat entries || 0 < x then .error (.invalid .type)
    else .ok 0
  | some _ => .error (.invalid .type)

def sizes : Extent → Outcome α Extent
  | .list items => .ok (.list items)
  | .text s => .ok (.list (s.toList.map fun c => .text c.toString))
  | _ => .error (.invalid .type)

def inequalityCones (cones : ConeTable) : Outcome α ConeTable := do
  let linear := match cones.get? .nonnegative with
    | none => []
    | some extent => [(Kind.cone .nonnegative, extent)]
  let secondOrder ← match cones.get? .secondOrder with
    | none => pure []
    | some extent => do pure [(Kind.cone .secondOrder, ← sizes extent)]
  return linear ++ secondOrder

def hasSemidefinite (cones : ConeTable) : Bool :=
  match cones.get? .semidefinite with
  | none | some (.list []) => false
  | some _ => true

def statusText : Int → Option String
  | 1 => some "Infeasible"
  | 2 => some "Unbounded"
  | 11 => some "Infeasible Inaccurate"
  | 12 => some "Unbounded Inaccurate"
  | _ => none

def accept (flag : Int) : Consulting α String := do
  if flag = 0 then return "Solved"
  if flag = 10 then
    Consulting.warn .inaccurate
    return "Solved/Inaccurate"
  if flag < 0 then throw (.solverErrored .ecos)
  match statusText flag with
  | some status => throw (.solverStatus .ecos status)
  | none => throw (.invalid .key)

def solve (solvers : Solvers α) (constraints : Constraints α n) (c : List α)
    (request : Request α) : Consulting α (Solution α) := do
  if hasSemidefinite constraints.cones then throw .semidefiniteRefused
  let count ← (equations constraints.cones constraints.rows constraints.b.length : Outcome α Nat)
  let rows := List.range constraints.rows
  let G ← Loose.takeRows constraints.A (rows.drop count)
  let A ← Loose.takeRows constraints.A (rows.take count)
  if 0 < count && A.size = 0 then throw .emptyEqualities
  let cones ← (inequalityCones constraints.cones : Outcome α ConeTable)
  let reply ← Consulting.ecos solvers {
    c, cones
    G := if count < constraints.rows then some G else none
    h := if count < constraints.b.length then some (constraints.b.drop count) else none
    A := if 0 < count then some A else none
    b := if 0 < count then some (constraints.b.take count) else none
    settings := request.settings.withDefault "verbose" (.flag false) }
  let status ← accept reply.exitFlag
  let s ← constraints.slack reply.x
  return {
    values := some ⟨reply.x, reply.y ++ reply.z, s⟩
    info := [("status", .text status), ("solveTime", reply.solveTime),
      ("setupTime", reply.setupTime), ("iter", reply.iterations), ("pobj", reply.cost)] }

end Ecos

namespace Clarabel

def placeBlock (order : List Nat) (block : Block) : Outcome α (List Nat) := do
  let span := block.span order.length
  let rows := (RowOrder.upper block.dim.toNat).map (block.start.toNat + ·)
  match rows with
  | [row] => return order.take span.start ++ List.replicate span.size row ++ order.drop span.stop
  | rows =>
    if rows.length ≠ span.size then throw (.invalid .value)
    return order.take span.start ++ rows ++ order.drop span.stop

def rowOrder (blocks : List Block) (size : Nat) : Outcome α (List Nat) :=
  (blocks.filter (·.kind = .cone .semidefinite)).foldlM placeBlock (List.range size)

def cones (blocks : List Block) : List (Cone × Int) :=
  blocks.filterMap fun block => match block.kind with
    | .cone .free => none
    | .cone cone => some (cone, block.dim)
    | _ => none

def statusText : String → String
  | "Solved" => "Solved"
  | "PrimalInfeasible" => "Infeasible"
  | "DualInfeasible" => "Unbounded"
  | "AlmostSolved" => "Solved/Inaccurate"
  | "AlmostPrimalInfeasible" => "Infeasible/Inaccurate"
  | "AlmostDualInfeasible" => "Unbounded/Inaccurate"
  | _ => "Failure"

def solve (solvers : Solvers α) (constraints : Constraints α n) (c : List α)
    (request : Request α) : Consulting α (Solution α) := do
  let blocks ← constraints.cones.blocks
  let order ← (rowOrder blocks constraints.b.length : Outcome α (List Nat))
  let A ← Loose.takeRows constraints.A order
  let b ← Loose.gather constraints.b order
  let reply ← Consulting.clarabel solvers {
    P := ⟨Sparse.empty c.length c.length⟩, c, A, b, cones := cones blocks
    settings := request.settings.withDefault "verbose" (.flag false) }
  let status := statusText reply.status
  if status = "Solved/Inaccurate" then Consulting.warn .inaccurate
  else if status ≠ "Solved" then throw (.solverStatus .clarabel status)
  let zeros := List.replicate constraints.b.length 0
  let y ← Loose.scatter zeros order reply.z
  let s ← Loose.scatter zeros order reply.s
  return {
    values := some ⟨reply.x, y, s⟩
    info := [("status", .text status), ("solveTime", reply.solveTime),
      ("setupTime", .integer (-1)), ("iter", reply.iterations), ("pobj", reply.cost)] }

end Clarabel

namespace Solve

/-- A program with a semidefinite cone goes to SCS if nothing else is asked for. -/
def methodFor (cones : ConeTable) (method : Setting α) : Outcome α String :=
  match method with
  | .absent => .ok (if Ecos.hasSemidefinite cones then "SCS" else "ECOS")
  | .text name => .ok (Text.capitals name)
  | _ => .error (.invalid .attribute)

def reduced (solvers : Solvers α) (constraints : Constraints α n) (c : List α)
    (request : Request α) : Consulting α (Solution α) := do
  match ← (methodFor constraints.cones request.method : Outcome α String) with
  | "SCS" => Scs.solve solvers constraints c request
  | "ECOS" =>
    if request.warmStart.isSome then throw (.warmStartRefused .ecos)
    else Ecos.solve solvers constraints c request
  | "CLARABEL" =>
    if request.warmStart.isSome then throw (.warmStartRefused .clarabel)
    else Clarabel.solve solvers constraints c request
  | name => throw (.unknownSolver name)

/-- Solves a program whose matrix and vectors are given as they are. -/
def full (solvers : Solvers α) (constraints : Constraints α n) (c : List α)
    (request : Request α) : Consulting α (Solution α) := do
  let (withoutFree, keep) ← constraints.dropFree
  let solution ← reduced solvers withoutFree c request
  match solution.values with
  | some values =>
    if keep.all id then return solution
    return { solution with values := some (← constraints.restoreFree keep values) }
  | none => return solution

def pointOf (solution : Solution α) : Outcome α (Values α × Sized (Point α)) := do
  match solution.values with
  | none => throw (.notVector .x [])
  | some values =>
    let tensor (x : List α) : Tensor α := .ofVector (⟨x.toArray, rfl⟩ : Vector α x.toArray.size)
    return (values, ← Point.ofTensors (tensor values.x) (tensor values.y) (tensor values.s))

variable [EigenSolver α]

structure Differentiable (α : Type) [Scalar α] [EigenSolver α] where
  values : Values α
  opened : Session.Open α

def withDerivative (solvers : Solvers α) (A : Data α) (b c : Tensor α) (cones : ConeTable)
    (request : Request α) (mode : Setting α) (derivative : Option (Settings α)) :
    Consulting α (Differentiable α) := do
  let program ← Program.ofData A b c (.table cones)
  let constraints : Constraints α program.cols := ⟨program.A, program.b.toList, cones⟩
  let solution ← full solvers constraints program.c.toList request
  let (values, point) ← pointOf solution
  match derivative with
  | some settings => return ⟨values, ← Session.new program (some point) mode settings⟩
  | none => throw (.invalid .type)

end Solve

end ConicDerivative
