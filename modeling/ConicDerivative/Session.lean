import ConicDerivative.Batch
import ConicDerivative.Linearization

/-!
Sessions on one program. The system at the current point is built and factorized when it is first
needed and kept until the point changes. Every request gives its answer and the state it leaves;
a request that fails keeps the point, and the factorization if there was one.
-/

namespace ConicDerivative

structure Session (α : Type) where
  program : Program α
  method : Method
  settings : Settings α

namespace Session

variable {α : Type} [Scalar α] [EigenSolver α]

/-- The point of a session, and the factorized system there if it has been needed. -/
structure State (session : Session α) where
  point : Option (Point α session.program.rows session.program.cols)
  prepared : Option (Linearization α session.program.rows session.program.cols)

def form : Method → Form
  | .lu => .sparse
  | .dense => .dense
  | .lsqr | .lsmr => .operator

variable (session : Session α)

def prepare (point : Point α session.program.rows session.program.cols) :
    Outcome α (Linearization α session.program.rows session.program.cols) := do
  let system ← session.program.systemAt point (form session.method)
  let options ← SolverOptions.ofSettings session.method session.settings
  let (outcome, solver) := (SystemSolver.new options).factorize ⟨system.jacobian⟩
  outcome
  return ⟨system, solver⟩

variable {session}

namespace State

def start : State session := ⟨none, none⟩

def isReady (state : State session) : Bool := state.prepared.isSome

def ready (state : State session) :
    Outcome α (Linearization α session.program.rows session.program.cols) :=
  match state.prepared, state.point with
  | some d, _ => .ok d
  | none, some point => session.prepare point
  | none, none => .error .noPoint

/-- Answers a request with the factorized system, which is then kept. -/
def answer {β : Type} (state : State session)
    (request : Linearization α session.program.rows session.program.cols → Outcome α β) :
    Outcome α β × State session :=
  match state.ready with
  | .ok d => (request d, { state with prepared := some d })
  | .error cause => (.error cause, state)

/-- Answers a request once its argument has been read; a wrong argument changes nothing. -/
def answerWith {β γ : Type} (state : State session) (argument : Outcome α γ)
    (request : Linearization α session.program.rows session.program.cols → γ → Outcome α β) :
    Outcome α β × State session :=
  match argument with
  | .ok value => state.answer (request · value)
  | .error cause => (.error cause, state)

def factorize (state : State session) : Outcome α Unit × State session :=
  state.answer fun _ => .ok ()

def moveTo (state : State session) (point : Sized (Point α)) :
    Outcome α Unit × State session :=
  match Point.fit point session.program.rows session.program.cols with
  | .ok point => (.ok (), ⟨some point, none⟩)
  | .error cause => (.error cause, state)

def forward (state : State session) (change : ChangeData α) :
    Outcome α (Direction α session.program.rows session.program.cols) × State session :=
  state.answerWith (change.fit session.program.rows session.program.cols) Linearization.forward

def backward (state : State session) (target : DirectionData α) :
    Outcome α (Gradient α session.program.rows session.program.cols) × State session :=
  state.answerWith (target.fit session.program.rows session.program.cols) Linearization.backward

def forwardAll (state : State session) (pool : Batch.Pool)
    (changes : List (List (Option (Data α)))) :
    Outcome α (List (Direction α session.program.rows session.program.cols)) × State session :=
  state.answerWith
    (changes.mapM fun parts => do
      (← ChangeData.ofList parts).fit session.program.rows session.program.cols)
    fun d changes => Batch.mapM pool d.forward changes

def backwardAll (state : State session) (pool : Batch.Pool)
    (targets : List (List (Option (Data α)))) :
    Outcome α (List (Gradient α session.program.rows session.program.cols)) × State session :=
  state.answerWith
    (targets.mapM fun parts => do
      (← DirectionData.ofList parts).fit session.program.rows session.program.cols)
    fun d targets => Batch.mapM pool d.backward targets

end State

structure Open (α : Type) [Scalar α] [EigenSolver α] where
  session : Session α
  state : State session

/-- The names of a session itself and of what it is opened with, which no setting may have. -/
def reservedNames : List String := ["self", "problem", "point", "mode"]

def new (program : Program α) (point : Option (Sized (Point α))) (mode : Setting α)
    (settings : Settings α) : Outcome α (Open α) := do
  if reservedNames.any fun name => (settings.get? name).isSome then throw (.invalid .type)
  match mode.method? with
  | none => throw (.unknownMode mode)
  | some method =>
    let session : Session α := ⟨program, method, settings⟩
    match point with
    | none => return ⟨session, .start⟩
    | some point =>
      let (outcome, state) := (State.start : State session).moveTo point
      outcome
      return ⟨session, state⟩

namespace Open

def forward (opened : Open α) (change : ChangeData α) :
    Outcome α (Sized (Direction α)) × Open α :=
  let (outcome, state) := opened.state.forward change
  (outcome.map fun d => ⟨d⟩, ⟨opened.session, state⟩)

def backward (opened : Open α) (target : DirectionData α) :
    Outcome α (Sized (Gradient α)) × Open α :=
  let (outcome, state) := opened.state.backward target
  (outcome.map fun g => ⟨g⟩, ⟨opened.session, state⟩)

end Open

end Session

end ConicDerivative
