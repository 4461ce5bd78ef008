import ConicDerivative.Solve

/-!
Several programs at once. Each list of data holds one entry per program; the answers, and those of
the derivatives, come back in the order of the programs. One failure fails the whole batch.
-/

namespace ConicDerivative

variable {α : Type} [Scalar α] [EigenSolver α]

structure BatchData (α : Type) where
  matrices : List (Data α)
  offsets : List (Tensor α)
  objectives : List (Tensor α)
  cones : List ConeTable
  warmStarts : Option (List (Option (List (List α)))) := none

def BatchData.programs (data : BatchData α) :
    List (Data α × Tensor α × Tensor α × ConeTable × Option (List (List α))) :=
  let warmStarts := data.warmStarts.getD (List.replicate data.matrices.length none)
  data.matrices.zip (data.offsets.zip (data.objectives.zip (data.cones.zip warmStarts)))

structure Solutions (α : Type) where
  xs : List (List α)
  ys : List (List α)
  ss : List (List α)

structure Directions (α : Type) where
  dxs : List (Tensor.Column α)
  dys : List (Tensor.Column α)
  dss : List (Tensor.Column α)

structure Gradients (α : Type) where
  dAs : List (Sized (Mat α))
  dbs : List (Tensor.Column α)
  dcs : List (Tensor.Column α)

def Directions.ofList (directions : List (Sized (Direction α))) : Directions α where
  dxs := directions.map fun d => ⟨d.value.dx⟩
  dys := directions.map fun d => ⟨d.value.dy⟩
  dss := directions.map fun d => ⟨d.value.ds⟩

def Gradients.ofList (gradients : List (Sized (Gradient α))) : Gradients α where
  dAs := gradients.map fun g => ⟨g.value.dA⟩
  dbs := gradients.map fun g => ⟨g.value.db⟩
  dcs := gradients.map fun g => ⟨g.value.dc⟩

/-- The solved programs of a batch, which was asked for `size` of them. -/
structure SolvedBatch (α : Type) [Scalar α] [EigenSolver α] where
  size : Nat
  solved : List (Solve.Differentiable α)

namespace Solve

def single (solvers : Solvers α) (request : Request α) (mode : Setting α)
    (derivative : Option (Settings α)) :
    Data α × Tensor α × Tensor α × ConeTable × Option (List (List α)) →
      Consulting α (Differentiable α)
  | (A, b, c, cones, warmStart) =>
    withDerivative solvers A b c cones { request with warmStart } mode derivative

/-- Solves as many programs as all lists have entries for. -/
def batch (solvers : Solvers α) (pool : Batch.Pool) (data : BatchData α) (request : Request α)
    (mode : Setting α) (derivative : Option (Settings α)) : Consulting α (SolvedBatch α) := do
  let solved ← Batch.mapM pool (single solvers request mode derivative) data.programs
  return ⟨data.matrices.length, solved⟩

end Solve

namespace SolvedBatch

def entry {β : Type} (items : List β) (i : Nat) : Outcome α β :=
  (items[i]?).elim (.error (.invalid .index)) .ok

def update (batch : SolvedBatch α) (opened : List (Session.Open α)) : SolvedBatch α :=
  { batch with solved := batch.solved.zipWith (fun item opened => { item with opened }) opened }

def turn {β γ : Type} (batch : SolvedBatch α) (argument : Nat → Outcome α γ)
    (request : Session.Open α → γ → Outcome α β × Session.Open α) (i : Nat) :
    Outcome α (β × Session.Open α) := do
  let item ← entry batch.solved i
  let value ← argument i
  let (outcome, opened) := request item.opened value
  return (← outcome, opened)

def answers {β γ : Type} (batch : SolvedBatch α) (pool : Batch.Pool)
    (argument : Nat → Outcome α γ)
    (request : Session.Open α → γ → Outcome α β × Session.Open α) :
    Outcome α (List β) × SolvedBatch α :=
  match Batch.mapM pool (batch.turn argument request) (List.range batch.size) with
  | .ok results => (.ok (results.map (·.1)), batch.update (results.map (·.2)))
  | .error cause => (.error cause, batch)

def forward (batch : SolvedBatch α) (pool : Batch.Pool) (dAs dbs dcs : List (Option (Data α))) :
    Outcome α (List (Sized (Direction α))) × SolvedBatch α :=
  batch.answers pool
    (fun i => do return ChangeData.mk (← entry dAs i) (← entry dbs i) (← entry dcs i))
    Session.Open.forward

def backward (batch : SolvedBatch α) (pool : Batch.Pool) (dxs dys dss : List (Option (Data α))) :
    Outcome α (List (Sized (Gradient α))) × SolvedBatch α :=
  batch.answers pool
    (fun i => do return DirectionData.mk (← entry dxs i) (← entry dys i) (← entry dss i))
    Session.Open.backward

def solutions (batch : SolvedBatch α) : Solutions α where
  xs := batch.solved.map (·.values.x)
  ys := batch.solved.map (·.values.y)
  ss := batch.solved.map (·.values.s)

def directions (batch : SolvedBatch α) (pool : Batch.Pool)
    (dAs dbs dcs : List (Option (Data α))) : Outcome α (Directions α) × SolvedBatch α :=
  (batch.forward pool dAs dbs dcs).map (·.map Directions.ofList) id

def gradients (batch : SolvedBatch α) (pool : Batch.Pool)
    (dxs dys dss : List (Option (Data α))) : Outcome α (Gradients α) × SolvedBatch α :=
  (batch.backward pool dxs dys dss).map (·.map Gradients.ofList) id

end SolvedBatch

end ConicDerivative
