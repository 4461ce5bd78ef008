import ConicDerivative.Projection

/-!
Cone programs: minimise `cᵀx` subject to `Ax + s = b` with `s` in a product of cones. Reading the
data of a program checks it once and for all: the matrix holds no NaN and is in normal form, the
vectors fit it, and the blocks of the cone tile its rows.
-/

namespace ConicDerivative

structure Program (α : Type) where
  {rows : Nat}
  {cols : Nat}
  A : Sparse α rows cols
  b : Vector α rows
  c : Vector α cols
  blocks : List Block
  tiling : Block.checkTiling blocks rows = .ok ()

namespace Program

variable {α : Type}

def text (program : Program α) : String :=
  "ProblemData(m=" ++ toString program.rows ++ ", n=" ++ toString program.cols ++ ", cones=" ++
    toString program.blocks.length ++ " blocks)"

/-- The sizes of the cones, if the blocks stand in the solver's order. -/
def table (program : Program α) : Except LayoutError ConeTable :=
  ConeTable.ofBlocks program.blocks

variable [Scalar α]

def vectorOf (field : Field) (n : Nat) (t : Tensor α) : Outcome α (Vector α n) := do
  let _ ← t.toColumn field
  t.expect field n

/-- A matrix without NaN in normal form: no cell twice, and no zero. -/
def matrixOf (data : Data α) : Outcome α (Sized (Sparse α)) := do
  let A ← data.toSparse
  if A.value.hasNaN then throw .nanInMatrix
  return ⟨A.value.sumDuplicates.dropZeros⟩

def ofData (A : Data α) (b c : Tensor α) (layout : Layout) : Outcome α (Program α) := do
  let A ← matrixOf A
  let b ← vectorOf .b A.rows b
  let c ← vectorOf .c A.cols c
  let blocks ← layout.blocks
  match tiling : Block.checkTiling blocks A.rows with
  | .ok () => return ⟨A.value, b, c, blocks, tiling⟩
  | .error cause => throw (.layout cause)

end Program

structure Point (α : Type) (m n : Nat) where
  x : Vector α n
  y : Vector α m
  s : Vector α m

namespace Point

variable {α : Type} {m n : Nat}

def ofTensors (x y s : Tensor α) : Outcome α (Sized (Point α)) := do
  let x ← x.toColumn .x
  let y ← y.toColumn .y
  let _ ← s.toColumn .s
  let s ← s.expect .s y.size
  return ⟨⟨x.entries, y.entries, s⟩⟩

def text (point : Sized (Point α)) : String :=
  "OptimalPoint(n=" ++ toString point.cols ++ ", m=" ++ toString point.rows ++ ")"

def fit (point : Sized (Point α)) (m n : Nat) : Outcome α (Point α m n) :=
  if hn : point.cols = n then
    if hm : point.rows = m then
      .ok ⟨point.value.x.cast hn, point.value.y.cast hm, point.value.s.cast hm⟩
    else .error (.wrongShape .y [point.rows] [m])
  else .error (.wrongShape .x [point.cols] [n])

theorem fit_mk (point : Point α m n) : fit ⟨point⟩ m n = .ok point := by
  simp [fit]

end Point

structure Residuals (α : Type) where
  primal : α
  dual : α
  gap : α
  slackCone : α
  dualCone : α

namespace Program

variable {α : Type} [Scalar α] [EigenSolver α]

def residuals (program : Program α) (point : Point α program.rows program.cols) :
    Outcome α (Residuals α) := do
  let slack ← ProductCone.project program.blocks point.s false
  let dual ← ProductCone.project program.blocks point.y true
  return {
    primal := Vec.norm (program.A.mulVec point.x + point.s - program.b)
    dual := Vec.norm (program.A.transposeMulVec point.y + program.c)
    gap := Scalar.abs (Vec.dot point.s point.y)
    slackCone := Vec.norm (point.s - slack)
    dualCone := Vec.norm (point.y - dual) }

end Program

end ConicDerivative
