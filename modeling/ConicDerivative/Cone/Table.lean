import ConicDerivative.Cone.Block
import ConicDerivative.Text.Integer

/-!
Tables of cone sizes. A table gives for each kind a number of rows or a list of sizes. It is read in
the solver's order, whatever the order of its keys, and written back with adjacent runs of rows
merged.
-/

namespace ConicDerivative

/-- A value of a table, as it may come from a file. -/
inductive Extent where
  | integer (n : Int)
  | real (x : Float)
  | flag (b : Bool)
  | text (s : String)
  | absent
  | list (items : List Extent)

namespace Extent

def items : Extent → List Extent
  | list items => items
  | extent => [extent]

/-- A running sum, which stays a whole number until a double is added. -/
inductive Total where
  | integer (n : Int)
  | real (x : Float)

namespace Total

def isZero : Total → Bool
  | integer n => n == 0
  | real x => x == 0

def nearest (n : Int) : Except LayoutError Float :=
  let x := Float.ofInt n
  if x.isInf then .error .entryTooLarge else .ok x

def asReal : Total → Except LayoutError Float
  | integer n => nearest n
  | real x => .ok x

def addInteger (n : Int) : Total → Except LayoutError Total
  | integer total => .ok (integer (total + n))
  | real total => do return real (total + (← nearest n))

def add (total : Total) : Extent → Except LayoutError Total
  | .integer n => total.addInteger n
  | .flag b => total.addInteger b.toNat
  | .real x => do return real ((← total.asReal) + x)
  | .text _ | .absent | .list _ => .error .notANumber

end Total

def isEmpty (extent : Extent) : Except LayoutError Bool :=
  Total.isZero <$> extent.items.foldlM Total.add (.integer 0)

def toInteger : Extent → Except LayoutError Int
  | integer n => .ok n
  | flag b => .ok b.toNat
  | real x =>
    if x.isNaN then .error .notAnInteger
    else if x.isInf then .error .infiniteEntry
    else .ok (Binary64.truncate x)
  | text s => (Text.Integer.value? s).elim (.error .notAnInteger) .ok
  | absent | list _ => .error .notANumber

end Extent

abbrev ConeTable := List (Kind × Extent)

namespace ConeTable

def insert (table : ConeTable) (kind : Kind) (extent : Extent) : ConeTable :=
  if table.any (·.1 = kind) then
    table.map fun entry => if entry.1 = kind then (kind, extent) else entry
  else table ++ [(kind, extent)]

def ofPairs (pairs : List (Kind × Extent)) : ConeTable :=
  pairs.foldl (fun table (kind, extent) => table.insert kind extent) []

def get? (table : ConeTable) (cone : Cone) : Option Extent :=
  (table.find? (·.1 = .cone cone)).map (·.2)

def erase (table : ConeTable) (cone : Cone) : ConeTable := table.filter (·.1 ≠ .cone cone)

/-- Refuses the first key that is no cone and whose value is not empty. -/
def checkKeys (table : ConeTable) : Except LayoutError Unit := do
  let refused ← (table.filter (·.1.cone?.isNone)).filterM fun (_, extent) =>
    not <$> extent.isEmpty
  match refused with
  | [] => return
  | (kind, _) :: _ => throw (.unsupported kind)

/-- The dimensions of the blocks of one cone; a zero stands for no block. -/
def dimensions (cone : Cone) (extent : Extent) : Except LayoutError (List (Kind × Int)) := do
  let dims ← extent.items.mapM fun item => do
    let dim ← item.toInteger
    if dim < 0 then throw (.negativeDimension cone dim)
    return dim
  return (dims.filter (0 < ·)).map (.cone cone, ·)

def blocks (table : ConeTable) : Except LayoutError (List Block) := do
  table.checkKeys
  let dims ← Cone.solverOrder.mapM fun cone =>
    match table.get? cone with
    | none => return []
    | some extent => dimensions cone extent
  Block.layOut dims.flatten 0

/-- Adds a block to the table, to the run of rows of its kind or to the list of sizes. -/
def addBlock (table : ConeTable) (cone : Cone) (dim : Int) : ConeTable :=
  let old := table.get? cone
  let extent : Extent :=
    if cone.isListed then .list ((old.map Extent.items).getD [] ++ [.integer dim])
    else match old with
      | some (.integer n) => .integer (n + dim)
      | _ => .integer dim
  table.insert (.cone cone) extent

def ofBlocks (blocks : List Block) : Except LayoutError ConeTable := do
  let cones ← blocks.mapM fun block =>
    match block.kind with
    | .cone cone => return (cone, block.dim)
    | kind => throw (LayoutError.unsupported kind)
  let ranks := cones.map (·.1.rank)
  if (ranks.zip ranks.tail).any fun (first, second) => second < first then throw .outOfOrder
  return cones.foldl (fun table (cone, dim) => table.addBlock cone dim) []

end ConeTable

/-- The cones of a program, as a table or block by block; a block may lack a field. -/
inductive Layout where
  | table (table : ConeTable)
  | rows (blocks : List (Option Block))

def Layout.blocks : Layout → Except LayoutError (List Block)
  | table t => t.blocks
  | rows bs => (bs.mapM id).elim (.error .malformedBlock) .ok

end ConicDerivative
