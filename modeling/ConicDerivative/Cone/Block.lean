import ConicDerivative.Binary64
import ConicDerivative.Cone.Kind

/-!
Blocks of rows. A product cone is a list of blocks, each a cone with its rows. Blocks laid out one
after another from row zero partition the rows; `checkTiling` accepts exactly such lists.
-/

namespace ConicDerivative

/--
One cone of a product, on the rows from `start` up to `stop`. Its dimension is the number of rows,
or for the semidefinite cone the side of the matrix.
-/
structure Block where
  kind : Kind
  dim : Int
  start : Int
  stop : Int
  deriving DecidableEq

inductive LayoutError where
  | unsupported (kind : Kind)
  | negativeDimension (cone : Cone) (dim : Int)
  | misplaced (block : Block) (row : Int)
  | negativeSize (block : Block)
  | wrongSpan (block : Block) (expected : Int)
  | wrongTotal (covered rows : Int)
  | outOfOrder
  | sizeTooLarge
  | malformedBlock
  | notAnInteger
  | notANumber
  | infiniteEntry
  | entryTooLarge

namespace Block

def size (block : Block) : Int := block.stop - block.start

def text (block : Block) : String :=
  "ConeBlock(kind=" ++ block.kind.text ++ ", dim=" ++ toString block.dim ++ ", start=" ++
    toString block.start ++ ", stop=" ++ toString block.stop ++ ")"

end Block

/--
The number of entries in one triangle of a symmetric matrix with the given side, rounded to a
double on the way.
-/
def packedSize (side : Int) : Except LayoutError Nat :=
  match Binary64.round (side * (side + 1) / 2).toNat with
  | some size => .ok size
  | none => .error .sizeTooLarge

/-- The side of the symmetric matrix that a triangle of `size` entries could belong to. -/
def packedSide (size : Nat) : Nat := Binary64.wholeSquareRoot ((Binary64.round (2 * size)).getD 0)

def packedSideOf (size : Int) : Except LayoutError Nat :=
  if size < -Int.pow 2 62 ∨ Int.pow 2 63 ≤ size then .error .notANumber
  else if size < 0 then .error .notAnInteger
  else .ok (packedSide size.toNat)

namespace Kind

def dual : Kind → Except LayoutError Kind
  | cone c => .ok (cone c.dual)
  | kind => .error (.unsupported kind)

def rowCount (kind : Kind) (dim : Int) : Except LayoutError Int :=
  match kind with
  | cone .semidefinite => (packedSize dim).map Int.ofNat
  | cone _ => .ok dim
  | kind => .error (.unsupported kind)

end Kind

namespace Block

def layOut : List (Kind × Int) → Int → Except LayoutError (List Block)
  | [], _ => .ok []
  | (kind, dim) :: rest, offset => do
    let size ← kind.rowCount dim
    let blocks ← layOut rest (offset + size)
    return ⟨kind, dim, offset, offset + size⟩ :: blocks

/-- The end of the last block, if the blocks follow one another from the row `offset`. -/
def checkFrom : List Block → Int → Except LayoutError Int
  | [], offset => .ok offset
  | block :: rest, offset => do
    if block.start ≠ offset then throw (.misplaced block offset)
    if block.stop < block.start then throw (.negativeSize block)
    let expected ← block.kind.rowCount block.dim
    if block.size ≠ expected then throw (.wrongSpan block expected)
    checkFrom rest block.stop

def checkTiling (blocks : List Block) (rows : Int) : Except LayoutError Unit := do
  let covered ← checkFrom blocks 0
  if covered ≠ rows then throw (.wrongTotal covered rows)

end Block

end ConicDerivative
