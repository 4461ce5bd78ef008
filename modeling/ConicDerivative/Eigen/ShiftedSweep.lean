import ConicDerivative.Eigen
import ConicDerivative.Eigen.Tridiagonal

/-!
Eigendecompositions from tridiagonal form. Sweeps of plane rotations with a shift make the couplings
of the rows vanish, those of the first rows fastest. A row without couplings is an eigenvalue with
its eigenvector, and two rows are solved in closed form.
-/

namespace ConicDerivative.Eigen

open Scalar

variable {α : Type} [Scalar α] {n : Nat}

structure Precision (α : Type) where
  /-- The relative error of rounding. -/
  unit : α
  /-- The smallest number that has full precision. -/
  least : α

def Precision.double : Precision α :=
  ⟨1 / ((Nat.pow 2 53 : Nat) : α), 1 / ((Nat.pow 2 1022 : Nat) : α)⟩

/-- The eigenvalues of a symmetric matrix of two rows, and the eigenvector of the first one. -/
structure Pair (α : Type) where
  first : α
  second : α
  cosine : α
  sine : α

def quarter (turned : Bool) (cosine sine : α) : α × α :=
  if turned then (-sine, cosine) else (cosine, sine)

def ofCotangent (cot : α) : α × α :=
  let sine := 1 / sqrt (1 + cot * cot)
  (cot * sine, sine)

/--
The matrix with diagonal `a`, `c` and `b` beside it. The eigenvalue of larger absolute value comes
first; the other one is their product divided by it, which loses no digits.
-/
def pair (a b c : α) : Pair α :=
  let sum := a + c
  let gap := a - c
  let width := abs gap
  let double := b + b
  let height := abs double
  let (large, small) := if abs c < abs a then (a, c) else (c, a)
  let root :=
    if height < width then width * sqrt (1 + square (height / width))
    else if width < height then height * sqrt (1 + square (width / height))
    else height * sqrt two
  let (first, second) :=
    if sum < 0 then
      let first := 1 / two * (sum - root)
      (first, large / first * small - b / first * b)
    else if 0 < sum then
      let first := 1 / two * (sum + root)
      (first, large / first * small - b / first * b)
    else (1 / two * root, -(1 / two) * root)
  let slope := if 0 ≤ gap then gap + root else gap - root
  let (cosine, sine) :=
    if height < abs slope then ofCotangent (-double / slope)
    else if isZero height then (1, 0)
    else (ofCotangent (-slope / double)).swap
  let (cosine, sine) := quarter (decide (0 ≤ gap) == !decide (sum < 0)) cosine sine
  ⟨first, second, cosine, sine⟩

def rotate (cosine sine : α) (x y : Vector α n) : Vector α n :=
  Vec.scale cosine x + Vec.scale sine y

def Row.uncouple (row next : Row α n) : List (Row α n) :=
  let p := pair row.diagonal row.coupling next.diagonal
  [⟨p.first, 0, rotate p.cosine p.sine row.vector next.vector⟩,
   ⟨p.second, 0, rotate p.cosine (-p.sine) next.vector row.vector⟩]

/-- The rotation that turns `(f, g)` onto the first axis, and the entry there. -/
structure Turn (α : Type) where
  cosine : α
  sine : α
  image : α

/-- The entries are scaled by the larger one, so that no square overflows. -/
def turn (f g : α) : Turn α :=
  if isZero g then ⟨1, 0, f⟩
  else if isZero f then ⟨0, sign g, abs g⟩
  else
    let scale := larger (abs f) (abs g)
    let x := f / scale
    let y := g / scale
    let length := sqrt (x * x + y * y)
    let image := if f < 0 then -length else length
    ⟨abs x / length, y / image, image * scale⟩

/-- A sweep on its way up: the row it has reached, the finished rows below and what it carries. -/
structure Sweep (α : Type) (n : Nat) where
  row : Row α n
  below : List (Row α n)
  bulge : α
  cosine : α
  sine : α
  shift : α

def Sweep.step (state : Sweep α n) (row : Row α n) : Sweep α n :=
  let next := state.row
  let b := state.cosine * row.coupling
  let t := turn state.bulge (state.sine * row.coupling)
  let g := next.diagonal - state.shift
  let r := (row.diagonal - g) * t.sine + two * t.cosine * b
  let shift := t.sine * r
  let finished : Row α n :=
    ⟨g + shift, if state.below.isEmpty then next.coupling else t.image,
      rotate t.cosine t.sine next.vector row.vector⟩
  { row := { row with vector := rotate t.cosine (-t.sine) row.vector next.vector }
    below := finished :: state.below, bulge := t.cosine * r - b
    cosine := t.cosine, sine := t.sine, shift }

def sweepTo (start : α → α) (row : Row α n) : List (Row α n) → Sweep α n
  | [] => ⟨row, [], start row.diagonal, 1, 1, 0⟩
  | next :: rest => (sweepTo start next rest).step row

def hypotenuse (x : α) : α :=
  let long := larger (abs x) 1
  let short := smaller (abs x) 1
  if isZero short then long else long * sqrt (1 + square (short / long))

/-- The rows after a sweep, shifted by the eigenvalue of the first two rows nearer to the first. -/
def sweep (first next : Row α n) (rest : List (Row α n)) : List (Row α n) :=
  let slope := (next.diagonal - first.diagonal) / (two * first.coupling)
  let root := hypotenuse slope
  let distance := first.coupling / (slope + (if slope < 0 then -root else root))
  let done := sweepTo (fun last => last - first.diagonal + distance) first (next :: rest)
  { done.row with diagonal := done.row.diagonal - done.shift, coupling := done.bulge } :: done.below

def Precision.neglects (p : Precision α) (row next : Row α n) : Bool :=
  decide (square (abs row.coupling) ≤
    square p.unit * abs row.diagonal * abs next.diagonal + p.least)

def Precision.firstRun (p : Precision α) : List (Row α n) → List (Row α n) × List (Row α n)
  | [] => ([], [])
  | [row] => ([row], [])
  | row :: next :: rest =>
    if p.neglects row next then ([{ row with coupling := 0 }], next :: rest)
    else
      let (run, others) := p.firstRun (next :: rest)
      (row :: run, others)

def Precision.converge (p : Precision α) : Nat → List (Row α n) → Option (List (Row α n))
  | _, [] => some []
  | 0, _ :: _ => none
  | steps + 1, rows =>
    match p.firstRun rows with
    | ([], _) => some []
    | ([row], others) => (row :: ·) <$> p.converge steps others
    | ([row, next], others) => (row.uncouple next ++ ·) <$> p.converge steps others
    | (row :: next :: rest, others) => p.converge steps (sweep row next rest ++ others)

/-- A coupling small against the geometric mean of the diagonal, which separates two runs. -/
def Precision.separates (p : Precision α) (row next : Row α n) : Bool :=
  isZero row.coupling ||
    decide (abs row.coupling ≤ sqrt (abs row.diagonal) * sqrt (abs next.diagonal) * p.unit)

def Precision.runs (p : Precision α) : List (Row α n) → List (List (Row α n))
  | [] => []
  | [row] => [[row]]
  | row :: next :: rest =>
    let tail := p.runs (next :: rest)
    if p.separates row next then [{ row with coupling := 0 }] :: tail
    else match tail with
      | [] => [[row]]
      | run :: others => (row :: run) :: others

def reversed (rows : List (Row α n)) : List (Row α n) :=
  let couplings := (rows.map (·.coupling)).dropLast.reverse ++ [0]
  rows.reverse.zipWith (fun row coupling => { row with coupling }) couplings

def oriented (rows : List (Row α n)) : List (Row α n) :=
  match rows.head?, rows.getLast? with
  | some first, some last => if abs last.diagonal < abs first.diagonal then reversed rows else rows
  | _, _ => rows

def scaleRows (a : α) (rows : List (Row α n)) : List (Row α n) :=
  rows.map fun row => { row with diagonal := row.diagonal * a, coupling := row.coupling * a }

/-- The size to which a run is brought before it is swept, if its own is out of bounds. -/
def Precision.safeSize (p : Precision α) (size : α) : α :=
  let most := sqrt (1 / p.least) / ((3 : Nat) : α)
  let least := sqrt p.least / square p.unit
  if most < size then most else if size < least then least else size

def Precision.solveRun (p : Precision α) (rows : List (Row α n)) : Option (List (Row α n)) :=
  match rows with
  | [] | [_] => some rows
  | rows =>
    let size : α := rows.foldl
      (fun most (row : Row α n) => larger (larger most (abs row.diagonal)) (abs row.coupling)) 0
    let safe := p.safeSize size
    scaleRows (size / safe) <$>
      p.converge (31 * rows.length) (oriented (scaleRows (safe / size) rows))

def Precision.scaling (p : Precision α) (size : α) : α :=
  let least := sqrt (p.least / (two * p.unit))
  let most := sqrt (two * p.unit / p.least)
  if 0 < size ∧ size < least then least / size
  else if most < size then most / size
  else 1

def ofRows (factor : α) (rows : List (Row α n)) : Option (Eigen α n) :=
  if h : rows.length = n then
    some ⟨Vector.ofFn fun j => (rows.get (j.cast h.symm)).diagonal * (1 / factor),
      Mat.ofFn fun i j => (rows.get (j.cast h.symm)).vector i⟩
  else none

def Precision.decompose (p : Precision α) (A : Mat α n n) : Option (Eigen α n) :=
  let factor :=
    if n ≤ 1 then 1 else p.scaling (magnitude (Vector.ofFn fun i => magnitude (A.rows i)))
  let rows := tridiagonal (Mat.ofFn fun i j => A i j * factor) (Mat.identity n).rows
  ((p.runs rows).mapM p.solveRun).bind fun solved => ofRows factor solved.flatten

instance solver : EigenSolver Float := ⟨Precision.double.decompose⟩

end ConicDerivative.Eigen
