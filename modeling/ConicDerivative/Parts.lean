import ConicDerivative.Elimination

/-!
Systems that fall into parts. Two rows belong together if they have nonzero cells in one column;
such rows and their columns make up a system of their own, whose solution does not depend on the
other parts. This matters where a right-hand side is not finite: it spoils its own part only.
-/

namespace ConicDerivative

open Scalar

variable {α : Type} [Scalar α] {n : Nat}

/-- The rows and the columns of a part of a square matrix. -/
structure Part (n : Nat) where
  rows : List (Fin n)
  columns : List (Fin n)

namespace Part

def columnsOf (A : Mat α n n) (rows : List (Fin n)) : List (Fin n) :=
  (List.finRange n).filter fun j => rows.any fun i => !isZero (A i j)

def rowsOf (A : Mat α n n) (columns : List (Fin n)) : List (Fin n) :=
  (List.finRange n).filter fun i => columns.any fun j => !isZero (A i j)

/-- The part of a row. It is reached in as many rounds as there are rows. -/
def ofRow (A : Mat α n n) (i : Fin n) : Part n :=
  let rows := (List.range n).foldl (fun rows _ => rowsOf A (columnsOf A rows)) [i]
  ⟨rows, columnsOf A rows⟩

def solveInto (part : Part n) (A : Mat α n n) (transposed : Bool) (r z : Vector α n) :
    Vector α n :=
  if h : part.columns.length = part.rows.length then
    let column (j : Fin part.rows.length) : Fin n := part.columns.get (j.cast h.symm)
    let steps := Elimination.eliminate (Mat.ofFn fun i j => A (part.rows.get i) (column j))
    let write (place : Fin part.rows.length → Fin n) (w : Vector α part.rows.length) :=
      Fin.foldl part.rows.length (fun z i => z.set (place i) (w i)) z
    if transposed then
      write part.rows.get (steps.solveTranspose (Vector.ofFn fun j => r (column j)))
    else write column (steps.solve (Vector.ofFn fun i => r (part.rows.get i)))
  else z

end Part

namespace Parts

def ofMat (A : Mat α n n) : List (Part n) :=
  (List.finRange n).foldl
    (fun parts i => if parts.any (i ∈ ·.rows) then parts else parts ++ [Part.ofRow A i]) []

def solve (A : Mat α n n) (transposed : Bool) (r : Vector α n) : Vector α n :=
  (ofMat A).foldl (fun z part => part.solveInto A transposed r z) (Vector.replicate n 0)

end Parts

end ConicDerivative
