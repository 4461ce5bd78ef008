import ConicDerivative.Tensor

/-!
Random matrices with the nonzero cells of a given one.
-/

namespace ConicDerivative.RandomFill

variable {α : Type} [Scalar α] {m n : Nat}

/--
The nonzero cells of a stored matrix. They are taken row by row, and within a row in stored order;
a listed matrix keeps the order of its list.
-/
def storedCells (A : Stored α m n) : List (Fin m × Fin n) :=
  let cells := (A.entries.filter fun (_, _, v) => !Scalar.isZero v).map fun (i, j, _) => (i, j)
  match A.storage with
  | .listed => cells
  | .byColumn | .byRow => (List.finRange m).flatMap fun i => cells.filter (·.1 = i)

def denseCells (A : Mat α m n) : List (Fin m × Fin n) :=
  (List.finRange m).flatMap fun i =>
    ((List.finRange n).filter fun j => !Scalar.isZero (A i j)).map fun j => (i, j)

/-- Writes the first values into the cells; values for one cell are added up. -/
def fill (cells : List (Fin m × Fin n)) (values : List α) : Outcome α (Sparse α m n) :=
  if values.length < cells.length then .error (.invalid .value)
  else .ok <| Sparse.sumDuplicates <|
    .ofEntries (cells.zipWith (fun (i, j) v => (i, j, v)) values)

def ofPattern (A : Data α) (values : List α) : Outcome α (Sized (Sparse α)) :=
  match A with
  | .sparse _ _ A => do return ⟨← fill (storedCells A) values⟩
  | .dense t =>
    match t.shape with
    | [m, n] =>
      match t.toMat? m n with
      | some A => do return ⟨← fill (denseCells A) values⟩
      | none => .error (.invalid .value)
    | _ => .error (.invalid .value)

end ConicDerivative.RandomFill
