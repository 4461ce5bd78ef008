import ConicDerivative.Packed

/-!
The order of the rows of a semidefinite block for solvers that store upper triangles by columns.
The upper cell `(i, j)` is the lower cell `(j, i)`, so the list of places of lower cells, taken in
the order of the upper ones, rearranges the rows.
-/

namespace ConicDerivative.RowOrder

/-- The places in the lower triangle of the cells of the upper one, column by column. -/
def upper (d : Nat) : List Nat :=
  (List.range d).flatMap fun j => (List.range (j + 1)).map fun i => Packed.position d i j

def ofBlock {α : Type} (side start : Int) : Outcome α (List Int) :=
  if side < 0 then .error (.invalid .value)
  else .ok ((upper side.toNat).map fun k => start + Int.ofNat k)

end ConicDerivative.RowOrder
