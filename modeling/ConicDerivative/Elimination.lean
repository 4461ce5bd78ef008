import ConicDerivative.Mat

/-!
Triangular factorizations with row exchanges. A step takes the largest entry of the first column to
the top, stores the row and the column it belongs to, and goes on with what is left when their
product has been subtracted. Solving runs through the steps, and so does solving with the transpose.
-/

namespace ConicDerivative

/-- The steps of an elimination of a square matrix with `n` rows. -/
inductive Elimination (α : Type) : Nat → Type where
  | done : Elimination α 0
  | step {n : Nat} (row : Fin (n + 1)) (pivot : α) (upper lower : Vector α n)
      (rest : Elimination α n) : Elimination α (n + 1)

namespace Elimination

open Scalar

variable {α : Type} [Scalar α] {n : Nat}

/-- The index of the first entry with the largest absolute value. -/
def largest (x : Vector α (n + 1)) : Fin (n + 1) :=
  Fin.foldl (n + 1) (fun best i => if abs (x best) < abs (x i) then i else best) 0

def exchange (row i : Fin (n + 1)) : Fin (n + 1) :=
  if i = 0 then row else if i = row then 0 else i

theorem exchange_exchange (row i : Fin (n + 1)) : exchange row (exchange row i) = i := by
  unfold exchange
  by_cases first : i = 0
  · by_cases same : row = 0 <;> simp [first, same]
  · by_cases chosen : i = row <;> simp [first, chosen]

def exchanged (row : Fin (n + 1)) (x : Vector α (n + 1)) : Vector α (n + 1) :=
  Vector.ofFn fun i => x (exchange row i)

/-- The multiples of the first row that clear the first column; a column of zeros needs none. -/
def multiplier (pivot entry : α) : α := if isZero pivot then entry else entry / pivot

def eliminate : {n : Nat} → Mat α n n → Elimination α n
  | 0, _ => .done
  | n + 1, A =>
    let row := largest (A.column 0)
    let B : Mat α (n + 1) (n + 1) := Mat.ofFn fun i j => A (exchange row i) j
    let pivot := B 0 0
    let upper : Vector α n := Vector.ofFn fun j => B 0 j.succ
    let lower : Vector α n := Vector.ofFn fun i => multiplier pivot (B i.succ 0)
    .step row pivot upper lower
      (eliminate (Mat.ofFn fun i j => B i.succ j.succ - lower i * upper j))

def pivots : {n : Nat} → Elimination α n → List α
  | _, .done => []
  | _, .step _ pivot _ _ rest => pivot :: rest.pivots

def solve : {n : Nat} → Elimination α n → Vector α n → Vector α n
  | _, .done, _ => Vec.empty
  | _, .step row pivot upper lower rest, r =>
    let r := exchanged row r
    let z := rest.solve (Vec.tail r - Vec.scale (Vec.head r) lower)
    Vec.cons ((Vec.head r - Vec.dot upper z) / pivot) z

def solveTranspose : {n : Nat} → Elimination α n → Vector α n → Vector α n
  | _, .done, _ => Vec.empty
  | _, .step row pivot upper lower rest, r =>
    let w := Vec.head r / pivot
    let z := rest.solveTranspose (Vec.tail r - Vec.scale w upper)
    exchanged row (Vec.cons (w - Vec.dot lower z) z)

def pivotRange : List α → Option (α × α)
  | [] => none
  | pivot :: rest => some <| rest.foldl
      (fun (least, most) p => (smaller least (abs p), larger most (abs p)))
      (abs pivot, abs pivot)

end Elimination

end ConicDerivative
