import ConicDerivative.Mat

/-!
Tridiagonal form of symmetric matrices. One reflection after another clears a column below the
entry next to the diagonal; the basis is reflected along, so that the matrix is the same map in the
new basis.
-/

namespace ConicDerivative.Eigen

open Scalar

variable {α : Type} [Scalar α] {n k : Nat}

/-- A row of a tridiagonal matrix, with the basis vector that it belongs to. -/
structure Row (α : Type) (n : Nat) where
  diagonal : α
  /-- The entry that the row shares with the next one. -/
  coupling : α
  vector : Vector α n

def magnitude (x : Vector α n) : α := x.toList.foldl (fun most v => larger most (abs v)) 0

/-- The reflection `1 - weight * axis * axisᵀ`, and the entry that it leaves of a vector. -/
structure Reflection (α : Type) (k : Nat) where
  axis : Vector α k
  weight : α
  image : α

def reflection (x : Vector α (k + 1)) : Reflection α (k + 1) :=
  let scale := magnitude x
  let head := Vec.head x
  if isZero (magnitude (Vec.tail x)) then ⟨Vector.replicate _ 0, 0, head⟩
  else
    let length := scale * Vec.norm (x.map (· / scale))
    let image := if head < 0 then length else -length
    ⟨Vec.cons 1 ((Vec.tail x).map (· / (head - image))), (image - head) / image, image⟩

namespace Reflection

/-- The symmetric matrix `H B H`, for the reflection `H`. -/
def conjugate (h : Reflection α k) (B : Mat α k k) : Mat α k k :=
  let moved := Vec.scale h.weight (B.mulVec h.axis)
  let share := -(1 / two * h.weight * Vec.dot moved h.axis)
  let w := moved + Vec.scale share h.axis
  let cell (i j : Fin k) : α := B i j - h.axis i * w j - w i * h.axis j
  Mat.ofFn fun i j => if j ≤ i then cell i j else cell j i

def turn (h : Reflection α k) (basis : Vector (Vector α n) k) : Vector (Vector α n) k :=
  let along : Vector α n := Vector.ofFn fun l => sumOver k fun i => h.axis i * basis i l
  Vector.ofFn fun i => basis i - Vec.scale (h.weight * h.axis i) along

end Reflection

def tridiagonal : {k : Nat} → Mat α k k → Vector (Vector α n) k → List (Row α n)
  | 0, _, _ => []
  | 1, A, basis => [⟨A 0 0, 0, basis 0⟩]
  | k + 2, A, basis =>
    let below : Vector α (k + 1) := Vector.ofFn fun i => A i.succ 0
    let rest : Mat α (k + 1) (k + 1) := Mat.ofFn fun i j => A i.succ j.succ
    let h := reflection below
    ⟨A 0 0, h.image, basis 0⟩ ::
      if isZero h.weight then tridiagonal rest (Vec.tail basis)
      else tridiagonal (h.conjugate rest) (h.turn (Vec.tail basis))

end ConicDerivative.Eigen
