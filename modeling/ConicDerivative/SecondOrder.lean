import ConicDerivative.Mat

/-!
The second-order cone of the pairs `(t, z)` with `‖z‖ ≤ t`. A point near the surface counts as
inside, within an absolute and a relative tolerance.
-/

namespace ConicDerivative.SecondOrder

open Scalar

variable {α : Type} [Scalar α] {n : Nat}

inductive Region where
  | inside
  | polar
  | between
  deriving DecidableEq

/-- Whether the norm differs from a finite `t` by no more than the tolerance. -/
def isClose (t norm : α) : Bool :=
  decide (abs (norm - t) ≤ 1e-8 + 1e-5 * abs t) && isFinite t

def region (t norm : α) : Region :=
  if norm ≤ t ∨ isClose t norm then .inside
  else if norm ≤ -t then .polar
  else .between

def regionOf? : {k : Nat} → Vector α k → Option Region
  | 0, _ => none
  | _ + 1, x => some (region (Vec.head x) (Vec.norm (Vec.tail x)))

def half : α := 0.5

def project (x : Vector α (n + 1)) : Vector α (n + 1) :=
  let t := Vec.head x
  let z := Vec.tail x
  let norm := Vec.norm z
  match region t norm with
  | .inside => x
  | .polar => Vector.replicate (n + 1) 0
  | .between => Vec.scale (half * (1 + t / norm)) (Vec.cons norm z)

def derivativeBetween (t norm : α) (z : Vector α n) : Mat α (n + 1) (n + 1) :=
  let unit := z.map (· / norm)
  let identity := Mat.identity n
  Mat.ofFn fun i j => half * Fin.cases
    (Fin.cases 1 (fun j => unit j) j)
    (fun i => Fin.cases (unit i)
      (fun j => (1 + t / norm) * identity i j - t / norm * (unit i * unit j)) j) i

def derivative (x : Vector α (n + 1)) : Mat α (n + 1) (n + 1) :=
  let t := Vec.head x
  let z := Vec.tail x
  let norm := Vec.norm z
  match region t norm with
  | .inside => Mat.identity (n + 1)
  | .polar => Mat.ofFn fun _ _ => 0
  | .between => derivativeBetween t norm z

end ConicDerivative.SecondOrder
