import ConicDerivative.LeastSquares.Bidiagonal

/-!
The conjugate-gradient like method on the normal equations that minimises the residual.
-/

namespace ConicDerivative.LeastSquares.Lsqr

open Scalar

variable {α : Type} [Scalar α] {n : Nat}

structure State (α : Type) (n : Nat) where
  process : Bidiagonal α n
  x : Vector α n
  w : Vector α n
  rhoBar : α
  phiBar : α
  normA : α
  sumD : α
  sumX : α
  z : α
  cosine : α
  sine : α

def start (A : Operator α n n) (r : Vector α n) : State α n :=
  let process := Bidiagonal.start A r
  { process, x := Vector.replicate n 0, w := process.v, rhoBar := process.alpha
    phiBar := process.beta, normA := 0, sumD := 0, sumX := 0, z := 0, cosine := -1, sine := 0 }

def step (A : Operator α n n) (state : State α n) : State α n × Estimates α :=
  let process := Bidiagonal.next A state.process
  let normA :=
    if 0 < process.beta then
      sqrt (square state.normA + square state.process.alpha + square process.beta)
    else state.normA
  let turn := rotation state.rhoBar process.beta
  let rho := turn.length
  let theta := turn.sine * process.alpha
  let rhoBar := -turn.cosine * process.alpha
  let phi := turn.cosine * state.phiBar
  let phiBar := turn.sine * state.phiBar
  let x := state.x + Vec.scale (phi / rho) state.w
  let w := process.v + Vec.scale (-theta / rho) state.w
  let sumD := state.sumD + square (Vec.norm (Vec.scale (1 / rho) state.w))
  let delta := state.sine * rho
  let gammaBar := -state.cosine * rho
  let rhs := phi - delta * state.z
  let normX := sqrt (state.sumX + square (rhs / gammaBar))
  let gamma := sqrt (square gammaBar + square theta)
  let z := rhs / gamma
  let condA := normA * sqrt sumD
  let normR := sqrt (square phiBar)
  let normal := some (process.alpha * abs (turn.sine * phi) / (normA * normR + epsilon))
  ({ process, x, w, rhoBar, phiBar, normA, sumD, sumX := state.sumX + square z, z
     cosine := gammaBar / gamma, sine := theta / gamma },
   { normA, condA, normR, normX, normal, reciprocal := 1 / (condA + epsilon) })

def run (A : Operator α n n) (tol : Tolerances α) (normB : α) : Nat → State α n → Vector α n
  | 0, state => state.x
  | limit + 1, state =>
    let (next, estimates) := step A state
    if isDone tol normB estimates then next.x else run A tol normB limit next

def solve (A : Operator α n n) (tol : Tolerances α) (limit : Nat) (r : Vector α n) :
    Vector α n :=
  if isSolvedByZero A r then Vector.replicate n 0
  else run A tol (Vec.norm r) limit (start A r)

end ConicDerivative.LeastSquares.Lsqr
