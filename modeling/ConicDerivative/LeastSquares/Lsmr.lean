import ConicDerivative.LeastSquares.Bidiagonal

/-!
The method that minimises the residual of the normal equations. A second rotation of each step turns
the triangular matrix of the first one into a triangular matrix again.
-/

namespace ConicDerivative.LeastSquares.Lsmr

open Scalar

variable {α : Type} [Scalar α] {n : Nat}

structure State (α : Type) (n : Nat) where
  process : Bidiagonal α n
  x : Vector α n
  h : Vector α n
  hBar : Vector α n
  zetaBar : α
  alphaBar : α
  rho : α
  rhoBar : α
  cosineBar : α
  sineBar : α
  zeta : α
  betaDD : α
  betaD : α
  rhoD : α
  tau : α
  theta : α
  sumA : α
  largest : α
  smallest : α
  isFirst : Bool

def start (A : Operator α n n) (r : Vector α n) : State α n :=
  let process := Bidiagonal.start A r
  { process, x := Vector.replicate n 0, h := process.v, hBar := Vector.replicate n 0
    zetaBar := process.alpha * process.beta, alphaBar := process.alpha, rho := 1, rhoBar := 1
    cosineBar := 1, sineBar := 0, zeta := 0, betaDD := process.beta, betaD := 0, rhoD := 1
    tau := 0, theta := 0, sumA := square process.alpha, largest := 0, smallest := 1e100
    isFirst := true }

def orLarger (x y : α) : α := if x < y then y else x

def orSmaller (x y : α) : α := if y < x then y else x

def step (A : Operator α n n) (state : State α n) : State α n × Estimates α :=
  let process := Bidiagonal.next A state.process
  let alphaHat := abs state.alphaBar
  let turn := rotation alphaHat process.beta
  let rho := turn.length
  let thetaNew := turn.sine * process.alpha
  let thetaBar := state.sineBar * rho
  let rhoTemp := state.cosineBar * rho
  let turnBar := rotation rhoTemp thetaNew
  let rhoBar := turnBar.length
  let zeta := turnBar.cosine * state.zetaBar
  let zetaBar := -turnBar.sine * state.zetaBar
  let hBar := Vec.scale (-(thetaBar * rho / (state.rho * state.rhoBar))) state.hBar + state.h
  let x := state.x + Vec.scale (zeta / (rho * rhoBar)) hBar
  let h := Vec.scale (-(thetaNew / rho)) state.h + process.v
  let betaAcute := sign state.alphaBar * state.betaDD
  let betaHat := turn.cosine * betaAcute
  let betaDD := -turn.sine * betaAcute
  let tilde := rotation state.rhoD thetaBar
  let theta := tilde.sine * rhoBar
  let rhoD := tilde.cosine * rhoBar
  let betaD := -tilde.sine * state.betaD + tilde.cosine * betaHat
  let tau := (state.zeta - state.theta * state.tau) / tilde.length
  let tauD := (zeta - theta * tau) / rhoD
  let normR := sqrt (square (betaD - tauD) + betaDD * betaDD)
  let sumA := state.sumA + square process.beta
  let normA := sqrt sumA
  let largest := orLarger state.largest state.rhoBar
  let smallest := if state.isFirst then state.smallest else orSmaller state.smallest state.rhoBar
  let condA := orLarger largest rhoTemp / orSmaller smallest rhoTemp
  let normal := if isZero (normA * normR) then none else some (abs zetaBar / (normA * normR))
  ({ process, x, h, hBar, zetaBar, alphaBar := turn.cosine * process.alpha, rho, rhoBar
     cosineBar := turnBar.cosine, sineBar := turnBar.sine, zeta, betaDD, betaD, rhoD, tau, theta
     sumA := sumA + square process.alpha, largest, smallest, isFirst := false },
   { normA, condA, normR, normX := Vec.norm x, normal, reciprocal := 1 / condA })

def run (A : Operator α n n) (tol : Tolerances α) (normB : α) : Nat → State α n → Vector α n
  | 0, state => state.x
  | limit + 1, state =>
    let (next, estimates) := step A state
    if isDone tol normB estimates then next.x else run A tol normB limit next

def solve (A : Operator α n n) (tol : Tolerances α) (limit : Nat) (r : Vector α n) :
    Vector α n :=
  if isSolvedByZero A r then Vector.replicate n 0
  else run A tol (Vec.norm r) limit (start A r)

end ConicDerivative.LeastSquares.Lsmr
