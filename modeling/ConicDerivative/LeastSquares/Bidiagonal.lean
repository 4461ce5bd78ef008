import ConicDerivative.Operator

/-!
The process that the iterative solvers share. Products with a matrix and its transpose produce, one
step at a time, two orthonormal bases in which the matrix has two diagonals, and plane rotations
bring it to triangular form.
-/

namespace ConicDerivative.LeastSquares

open Scalar

variable {α : Type} [Scalar α] {n : Nat}

/-- The latest vectors of the two bases, and the entries of the two diagonals. -/
structure Bidiagonal (α : Type) (n : Nat) where
  u : Vector α n
  v : Vector α n
  alpha : α
  beta : α

namespace Bidiagonal

def start (A : Operator α n n) (r : Vector α n) : Bidiagonal α n :=
  let beta := Vec.norm r
  if 0 < beta then
    let u := Vec.scale (1 / beta) r
    let v := A.adjoint u
    let alpha := Vec.norm v
    { u, v := if 0 < alpha then Vec.scale (1 / alpha) v else v, alpha, beta }
  else { u := r, v := Vector.replicate n 0, alpha := 0, beta }

/-- The next vectors; a vanishing one ends its basis and leaves the other as it is. -/
def next (A : Operator α n n) (state : Bidiagonal α n) : Bidiagonal α n :=
  let u := A.apply state.v - Vec.scale state.alpha state.u
  let beta := Vec.norm u
  if 0 < beta then
    let u := Vec.scale (1 / beta) u
    let v := A.adjoint u - Vec.scale beta state.v
    let alpha := Vec.norm v
    { u, v := if 0 < alpha then Vec.scale (1 / alpha) v else v, alpha, beta }
  else { state with u, beta }

end Bidiagonal

def isSolvedByZero (A : Operator α n n) (r : Vector α n) : Bool :=
  let process := Bidiagonal.start A r
  isZero (process.alpha * process.beta)

/-- The cosine and sine of a plane rotation, and the length that it keeps. -/
structure Rotation (α : Type) where
  cosine : α
  sine : α
  length : α

def rotation (a b : α) : Rotation α :=
  if isZero b then ⟨sign a, 0, abs a⟩
  else if isZero a then ⟨0, sign b, abs b⟩
  else if abs a < abs b then
    let tau := a / b
    let sine := sign b / sqrt (1 + tau * tau)
    ⟨sine * tau, sine, b / sine⟩
  else
    let tau := b / a
    let cosine := sign a / sqrt (1 + tau * tau)
    ⟨cosine, cosine * tau, a / cosine⟩

structure Tolerances (α : Type) where
  atol : α
  btol : α

structure Estimates (α : Type) where
  normA : α
  condA : α
  normR : α
  normX : α
  /-- The residual of the normal equations, relative to the matrix and the residual if any. -/
  normal : Option α
  /-- The reciprocal of the condition number. -/
  reciprocal : α

/--
Whether an iteration has done what it can: the residual or that of the normal equations is small,
or the condition number large, by the given tolerances or by those of the arithmetic.
-/
def isDone (tol : Tolerances α) (normB : α) (e : Estimates α) : Bool :=
  let relative := e.normR / normB
  let scale := e.normA * e.normX / normB
  decide (1 + e.reciprocal ≤ 1) || decide (e.reciprocal ≤ 1 / 1e8) ||
    e.normal.any (fun normal => decide (1 + normal ≤ 1) || decide (normal ≤ tol.atol)) ||
    decide (1 + relative / (1 + scale) ≤ 1) ||
    decide (relative ≤ tol.btol + tol.atol * scale)

def epsilon : α := 1 / ((Nat.pow 2 52 : Nat) : α)

end ConicDerivative.LeastSquares
