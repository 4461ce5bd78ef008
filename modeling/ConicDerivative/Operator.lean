import ConicDerivative.Sparse

/-!
Linear maps that come with their transposes, and block diagonal sums. A block diagonal sum applies
each part to its own run of the argument, one after another.
-/

namespace ConicDerivative

/-- A linear map together with the map of its transpose. -/
structure Operator (α : Type) (m n : Nat) where
  apply : Vector α n → Vector α m
  adjoint : Vector α m → Vector α n

/-- A matrix or a map whose shape is not known beforehand. -/
structure Sized (F : Nat → Nat → Type) where
  {rows : Nat}
  {cols : Nat}
  value : F rows cols

namespace Sized

variable {F G : Nat → Nat → Type}

def map (f : ∀ {m n}, F m n → G m n) (A : Sized F) : Sized G := ⟨f A.value⟩

def at? (A : Sized F) (m n : Nat) : Option (F m n) :=
  if h : A.rows = m ∧ A.cols = n then some (h.1 ▸ h.2 ▸ A.value) else none

theorem at?_mk {m n : Nat} (a : F m n) : at? ⟨a⟩ m n = some a := by simp [at?]

end Sized

namespace Operator

variable {α : Type} {m n k l : Nat}

def transpose (A : Operator α m n) : Operator α n m := ⟨A.adjoint, A.apply⟩

def diagonal (A : Operator α m n) (B : Operator α k l) : Operator α (m + k) (n + l) where
  apply x := A.apply (Vec.left x) ++ B.apply (Vec.right x)
  adjoint y := A.adjoint (Vec.left y) ++ B.adjoint (Vec.right y)

def empty : Operator α 0 0 := ⟨fun _ => Vec.empty, fun _ => Vec.empty⟩

def blockDiagonal (blocks : List (Sized (Operator α))) : Sized (Operator α) :=
  blocks.foldr (fun A rest => ⟨diagonal A.value rest.value⟩) ⟨empty⟩

variable [Scalar α]

def ofMat (A : Mat α m n) : Operator α m n := ⟨A.mulVec, A.transposeMulVec⟩

def ofSparse (A : Sparse α m n) : Operator α m n := ⟨A.mulVec, A.transposeMulVec⟩

def ofListed (A : Listed α m n) : Operator α m n := ⟨A.mulVec, A.transposeMulVec⟩

def toMat (A : Operator α m n) : Mat α m n :=
  let images := Vector.ofFn fun j => A.apply ((Mat.identity n).column j)
  Mat.ofFn fun i j => images j i

end Operator

namespace Sparse

variable {α : Type} [Scalar α] {m n k l : Nat}

def diagonal (A : Sparse α m n) (B : Sparse α k l) : Sparse α (m + k) (n + l) :=
  ⟨A.columns.map (·.map fun (i, v) => (i.castAdd k, v)) ++
    B.columns.map (·.map fun (i, v) => (i.natAdd m, v))⟩

def blockDiagonal (blocks : List (Sized (Sparse α))) : Sized (Sparse α) :=
  blocks.foldr (fun A rest => ⟨diagonal A.value rest.value⟩) ⟨empty 0 0⟩

end Sparse

end ConicDerivative
