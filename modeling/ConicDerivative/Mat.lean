import ConicDerivative.Vec

/-!
Dense matrices, stored by rows. A matrix is known by its entries: each operation comes with the
entry it produces.
-/

namespace ConicDerivative

structure Mat (α : Type) (m n : Nat) where
  rows : Vector (Vector α n) m

namespace Mat

open Scalar

variable {α : Type} {m n k : Nat}

instance cells : CoeFun (Mat α m n) fun _ => Fin m → Fin n → α := ⟨fun A i j => A.rows i j⟩

def ofFn (f : Fin m → Fin n → α) : Mat α m n := ⟨Vector.ofFn fun i => Vector.ofFn (f i)⟩

@[simp]
theorem ofFn_apply (f : Fin m → Fin n → α) (i : Fin m) (j : Fin n) : ofFn f i j = f i j := by
  simp only [ofFn, Vec.ofFn_apply]

theorem ext {A B : Mat α m n} (same : ∀ i j, A i j = B i j) : A = B := by
  obtain ⟨a⟩ := A
  obtain ⟨b⟩ := B
  congr 1
  apply Vec.ext
  intro i
  apply Vec.ext
  intro j
  exact same i j

def transpose (A : Mat α m n) : Mat α n m := ofFn fun i j => A j i

def column (A : Mat α m n) (j : Fin n) : Vector α m := Vector.ofFn fun i => A i j

variable [Scalar α]

def mulVec (A : Mat α m n) (x : Vector α n) : Vector α m :=
  Vector.ofFn fun i => sumOver n fun j => A i j * x j

def transposeMulVec (A : Mat α m n) (y : Vector α m) : Vector α n :=
  Vector.ofFn fun j => sumOver m fun i => A i j * y i

def mul (A : Mat α m n) (B : Mat α n k) : Mat α m k :=
  ofFn fun i j => sumOver n fun l => A i l * B l j

def identity (n : Nat) : Mat α n n := ofFn fun i j => if i = j then 1 else 0

def add (A B : Mat α m n) : Mat α m n := ofFn fun i j => A i j + B i j

def outer (x : Vector α m) (y : Vector α n) : Mat α m n := ofFn fun i j => x i * y j

def neg (A : Mat α m n) : Mat α m n := ofFn fun i j => -A i j

def allFinite (A : Mat α m n) : Bool := A.rows.all Vec.allFinite

end Mat

end ConicDerivative
