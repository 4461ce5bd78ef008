import ConicDerivative.Mat

/-!
Sparse matrices, stored by columns. A cell that is not stored is a zero that takes no part in a
product, so an infinity never meets it. A cell may be stored more than once; its value is then the
sum of its entries.
-/

namespace ConicDerivative

structure Sparse (α : Type) (m n : Nat) where
  columns : Vector (List (Fin m × α)) n

namespace Sparse

open Scalar

variable {α : Type} [Scalar α] {m n k : Nat}

def sumOn (column : List (Fin m × α)) (i : Fin m) (f : α → α) : α :=
  column.foldl (fun total entry => if entry.1 = i then total + f entry.2 else total) 0

def get (A : Sparse α m n) (i : Fin m) (j : Fin n) : α := sumOn (A.columns j) i id

instance cells : CoeFun (Sparse α m n) fun _ => Fin m → Fin n → α := ⟨get⟩

def toMat (A : Sparse α m n) : Mat α m n := Mat.ofFn A

def size (A : Sparse α m n) : Nat := A.columns.toList.flatten.length

def empty (m n : Nat) : Sparse α m n := ⟨Vector.replicate n []⟩

def values (A : Sparse α m n) : List α := A.columns.toList.flatMap fun column => column.map (·.2)

def rowIndices (A : Sparse α m n) : List Nat :=
  A.columns.toList.flatMap fun column => column.map (·.1.val)

def columnStarts (A : Sparse α m n) : List Nat :=
  (List.range (n + 1)).map fun j => (A.columns.toList.take j).flatten.length

/-- One entry per stored row, in increasing order of rows, holding the sum of the entries there. -/
def collect (column : List (Fin m × α)) : List (Fin m × α) :=
  (List.finRange m).filterMap fun i =>
    match (column.filter (·.1 = i)).map (·.2) with
    | [] => none
    | v :: vs => some (i, vs.foldl (· + ·) v)

def sumDuplicates (A : Sparse α m n) : Sparse α m n := ⟨A.columns.map collect⟩

def dropZeros (A : Sparse α m n) : Sparse α m n := ⟨A.columns.map (·.filter (!isZero ·.2))⟩

def hasNaN (A : Sparse α m n) : Bool := A.values.any isNaN

def allFinite (A : Sparse α m n) : Bool := A.values.all isFinite

def ofMat (A : Mat α m n) : Sparse α m n :=
  dropZeros ⟨Vector.ofFn fun j => (List.finRange m).map fun i => (i, A i j)⟩

def ofEntries (entries : List (Fin m × Fin n × α)) : Sparse α m n :=
  ⟨Vector.ofFn fun j => entries.filterMap fun (i, l, v) => if l = j then some (i, v) else none⟩

def addProduct (column : List (Fin m × α)) (i : Fin m) (factor total : α) : α :=
  column.foldl (fun total (l, v) => if l = i then total + v * factor else total) total

def mulVec (A : Sparse α m n) (x : Vector α n) : Vector α m :=
  Vector.ofFn fun i => Fin.foldl n (fun total j => addProduct (A.columns j) i (x j) total) 0

def transposeMulVec (A : Sparse α m n) (y : Vector α m) : Vector α n :=
  Vector.ofFn fun j => (A.columns j).foldl (fun total (i, v) => total + v * y i) 0

def transposeMul (A : Sparse α m n) (B : Sparse α m k) : Sparse α n k :=
  ⟨B.columns.map fun right => collect <| (List.finRange n).flatMap fun j =>
    right.flatMap fun (i, w) => (A.columns j).filterMap fun (l, v) =>
      if l = i then some (j, v * w) else none⟩

/-- Applies `f` to the cells stored in either matrix and drops the zeros that result. -/
def combine (f : α → α → α) (A B : Sparse α m n) : Sparse α m n :=
  dropZeros ⟨Vector.ofFn fun j => (List.finRange m).filterMap fun i =>
    if (A.columns j).any (·.1 = i) || (B.columns j).any (·.1 = i) then some (i, f (A i j) (B i j))
    else none⟩

def identity (n : Nat) : Sparse α n n := ⟨Vector.ofFn fun j => [(j, 1)]⟩

def selectRows (A : Sparse α m n) (keep : Vector (Fin m) k) : Sparse α k n :=
  ⟨A.columns.map fun column => (List.finRange k).flatMap fun i =>
    column.filterMap fun (l, v) => if l = keep i then some (i, v) else none⟩

def above (A : Sparse α m n) (B : Sparse α k n) : Sparse α (m + k) n :=
  ⟨A.columns.zipWith (fun upper lower =>
    upper.map (fun (i, v) => (i.castAdd k, v)) ++ lower.map (fun (i, v) => (i.natAdd m, v)))
    B.columns⟩

def beside (A : Sparse α m n) (B : Sparse α m k) : Sparse α m (n + k) := ⟨A.columns ++ B.columns⟩

end Sparse

/-- A sparse matrix as a list of entries in any order, perhaps several for one cell. -/
structure Listed (α : Type) (m n : Nat) where
  entries : List (Fin m × Fin n × α)

namespace Listed

variable {α : Type} [Scalar α] {m n : Nat}

def toSparse (A : Listed α m n) : Sparse α m n := .ofEntries A.entries

def toMat (A : Listed α m n) : Mat α m n := A.toSparse.toMat

/-- The entries of a row are multiplied and added up in the order of the list. -/
def mulVec (A : Listed α m n) (x : Vector α n) : Vector α m :=
  Vector.ofFn fun i =>
    A.entries.foldl (fun total (l, j, v) => if l = i then total + v * x j else total) 0

def transposeMulVec (A : Listed α m n) (y : Vector α m) : Vector α n :=
  Vector.ofFn fun j =>
    A.entries.foldl (fun total (i, l, v) => if l = j then total + v * y i else total) 0

end Listed

end ConicDerivative
