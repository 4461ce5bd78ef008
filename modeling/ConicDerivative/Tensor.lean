import ConicDerivative.Failure
import ConicDerivative.Operator

/-!
Arrays as they are handed in: nested lists of numbers, or a sparse matrix in one of its storage
orders. Reading one finds its shape; the rest of the library works on vectors and matrices of a
known size.
-/

namespace ConicDerivative

inductive Nested (α : Type) where
  | number (x : α)
  | list (items : List (Nested α))

structure Tensor (α : Type) where
  shape : List Nat
  entries : Vector α (shape.foldr (· * ·) 1)

namespace Tensor

variable {α : Type}

def scalar (x : α) : Tensor α := ⟨[], #v[x]⟩

def ofVector {n : Nat} (x : Vector α n) : Tensor α := ⟨[n], x.cast (Nat.mul_one n).symm⟩

def ofMat {m n : Nat} (A : Mat α m n) : Tensor α :=
  ⟨[m, n], (A.rows.map fun row => row.cast (Nat.mul_one n).symm).flatten⟩

def stack? : List (Tensor α) → Option (Tensor α)
  | [] => some ⟨[0], Vec.empty.cast rfl⟩
  | first :: rest => do
    let parts ← (first :: rest).mapM fun part =>
      if same : part.shape = first.shape then some (part.entries.cast (by rw [same])) else none
    return ⟨parts.length :: first.shape, Vector.flatten ⟨parts.toArray, List.size_toArray⟩⟩

mutual

def ofDeep? : Nested α → Option (Tensor α)
  | .number x => some (scalar x)
  | .list items => (ofDeepList? items).bind stack?

def ofDeepList? : List (Nested α) → Option (List (Tensor α))
  | [] => some []
  | item :: items => return (← ofDeep? item) :: (← ofDeepList? items)

end

def mostAxes : Nat := 64

def ofNested? (nested : Nested α) : Option (Tensor α) :=
  (ofDeep? nested).filter fun t => t.shape.length ≤ mostAxes

def ofShape? (shape : List Nat) (entries : List α) : Option (Tensor α) :=
  if h : entries.length = shape.foldr (· * ·) 1 then some ⟨shape, ⟨entries.toArray, h⟩⟩ else none

/-- The length of an axis that is left open, where the others leave `size` entries to place. -/
def openLength? (shape : List Int) (size : Nat) : Option Nat :=
  let others := (shape.filter (· ≠ -1)).foldr (fun length product => length.toNat * product) 1
  if others = 0 ∨ size % others ≠ 0 then none else some (size / others)

/-- The entries of an array in another shape. One axis may be left open, written as `-1`. -/
def reshape? (t : Tensor α) (shape : List Int) : Option (Tensor α) := do
  guard (shape.length ≤ mostAxes ∧ (shape.all fun length => -1 ≤ length) ∧ shape.count (-1) ≤ 1)
  let free ← if -1 ∈ shape then openLength? shape t.entries.toList.length else some 0
  ofShape? (shape.map fun length => if length = -1 then free else length.toNat) t.entries.toList

def toVector? (t : Tensor α) (n : Nat) : Option (Vector α n) :=
  if h : t.shape = [n] then some (t.entries.cast (by simp [h])) else none

theorem toVector?_ofVector {n : Nat} (x : Vector α n) : (ofVector x).toVector? n = some x :=
  dif_pos rfl

def rowMajor {m n : Nat} (i : Fin m) (j : Fin n) : Fin (m * n) :=
  ⟨i * n + j, by
    have step : i * n + n ≤ m * n := by
      rw [← Nat.succ_mul]
      exact Nat.mul_le_mul_right n i.isLt
    omega⟩

def toMat? (t : Tensor α) (m n : Nat) : Option (Mat α m n) :=
  if h : t.shape = [m, n] then
    let entries : Vector α (m * n) := t.entries.cast (by simp [h])
    some (Mat.ofFn fun i j => entries (rowMajor i j))
  else none

/-- The array as a matrix: one axis makes a single row and no axis a single cell. -/
def toMatrix? : Tensor α → Option (Sized (Mat α))
  | ⟨[], entries⟩ => some ⟨(⟨#v[entries.cast rfl]⟩ : Mat α 1 1)⟩
  | ⟨[n], entries⟩ => some ⟨(⟨#v[entries.cast (Nat.mul_one n)]⟩ : Mat α 1 n)⟩
  | ⟨[m, n], entries⟩ => (toMat? ⟨[m, n], entries⟩ m n).map fun A => ⟨A⟩
  | _ => none

structure Column (α : Type) where
  {size : Nat}
  entries : Vector α size

def flat (t : Tensor α) : Column α := ⟨t.entries⟩

def toColumn (field : Field) (t : Tensor α) : Outcome α (Column α) :=
  match h : t.shape with
  | [n] => .ok ⟨(t.entries.cast (by simp [h]) : Vector α n)⟩
  | _ => .error (.notVector field t.shape)

def expect (field : Field) (n : Nat) (t : Tensor α) : Outcome α (Vector α n) :=
  match t.toVector? n with
  | some x => .ok x
  | none => .error (.wrongShape field t.shape [n])

end Tensor

inductive Storage where
  | byColumn
  | byRow
  | listed
  deriving DecidableEq

/-- A sparse matrix as it is handed in, its entries in stored order and perhaps repeated. -/
structure Stored (α : Type) (m n : Nat) extends Listed α m n where
  storage : Storage

namespace Stored

variable {α : Type} [Scalar α] {m n : Nat}

def ofSparse (A : Sparse α m n) : Stored α m n where
  storage := .byColumn
  entries := (List.finRange n).flatMap fun j => (A.columns j).map fun (i, v) => (i, j, v)

/-- Puts a list of entries into a storage order, which sums repeated ones by column or row. -/
def ofTriplets (storage : Storage) (entries : List (Fin m × Fin n × α)) : Stored α m n :=
  let summed := ofSparse (Sparse.sumDuplicates (.ofEntries entries))
  match storage with
  | .listed => { storage, entries }
  | .byColumn => summed
  | .byRow =>
    { storage, entries := (List.finRange m).flatMap fun i => summed.entries.filter (·.1 = i) }

def toSparse (A : Stored α m n) : Sparse α m n :=
  let columns := A.toListed.toSparse
  match A.storage with
  | .listed => columns.sumDuplicates
  | .byColumn | .byRow => columns

end Stored

inductive Data (α : Type) where
  | dense (t : Tensor α)
  | sparse (m n : Nat) (A : Stored α m n)

namespace Data

variable {α : Type} [Scalar α]

def shape : Data α → List Nat
  | dense t => t.shape
  | sparse m n _ => [m, n]

def toTensor : Data α → Outcome α (Tensor α)
  | dense t => .ok t
  | sparse _ _ A => .error (.invalid (if A.storage = .listed then .type else .value))

def toSparse : Data α → Outcome α (Sized (Sparse α))
  | sparse _ _ A => .ok ⟨A.toSparse⟩
  | dense t => (t.toMatrix?.map (·.map Sparse.ofMat)).elim (.error (.invalid .value)) .ok

/-- The linear map of a matrix, where a dense one also multiplies its zeros. -/
def toOperator : Data α → Outcome α (Sized (Operator α))
  | sparse _ _ A => .ok ⟨.ofListed A.toListed⟩
  | dense t => (t.toMatrix?.map (·.map Operator.ofMat)).elim (.error (.invalid .value)) .ok

end Data

end ConicDerivative
