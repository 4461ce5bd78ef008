import ConicDerivative.Axes

/-!
Symmetric matrices packed into vectors. The lower triangle is listed column by column, and the
entries off the diagonal are scaled by the square root of two, so that inner products are kept.
`position` and `cell` are inverse enumerations of the triangle.
-/

namespace ConicDerivative.Packed

def triangle : Nat → Nat
  | 0 => 0
  | d + 1 => (d + 1) + triangle d

/-- The place in the list of the cell in column `i` and row `j`, for `i ≤ j`. -/
def position : Nat → Nat → Nat → Nat
  | 0, _, _ => 0
  | _ + 1, 0, j => j
  | d + 1, i + 1, j => (d + 1) + position d i (j - 1)

def cell : Nat → Nat → Nat × Nat
  | 0, _ => (0, 0)
  | d + 1, k =>
    if k < d + 1 then (0, k)
    else
      let (i, j) := cell d (k - (d + 1))
      (i + 1, j + 1)

theorem two_mul_triangle (d : Nat) : 2 * triangle d = d * (d + 1) := by
  induction d with
  | zero => rfl
  | succ d ih =>
    rw [triangle, Nat.mul_add, ih, ← Nat.add_mul, Nat.mul_comm, Nat.add_comm 2 d]

theorem position_lt {d i j : Nat} (order : i ≤ j) (bound : j < d) :
    position d i j < triangle d := by
  induction d generalizing i j with
  | zero => omega
  | succ d ih =>
    cases i with
    | zero => simp only [position, triangle]; omega
    | succ i =>
      have rest := ih (i := i) (j := j - 1) (by omega) (by omega)
      simp only [position, triangle]
      omega

theorem cell_lt {d k : Nat} (bound : k < triangle d) :
    (cell d k).1 ≤ (cell d k).2 ∧ (cell d k).2 < d := by
  induction d generalizing k with
  | zero => simp [triangle] at bound
  | succ d ih =>
    simp only [cell]
    split
    · exact ⟨Nat.zero_le _, by assumption⟩
    · have rest := ih (k := k - (d + 1)) (by simp only [triangle] at bound; omega)
      simp only
      omega

theorem position_cell {d k : Nat} (bound : k < triangle d) :
    position d (cell d k).1 (cell d k).2 = k := by
  induction d generalizing k with
  | zero => simp [triangle] at bound
  | succ d ih =>
    simp only [cell]
    split
    · rfl
    · have rest := ih (k := k - (d + 1)) (by simp only [triangle] at bound; omega)
      simp only [position, Nat.add_sub_cancel]
      omega

theorem cell_position {d i j : Nat} (order : i ≤ j) (bound : j < d) :
    cell d (position d i j) = (i, j) := by
  induction d generalizing i j with
  | zero => omega
  | succ d ih =>
    cases i with
    | zero => simp [position, cell, bound]
    | succ i =>
      have rest := ih (i := i) (j := j - 1) (by omega) (by omega)
      simp only [position, cell, Nat.not_lt.2 (Nat.le_add_right ..), if_false,
        Nat.add_sub_cancel_left, rest, Prod.mk.injEq, true_and]
      omega

def place {d : Nat} (i j : Fin d) : Fin (triangle d) :=
  if h : i ≤ j then ⟨position d i j, position_lt h j.isLt⟩
  else ⟨position d j i, position_lt (Nat.le_of_not_le h) i.isLt⟩

open Scalar

variable {α : Type} [Scalar α] {d : Nat}

def rootTwo : α := sqrt two

def unpack (d : Nat) (x : Vector α (triangle d)) : Mat α d d :=
  Mat.ofFn fun i j =>
    let v := x (place i j)
    if i = j then (v + v) / rootTwo * rootTwo / two else v / rootTwo

def pack (X : Mat α d d) : Vector α (triangle d) :=
  Vector.ofFn fun k =>
    have inside := cell_lt k.isLt
    let i : Fin d := ⟨(cell d k).1, by omega⟩
    let j : Fin d := ⟨(cell d k).2, inside.2⟩
    if i = j then X i i * rootTwo / rootTwo else X j i * rootTwo

/--
The entries of an array written over `size` cells. A single number fills all of them; otherwise the
entries must all lie along the last axis.
-/
def broadcast? (t : Tensor α) (size : Nat) : Option (Vector α size) :=
  let entries := t.entries.toList
  if t.shape.getLast?.any fun last => entries.length ≠ last then none
  else match entries with
    | [x] => some (Vector.replicate size x)
    | entries =>
      if h : entries.length = size then some ⟨entries.toArray, by simpa using h⟩ else none

def ofTensor (t : Tensor α) (side : Int) : Outcome α (Sized (Mat α)) :=
  if side < 0 then .error (.invalid .value)
  else match broadcast? t (triangle side.toNat) with
    | some x => .ok ⟨unpack side.toNat x⟩
    | none => .error (.invalid .value)

/--
The packed triangle of a matrix, which may have more columns than rows. A single column is taken
for a diagonal that fits, and its missing cells are then looked up.
-/
def packMatrix {rows cols : Nat} (X : Mat α rows cols) : Outcome α (Tensor.Column α) :=
  if h : rows ≤ cols then .ok ⟨pack (Mat.ofFn fun i (j : Fin rows) => X i (j.castLE h))⟩
  else .error (.invalid (if cols = 1 then .index else .value))

/--
The packed triangle of a matrix of arrays. The diagonal arrays are put side by side along a last
axis and written back along the first one, as far as the shapes allow it.
-/
def packArrays (t : Tensor α) (rows cols : Nat) (shape : List Nat) : Outcome α (Tensor α) :=
  let diagonal := shape ++ [min rows cols]
  if !Tensor.fills diagonal (rows :: shape) then .error (.invalid .value)
  else if cols < rows then .error (.invalid .index)
  else .ok <| Tensor.generate (triangle rows :: shape) fun
    | [] => 0
    | k :: index =>
      let (i, j) := cell rows k
      if i = j then
        let source := Tensor.clamp diagonal (i :: index)
        let corner := source.getLastD 0
        t.entry (corner :: corner :: source.dropLast) * rootTwo / rootTwo
      else t.entry (j :: i :: index) * rootTwo

def packTensor (t : Tensor α) : Outcome α (Tensor α) :=
  match t.shape with
  | [rows, cols] =>
    match t.toMat? rows cols with
    | some X => (packMatrix X).map fun x => .ofVector x.entries
    | none => .error (.invalid .value)
  | rows :: cols :: shape => packArrays t rows cols shape
  | _ => .error (.invalid .value)

end ConicDerivative.Packed
