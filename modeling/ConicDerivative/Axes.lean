import ConicDerivative.Tensor

/-!
Arrays with further axes, by the indices of their entries. A smaller array is written over a larger
one by repeating it along the axes where it has a single entry.
-/

namespace ConicDerivative.Tensor

variable {α : Type}

def count (shape : List Nat) : Nat := shape.foldr (· * ·) 1

def indices : List Nat → List (List Nat)
  | [] => [[]]
  | length :: shape => (List.range length).flatMap fun i => (indices shape).map (i :: ·)

theorem length_flatMap_of_forall {β γ : Type} {k : Nat} (items : List β) (f : β → List γ)
    (lengths : ∀ item, (f item).length = k) : (items.flatMap f).length = items.length * k := by
  induction items with
  | nil => simp
  | cons item items ih => simp [ih, lengths, Nat.succ_mul, Nat.add_comm]

theorem length_indices (shape : List Nat) : (indices shape).length = count shape := by
  induction shape with
  | nil => rfl
  | cons length shape ih =>
    rw [indices, length_flatMap_of_forall (List.range length) _ fun i => List.length_map ..]
    simp [ih, count]

def generate (shape : List Nat) (f : List Nat → α) : Tensor α :=
  ⟨shape, ⟨((indices shape).map f).toArray, by simp [length_indices, count]⟩⟩

def place : List Nat → List Nat → Nat
  | _ :: shape, i :: index => i * count shape + place shape index
  | _, _ => 0

variable [Scalar α]

def entry (t : Tensor α) (index : List Nat) : α := t.entries.toList.getD (place t.shape index) 0

/-- The index that is read where an axis of a single entry is repeated. -/
def clamp (shape index : List Nat) : List Nat :=
  shape.zipWith (fun length i => if length = 1 then 0 else i) index

def fills (shape target : List Nat) : Bool :=
  shape.length = target.length &&
    (shape.zip target).all fun (own, length) => own = length || own = 1

/-- The shape with axes of a single entry in front taken away or added, to have `axes` of them. -/
def withAxes (axes : Nat) (shape : List Nat) : List Nat :=
  let front := shape.take (shape.length - axes)
  if front.all (· = 1) then
    List.replicate (axes - shape.length) 1 ++ shape.drop (shape.length - axes)
  else shape

def spread? (t : Tensor α) (target : List Nat) : Option (Tensor α) :=
  let shape := withAxes target.length t.shape
  if fills shape target then
    let entries := t.entries.toArray
    some (generate target fun index => entries.getD (place shape (clamp shape index)) 0)
  else none

def slice? (t : Tensor α) (start stop : Int) : Option (Tensor α) :=
  match t.shape with
  | [] => none
  | length :: rest =>
    let span := Vec.Span.between length start stop
    ofShape? (span.size :: rest)
      ((t.entries.toList.drop (span.start * count rest)).take (span.size * count rest))

def overwrite? (t : Tensor α) (start stop : Int) (part : Tensor α) : Option (Tensor α) :=
  match t.shape with
  | [] => none
  | length :: rest => do
    let span := Vec.Span.between length start stop
    let part ← part.spread? (span.size :: rest)
    let entries := t.entries.toList
    ofShape? t.shape (entries.take (span.start * count rest) ++ part.entries.toList ++
      entries.drop (span.stop * count rest))

end ConicDerivative.Tensor

namespace ConicDerivative.Operator

variable {α : Type} {m n : Nat}

/-- The image of a vector, which may be given as a matrix of one column and is then returned so. -/
def applyTensor (A : Operator α m n) (t : Tensor α) : Outcome α (Tensor α) :=
  match t.toVector? n, t.toMat? n 1 with
  | some x, _ => .ok (.ofVector (A.apply x))
  | none, some X =>
    let y := A.apply (X.column ⟨0, Nat.one_pos⟩)
    .ok (.ofMat (Mat.ofFn fun i (_ : Fin 1) => y i))
  | none, none => .error (.invalid .value)

end ConicDerivative.Operator
