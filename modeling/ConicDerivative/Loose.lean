import ConicDerivative.Program

/-!
Lists of numbers whose lengths are not known to fit. Each operation checks the lengths when two
lists meet; a single number stands for as many as are needed.
-/

namespace ConicDerivative.Loose

variable {α : Type} [Scalar α] {m n : Nat}

/-- Entry by entry, where a list of one entry is repeated. -/
def zipWith (f : α → α → α) (x y : List α) : Outcome α (List α) :=
  match x, y with
  | [a], y => .ok (y.map (f a))
  | x, [b] => .ok (x.map (f · b))
  | x, y => if x.length = y.length then .ok (x.zipWith f y) else .error (.invalid .value)

def mulVec (A : Sparse α m n) (x : List α) : Outcome α (List α) :=
  if h : x.length = n then .ok (A.mulVec ⟨x.toArray, h⟩).toList else .error (.invalid .value)

def gather (x : List α) (places : List Nat) : Outcome α (List α) :=
  (places.mapM (x[·]?)).elim (.error (.invalid .index)) .ok

def scatter (x : List α) (places : List Nat) (values : List α) : Outcome α (List α) :=
  match values with
  | [v] => .ok (places.foldl (fun out i => out.set i v) x)
  | values =>
    if values.length = places.length then
      .ok ((places.zip values).foldl (fun out (i, v) => out.set i v) x)
    else .error (.invalid .value)

def takeRows (A : Sparse α m n) (rows : List Nat) : Outcome α (Sparse α rows.length n) :=
  if h : ∀ i : Fin rows.length, rows.get i < m then
    .ok (A.selectRows (Vector.ofFn fun i => ⟨rows.get i, h i⟩))
  else .error (.invalid .index)

end ConicDerivative.Loose
