import ConicDerivative.Operator
import ConicDerivative.Proofs.Reals

/-!
Real numbers that tell a division by zero. A quotient by zero is undefined, and so is every number
computed from it; like a NaN it fails every comparison. The definitions of the library run on these
numbers as on any others: where all numbers that a run returns are defined, no quotient that it kept
was one by zero. Until it meets a zero divisor, a run on defined numbers follows the run on real
numbers.
-/

namespace ConicDerivative

open Scalar

inductive Guarded where
  | number (x : ℝ)
  | undefined

namespace Guarded

def bind (f : ℝ → Guarded) : Guarded → Guarded
  | number x => f x
  | undefined => undefined

def combine (f : ℝ → ℝ → ℝ) (x y : Guarded) : Guarded :=
  x.bind fun a => y.bind fun b => number (f a b)

noncomputable def within (domain : ℝ → Prop) (f : ℝ → ℝ) (x : Guarded) : Guarded :=
  x.bind fun a => open Classical in if domain a then number (f a) else undefined

/-- An undefined number compares to none, not even to itself. -/
def Compare (R : ℝ → ℝ → Prop) : Guarded → Guarded → Prop
  | number x, number y => R x y
  | _, _ => False

noncomputable instance scalar : Scalar Guarded where
  zero := number 0
  one := number 1
  add := combine (· + ·)
  sub := combine (· - ·)
  neg x := x.bind fun a => number (-a)
  mul := combine (· * ·)
  div x y := x.bind fun a => y.within (· ≠ 0) fun b => a / b
  le := Compare (· ≤ ·)
  lt := Compare (· < ·)
  natCast k := number k
  ofScientific mantissa negative exponent :=
    number (OfScientific.ofScientific mantissa negative exponent)
  sqrt := within (0 ≤ ·) Real.sqrt
  log := within (0 < ·) Real.log
  ceil x := match x with
    | number a => ⌈a⌉₊
    | undefined => 0
  decideLE _ _ := Classical.propDecidable _
  decideLT _ _ := Classical.propDecidable _

variable {x y : ℝ} {m n k l : Nat}

@[simp]
theorem zero_eq : (0 : Guarded) = number 0 := rfl

@[simp]
theorem one_eq : (1 : Guarded) = number 1 := rfl

@[simp]
theorem number_add : number x + number y = number (x + y) := rfl

@[simp]
theorem number_sub : number x - number y = number (x - y) := rfl

@[simp]
theorem number_neg : -number x = number (-x) := rfl

@[simp]
theorem number_mul : number x * number y = number (x * y) := rfl

@[simp]
theorem number_le : number x ≤ number y ↔ x ≤ y := Iff.rfl

@[simp]
theorem number_lt : number x < number y ↔ x < y := Iff.rfl

theorem number_div (nonzero : y ≠ 0) : number x / number y = number (x / y) := if_pos nonzero

theorem number_sqrt (nonneg : 0 ≤ x) : sqrt (number x) = number (sqrt x) := if_pos nonneg

@[simp]
theorem two_eq : (two : Guarded) = number two := rfl

@[simp]
theorem decimal_eq (mantissa exponent : Nat) (negative : Bool) :
    (OfScientific.ofScientific mantissa negative exponent : Guarded) =
      number (OfScientific.ofScientific mantissa negative exponent) := rfl

@[simp]
theorem isZero_number : isZero (number x) = isZero x := by
  simp [isZero]

@[simp]
theorem isFinite_number : isFinite (number x) = isFinite x := by
  simp [isFinite, isNaN]

@[simp]
theorem abs_number : Scalar.abs (number x) = number (Scalar.abs x) := by
  simp [Scalar.abs, apply_ite number]

@[simp]
theorem positivePart_number : positivePart (number x) = number (positivePart x) := by
  simp [positivePart, apply_ite number]

@[simp]
theorem sumOver_number (f : Fin n → ℝ) :
    sumOver n (fun i => number (f i)) = number (sumOver n f) := by
  induction n with
  | zero => rfl
  | succ n ih => rw [sumOver_succ, sumOver_succ, ih, number_add]

def ofVector (x : Vector ℝ n) : Vector Guarded n := x.map number

@[simp]
theorem ofVector_apply (x : Vector ℝ n) (i : Fin n) : ofVector x i = number (x i) := by
  simp [ofVector, Vec.apply_eq_getElem]

@[simp]
theorem dot_ofVector (x y : Vector ℝ n) :
    Vec.dot (ofVector x) (ofVector y) = number (Vec.dot x y) := by
  simp [Vec.dot]

@[simp]
theorem norm_ofVector (x : Vector ℝ n) : Vec.norm (ofVector x) = number (Vec.norm x) := by
  have nonneg : 0 ≤ Vec.dot x x := by
    rw [Vec.dot_eq_dotProduct, ← Vec.norm_mul_self]
    exact mul_self_nonneg _
  rw [Vec.norm, dot_ofVector, number_sqrt nonneg, Vec.norm]

theorem head_ofVector (x : Vector ℝ (n + 1)) : Vec.head (ofVector x) = number (Vec.head x) :=
  ofVector_apply ..

theorem tail_ofVector (x : Vector ℝ (n + 1)) : Vec.tail (ofVector x) = ofVector (Vec.tail x) :=
  Vec.ext (by simp)

theorem slice_ofVector (x : Vector ℝ n) (s : Vec.Span n) :
    Vec.slice (ofVector x) s = ofVector (Vec.slice x s) := Vec.ext (by simp [Vec.slice])

theorem cast_ofVector (x : Vector ℝ n) (same : n = k) :
    (ofVector x).cast same = ofVector (x.cast same) := by
  subst same
  rfl

def ofMat (A : Mat ℝ m n) : Mat Guarded m n := .ofFn fun i j => number (A i j)

@[simp]
theorem ofMat_apply (A : Mat ℝ m n) (i : Fin m) (j : Fin n) : ofMat A i j = number (A i j) :=
  Mat.ofFn_apply ..

theorem ofMat_injective : Function.Injective (ofMat : Mat ℝ m n → Mat Guarded m n) := by
  intro A B same
  apply Mat.ext
  intro i j
  have entry : ofMat A i j = ofMat B i j := by rw [same]
  rw [ofMat_apply, ofMat_apply] at entry
  exact number.inj entry

@[simp]
theorem mul_ofMat (A : Mat ℝ m n) (B : Mat ℝ n k) : (ofMat A).mul (ofMat B) = ofMat (A.mul B) :=
  Mat.ext (by simp [Mat.mul])

@[simp]
theorem transpose_ofMat (A : Mat ℝ m n) : (ofMat A).transpose = ofMat A.transpose :=
  Mat.ext (by simp [Mat.transpose])

theorem identity_eq : (Mat.identity n : Mat Guarded n n) = ofMat (Mat.identity n) :=
  Mat.ext (by simp [Mat.identity, apply_ite number])

theorem column_ofMat (A : Mat ℝ m n) (j : Fin n) :
    (ofMat A).column j = ofVector (A.column j) := Vec.ext (by simp [Mat.column])

theorem toMat_eq {A : Operator ℝ m n} {B : Operator Guarded m n}
    (follows : ∀ x, B.apply (ofVector x) = ofVector (A.apply x)) : B.toMat = ofMat A.toMat := by
  apply Mat.ext
  intro i j
  simp [Operator.toMat, identity_eq, column_ofMat, follows]

def ofEntry (entry : Fin m × ℝ) : Fin m × Guarded := (entry.1, number entry.2)

def ofSparse (A : Sparse ℝ m n) : Sparse Guarded m n := ⟨A.columns.map (·.map ofEntry)⟩

theorem sparse_ofMat (A : Mat ℝ m n) : Sparse.ofMat (ofMat A) = ofSparse (.ofMat A) := by
  have stored (j : Fin n) : ((List.finRange m).map fun i => (i, ofMat A i j)).filter (!isZero ·.2) =
      (((List.finRange m).map fun i => (i, A i j)).filter (!isZero ·.2)).map ofEntry := by
    simp [List.filter_map, Function.comp_def, ofEntry]
  simp only [Sparse.ofMat, Sparse.dropZeros, ofSparse, Vector.map_ofFn, Function.comp_def, stored]

theorem diagonal_ofSparse (A : Sparse ℝ m n) (B : Sparse ℝ k l) :
    (ofSparse A).diagonal (ofSparse B) = ofSparse (A.diagonal B) := by
  simp [ofSparse, Sparse.diagonal, Function.comp_def, ofEntry]

theorem ofSparse_empty : ofSparse (.empty m n) = .empty m n := by
  simp [ofSparse, Sparse.empty]

theorem blockDiagonal_ofSparse (parts : List (Sized (Sparse ℝ))) :
    Sparse.blockDiagonal (parts.map fun part => part.map ofSparse) =
      (Sparse.blockDiagonal parts).map ofSparse := by
  induction parts with
  | nil => exact congrArg Sized.mk (ofSparse_empty (m := 0) (n := 0)).symm
  | cons part parts ih =>
    have step := diagonal_ofSparse part.value (Sparse.blockDiagonal parts).value
    -- `ih` equates matrices together with their shapes, so it is used before the shapes are split off.
    calc
      _ = Sized.mk ((ofSparse part.value).diagonal
          (Sparse.blockDiagonal (parts.map fun part => part.map ofSparse)).value) := rfl
      _ = ⟨(ofSparse part.value).diagonal ((Sparse.blockDiagonal parts).map ofSparse).value⟩ := by
        rw [ih]
      _ = ⟨ofSparse (part.value.diagonal (Sparse.blockDiagonal parts).value)⟩ := congrArg Sized.mk step

end Guarded

end ConicDerivative
