import ConicDerivative.Scalar

/-!
Vectors of a known length. Every operation is given by its entries, first those that join vectors and
cut them apart, and then those that compute.
-/

namespace ConicDerivative.Vec

variable {α : Type} {m n k : Nat}

instance entries : CoeFun (Vector α n) fun _ => Fin n → α := ⟨Vector.get⟩

theorem apply_eq_getElem (x : Vector α n) (i : Fin n) : x i = x[i.val] := rfl

theorem ext {x y : Vector α n} (same : ∀ i, x i = y i) : x = y := by
  apply Vector.ext
  intro i h
  exact same ⟨i, h⟩

@[simp]
theorem ofFn_apply (f : Fin n → α) (i : Fin n) : Vector.ofFn f i = f i := by
  simp [apply_eq_getElem]

theorem map_apply {β : Type} (f : α → β) (x : Vector α n) (i : Fin n) : x.map f i = f (x i) := by
  rw [apply_eq_getElem, Vector.getElem_map]
  rfl

def left (z : Vector α (n + m)) : Vector α n := Vector.ofFn fun i => z (i.castAdd m)

def right (z : Vector α (n + m)) : Vector α m := Vector.ofFn fun i => z (i.natAdd n)

@[simp]
theorem left_apply (z : Vector α (n + m)) (i : Fin n) : left z i = z (i.castAdd m) :=
  ofFn_apply ..

@[simp]
theorem right_apply (z : Vector α (n + m)) (i : Fin m) : right z i = z (i.natAdd n) :=
  ofFn_apply ..

theorem left_append (x : Vector α n) (y : Vector α m) : left (x ++ y) = x := by
  apply ext
  intro i
  rw [left_apply]
  exact Vector.getElem_append_left i.isLt

theorem right_append (x : Vector α n) (y : Vector α m) : right (x ++ y) = y := by
  apply ext
  intro i
  rw [right_apply]
  simp [apply_eq_getElem, Vector.getElem_append_right]

def empty : Vector α 0 := #v[]

def head (x : Vector α (n + 1)) : α := x ⟨0, n.succ_pos⟩

def tail (x : Vector α (n + 1)) : Vector α n := Vector.ofFn fun i => x i.succ

def cons (t : α) (z : Vector α n) : Vector α (n + 1) := Vector.ofFn (Fin.cases t z)

@[simp]
theorem tail_apply (x : Vector α (n + 1)) (i : Fin n) : tail x i = x i.succ := ofFn_apply ..

@[simp]
theorem cons_zero (t : α) (z : Vector α n) : cons t z 0 = t := ofFn_apply ..

@[simp]
theorem cons_succ (t : α) (z : Vector α n) (i : Fin n) : cons t z i.succ = z i :=
  ofFn_apply ..

theorem cons_tail (x : Vector α (n + 1)) : cons (head x) (tail x) = x := by
  apply ext
  intro i
  cases i using Fin.cases with
  | zero => exact cons_zero ..
  | succ i => rw [cons_succ, tail_apply]

structure Span (n : Nat) where
  start : Nat
  stop : Nat
  start_le : start ≤ stop
  stop_le : stop ≤ n

namespace Span

def size (s : Span n) : Nat := s.stop - s.start

/-- An offset below zero counts from the end, and one outside the vector is moved to its edge. -/
def edge (n : Nat) (offset : Int) : Nat :=
  min n (if offset < 0 then offset + n else offset).toNat

theorem edge_le (n : Nat) (offset : Int) : edge n offset ≤ n := Nat.min_le_left ..

def between (n : Nat) (start stop : Int) : Span n where
  start := edge n start
  stop := max (edge n start) (edge n stop)
  start_le := Nat.le_max_left ..
  stop_le := Nat.max_le.2 ⟨edge_le .., edge_le ..⟩

def index (s : Span n) (i : Fin s.size) : Fin n :=
  ⟨s.start + i, by
    have bound := i.isLt
    have := s.stop_le
    simp only [size] at bound
    omega⟩

def Contains (s : Span n) (i : Fin n) : Prop := s.start ≤ i.val ∧ i.val < s.stop

instance (s : Span n) (i : Fin n) : Decidable (s.Contains i) :=
  inferInstanceAs (Decidable (_ ∧ _))

def offset (s : Span n) (i : Fin n) (inside : s.Contains i) : Fin s.size :=
  ⟨i.val - s.start, by
    obtain ⟨above, below⟩ := inside
    simp only [size]
    omega⟩

end Span

def slice (x : Vector α n) (s : Span n) : Vector α s.size :=
  Vector.ofFn fun i => x (s.index i)

def overwrite (x : Vector α n) (s : Span n) (w : Vector α s.size) : Vector α n :=
  Vector.ofFn fun i => if h : s.Contains i then w (s.offset i h) else x i

open Scalar

variable [Scalar α]

def dot (x y : Vector α n) : α := sumOver n fun i => x i * y i

def norm (x : Vector α n) : α := sqrt (dot x x)

def scale (a : α) (x : Vector α n) : Vector α n := x.map (a * ·)

@[simp]
theorem scale_apply (a : α) (x : Vector α n) (i : Fin n) : scale a x i = a * x i := by
  simp [scale, apply_eq_getElem]

@[simp]
theorem add_apply (x y : Vector α n) (i : Fin n) : (x + y) i = x i + y i := by
  simp [apply_eq_getElem]

@[simp]
theorem sub_apply (x y : Vector α n) (i : Fin n) : (x - y) i = x i - y i := by
  simp [apply_eq_getElem]

@[simp]
theorem neg_apply (x : Vector α n) (i : Fin n) : (-x) i = -x i := by
  simp [apply_eq_getElem]

/-- Every entry is a zero of either sign; a NaN is no zero. -/
def isNull (x : Vector α n) : Bool := x.all isZero

def allFinite (x : Vector α n) : Bool := x.all isFinite

end ConicDerivative.Vec
