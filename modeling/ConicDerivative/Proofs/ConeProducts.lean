import ConicDerivative.Proofs.PackedIsometry

/-!
Products of cones, as sets of vectors. A product is a list of cones with their dimensions, laid out
one after another; a vector is read as the function of its entries. Semidefinite blocks are triangles
of symmetric matrices, in one of two orders.
-/

namespace ConicDerivative

open Scalar Matrix Packed

/-- Both orders list columns, of the lower triangle or of the upper one. -/
inductive Packing where
  | lower
  | upper

namespace Packing

def place (packing : Packing) (d i j : Nat) : Nat :=
  match packing with
  | lower => position d i j
  | upper => triangle j + i

theorem triangle_add_lt {d i j : Nat} (order : i ≤ j) (bound : j < d) : triangle j + i < triangle d := by
  induction d with
  | zero => omega
  | succ d ih =>
    rw [triangle]
    rcases Nat.lt_or_eq_of_le (Nat.le_of_lt_succ bound) with earlier | last
    · have := ih earlier
      omega
    · subst last
      omega

theorem place_lt (packing : Packing) {d i j : Nat} (order : i ≤ j) (bound : j < d) :
    packing.place d i j < triangle d := by
  cases packing with
  | lower => exact position_lt order bound
  | upper => exact triangle_add_lt order bound

noncomputable def matrix (packing : Packing) (d : Nat) (f : Nat → ℝ) :
    Matrix (Fin d) (Fin d) ℝ := fun i j =>
  if i = j then f (packing.place d i i)
  else f (packing.place d (min i.val j.val) (max i.val j.val)) / √2

theorem matrix_congr (packing packing' : Packing) {d : Nat} {f g : Nat → ℝ}
    (same : ∀ i j, i ≤ j → j < d → f (packing.place d i j) = g (packing'.place d i j)) :
    packing.matrix d f = packing'.matrix d g := by
  funext i j
  unfold matrix
  split_ifs with diagonal
  · exact same i i le_rfl i.isLt
  · rw [same _ _ min_le_max (max_lt i.isLt j.isLt)]

theorem place_lower {d : Nat} (i j : Fin d) :
    (Packed.place i j : Nat) = lower.place d (min i.val j.val) (max i.val j.val) := by
  unfold Packed.place
  split_ifs with order
  · have below : i.val ≤ j.val := order
    rw [min_eq_left below, max_eq_right below, place]
  · have above : j.val ≤ i.val := Nat.le_of_not_le order
    rw [min_eq_right above, max_eq_left above, place]

theorem matrix_lower {d : Nat} {f : Nat → ℝ} {x : Vector ℝ (triangle d)}
    (same : ∀ k : Fin (triangle d), f k = x k) : lower.matrix d f = (unpack d x).matrix := by
  funext i j
  rw [unpack_cell, matrix, ← same, ← same, place_lower, place_lower, min_self, max_self, rootTwo_eq]

end Packing

namespace Cone

def rows (cone : Cone) (dim : Nat) : Nat :=
  match cone with
  | semidefinite => triangle dim
  | _ => dim

def Contains (packing : Packing) (cone : Cone) (dim : Nat) (f : Nat → ℝ) : Prop :=
  match cone, dim with
  | zero, dim => ∀ i < dim, f i = 0
  | free, _ => True
  | nonnegative, dim => ∀ i < dim, 0 ≤ f i
  | secondOrder, 0 => True
  | secondOrder, dim + 1 => √(∑ i ∈ Finset.range dim, f (i + 1) ^ 2) ≤ f 0
  | semidefinite, dim => (packing.matrix dim f).PosSemidef

variable {packing packing' : Packing} {cone : Cone} {dim : Nat} {f g : Nat → ℝ}

theorem rows_zero (cone : Cone) : cone.rows 0 = 0 := by cases cone <;> rfl

theorem rows_dual (cone : Cone) (dim : Nat) : cone.dual.rows dim = cone.rows dim := by
  cases cone <;> rfl

theorem contains_empty (packing : Packing) (cone : Cone) (f : Nat → ℝ) :
    cone.Contains packing 0 f := by
  cases cone with
  | zero | nonnegative => exact fun i bound => absurd bound (Nat.not_lt_zero i)
  | free | secondOrder => exact trivial
  | semidefinite =>
    have nothing : packing.matrix 0 f = 0 := Subsingleton.elim _ _
    rw [Contains, nothing]
    exact PosSemidef.zero

theorem Contains.of_eq (inside : cone.Contains packing dim f)
    (same : ∀ i < cone.rows dim, f i = g i) : cone.Contains packing dim g := by
  cases cone with
  | zero =>
    intro i bound
    rw [← same i bound]
    exact inside i bound
  | free => exact trivial
  | nonnegative =>
    intro i bound
    rw [← same i bound]
    exact inside i bound
  | secondOrder =>
    cases dim with
    | zero => exact trivial
    | succ dim =>
      have head := same 0 (Nat.succ_pos dim)
      have tail : ∑ i ∈ Finset.range dim, f (i + 1) ^ 2 = ∑ i ∈ Finset.range dim, g (i + 1) ^ 2 :=
        Finset.sum_congr rfl fun i listed => by
          rw [same (i + 1) (Nat.succ_lt_succ (Finset.mem_range.1 listed))]
      simp only [Contains, ← head, ← tail]
      exact inside
  | semidefinite =>
    have matrices : packing.matrix dim f = packing.matrix dim g :=
      Packing.matrix_congr packing packing fun i j order bound =>
        same _ (packing.place_lt order bound)
    rw [Contains, ← matrices]
    exact inside

theorem Contains.repack (flat : cone ≠ semidefinite) (inside : cone.Contains packing dim f) :
    cone.Contains packing' dim f := by
  cases cone with
  | semidefinite => exact absurd rfl flat
  | secondOrder =>
    cases dim with
    | zero => exact trivial
    | succ dim => exact inside
  | zero | free | nonnegative => exact inside

end Cone

abbrev ConeProduct := List (Cone × Nat)

namespace ConeProduct

def rows (K : ConeProduct) : Nat := (K.map fun (cone, dim) => cone.rows dim).sum

def dual (K : ConeProduct) : ConeProduct := K.map fun (cone, dim) => (cone.dual, dim)

def Contains (packing : Packing) : ConeProduct → (Nat → ℝ) → Prop
  | [], _ => True
  | (cone, dim) :: rest, f =>
    cone.Contains packing dim f ∧ Contains packing rest fun i => f (cone.rows dim + i)

variable {packing : Packing} {K L : ConeProduct} {f g : Nat → ℝ}

theorem rows_cons (cone : Cone) (dim : Nat) (K : ConeProduct) :
    rows ((cone, dim) :: K) = cone.rows dim + rows K := by
  rw [rows, List.map_cons, List.sum_cons, rows]

theorem rows_append (K L : ConeProduct) : rows (K ++ L) = rows K + rows L := by
  rw [rows, List.map_append, List.sum_append, rows, rows]

theorem rows_dual (K : ConeProduct) : rows (dual K) = rows K := by
  rw [rows, dual, List.map_map, rows]
  congr 1
  apply List.map_congr_left
  intro block _
  exact block.1.rows_dual block.2

theorem dual_append (K L : ConeProduct) : dual (K ++ L) = dual K ++ dual L := List.map_append

theorem Contains.of_eq (inside : Contains packing K f) (same : ∀ i < rows K, f i = g i) :
    Contains packing K g := by
  induction K generalizing f g with
  | nil => exact trivial
  | cons block K ih =>
    obtain ⟨cone, dim⟩ := block
    rw [rows_cons] at same
    obtain ⟨first, rest⟩ := inside
    exact ⟨first.of_eq fun i bound => same i (by omega),
      ih rest fun i bound => same _ (by omega)⟩

theorem contains_append : Contains packing (K ++ L) f ↔
    Contains packing K f ∧ Contains packing L fun i => f (rows K + i) := by
  induction K generalizing f with
  | nil => simp [Contains, rows]
  | cons block K ih =>
    obtain ⟨cone, dim⟩ := block
    rw [List.cons_append, Contains, Contains, ih, rows_cons, and_assoc]
    simp only [Nat.add_assoc]

def nonempty (K : ConeProduct) : ConeProduct := K.filter fun block => 0 < block.2

theorem nonempty_cons {cone : Cone} {dim : Nat} (positive : 0 < dim) :
    nonempty ((cone, dim) :: K) = (cone, dim) :: nonempty K :=
  List.filter_cons_of_pos (decide_eq_true positive)

theorem nonempty_cons_zero (cone : Cone) (K : ConeProduct) :
    nonempty ((cone, 0) :: K) = nonempty K := List.filter_cons_of_neg (by simp)

theorem rows_nonempty (K : ConeProduct) : rows (nonempty K) = rows K := by
  induction K with
  | nil => rfl
  | cons block K ih =>
    obtain ⟨cone, dim⟩ := block
    by_cases positive : 0 < dim
    · rw [nonempty_cons positive, rows_cons, rows_cons, ih]
    · obtain rfl : dim = 0 := by omega
      rw [nonempty_cons_zero, rows_cons, Cone.rows_zero, Nat.zero_add, ih]

theorem contains_nonempty : Contains packing (nonempty K) f ↔ Contains packing K f := by
  induction K generalizing f with
  | nil => rfl
  | cons block K ih =>
    obtain ⟨cone, dim⟩ := block
    by_cases positive : 0 < dim
    · rw [nonempty_cons positive, Contains, Contains, ih]
    · obtain rfl : dim = 0 := by omega
      rw [nonempty_cons_zero, Contains, Cone.rows_zero, ih]
      simp only [Nat.zero_add, cone.contains_empty packing f, true_and]

theorem dual_nonempty (K : ConeProduct) : dual (nonempty K) = nonempty (dual K) := by
  rw [dual, nonempty, dual, nonempty, List.filter_map]
  rfl

end ConeProduct

end ConicDerivative
