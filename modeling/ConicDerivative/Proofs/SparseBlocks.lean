import ConicDerivative.Proofs.SparseMatrices

/-!
Sparse matrices put together from others. Matrices beside or above one another act on the parts of a
vector, and the transpose of a product multiplies in the other order.
-/

namespace ConicDerivative.Sparse

open Scalar Matrix

variable {m n k l : Nat}

@[simp]
theorem matrix_empty : (empty m n : Sparse ℝ m n).matrix = 0 := by
  funext i j
  rw [matrix_apply, empty]
  simp [Vec.apply_eq_getElem]

@[simp]
theorem matrix_identity (n : Nat) : (identity n : Sparse ℝ n n).matrix = 1 := by
  funext i j
  rw [matrix_apply, identity, Vec.ofFn_apply]
  simp [share, Matrix.one_apply, eq_comm]

theorem stored_of_ne_zero {column : List (Fin m × ℝ)} {i : Fin m}
    (present : (column.map (share i)).sum ≠ 0) : column.any (·.1 = i) = true := by
  by_contra absent
  apply present
  rw [sum_share_filter_eq]
  have none : column.filter (·.1 = i) = [] := by
    rw [List.filter_eq_nil_iff]
    intro entry stored here
    exact absent (List.any_eq_true.2 ⟨entry, stored, here⟩)
  rw [none]
  rfl

theorem matrix_combine (f : ℝ → ℝ → ℝ) (zero : f 0 0 = 0) (A B : Sparse ℝ m n) (i : Fin m)
    (j : Fin n) : (combine f A B).matrix i j = f (A.matrix i j) (B.matrix i j) := by
  rw [combine, matrix_dropZeros, matrix_apply, Vec.ofFn_apply]
  let cell (l : Fin m) : Option ℝ :=
    if (A.columns j).any (·.1 = l) || (B.columns j).any (·.1 = l) then some (f (A l j) (B l j))
    else none
  have cells : (List.finRange m).filterMap (fun l =>
      if (A.columns j).any (·.1 = l) || (B.columns j).any (·.1 = l)
      then some (l, f (A l j) (B l j)) else none) =
      (List.finRange m).filterMap fun l => (cell l).map (l, ·) := by
    congr 1
    funext l
    simp only [cell]
    split_ifs <;> rfl
  rw [cells, sum_share_filterMap]
  simp only [cell]
  split_ifs with stored
  · rfl
  · simp only [Bool.or_eq_true, not_or] at stored
    have left : A.matrix i j = 0 := by
      by_contra present
      exact stored.1 (stored_of_ne_zero (matrix_apply A i j ▸ present))
    have right : B.matrix i j = 0 := by
      by_contra present
      exact stored.2 (stored_of_ne_zero (matrix_apply B i j ▸ present))
    rw [left, right, zero]
    rfl

@[simp]
theorem matrix_sub (A B : Sparse ℝ m n) : (combine (· - ·) A B).matrix = A.matrix - B.matrix := by
  funext i j
  exact matrix_combine (· - ·) (sub_zero 0) A B i j

/-- The entries of column `j` that meet one entry of the other factor. -/
theorem sum_share_products (column : List (Fin m × ℝ)) (entry : Fin m × ℝ) (j i : Fin n) :
    ((column.filterMap fun (l, v) => if l = entry.1 then some (j, v * entry.2) else none).map
      (share i)).sum = if j = i then (column.map (share entry.1)).sum * entry.2 else 0 := by
  induction column with
  | nil => simp
  | cons first column ih =>
    obtain ⟨l, v⟩ := first
    rw [List.filterMap_cons]
    by_cases here : l = entry.1
    · by_cases target : j = i
      · simp only [here, target, if_true, List.map_cons, List.sum_cons, share, add_mul] at ih ⊢
        rw [ih]
      · simp only [here, target, if_false, if_true, List.map_cons, List.sum_cons, share] at ih ⊢
        rw [ih, add_zero]
    · simp only [here, if_false, List.map_cons, List.sum_cons, share, zero_add] at ih ⊢
      rw [ih]

theorem sum_share_flatMap {β : Type} (i : Fin m) (items : List β) (f : β → List (Fin m × ℝ)) :
    ((items.flatMap f).map (share i)).sum = (items.map fun item => ((f item).map (share i)).sum).sum
    := by
  induction items with
  | nil => rfl
  | cons item items ih =>
    rw [List.flatMap_cons, sum_share_append, ih, List.map_cons, List.sum_cons]

@[simp]
theorem matrix_transposeMul (A : Sparse ℝ m n) (B : Sparse ℝ m k) :
    (A.transposeMul B).matrix = A.matrixᵀ * B.matrix := by
  funext j c
  have column : (A.transposeMul B).columns c = collect ((List.finRange n).flatMap fun j =>
      (B.columns c).flatMap fun (i, w) => (A.columns j).filterMap fun (l, v) =>
        if l = i then some (j, v * w) else none) := by
    simp [transposeMul, Vec.apply_eq_getElem]
  rw [matrix_apply, column, sum_share_collect, sum_share_flatMap]
  simp only [sum_share_flatMap, sum_share_products]
  rw [← List.ofFn_eq_map, List.sum_ofFn, Finset.sum_eq_single j]
  · simp only [if_true, Matrix.mul_apply, Matrix.transpose_apply, matrix_apply]
    have products := sum_shares_mul (B.columns c) fun i => ((A.columns j).map (share i)).sum
    simp only [mul_comm] at products ⊢
    exact products.symm
  · intro other _ different
    simp [different]
  · intro absent
    exact absurd (Finset.mem_univ j) absent

theorem columns_beside_left (A : Sparse ℝ m n) (B : Sparse ℝ m k) (j : Fin n) :
    (A.beside B).columns (j.castAdd k) = A.columns j := by
  rw [← Vec.left_apply, beside, Vec.left_append]

theorem columns_beside_right (A : Sparse ℝ m n) (B : Sparse ℝ m k) (j : Fin k) :
    (A.beside B).columns (j.natAdd n) = B.columns j := by
  rw [← Vec.right_apply, beside, Vec.right_append]

theorem mulVec_beside (A : Sparse ℝ m n) (B : Sparse ℝ m k) (z : Vector ℝ (n + k)) :
    (A.beside B).mulVec z = A.mulVec (Vec.left z) + B.mulVec (Vec.right z) := by
  apply Vec.get_injective
  funext i
  rw [Vec.get_add, get_mulVec, get_mulVec, get_mulVec]
  simp only [Matrix.mulVec, dotProduct, Fin.sum_univ_add, Pi.add_apply, matrix_apply,
    columns_beside_left, columns_beside_right, Vec.left_apply, Vec.right_apply]

theorem transposeMulVec_beside (A : Sparse ℝ m n) (B : Sparse ℝ m k) (y : Vector ℝ m) :
    (A.beside B).transposeMulVec y = A.transposeMulVec y ++ B.transposeMulVec y := by
  apply Vec.ext_parts
  · rw [Vec.left_append]
    apply Vec.ext
    intro j
    rw [Vec.left_apply, transposeMulVec, Vec.ofFn_apply, columns_beside_left, transposeMulVec,
      Vec.ofFn_apply]
  · rw [Vec.right_append]
    apply Vec.ext
    intro j
    rw [Vec.right_apply, transposeMulVec, Vec.ofFn_apply, columns_beside_right, transposeMulVec,
      Vec.ofFn_apply]

def moved {α : Type} (f : Fin m → Fin k) (column : List (Fin m × α)) : List (Fin k × α) :=
  column.map fun (i, v) => (f i, v)

theorem sum_share_moved {f : Fin m → Fin k} (apart : Function.Injective f) (i : Fin m)
    (column : List (Fin m × ℝ)) : ((moved f column).map (share (f i))).sum =
      (column.map (share i)).sum := by
  rw [moved, List.map_map]
  congr 1
  apply List.map_congr_left
  intro entry _
  simp [share, apart.eq_iff]

theorem sum_share_moved_of_ne {f : Fin m → Fin k} {i : Fin k} (outside : ∀ j, f j ≠ i)
    (column : List (Fin m × ℝ)) : ((moved f column).map (share i)).sum = 0 := by
  rw [moved, List.map_map]
  apply List.sum_eq_zero
  intro v stored
  obtain ⟨entry, _, rfl⟩ := List.mem_map.1 stored
  simp [share, outside]

theorem castAdd_ne_natAdd (i : Fin m) (j : Fin k) : i.castAdd k ≠ j.natAdd m := by
  intro same
  have values := congrArg Fin.val same
  simp only [Fin.val_castAdd, Fin.val_natAdd] at values
  omega

theorem columns_above (A : Sparse ℝ m n) (B : Sparse ℝ k n) (j : Fin n) :
    (A.above B).columns j = moved (Fin.castAdd k) (A.columns j) ++ moved (Fin.natAdd m) (B.columns j)
    := by
  simp [above, moved, Vec.apply_eq_getElem]

theorem matrix_above_castAdd (A : Sparse ℝ m n) (B : Sparse ℝ k n) (i : Fin m) (j : Fin n) :
    (A.above B).matrix (i.castAdd k) j = A.matrix i j := by
  rw [matrix_apply, columns_above, sum_share_append, sum_share_moved (Fin.castAdd_injective m k),
    sum_share_moved_of_ne (fun l => (castAdd_ne_natAdd i l).symm), add_zero, matrix_apply]

theorem matrix_above_natAdd (A : Sparse ℝ m n) (B : Sparse ℝ k n) (i : Fin k) (j : Fin n) :
    (A.above B).matrix (i.natAdd m) j = B.matrix i j := by
  rw [matrix_apply, columns_above, sum_share_append, sum_share_moved (Fin.natAdd_injective k m),
    sum_share_moved_of_ne (fun l => castAdd_ne_natAdd l i), zero_add, matrix_apply]

theorem mulVec_above (A : Sparse ℝ m n) (B : Sparse ℝ k n) (x : Vector ℝ n) :
    (A.above B).mulVec x = A.mulVec x ++ B.mulVec x := by
  apply Vec.ext_parts
  · rw [Vec.left_append]
    apply Vec.get_injective
    funext i
    rw [Vec.left_apply, get_mulVec, get_mulVec]
    simp only [Matrix.mulVec, dotProduct, matrix_above_castAdd]
  · rw [Vec.right_append]
    apply Vec.get_injective
    funext i
    rw [Vec.right_apply, get_mulVec, get_mulVec]
    simp only [Matrix.mulVec, dotProduct, matrix_above_natAdd]

theorem transposeMulVec_above (A : Sparse ℝ m n) (B : Sparse ℝ k n) (y : Vector ℝ (m + k)) :
    (A.above B).transposeMulVec y = A.transposeMulVec (Vec.left y) + B.transposeMulVec (Vec.right y)
    := by
  apply Vec.get_injective
  funext j
  rw [Vec.get_add, get_transposeMulVec, get_transposeMulVec, get_transposeMulVec]
  simp only [Matrix.mulVec, dotProduct, Fin.sum_univ_add, Pi.add_apply, Matrix.transpose_apply,
    matrix_above_castAdd, matrix_above_natAdd, Vec.left_apply, Vec.right_apply]

theorem mulVec_empty (x : Vector ℝ n) : (empty m n : Sparse ℝ m n).mulVec x = Vector.replicate m 0
    := by
  apply Vec.get_injective
  rw [get_mulVec, matrix_empty, Matrix.zero_mulVec, Vec.get_zeros]

theorem transposeMulVec_empty (y : Vector ℝ m) :
    (empty m n : Sparse ℝ m n).transposeMulVec y = Vector.replicate n 0 := by
  apply Vec.get_injective
  rw [get_transposeMulVec, matrix_empty, Matrix.transpose_zero, Matrix.zero_mulVec, Vec.get_zeros]

theorem diagonal_eq_beside (A : Sparse ℝ m n) (B : Sparse ℝ k l) :
    A.diagonal B = (A.above (empty k n)).beside ((empty m l).above B) := by
  have upper : (A.above (empty k n)).columns = A.columns.map (moved (Fin.castAdd k)) := by
    apply Vec.ext
    intro j
    rw [columns_above]
    simp [moved, empty, Vec.apply_eq_getElem]
  have lower : ((empty m l : Sparse ℝ m l).above B).columns = B.columns.map (moved (Fin.natAdd m))
      := by
    apply Vec.ext
    intro j
    rw [columns_above]
    simp [moved, empty, Vec.apply_eq_getElem]
  rw [beside, upper, lower]
  rfl

theorem mulVec_diagonal (A : Sparse ℝ m n) (B : Sparse ℝ k l) (x : Vector ℝ (n + l)) :
    (A.diagonal B).mulVec x = A.mulVec (Vec.left x) ++ B.mulVec (Vec.right x) := by
  rw [diagonal_eq_beside, mulVec_beside, mulVec_above, mulVec_above, mulVec_empty, mulVec_empty]
  apply Vec.ext_parts
  · rw [Vec.left_add, Vec.left_append, Vec.left_append, Vec.left_append, Vec.add_replicate_zero]
  · rw [Vec.right_add, Vec.right_append, Vec.right_append, Vec.right_append,
      Vec.replicate_zero_add]

theorem transposeMulVec_diagonal (A : Sparse ℝ m n) (B : Sparse ℝ k l) (y : Vector ℝ (m + k)) :
    (A.diagonal B).transposeMulVec y =
      A.transposeMulVec (Vec.left y) ++ B.transposeMulVec (Vec.right y) := by
  rw [diagonal_eq_beside, transposeMulVec_beside, transposeMulVec_above, transposeMulVec_above,
    transposeMulVec_empty, transposeMulVec_empty, Vec.add_replicate_zero, Vec.replicate_zero_add]

end ConicDerivative.Sparse
