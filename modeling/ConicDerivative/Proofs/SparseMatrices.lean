import ConicDerivative.Proofs.Matrices

/-!
Sparse matrices over the real numbers. A cell stored more than once counts with its sum, so the view
of a sparse matrix does not depend on how its entries are spread over the store.
-/

namespace ConicDerivative

open Scalar Matrix

variable {m n k l : Nat}

namespace Sparse

noncomputable def share (i : Fin m) (entry : Fin m × ℝ) : ℝ := if entry.1 = i then entry.2 else 0

theorem foldl_eq_add_sum {β : Type} (f : β → ℝ) (items : List β) (start : ℝ) :
    items.foldl (fun total item => total + f item) start = start + (items.map f).sum := by
  induction items generalizing start with
  | nil => simp
  | cons item items ih =>
    rw [List.foldl_cons, ih, List.map_cons, List.sum_cons, add_assoc]

theorem sumOn_id (column : List (Fin m × ℝ)) (i : Fin m) :
    sumOn column i id = (column.map (share i)).sum := by
  have step : (fun (total : ℝ) (entry : Fin m × ℝ) =>
      if entry.1 = i then total + id entry.2 else total) =
      fun total entry => total + share i entry := by
    funext total entry
    unfold share
    split_ifs <;> simp
  rw [sumOn, step, foldl_eq_add_sum, zero_add]

theorem addProduct_eq (column : List (Fin m × ℝ)) (i : Fin m) (factor total : ℝ) :
    addProduct column i factor total = total + (column.map (share i)).sum * factor := by
  have step : (fun (total : ℝ) (entry : Fin m × ℝ) =>
      if entry.1 = i then total + entry.2 * factor else total) =
      fun total entry => total + share i entry * factor := by
    funext total entry
    unfold share
    split_ifs <;> simp
  have folded : addProduct column i factor total =
      column.foldl (fun total entry => total + share i entry * factor) total := by
    rw [← step]
    rfl
  rw [folded, foldl_eq_add_sum, List.sum_map_mul_right]

theorem sum_share_mul (y : Fin m → ℝ) (entry : Fin m × ℝ) :
    ∑ i, share i entry * y i = entry.2 * y entry.1 := by
  simp [share]

theorem sum_map_comm {β : Type} (f : Fin k → β → ℝ) (items : List β) :
    ∑ i, (items.map (f i)).sum = (items.map fun item => ∑ i, f i item).sum := by
  induction items with
  | nil => simp
  | cons item items ih =>
    simp only [List.map_cons, List.sum_cons, Finset.sum_add_distrib]
    rw [ih]

theorem sum_shares_mul (column : List (Fin m × ℝ)) (y : Fin m → ℝ) :
    ∑ i, (column.map (share i)).sum * y i = (column.map fun entry => entry.2 * y entry.1).sum := by
  simp only [← List.sum_map_mul_right, sum_map_comm, sum_share_mul]

noncomputable def matrix (A : Sparse ℝ m n) : Matrix (Fin m) (Fin n) ℝ := fun i j => A i j

theorem matrix_apply (A : Sparse ℝ m n) (i : Fin m) (j : Fin n) :
    A.matrix i j = ((A.columns j).map (share i)).sum := sumOn_id ..

@[simp]
theorem matrix_toMat (A : Sparse ℝ m n) : A.toMat.matrix = A.matrix := by
  rw [toMat, Mat.matrix_ofFn]
  rfl

@[simp]
theorem get_mulVec (A : Sparse ℝ m n) (x : Vector ℝ n) : (A.mulVec x).get = A.matrix *ᵥ x.get := by
  rw [mulVec, Vec.get_ofFn]
  funext i
  simp only [addProduct_eq, ← matrix_apply]
  exact sumOver_eq_sum n _

@[simp]
theorem get_transposeMulVec (A : Sparse ℝ m n) (y : Vector ℝ m) :
    (A.transposeMulVec y).get = A.matrixᵀ *ᵥ y.get := by
  rw [transposeMulVec, Vec.get_ofFn]
  funext j
  rw [foldl_eq_add_sum, zero_add, ← sum_shares_mul (A.columns j) y.get]
  simp only [← matrix_apply]
  rfl

theorem sum_share_append (i : Fin m) (first second : List (Fin m × ℝ)) :
    ((first ++ second).map (share i)).sum =
      (first.map (share i)).sum + (second.map (share i)).sum := by
  rw [List.map_append, List.sum_append]

theorem sum_share_filter_eq (i : Fin m) (column : List (Fin m × ℝ)) :
    (column.map (share i)).sum = ((column.filter (·.1 = i)).map (·.2)).sum := by
  induction column with
  | nil => rfl
  | cons entry column ih =>
    by_cases here : entry.1 = i
    · simp [share, here, ih]
    · simp [share, here, ih]

theorem sum_share_filterMap (i : Fin m) (f : Fin m → Option ℝ) :
    (((List.finRange m).filterMap fun l => (f l).map (l, ·)).map (share i)).sum = (f i).getD 0 := by
  have rows : ∀ rows : List (Fin m), rows.Nodup →
      ((rows.filterMap fun l => (f l).map (l, ·)).map (share i)).sum =
        if i ∈ rows then (f i).getD 0 else 0 := by
    intro rows distinct
    induction rows with
    | nil => simp
    | cons l rows ih =>
      obtain ⟨fresh, distinct⟩ := List.nodup_cons.1 distinct
      have rest := ih distinct
      by_cases here : l = i
      · subst here
        cases value : f l with
        | none => simp [value, rest, fresh]
        | some v => simp [value, share, rest, fresh]
      · cases value : f l with
        | none => simp [value, rest, Ne.symm here]
        | some v => simp [value, share, rest, here, Ne.symm here]
  rw [rows _ (List.nodup_finRange m), if_pos (List.mem_finRange i)]

theorem sum_share_collect (i : Fin m) (column : List (Fin m × ℝ)) :
    ((collect column).map (share i)).sum = (column.map (share i)).sum := by
  let total (l : Fin m) : Option ℝ := match (column.filter (·.1 = l)).map (·.2) with
    | [] => none
    | v :: vs => some (vs.foldl (· + ·) v)
  have rows : collect column = (List.finRange m).filterMap fun l => (total l).map (l, ·) := by
    unfold collect
    congr 1
    funext l
    simp only [total]
    cases (column.filter (·.1 = l)).map (·.2) <;> rfl
  rw [rows, sum_share_filterMap, sum_share_filter_eq]
  simp only [total]
  cases (column.filter (·.1 = i)).map (·.2) with
  | nil => rfl
  | cons v vs => simpa using foldl_eq_add_sum id vs v

theorem sum_share_dropZeros (i : Fin m) (column : List (Fin m × ℝ)) :
    ((column.filter (!isZero ·.2)).map (share i)).sum = (column.map (share i)).sum := by
  induction column with
  | nil => rfl
  | cons entry column ih =>
    by_cases zero : isZero entry.2 = true
    · have nothing : share i entry = 0 := by simp [share, isZero_iff.1 zero]
      simp [zero, ih, nothing]
    · simp [zero, ih]

@[simp]
theorem matrix_sumDuplicates (A : Sparse ℝ m n) : A.sumDuplicates.matrix = A.matrix := by
  funext i j
  rw [matrix_apply, matrix_apply, ← sum_share_collect i (A.columns j)]
  simp [sumDuplicates, Vec.apply_eq_getElem]

@[simp]
theorem matrix_dropZeros (A : Sparse ℝ m n) : A.dropZeros.matrix = A.matrix := by
  funext i j
  rw [matrix_apply, matrix_apply, ← sum_share_dropZeros i (A.columns j)]
  simp [dropZeros, Vec.apply_eq_getElem]

@[simp]
theorem matrix_ofMat (A : Mat ℝ m n) : (ofMat A).matrix = A.matrix := by
  rw [ofMat, matrix_dropZeros]
  funext i j
  rw [matrix_apply, Vec.ofFn_apply, List.map_map]
  have shares : share i ∘ (fun l => (l, A l j)) = fun l => if l = i then A l j else 0 := rfl
  rw [shares, ← List.ofFn_eq_map, List.sum_ofFn]
  simp [Mat.matrix]

end Sparse

namespace Listed

noncomputable def share (i : Fin m) (j : Fin n) (entry : Fin m × Fin n × ℝ) : ℝ :=
  if entry.1 = i ∧ entry.2.1 = j then entry.2.2 else 0

theorem matrix_apply (A : Listed ℝ m n) (i : Fin m) (j : Fin n) :
    A.toMat.matrix i j = (A.entries.map (share i j)).sum := by
  rw [toMat, Sparse.matrix_toMat, Sparse.matrix_apply, toSparse, Sparse.ofEntries, Vec.ofFn_apply]
  induction A.entries with
  | nil => rfl
  | cons entry entries ih =>
    obtain ⟨row, column, v⟩ := entry
    rw [List.map_cons, List.sum_cons, ← ih, List.filterMap_cons]
    by_cases here : column = j
    · simp [here, share, Sparse.share]
    · simp [here, share]

theorem sum_share_mul_column (x : Fin n → ℝ) (i : Fin m) (entry : Fin m × Fin n × ℝ) :
    ∑ j, share i j entry * x j = if entry.1 = i then entry.2.2 * x entry.2.1 else 0 := by
  by_cases here : entry.1 = i
  · simp [share, here]
  · simp [share, here]

theorem sum_share_mul_row (y : Fin m → ℝ) (j : Fin n) (entry : Fin m × Fin n × ℝ) :
    ∑ i, share i j entry * y i = if entry.2.1 = j then entry.2.2 * y entry.1 else 0 := by
  by_cases here : entry.2.1 = j
  · simp [share, here]
  · simp [share, here]

@[simp]
theorem get_mulVec (A : Listed ℝ m n) (x : Vector ℝ n) :
    (A.mulVec x).get = A.toMat.matrix *ᵥ x.get := by
  rw [mulVec, Vec.get_ofFn]
  funext i
  have step : (fun (total : ℝ) (entry : Fin m × Fin n × ℝ) =>
      if entry.1 = i then total + entry.2.2 * x entry.2.1 else total) =
      fun total entry => total + ∑ j, share i j entry * x j := by
    funext total entry
    rw [sum_share_mul_column]
    split_ifs <;> simp
  calc
    _ = A.entries.foldl (fun total entry => total + ∑ j, share i j entry * x j) 0 := by
      rw [← step]
    _ = ∑ j, (A.entries.map (share i j)).sum * x j := by
      rw [Sparse.foldl_eq_add_sum, zero_add]
      simp only [← List.sum_map_mul_right, Sparse.sum_map_comm]
    _ = _ := by
      simp only [← matrix_apply]
      rfl

@[simp]
theorem get_transposeMulVec (A : Listed ℝ m n) (y : Vector ℝ m) :
    (A.transposeMulVec y).get = A.toMat.matrixᵀ *ᵥ y.get := by
  rw [transposeMulVec, Vec.get_ofFn]
  funext j
  have step : (fun (total : ℝ) (entry : Fin m × Fin n × ℝ) =>
      if entry.2.1 = j then total + entry.2.2 * y entry.1 else total) =
      fun total entry => total + ∑ i, share i j entry * y i := by
    funext total entry
    rw [sum_share_mul_row]
    split_ifs <;> simp
  calc
    _ = A.entries.foldl (fun total entry => total + ∑ i, share i j entry * y i) 0 := by
      rw [← step]
    _ = ∑ i, (A.entries.map (share i j)).sum * y i := by
      rw [Sparse.foldl_eq_add_sum, zero_add]
      simp only [← List.sum_map_mul_right, Sparse.sum_map_comm]
    _ = _ := by
      simp only [← matrix_apply]
      rfl

end Listed

end ConicDerivative
