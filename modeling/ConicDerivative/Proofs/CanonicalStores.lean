import ConicDerivative.Proofs.SummedEntries

/-!
The matrix of a program in store. However a matrix is handed in, the store lists the nonzero cells of
each column in increasing order of their rows, each of them once and with what its entries add up to.
So matrices whose entries add up alike are stored alike.
-/

namespace ConicDerivative

open Scalar Matrix Outcomes

namespace Sparse

section Arrays

variable {α β : Type} {m n : Nat}

def columnPart (A : Sparse α m n) (stored : List β) (j : Nat) : List β :=
  (stored.drop (A.columnStarts.getD j 0)).take
    (A.columnStarts.getD (j + 1) 0 - A.columnStarts.getD j 0)

theorem getD_columnStarts (A : Sparse α m n) {j : Nat} (inside : j ≤ n) :
    A.columnStarts.getD j 0 = (A.columns.toList.take j).flatten.length := by
  have bound : j < n + 1 := by omega
  simp [columnStarts, bound]

theorem take_drop_flatMap (columns : List (List α)) (f : α → β) {j : Nat}
    (inside : j < columns.length) :
    ((columns.flatMap fun column => column.map f).drop (columns.take j).flatten.length).take
      ((columns.take (j + 1)).flatten.length - (columns.take j).flatten.length) =
        columns[j].map f := by
  have split : (columns.flatMap fun column => column.map f) =
      (columns.take j).flatten.map f ++ (columns[j].map f ++
        (columns.drop (j + 1)).flatten.map f) := by
    rw [← List.map_append, ← List.map_append, ← List.flatten_cons, ← List.drop_eq_getElem_cons,
      ← List.flatten_append, List.take_append_drop, List.map_flatten, List.flatMap_def]
  have next : (columns.take (j + 1)).flatten.length =
      (columns.take j).flatten.length + columns[j].length := by
    rw [List.take_succ_eq_append_getElem inside, List.flatten_append, List.length_append]
    simp
  rw [split, next, Nat.add_sub_cancel_left, List.drop_left' (List.length_map ..),
    List.take_left' (List.length_map ..)]

theorem columnPart_map (A : Sparse α m n) (f : Fin m × α → β) (j : Fin n) :
    A.columnPart (A.columns.toList.flatMap fun column => column.map f) j =
      (A.columns j).map f := by
  have inside : j.val < A.columns.toList.length := by simp
  rw [columnPart, getD_columnStarts A (by omega), getD_columnStarts A (by omega),
    take_drop_flatMap A.columns.toList f inside]
  rfl

theorem columnPart_rowIndices (A : Sparse α m n) (j : Fin n) :
    A.columnPart A.rowIndices j = (A.columns j).map (·.1.val) := A.columnPart_map _ j

theorem columnPart_values (A : Sparse α m n) (j : Fin n) :
    A.columnPart A.values j = (A.columns j).map (·.2) := A.columnPart_map _ j

theorem getLast?_columnStarts (A : Sparse α m n) :
    A.columnStarts.getLast? = some A.values.length := by
  have whole : A.columns.toList.take n = A.columns.toList := List.take_of_length_le (by simp)
  have count : A.values.length = A.columns.toList.flatten.length := by
    simp [values, List.length_flatMap, List.length_flatten]
  rw [columnStarts, List.range_succ, List.map_append, List.map_singleton, List.getLast?_concat,
    whole, count]

theorem pairwise_columnStarts (A : Sparse α m n) : A.columnStarts.Pairwise (· ≤ ·) := by
  rw [columnStarts, List.pairwise_map]
  apply List.pairwise_le_range.imp
  intro j k order
  exact (List.take_prefix_take_left order).flatten.length_le

end Arrays

variable {m n : Nat}

noncomputable def storedCell (A : Sparse ℝ m n) (i j : Nat) : ℝ :=
  ((((A.columnPart A.rowIndices j).zip (A.columnPart A.values j)).filter (·.1 = i)).map (·.2)).sum

theorem storedCell_eq (A : Sparse ℝ m n) (i : Fin m) (j : Fin n) :
    A.storedCell i j = A.matrix i j := by
  rw [storedCell, columnPart_rowIndices, columnPart_values, matrix_apply, sum_share_filter_eq,
    List.zip_map', List.filter_map, List.map_map]
  congr 1
  refine congrArg _ (List.filter_congr fun entry _ => ?_)
  exact decide_eq_decide.2 Fin.ext_iff.symm

/--
The arrays of a matrix by columns in normal form. Each column has a part of the other two arrays, in
which the rows increase, and no zero is stored.
-/
structure IsCanonical (A : Sparse ℝ m n) : Prop where
  columns : A.columnStarts.length = n + 1
  first : A.columnStarts.head? = some 0
  last : A.columnStarts.getLast? = some A.values.length
  ordered : A.columnStarts.Pairwise (· ≤ ·)
  paired : A.rowIndices.length = A.values.length
  inside : ∀ i ∈ A.rowIndices, i < m
  increasing : ∀ j < n, (A.columnPart A.rowIndices j).Pairwise (· < ·)
  nonzero : ∀ v ∈ A.values, v ≠ 0

theorem columns_ofMat (M : Mat ℝ m n) (j : Fin n) :
    (ofMat M).columns j = ((List.finRange m).map fun i => (i, M i j)).filter (!isZero ·.2) := by
  rw [ofMat, columns_dropZeros, Vec.ofFn_apply]

theorem pairwise_columns_ofMat (M : Mat ℝ m n) (j : Fin n) :
    ((ofMat M).columns j).Pairwise fun entry entry' => entry.1 < entry'.1 := by
  rw [columns_ofMat]
  apply List.Pairwise.filter
  rw [List.pairwise_map]
  exact List.pairwise_lt_finRange m

theorem isCanonical_ofMat (M : Mat ℝ m n) : (ofMat M).IsCanonical := by
  constructor
  case columns => simp [columnStarts]
  case first => simp [columnStarts, List.range_succ_eq_map]
  case last => exact getLast?_columnStarts _
  case ordered => exact pairwise_columnStarts _
  case paired => simp [rowIndices, values, List.length_flatMap]
  case inside =>
    intro i listed
    obtain ⟨column, _, stored⟩ := List.mem_flatMap.1 listed
    obtain ⟨entry, _, rfl⟩ := List.mem_map.1 stored
    exact entry.1.isLt
  case increasing =>
    intro j inside
    rw [columnPart_rowIndices _ ⟨j, inside⟩, List.pairwise_map]
    exact pairwise_columns_ofMat M ⟨j, inside⟩
  case nonzero =>
    intro v listed zero
    obtain ⟨j, entry, stored, rfl⟩ := mem_values.1 listed
    rw [columns_ofMat] at stored
    have kept := (List.mem_filter.1 stored).2
    rw [isZero_iff.2 zero] at kept
    cases kept

theorem sum_onRow (column : List (Fin m × ℝ)) (i : Fin m) :
    (onRow column i).sum = sumOn column i id := by
  rw [sumOn_id, sum_share_filter_eq, onRow]

theorem mem_dropZeros_sumDuplicates {A : Sparse ℝ m n} {i : Fin m} {j : Fin n} {v : ℝ} :
    (i, v) ∈ A.sumDuplicates.dropZeros.columns j ↔ A i j = v ∧ v ≠ 0 := by
  have total : A i j = (onRow (A.columns j) i).sum := (sum_onRow ..).symm
  rw [columns_dropZeros, columns_sumDuplicates, List.mem_filter, mem_collect, total]
  have kept : (!isZero v) = true ↔ v ≠ 0 := by
    rw [Bool.not_eq_true', Bool.eq_false_iff, ne_eq, isZero_iff]
  rw [kept]
  apply and_congr_left
  intro nonzero
  have added (first : ℝ) (rest : List ℝ) : rest.foldl (· + ·) first = (first :: rest).sum := by
    rw [List.sum_cons]
    simpa using foldl_eq_add_sum id rest first
  constructor
  · rintro ⟨first, rest, stored, rfl⟩
    rw [stored, added]
  · rintro rfl
    cases stored : onRow (A.columns j) i with
    | nil =>
      rw [stored, List.sum_nil] at nonzero
      exact absurd rfl nonzero
    | cons first rest => exact ⟨first, rest, rfl, added first rest⟩

/-- Adding up and dropping zeros, in this order, leaves what the matrix of the totals stores. -/
theorem dropZeros_sumDuplicates (A : Sparse ℝ m n) :
    A.sumDuplicates.dropZeros = ofMat A.toMat := by
  suffices same : ∀ j, A.sumDuplicates.dropZeros.columns j = (ofMat A.toMat).columns j by
    exact congrArg Sparse.mk (Vec.ext same)
  intro j
  have : Std.Irrefl fun entry entry' : Fin m × ℝ => entry.1 < entry'.1 := ⟨fun _ => lt_irrefl _⟩
  have : Std.Antisymm fun entry entry' : Fin m × ℝ => entry.1 < entry'.1 :=
    ⟨fun _ _ before after => absurd before (lt_asymm after)⟩
  apply List.Pairwise.eq_of_mem_iff (r := fun entry entry' => entry.1 < entry'.1)
  · rw [columns_dropZeros, columns_sumDuplicates]
    exact (pairwise_collect _).filter _
  · exact pairwise_columns_ofMat _ j
  · intro entry
    have zeroless : (!isZero entry.2) = true ↔ entry.2 ≠ 0 := by
      rw [Bool.not_eq_true', Bool.eq_false_iff, ne_eq, isZero_iff]
    rw [mem_dropZeros_sumDuplicates, columns_ofMat, List.mem_filter, zeroless, List.mem_map]
    apply and_congr_left
    intro _
    constructor
    · intro total
      exact ⟨entry.1, List.mem_finRange _, Prod.ext rfl (total ▸ Mat.ofFn_apply ..)⟩
    · rintro ⟨i, _, rfl⟩
      exact (Mat.ofFn_apply ..).symm

end Sparse

theorem Tensor.toMatrix?_apply {α : Type} {t : Tensor α} {M : Sized (Mat α)}
    (read : t.toMatrix? = some M) (i : Fin M.rows) (j : Fin M.cols) :
    t.entries.toList[i.val * t.shape.getLastD 1 + j.val]? = some (M.value i j) := by
  obtain ⟨shape, entries⟩ := t
  have listed {size : Nat} (x : Vector α size) (k : Fin size) : x.toList[k.val]? = some (x k) := by
    simp [Vec.apply_eq_getElem]
  rcases shape with _ | ⟨m, _ | ⟨n, _ | ⟨_, _⟩⟩⟩
  · cases read
    obtain ⟨i, row⟩ := i
    obtain ⟨j, column⟩ := j
    obtain rfl : i = 0 := Nat.lt_one_iff.1 row
    obtain rfl : j = 0 := Nat.lt_one_iff.1 column
    exact listed entries ⟨0, Nat.one_pos⟩
  · cases read
    obtain ⟨i, row⟩ := i
    obtain rfl : i = 0 := Nat.lt_one_iff.1 row
    change entries.toList[0 * m + j.val]? = _
    rw [Nat.zero_mul, Nat.zero_add]
    exact listed (entries.cast (Nat.mul_one m)) j
  · have shaped : toMat? ⟨[m, n], entries⟩ m n = some (Mat.ofFn fun i j =>
        entries.cast (by simp) (rowMajor i j)) := dif_pos rfl
    rw [toMatrix?, shaped] at read
    cases read
    change _ = some ((Mat.ofFn fun i j => _ : Mat α m n) i j)
    rw [Mat.ofFn_apply]
    exact listed (entries.cast (by simp : _ = m * n)) (rowMajor i j)
  · cases read

/--
What the entries handed in for a cell add up to. The entries of an array lie row by row, and each is
the only one of its cell.
-/
noncomputable def Data.total : Data ℝ → Nat → Nat → ℝ
  | .dense t, i, j => t.entries.toList.getD (i * t.shape.getLastD 1 + j) 0
  | .sparse _ _ A, i, j =>
    ((A.entries.filter fun entry => entry.1.val = i ∧ entry.2.1.val = j).map (·.2.2)).sum

theorem Data.total_dense {t : Tensor ℝ} {M : Sized (Mat ℝ)} (read : t.toMatrix? = some M)
    (i : Fin M.rows) (j : Fin M.cols) : (dense t).total i j = M.value i j := by
  rw [total, List.getD_eq_getElem?_getD, Tensor.toMatrix?_apply read i j]
  rfl

theorem Stored.matrix_toListed {m n : Nat} (A : Stored ℝ m n) (i : Fin m) (j : Fin n) :
    A.toListed.toMat.matrix i j = (Data.sparse m n A).total i j := by
  rw [Listed.matrix_apply, Data.total]
  induction A.entries with
  | nil => rfl
  | cons entry entries ih =>
    rw [List.map_cons, List.sum_cons, ih, List.filter_cons]
    by_cases here : entry.1 = i ∧ entry.2.1 = j
    · simp [Listed.share, here]
    · simp [Listed.share, here, ← Fin.ext_iff]

theorem Stored.matrix_toSparse {m n : Nat} (A : Stored ℝ m n) (i : Fin m) (j : Fin n) :
    A.toSparse.matrix i j = (Data.sparse m n A).total i j := by
  have kept : A.toSparse.matrix = A.toListed.toMat.matrix := by
    unfold toSparse
    split
    · rw [Sparse.matrix_sumDuplicates, Listed.toMat, Sparse.matrix_toMat]
    · rw [Listed.toMat, Sparse.matrix_toMat]
    · rw [Listed.toMat, Sparse.matrix_toMat]
  rw [kept, matrix_toListed]

theorem Data.matrix_toSparse {A : Data ℝ} {given : Sized (Sparse ℝ)}
    (read : A.toSparse = .ok given) (i : Fin given.rows) (j : Fin given.cols) :
    given.value.matrix i j = A.total i j := by
  cases A with
  | sparse m n A =>
    cases read
    exact A.matrix_toSparse i j
  | dense t =>
    rw [toSparse] at read
    cases matrix : t.toMatrix? with
    | none =>
      rw [matrix] at read
      cases read
    | some M =>
      rw [matrix] at read
      cases read
      change (Sparse.ofMat M.value).matrix i j = _
      rw [Sparse.matrix_ofMat]
      exact (total_dense matrix i j).symm

namespace Program

variable {A A' : Data ℝ} {b c b' c' : Tensor ℝ} {layout layout' : Layout}
  {program program' : Program ℝ}

theorem stored_eq_ofMat (success : ofData A b c layout = .ok program) :
    program.A = Sparse.ofMat (Mat.ofFn fun i j => A.total i j) := by
  obtain ⟨⟨given⟩, read, _, same⟩ := exists_of_matrixOf (matrixOf_of_ofData success)
  rw [Sparse.dropZeros_sumDuplicates] at same
  obtain rfl : program.rows = _ := congrArg Sized.rows same
  obtain rfl : program.cols = _ := congrArg Sized.cols same
  rw [eq_of_heq (Sized.mk.inj same).2.2]
  congr 1
  apply Mat.ext
  intro i j
  rw [Sparse.toMat, Mat.ofFn_apply, Mat.ofFn_apply]
  exact Data.matrix_toSparse read i j

theorem stored_eq_of_total_eq (success : ofData A b c layout = .ok program)
    (success' : ofData A' b' c' layout' = .ok program') (rows : program'.rows = program.rows)
    (cols : program'.cols = program.cols)
    (same : ∀ i < program.rows, ∀ j < program.cols, A'.total i j = A.total i j) :
    (⟨program'.A⟩ : Sized (Sparse ℝ)) = ⟨program.A⟩ := by
  rw [stored_eq_ofMat success, stored_eq_ofMat success']
  have totals : (Mat.ofFn fun i j => A'.total i j : Mat ℝ program.rows program.cols) =
      Mat.ofFn fun i j => A.total i j := by
    apply Mat.ext
    intro i j
    rw [Mat.ofFn_apply, Mat.ofFn_apply, same i i.isLt j j.isLt]
  rw [rows, cols, totals]

/--
The matrix of a program lies in store by columns and in normal form, and each cell holds what the
entries handed in for it add up to. Inputs of one shape with the same totals have the same arrays.
-/
theorem stored_canonical (success : ofData A b c layout = .ok program) :
    program.A.IsCanonical ∧
    (∀ i < program.rows, ∀ j < program.cols, program.A.storedCell i j = A.total i j) ∧
    ∀ A' b' c' layout' program', ofData A' b' c' layout' = .ok program' →
      program'.rows = program.rows → program'.cols = program.cols →
      (∀ i < program.rows, ∀ j < program.cols, A'.total i j = A.total i j) →
        program'.A.columnStarts = program.A.columnStarts ∧
        program'.A.rowIndices = program.A.rowIndices ∧ program'.A.values = program.A.values := by
  have stored := stored_eq_ofMat success
  refine ⟨?_, ?_, ?_⟩
  · rw [stored]
    exact Sparse.isCanonical_ofMat _
  · intro i row j column
    rw [Sparse.storedCell_eq program.A ⟨i, row⟩ ⟨j, column⟩, stored, Sparse.matrix_ofMat,
      Mat.matrix_ofFn]
  · intro A' b' c' layout' program' success' rows cols same
    have equal := stored_eq_of_total_eq success success' rows cols same
    constructor
    · exact congrArg (fun M : Sized (Sparse ℝ) => M.value.columnStarts) equal
    · constructor
      · exact congrArg (fun M : Sized (Sparse ℝ) => M.value.rowIndices) equal
      · exact congrArg (fun M : Sized (Sparse ℝ) => M.value.values) equal

noncomputable def disordered : Sparse ℝ 2 1 :=
  ⟨.replicate 1 [(Fin.last 1, 1), (Fin.last 0 |>.castSucc, 1), (Fin.last 1, 0),
    (Fin.last 0 |>.castSucc, -1)]⟩

noncomputable def tidied : Sparse ℝ 2 1 := ⟨.replicate 1 [(Fin.last 1, 1)]⟩

theorem total_ofSparse {m n : Nat} (S : Sparse ℝ m n) (i : Fin m) (j : Fin n) :
    (Data.sparse m n (.ofSparse S)).total i j = S.matrix i j := by
  have read := congrArg (fun M : Sparse ℝ m n => M.matrix i j) (Stored.toSparse_ofSparse S)
  exact (Stored.matrix_toSparse _ i j).symm.trans read

theorem disordered_matrix : disordered.matrix = tidied.matrix := by
  funext i j
  have first : disordered.columns j = [(Fin.last 1, 1), (Fin.last 0 |>.castSucc, 1), (Fin.last 1, 0),
    (Fin.last 0 |>.castSucc, -1)] := congrFun (Vec.get_replicate _) j
  have second : tidied.columns j = [(Fin.last 1, 1)] := congrFun (Vec.get_replicate _) j
  rw [Sparse.matrix_apply, Sparse.matrix_apply, first, second]
  by_cases upper : (0 : Fin 2) = i
  · simp [Sparse.share, upper]
  · simp [Sparse.share, upper]

theorem stored_canonical_of_disordered : ∃ program program',
    ofData (.sparse 2 1 (.ofSparse disordered)) (.ofVector (.replicate 2 0))
      (.ofVector (.replicate 1 0)) (.table [(.cone .nonnegative, .integer 2)]) = .ok program ∧
    ofData (.sparse 2 1 (.ofSparse tidied)) (.ofVector (.replicate 2 0))
      (.ofVector (.replicate 1 0)) (.table [(.cone .nonnegative, .integer 2)]) = .ok program' ∧
    program.A.IsCanonical ∧ program'.A.columnStarts = program.A.columnStarts ∧
      program'.A.rowIndices = program.A.rowIndices ∧ program'.A.values = program.A.values := by
  have laid : (Layout.table [(.cone .nonnegative, .integer 2)]).blocks =
      .ok [⟨.cone .nonnegative, 2, 0, 2⟩] := rfl
  have success := ofData_ok disordered (.replicate 2 0) (.replicate 1 0) laid rfl
  have success' := ofData_ok tidied (.replicate 2 0) (.replicate 1 0) laid rfl
  obtain ⟨canonical, _, alike⟩ := stored_canonical success
  refine ⟨_, _, success, success', canonical, alike _ _ _ _ _ success' rfl rfl ?_⟩
  intro i row j column
  have total := total_ofSparse disordered ⟨i, row⟩ ⟨j, column⟩
  rw [disordered_matrix, ← total_ofSparse] at total
  exact total.symm

end Program

end ConicDerivative
