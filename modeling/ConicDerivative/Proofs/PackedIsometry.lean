import ConicDerivative.Packed
import ConicDerivative.Proofs.Matrices

/-!
Packing over the real numbers. Packing and unpacking are inverse between packed vectors and symmetric
matrices, and the inner product of two packed vectors is the trace of the product of their matrices.
-/

namespace ConicDerivative.Packed

open Scalar Matrix

variable {d : Nat}

theorem rootTwo_eq : (rootTwo : ℝ) = Real.sqrt 2 := rfl

theorem rootTwo_ne_zero : (rootTwo : ℝ) ≠ 0 := by
  rw [rootTwo_eq]
  exact Real.sqrt_ne_zero'.2 two_pos

theorem rootTwo_mul_self : (rootTwo : ℝ) * rootTwo = 2 := by
  rw [rootTwo_eq]
  exact Real.mul_self_sqrt two_pos.le

theorem place_of_le {i j : Fin d} (order : i ≤ j) :
    place i j = ⟨position d i j, position_lt order j.isLt⟩ := dif_pos order

theorem place_comm (i j : Fin d) : place i j = place j i := by
  rcases lt_trichotomy i j with below | same | above
  · rw [place_of_le below.le, place, dif_neg (not_le.2 below)]
  · rw [same]
  · rw [place_of_le above.le, place, dif_neg (not_le.2 above)]

def cellColumn (k : Fin (triangle d)) : Fin d :=
  ⟨(cell d k).1, (cell_lt k.isLt).1.trans_lt (cell_lt k.isLt).2⟩

def cellRow (k : Fin (triangle d)) : Fin d := ⟨(cell d k).2, (cell_lt k.isLt).2⟩

theorem cellColumn_le (k : Fin (triangle d)) : cellColumn k ≤ cellRow k := (cell_lt k.isLt).1

theorem place_cell (k : Fin (triangle d)) : place (cellColumn k) (cellRow k) = k := by
  rw [place_of_le (cellColumn_le k)]
  exact Fin.ext (position_cell k.isLt)

theorem cell_place {i j : Fin d} (order : i ≤ j) :
    cellColumn (place i j) = i ∧ cellRow (place i j) = j := by
  have cells := cell_position order j.isLt
  rw [place_of_le order]
  exact ⟨Fin.ext (congrArg Prod.fst cells), Fin.ext (congrArg Prod.snd cells)⟩

theorem triangle_eq_half (d : Nat) : triangle d = d * (d + 1) / 2 := by
  have double := two_mul_triangle d
  omega

/-- The columns before one are whole but for the cells above their diagonals. -/
theorem position_add_triangle {i j : Nat} (order : i ≤ j) (bound : j < d) :
    position d i j + triangle i = i * d + j := by
  induction d generalizing i j with
  | zero => omega
  | succ d ih =>
    cases i with
    | zero =>
      rw [position, triangle]
      omega
    | succ i =>
      have rest := ih (i := i) (j := j - 1) (by omega) (by omega)
      rw [position, triangle, Nat.add_mul, Nat.mul_add]
      omega

theorem position_eq {i j : Nat} (order : i ≤ j) (bound : j < d) :
    position d i j = i * d - i * (i - 1) / 2 + (j - i) := by
  have sum := position_add_triangle order bound
  cases i with
  | zero =>
    rw [triangle] at sum
    omega
  | succ i =>
    have half := triangle_eq_half i
    have fits : i * (i + 1) ≤ (i + 1) * d := by
      rw [Nat.mul_comm i]
      exact Nat.mul_le_mul_left _ (by omega)
    rw [triangle] at sum
    rw [Nat.add_sub_cancel, Nat.mul_comm (i + 1) i, ← half]
    omega

theorem unpack_cell (x : Vector ℝ (triangle d)) (i j : Fin d) :
    (unpack d x).matrix i j = if i = j then x (place i i) else x (place i j) / rootTwo := by
  rw [unpack, Mat.matrix_ofFn]
  by_cases diagonal : i = j
  · subst diagonal
    have root := rootTwo_ne_zero
    simp only [if_true, two_real]
    field_simp
    ring
  · simp only [if_neg diagonal]

theorem pack_entry (X : Mat ℝ d d) (k : Fin (triangle d)) :
    pack X k = if cellColumn k = cellRow k then X.matrix (cellColumn k) (cellColumn k)
      else X.matrix (cellRow k) (cellColumn k) * rootTwo := by
  have entry : pack X k = if cellColumn k = cellRow k
      then X.matrix (cellColumn k) (cellColumn k) * rootTwo / rootTwo
      else X.matrix (cellRow k) (cellColumn k) * rootTwo := Vec.ofFn_apply ..
  rw [entry]
  split_ifs
  · exact mul_div_cancel_right₀ _ rootTwo_ne_zero
  · rfl

theorem unpack_symm (x : Vector ℝ (triangle d)) : (unpack d x).matrix.IsSymm := by
  ext i j
  rw [transpose_apply, unpack_cell, unpack_cell, place_comm j i]
  by_cases diagonal : i = j
  · subst diagonal
    rfl
  · rw [if_neg diagonal, if_neg (Ne.symm diagonal)]

theorem pack_place (X : Mat ℝ d d) {i j : Fin d} (order : i ≤ j) :
    pack X (place i j) = if i = j then X.matrix i i else X.matrix j i * rootTwo := by
  obtain ⟨column, row⟩ := cell_place order
  rw [pack_entry, column, row]

theorem pack_unpack (x : Vector ℝ (triangle d)) : pack (unpack d x) = x := by
  apply Vec.ext
  intro k
  rw [pack_entry, unpack_cell, unpack_cell]
  by_cases diagonal : cellColumn k = cellRow k
  · rw [if_pos diagonal, if_pos rfl]
    conv_rhs => rw [← place_cell k, ← diagonal]
  · rw [if_neg diagonal, if_neg (Ne.symm diagonal), div_mul_cancel₀ _ rootTwo_ne_zero, place_comm,
      place_cell]

theorem unpack_pack {X : Mat ℝ d d} (symm : X.matrix.IsSymm) : unpack d (pack X) = X := by
  apply Mat.matrix_injective
  funext i j
  rw [unpack_cell]
  by_cases diagonal : i = j
  · subst diagonal
    rw [if_pos rfl, pack_place X le_rfl, if_pos rfl]
  · rw [if_neg diagonal]
    rcases le_total i j with order | order
    · rw [pack_place X order, if_neg diagonal, mul_div_cancel_right₀ _ rootTwo_ne_zero]
      exact symm.apply i j
    · rw [place_comm, pack_place X order, if_neg (Ne.symm diagonal),
        mul_div_cancel_right₀ _ rootTwo_ne_zero]

theorem unpack_sub (x y : Vector ℝ (triangle d)) :
    (unpack d (x - y)).matrix = (unpack d x).matrix - (unpack d y).matrix := by
  funext i j
  simp only [unpack_cell, Vec.sub_apply, Matrix.sub_apply]
  split_ifs
  · rfl
  · exact sub_div _ _ _

theorem sum_places (f : Fin d × Fin d → ℝ) :
    ∑ k : Fin (triangle d), f (cellColumn k, cellRow k) =
      ∑ cell : Fin d × Fin d, if cell.1 ≤ cell.2 then f cell else 0 := by
  rw [← Finset.sum_filter]
  apply Finset.sum_nbij' (fun k => (cellColumn k, cellRow k)) fun cell => place cell.1 cell.2
  · intro k _
    exact Finset.mem_filter.2 ⟨Finset.mem_univ _, cellColumn_le k⟩
  · intro cell _
    exact Finset.mem_univ _
  · intro k _
    exact place_cell k
  · intro cell inside
    obtain ⟨column, row⟩ := cell_place (Finset.mem_filter.1 inside).2
    exact Prod.ext column row
  · intro k _
    rfl

theorem sum_symmetric (f : Fin d × Fin d → ℝ) (symm : ∀ i j, f (i, j) = f (j, i)) :
    ∑ cell, f cell =
      ∑ cell : Fin d × Fin d, if cell.1 ≤ cell.2 then
        (if cell.1 = cell.2 then f cell else 2 * f cell) else 0 := by
  have mirrored : ∑ cell : Fin d × Fin d, (if cell.2 < cell.1 then f cell else 0) =
      ∑ cell : Fin d × Fin d, if cell.1 < cell.2 then f cell else 0 := by
    rw [← Equiv.sum_comp (Equiv.prodComm (Fin d) (Fin d))]
    apply Finset.sum_congr rfl
    intro cell _
    rw [Equiv.prodComm_apply, symm cell.1 cell.2]
    rfl
  have split : ∑ cell, f cell =
      ∑ cell : Fin d × Fin d, (if cell.1 ≤ cell.2 then f cell else 0) +
        ∑ cell : Fin d × Fin d, if cell.2 < cell.1 then f cell else 0 := by
    rw [← Finset.sum_add_distrib]
    apply Finset.sum_congr rfl
    intro cell _
    by_cases order : cell.1 ≤ cell.2
    · rw [if_pos order, if_neg (not_lt.2 order), add_zero]
    · rw [if_neg order, if_pos (not_le.1 order), zero_add]
  rw [split, mirrored, ← Finset.sum_add_distrib]
  apply Finset.sum_congr rfl
  intro cell _
  rcases lt_trichotomy cell.1 cell.2 with below | same | above
  · rw [if_pos below.le, if_pos below, if_pos below.le, if_neg below.ne]
    ring
  · rw [if_pos same.le, if_neg same.not_lt, if_pos same.le, if_pos same, add_zero]
  · rw [if_neg (not_le.2 above), if_neg above.not_gt, if_neg (not_le.2 above), add_zero]

theorem trace_mul_of_symm (X : Matrix (Fin d) (Fin d) ℝ) {Y : Matrix (Fin d) (Fin d) ℝ}
    (symm : Y.IsSymm) : (X * Y).trace = ∑ cell : Fin d × Fin d, X cell.1 cell.2 * Y cell.1 cell.2 := by
  rw [Matrix.trace, Fintype.sum_prod_type]
  apply Finset.sum_congr rfl
  intro i _
  rw [Matrix.diag_apply, Matrix.mul_apply]
  apply Finset.sum_congr rfl
  intro j _
  rw [symm.apply i j]

theorem dot_pack {X Y : Mat ℝ d d} (first : X.matrix.IsSymm) (second : Y.matrix.IsSymm) :
    (pack X).get ⬝ᵥ (pack Y).get = (X.matrix * Y.matrix).trace := by
  rw [trace_mul_of_symm _ second, sum_symmetric _ fun i j => by rw [first.apply i j, second.apply i j],
    ← sum_places]
  apply Finset.sum_congr rfl
  intro k _
  rw [pack_entry, pack_entry]
  by_cases diagonal : cellColumn k = cellRow k
  · rw [if_pos diagonal, if_pos diagonal, if_pos diagonal, ← diagonal]
  · rw [if_neg diagonal, if_neg diagonal, if_neg diagonal, first.apply, second.apply]
    linear_combination
      X.matrix (cellColumn k) (cellRow k) * Y.matrix (cellColumn k) (cellRow k) * rootTwo_mul_self

theorem dot_eq_trace (x y : Vector ℝ (triangle d)) :
    x.get ⬝ᵥ y.get = ((unpack d x).matrix * (unpack d y).matrix).trace := by
  rw [← dot_pack (unpack_symm x) (unpack_symm y), pack_unpack, pack_unpack]

end ConicDerivative.Packed
