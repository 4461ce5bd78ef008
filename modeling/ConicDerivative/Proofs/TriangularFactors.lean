import ConicDerivative.Proofs.ExactElimination

/-!
Triangular factors. A square matrix with its rows and columns in some order is the product of a unit
lower and an upper triangular matrix. It is then invertible just if the upper one has no zero on its
diagonal, and two triangular systems, one after the other, solve the system of the matrix.
Elimination finds such factors, also of a singular matrix.
-/

namespace ConicDerivative

open Scalar Matrix

variable {n : Nat}

structure Factors (n : Nat) where
  rows : Equiv.Perm (Fin n)
  columns : Equiv.Perm (Fin n)
  lower : Matrix (Fin n) (Fin n) ℝ
  upper : Matrix (Fin n) (Fin n) ℝ

namespace Factors

variable {F : Factors n} {A : Matrix (Fin n) (Fin n) ℝ} {r z : Fin n → ℝ}

/-- The factors are triangular, and their product is the matrix in the orders they come with. -/
structure IsExact (F : Factors n) (A : Matrix (Fin n) (Fin n) ℝ) : Prop where
  unit : ∀ i, F.lower i i = 1
  lower_triangular : F.lower.IsLowerTriangular
  upper_triangular : F.upper.IsUpperTriangular
  product : A.submatrix F.rows F.columns = F.lower * F.upper

/-- The lower system and then the upper one lead from the right-hand side to `z`. -/
def Solves (F : Factors n) (r z : Fin n → ℝ) : Prop :=
  ∃ w, F.lower *ᵥ w = r ∘ F.rows ∧ F.upper *ᵥ (z ∘ F.columns) = w

/-- The same for the transposed matrix, where the upper system comes first. -/
def SolvesTransposed (F : Factors n) (r z : Fin n → ℝ) : Prop :=
  ∃ w, F.upperᵀ *ᵥ w = r ∘ F.columns ∧ F.lowerᵀ *ᵥ (z ∘ F.rows) = w

namespace IsExact

theorem isUnit_iff (exact : F.IsExact A) : IsUnit A ↔ ∀ i, F.upper i i ≠ 0 := by
  have determinant : (F.lower * F.upper).det = ∏ i, F.upper i i := by
    rw [det_mul, det_of_isLowerTriangular _ exact.lower_triangular,
      det_of_isUpperTriangular exact.upper_triangular,
      Finset.prod_congr rfl fun i _ => exact.unit i, Finset.prod_const_one, one_mul]
  rw [← isUnit_submatrix_equiv F.rows F.columns, exact.product, isUnit_iff_isUnit_det, determinant,
    isUnit_iff_ne_zero, Finset.prod_ne_zero_iff]
  simp

theorem comp_rows (exact : F.IsExact A) (z : Fin n → ℝ) :
    (A *ᵥ z) ∘ F.rows = F.lower *ᵥ (F.upper *ᵥ (z ∘ F.columns)) := by
  rw [mulVec_mulVec, ← exact.product, submatrix_mulVec_equiv, Function.comp_assoc,
    Equiv.self_comp_symm, Function.comp_id]

theorem comp_columns (exact : F.IsExact A) (z : Fin n → ℝ) :
    (Aᵀ *ᵥ z) ∘ F.columns = F.upperᵀ *ᵥ (F.lowerᵀ *ᵥ (z ∘ F.rows)) := by
  rw [mulVec_mulVec, ← transpose_mul, ← exact.product, transpose_submatrix, submatrix_mulVec_equiv,
    Function.comp_assoc, Equiv.self_comp_symm, Function.comp_id]

theorem solves_iff (exact : F.IsExact A) : F.Solves r z ↔ A *ᵥ z = r := by
  constructor
  · rintro ⟨w, first, rfl⟩
    apply F.rows.surjective.injective_comp_right
    exact (exact.comp_rows z).trans first
  · rintro rfl
    exact ⟨_, (exact.comp_rows z).symm, rfl⟩

theorem solvesTransposed_iff (exact : F.IsExact A) : F.SolvesTransposed r z ↔ Aᵀ *ᵥ z = r := by
  constructor
  · rintro ⟨w, first, rfl⟩
    apply F.columns.surjective.injective_comp_right
    exact (exact.comp_columns z).trans first
  · rintro rfl
    exact ⟨_, (exact.comp_columns z).symm, rfl⟩

end IsExact

end Factors

namespace Elimination

def rowOrder : {n : Nat} → Elimination ℝ n → Equiv.Perm (Fin n)
  | _, .done => 1
  | _, .step row _ _ _ rest => Equiv.Perm.decomposeFin.symm (row, rest.rowOrder)

/-- The multiples that were subtracted, brought into that order, below a diagonal of ones. -/
def lowerFactor : {n : Nat} → Elimination ℝ n → Matrix (Fin n) (Fin n) ℝ
  | _, .done => 0
  | _, .step _ _ _ lower rest =>
    Fin.cons (Fin.cons 1 0) fun i => Fin.cons (lower (rest.rowOrder i)) (rest.lowerFactor i)

def upperFactor : {n : Nat} → Elimination ℝ n → Matrix (Fin n) (Fin n) ℝ
  | _, .done => 0
  | _, .step _ pivot upper _ rest =>
    Fin.cons (Fin.cons pivot upper.get) fun i => Fin.cons 0 (rest.upperFactor i)

def factors (steps : Elimination ℝ n) : Factors n :=
  ⟨steps.rowOrder, 1, steps.lowerFactor, steps.upperFactor⟩

theorem pivots_eq_diagonal (steps : Elimination ℝ n) :
    steps.pivots = List.ofFn fun i => steps.upperFactor i i := by
  induction steps with
  | done => rfl
  | step row pivot upper lower rest ih =>
    rw [pivots, List.ofFn_succ, ih]
    rfl

theorem lowerFactor_diagonal (steps : Elimination ℝ n) (i : Fin n) :
    steps.lowerFactor i i = 1 := by
  induction steps with
  | done => exact i.elim0
  | step row pivot upper lower rest ih =>
    cases i using Fin.cases with
    | zero => rfl
    | succ i => exact ih i

theorem lowerFactor_triangular (steps : Elimination ℝ n) : steps.lowerFactor.IsLowerTriangular := by
  induction steps with
  | done => exact fun i => i.elim0
  | step row pivot upper lower rest ih =>
    intro i j before
    cases j using Fin.cases with
    | zero => exact absurd before (Fin.not_lt_zero i)
    | succ j =>
      cases i using Fin.cases with
      | zero => rfl
      | succ i => exact ih (Fin.succ_lt_succ_iff.1 before)

theorem upperFactor_triangular (steps : Elimination ℝ n) : steps.upperFactor.IsUpperTriangular := by
  induction steps with
  | done => exact fun i => i.elim0
  | step row pivot upper lower rest ih =>
    intro i j before
    cases i using Fin.cases with
    | zero => exact absurd before (Fin.not_lt_zero j)
    | succ i =>
      cases j using Fin.cases with
      | zero => rfl
      | succ j => exact ih (Fin.succ_lt_succ_iff.1 before)

theorem exchange_eq_swap (row i : Fin (n + 1)) : exchange row i = Equiv.swap 0 row i := rfl

theorem rowOrder_eliminate_zero (A : Mat ℝ (n + 1) (n + 1)) (j : Fin (n + 1)) :
    A ((eliminate A).rowOrder 0) j = raised A 0 j := by
  rw [eliminate_succ, rowOrder, Equiv.Perm.decomposeFin_symm_apply_zero, raised_apply, exchange,
    if_pos rfl]

theorem rowOrder_eliminate_succ (A : Mat ℝ (n + 1) (n + 1)) (i : Fin n) (j : Fin (n + 1)) :
    A ((eliminate A).rowOrder i.succ) j =
      raised A ((eliminate (complement A)).rowOrder i).succ j := by
  rw [eliminate_succ, rowOrder, Equiv.Perm.decomposeFin_symm_apply_succ, raised_apply,
    exchange_eq_swap]

/-- The factors of an elimination multiply to the matrix, its rows in the order of the steps. -/
theorem lowerFactor_mul_upperFactor {n : Nat} (A : Mat ℝ n n) (i j : Fin n) :
    ((eliminate A).lowerFactor * (eliminate A).upperFactor) i j =
      A ((eliminate A).rowOrder i) j := by
  induction n with
  | zero => exact i.elim0
  | succ n ih =>
    let rest := eliminate (complement A)
    rw [mul_apply, Fin.sum_univ_succ]
    cases i using Fin.cases with
    | zero =>
      have top : (eliminate A).upperFactor 0 j = raised A 0 j := by
        cases j using Fin.cases with
        | zero => rfl
        | succ j => exact upperRow_apply A j
      have below (k : Fin n) : (eliminate A).lowerFactor 0 k.succ = 0 := rfl
      simp only [below, zero_mul, Finset.sum_const_zero]
      rw [lowerFactor_diagonal, one_mul, add_zero, top]
      exact (rowOrder_eliminate_zero A j).symm
    | succ i =>
      refine Eq.trans ?_ (rowOrder_eliminate_succ A i j).symm
      cases j using Fin.cases with
      | zero =>
        have below (k : Fin n) : (eliminate A).upperFactor k.succ 0 = 0 := rfl
        simp only [below, mul_zero, Finset.sum_const_zero, add_zero]
        exact multipliers_mul (rest.rowOrder i)
      | succ j =>
        rw [raised_succ, ← ih, add_comm, mul_apply]
        rfl

theorem factors_isExact (A : Mat ℝ n n) : (eliminate A).factors.IsExact A.matrix where
  unit := lowerFactor_diagonal _
  lower_triangular := lowerFactor_triangular _
  upper_triangular := upperFactor_triangular _
  product := by
    ext i j
    exact (lowerFactor_mul_upperFactor A i j).symm

end Elimination

end ConicDerivative
