import ConicDerivative.Elimination
import ConicDerivative.Proofs.Adjoints

/-!
Elimination over the real numbers. The largest entry of a column is zero only if the whole column
is, so an injective matrix never leads to a zero pivot; and without a zero pivot both solves are
exact.
-/

namespace ConicDerivative.Elimination

open Scalar Matrix

variable {n : Nat}

theorem le_foldl_largest (x : Vector ℝ (n + 1)) (first : Fin (n + 1)) (k : Nat)
    (place : Fin k → Fin (n + 1)) :
    let best := Fin.foldl k
      (fun best i => if Scalar.abs (x best) < Scalar.abs (x (place i)) then place i else best) first
    |x first| ≤ |x best| ∧ ∀ i, |x (place i)| ≤ |x best| := by
  induction k with
  | zero => exact ⟨le_rfl, fun i => i.elim0⟩
  | succ k ih =>
    obtain ⟨start, earlier⟩ := ih fun i => place i.castSucc
    simp only [Fin.foldl_succ_last, abs_real] at start earlier ⊢
    split_ifs with larger
    · refine ⟨start.trans larger.le, ?_⟩
      intro i
      cases i using Fin.lastCases with
      | last => exact le_rfl
      | cast i => exact (earlier i).trans larger.le
    · refine ⟨start, ?_⟩
      intro i
      cases i using Fin.lastCases with
      | last => exact not_lt.1 larger
      | cast i => exact earlier i

theorem le_largest (x : Vector ℝ (n + 1)) (i : Fin (n + 1)) : |x i| ≤ |x (largest x)| :=
  (le_foldl_largest x 0 (n + 1) id).2 i

section

variable {α : Type} [Scalar α]

/-- The matrix with its largest first entry on top. -/
def raised (A : Mat α (n + 1) (n + 1)) : Mat α (n + 1) (n + 1) :=
  Mat.ofFn fun i j => A (exchange (largest (A.column ⟨0, n.succ_pos⟩)) i) j

def multipliers (A : Mat α (n + 1) (n + 1)) : Vector α n :=
  Vector.ofFn fun i => multiplier (raised A ⟨0, n.succ_pos⟩ ⟨0, n.succ_pos⟩)
    (raised A i.succ ⟨0, n.succ_pos⟩)

def upperRow (A : Mat α (n + 1) (n + 1)) : Vector α n :=
  Vector.ofFn fun j => raised A ⟨0, n.succ_pos⟩ j.succ

def complement (A : Mat α (n + 1) (n + 1)) : Mat α n n :=
  Mat.ofFn fun i j => raised A i.succ j.succ - multipliers A i * upperRow A j

end

theorem eliminate_succ (A : Mat ℝ (n + 1) (n + 1)) :
    eliminate A = .step (largest (A.column 0)) (raised A 0 0) (upperRow A) (multipliers A)
      (eliminate (complement A)) := rfl

variable (A : Mat ℝ (n + 1) (n + 1))

theorem exchanged_apply (row : Fin (n + 1)) (x : Vector ℝ (n + 1)) (i : Fin (n + 1)) :
    exchanged row x i = x (exchange row i) := Vec.ofFn_apply ..

theorem raised_apply (i j : Fin (n + 1)) :
    raised A i j = A (exchange (largest (A.column 0)) i) j := Mat.ofFn_apply ..

theorem multipliers_apply (i : Fin n) :
    multipliers A i = multiplier (raised A 0 0) (raised A i.succ 0) := Vec.ofFn_apply ..

theorem upperRow_apply (j : Fin n) : upperRow A j = raised A 0 j.succ := Vec.ofFn_apply ..

variable {A}

theorem column_null (null : raised A 0 0 = 0) (i : Fin (n + 1)) : A i 0 = 0 := by
  have most := le_largest (A.column 0) i
  have top : A.column 0 (largest (A.column 0)) = raised A 0 0 := by
    rw [raised_apply, Mat.column, Vec.ofFn_apply, exchange, if_pos rfl]
  rw [top, null, abs_zero, Mat.column, Vec.ofFn_apply] at most
  exact abs_nonpos_iff.1 most

theorem multipliers_mul (i : Fin n) :
    multipliers A i * raised A 0 0 = raised A i.succ 0 := by
  rw [multipliers_apply, multiplier]
  split_ifs with zero
  · have null := isZero_iff.1 zero
    rw [null, mul_zero, raised_apply, column_null null]
  · exact div_mul_cancel₀ _ fun null => zero (isZero_iff.2 null)

theorem raised_succ (i j : Fin n) :
    raised A i.succ j.succ = complement A i j + multipliers A i * upperRow A j := by
  rw [complement, Mat.ofFn_apply]
  ring

theorem dotProduct_cons (x : Fin (n + 1) → ℝ) (t : ℝ) (z : Vector ℝ n) :
    x ⬝ᵥ (Vec.cons t z).get = x 0 * t + (fun j => x j.succ) ⬝ᵥ z.get := by
  rw [dotProduct, Fin.sum_univ_succ]
  simp only [Vec.cons_zero, Vec.cons_succ, dotProduct]

theorem row_succ_dotProduct (t : ℝ) (z : Vector ℝ n) (i : Fin n) :
    (fun j => raised A i.succ j) ⬝ᵥ (Vec.cons t z).get =
      (fun j => complement A i j) ⬝ᵥ z.get +
        multipliers A i * (raised A 0 0 * t + (upperRow A).get ⬝ᵥ z.get) := by
  have split : (fun j => raised A i.succ (Fin.succ j)) =
      (fun j => complement A i j) + multipliers A i • (upperRow A).get := by
    funext j
    exact raised_succ i j
  rw [dotProduct_cons, split, add_dotProduct, smul_dotProduct, smul_eq_mul, mul_add, ← mul_assoc,
    multipliers_mul]
  ring

theorem row_zero_dotProduct (t : ℝ) (z : Vector ℝ n) :
    (fun j => raised A 0 j) ⬝ᵥ (Vec.cons t z).get =
      raised A 0 0 * t + (upperRow A).get ⬝ᵥ z.get := by
  rw [dotProduct_cons]
  congr 2
  funext j
  exact (upperRow_apply A j).symm

variable (A) in
theorem mulVec_exchange (z : Vector ℝ (n + 1)) (i : Fin (n + 1)) :
    A.mulVec z (exchange (largest (A.column 0)) i) = (fun j => raised A i j) ⬝ᵥ z.get := by
  rw [Mat.mulVec, Vec.ofFn_apply, sumOver_eq_sum, dotProduct]
  simp only [raised_apply]

variable (A) in
theorem transposeMulVec_exchanged (w : Vector ℝ (n + 1)) (j : Fin (n + 1)) :
    A.transposeMulVec (exchanged (largest (A.column 0)) w) j =
      (fun i => raised A i j) ⬝ᵥ w.get := by
  let row := largest (A.column 0)
  have turn : Function.Involutive (exchange row) := exchange_exchange row
  rw [Mat.transposeMulVec, Vec.ofFn_apply, sumOver_eq_sum, dotProduct,
    ← Equiv.sum_comp turn.toPerm]
  apply Finset.sum_congr rfl
  intro i _
  rw [exchanged_apply]
  simp only [raised_apply, Function.Involutive.coe_toPerm, row, exchange_exchange]

theorem ext_exchange (row : Fin (n + 1)) {x y : Vector ℝ (n + 1)}
    (same : ∀ i, x (exchange row i) = y (exchange row i)) : x = y := by
  apply Vec.ext
  intro i
  have entry := same (exchange row i)
  rw [exchange_exchange] at entry
  exact entry

theorem mulVec_solve {n : Nat} (A : Mat ℝ n n) (regular : ∀ p ∈ (eliminate A).pivots, p ≠ 0)
    (r : Vector ℝ n) : A.mulVec ((eliminate A).solve r) = r := by
  induction n with
  | zero => exact Vec.ext fun i => i.elim0
  | succ n ih =>
    rw [eliminate_succ] at regular ⊢
    have pivot := regular _ List.mem_cons_self
    rw [solve]
    let r' := exchanged (largest (A.column 0)) r
    let z := (eliminate (complement A)).solve (Vec.tail r' - Vec.scale (Vec.head r') (multipliers A))
    have rest : (complement A).mulVec z =
        Vec.tail r' - Vec.scale (Vec.head r') (multipliers A) :=
      ih (complement A) (fun p listed => regular p (List.mem_cons_of_mem _ listed)) _
    have first : raised A 0 0 * ((Vec.head r' - Vec.dot (upperRow A) z) / raised A 0 0) +
        (upperRow A).get ⬝ᵥ z.get = Vec.head r' := by
      rw [mul_div_cancel₀ _ pivot, Vec.dot_eq_dotProduct, sub_add_cancel]
    apply ext_exchange (largest (A.column 0))
    intro i
    rw [mulVec_exchange, ← exchanged_apply]
    cases i using Fin.cases with
    | zero => exact (row_zero_dotProduct _ z).trans first
    | succ i =>
      have entry : (fun j => complement A i j) ⬝ᵥ z.get =
          r' i.succ - Vec.head r' * multipliers A i := by
        have entries := congrArg (fun v : Vector ℝ n => v i) rest
        simp only [Vec.sub_apply, Vec.tail_apply, Vec.scale_apply] at entries
        rw [← entries, Mat.mulVec, Vec.ofFn_apply, sumOver_eq_sum, dotProduct]
      refine (row_succ_dotProduct _ z i).trans ?_
      rw [first, entry]
      ring

theorem transposeMulVec_solveTranspose {n : Nat} (A : Mat ℝ n n)
    (regular : ∀ p ∈ (eliminate A).pivots, p ≠ 0) (r : Vector ℝ n) :
    A.transposeMulVec ((eliminate A).solveTranspose r) = r := by
  induction n with
  | zero => exact Vec.ext fun i => i.elim0
  | succ n ih =>
    rw [eliminate_succ] at regular ⊢
    have pivot := regular _ List.mem_cons_self
    rw [solveTranspose]
    let w := Vec.head r / raised A 0 0
    let z := (eliminate (complement A)).solveTranspose (Vec.tail r - Vec.scale w (upperRow A))
    have rest : (complement A).transposeMulVec z = Vec.tail r - Vec.scale w (upperRow A) :=
      ih (complement A) (fun p listed => regular p (List.mem_cons_of_mem _ listed)) _
    have below : (fun i : Fin n => raised A i.succ 0) = raised A 0 0 • (multipliers A).get := by
      funext i
      rw [← multipliers_mul]
      exact mul_comm _ _
    apply Vec.ext
    intro j
    rw [transposeMulVec_exchanged]
    refine (dotProduct_cons _ _ z).trans ?_
    rw [Vec.dot_eq_dotProduct]
    cases j using Fin.cases with
    | zero =>
      rw [below, smul_dotProduct, smul_eq_mul, mul_sub, sub_add_cancel]
      exact mul_div_cancel₀ _ pivot
    | succ j =>
      have entry : (fun i => complement A i j) ⬝ᵥ z.get = r j.succ - w * upperRow A j := by
        have entries := congrArg (fun v : Vector ℝ n => v j) rest
        simp only [Vec.sub_apply, Vec.tail_apply, Vec.scale_apply] at entries
        rw [← entries, Mat.transposeMulVec, Vec.ofFn_apply, sumOver_eq_sum, dotProduct]
      have split : (fun i : Fin n => raised A i.succ j.succ) =
          (fun i => complement A i j) + upperRow A j • (multipliers A).get := by
        funext i
        rw [raised_succ, mul_comm]
        rfl
      rw [split, add_dotProduct, smul_dotProduct, entry, ← upperRow_apply, smul_eq_mul]
      ring

theorem mulVec_null {n : Nat} {A : Mat ℝ n n} {z : Vector ℝ n} :
    (A.mulVec z).get = 0 ↔ ∀ i, (fun j => A i j) ⬝ᵥ z.get = 0 := by
  rw [Mat.get_mulVec]
  exact funext_iff

theorem raised_null {z : Vector ℝ (n + 1)} :
    (A.mulVec z).get = 0 ↔ ∀ i, (fun j => raised A i j) ⬝ᵥ z.get = 0 := by
  constructor
  · intro null i
    rw [← mulVec_exchange, null, Pi.zero_apply]
  · intro null
    have same : A.mulVec z = Vector.replicate (n + 1) 0 := by
      apply ext_exchange (largest (A.column 0))
      intro i
      rw [mulVec_exchange, null, Vec.get_zeros, Pi.zero_apply]
    rw [same, Vec.get_zeros]

/-- The first pivot of an injective matrix is not zero, as no entry of its column is larger. -/
theorem pivot_ne_zero (injective : ∀ z : Vector ℝ (n + 1), (A.mulVec z).get = 0 → z.get = 0) :
    raised A 0 0 ≠ 0 := by
  intro null
  have unit := injective (Vec.cons 1 (Vector.replicate n 0)) (mulVec_null.2 fun i => by
    rw [dotProduct_cons, column_null null, Vec.get_zeros, dotProduct_zero, zero_mul, add_zero])
  have entry := congrFun unit 0
  rw [Vec.cons_zero] at entry
  exact one_ne_zero entry

theorem complement_injective (regular : raised A 0 0 ≠ 0)
    (injective : ∀ z : Vector ℝ (n + 1), (A.mulVec z).get = 0 → z.get = 0) (z : Vector ℝ n)
    (null : ((complement A).mulVec z).get = 0) : z.get = 0 := by
  let t := -((upperRow A).get ⬝ᵥ z.get) / raised A 0 0
  have first : raised A 0 0 * t + (upperRow A).get ⬝ᵥ z.get = 0 := by
    rw [mul_div_cancel₀ _ regular, neg_add_cancel]
  have whole := injective (Vec.cons t z) (raised_null.2 fun i => by
    cases i using Fin.cases with
    | zero => rw [row_zero_dotProduct, first]
    | succ i => rw [row_succ_dotProduct, first, mulVec_null.1 null i, mul_zero, add_zero])
  funext i
  have entry := congrFun whole i.succ
  rw [Vec.cons_succ] at entry
  exact entry

theorem pivots_ne_zero {n : Nat} (A : Mat ℝ n n)
    (injective : ∀ z : Vector ℝ n, (A.mulVec z).get = 0 → z.get = 0) :
    ∀ p ∈ (eliminate A).pivots, p ≠ 0 := by
  induction n with
  | zero => exact fun p listed => absurd listed List.not_mem_nil
  | succ n ih =>
    have regular := pivot_ne_zero injective
    intro p listed
    rcases List.mem_cons.1 listed with top | later
    · rw [top]
      exact regular
    · exact ih (complement A) (complement_injective regular injective) p later

end ConicDerivative.Elimination
