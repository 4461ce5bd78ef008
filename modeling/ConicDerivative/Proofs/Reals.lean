import Mathlib
import ConicDerivative.Eigen
import ConicDerivative.Vec

/-!
The real numbers as scalars. Read over them, every numeric definition of the library is its exact
algorithm: sums are finite sums, every number is finite, and no test meets a NaN.
-/

namespace ConicDerivative

namespace Scalar

/-- The quotient of real numbers, which is found before the one of scalars. -/
noncomputable instance divReal : Div ℝ := Real.instDivInvMonoid.toDiv

noncomputable instance ofScientificReal : OfScientific ℝ := NNRatCast.toOfScientific

noncomputable instance real : Scalar ℝ where
  sqrt := Real.sqrt
  log := Real.log
  ceil x := ⌈x⌉₊
  decideLE _ _ := inferInstance
  decideLT _ _ := inferInstance

theorem sqrt_real (x : ℝ) : sqrt x = Real.sqrt x := rfl

theorem two_real : (two : ℝ) = 2 := rfl

theorem sumOver_eq_sum (n : Nat) (f : Fin n → ℝ) : sumOver n f = ∑ i, f i := by
  induction n with
  | zero => simp [sumOver_zero]
  | succ n ih => rw [sumOver_succ, ih, Fin.sum_univ_castSucc]

theorem isZero_iff {x : ℝ} : isZero x = true ↔ x = 0 := by
  simp only [isZero, Bool.and_eq_true, decide_eq_true_eq]
  exact le_antisymm_iff.symm

theorem isFinite_real (x : ℝ) : isFinite x = true := by simp [isFinite, isNaN]

theorem positivePart_eq_max (x : ℝ) : positivePart x = max x 0 := by
  unfold positivePart
  split_ifs with negative
  · exact (max_eq_right negative).symm
  · exact (max_eq_left (le_of_not_ge negative)).symm

theorem abs_real (x : ℝ) : abs x = |x| := by
  unfold abs
  split_ifs with negative
  · exact (abs_of_neg negative).symm
  · exact (abs_of_nonneg (le_of_not_gt negative)).symm

end Scalar

namespace Vec

open Scalar

variable {m n : Nat}

@[simp]
theorem get_add (x y : Vector ℝ n) : (x + y).get = x.get + y.get := by
  funext i
  exact add_apply x y i

@[simp]
theorem get_sub (x y : Vector ℝ n) : (x - y).get = x.get - y.get := by
  funext i
  exact sub_apply x y i

@[simp]
theorem get_neg (x : Vector ℝ n) : (-x).get = -x.get := by
  funext i
  exact neg_apply x i

@[simp]
theorem get_scale (a : ℝ) (x : Vector ℝ n) : (scale a x).get = a • x.get := by
  funext i
  exact scale_apply a x i

@[simp]
theorem get_ofFn {α : Type} (f : Fin n → α) : (Vector.ofFn f).get = f := by
  funext i
  exact ofFn_apply f i

theorem get_replicate {α : Type} (a : α) : (Vector.replicate n a).get = fun _ => a := by
  funext i
  simp [apply_eq_getElem]

@[simp]
theorem get_zeros : (Vector.replicate n (0 : ℝ)).get = 0 := get_replicate 0

theorem get_single {α : Type} (a : α) : (#v[a] : Vector α 1).get = ![a] := by
  funext i
  fin_cases i
  rfl

theorem get_pair {α : Type} (a b : α) : (#v[a, b] : Vector α 2).get = ![a, b] := by
  funext i
  fin_cases i <;> rfl

theorem get_injective {α : Type} : Function.Injective (Vector.get : Vector α n → Fin n → α) := by
  intro x y same
  exact ext fun i => congrFun same i

theorem get_empty (x : Vector ℝ 0) : x.get = 0 := Subsingleton.elim _ _

theorem isNull_iff {x : Vector ℝ n} : isNull x = true ↔ x.get = 0 := by
  simp only [isNull, Vector.all_eq_true, isZero_iff]
  constructor
  · intro zeros
    funext i
    exact zeros i i.isLt
  · intro zero i inside
    exact congrFun zero ⟨i, inside⟩

theorem allFinite_real (x : Vector ℝ n) : allFinite x = true := by
  simp only [allFinite, Vector.all_eq_true]
  exact fun i inside => isFinite_real _

theorem add_replicate_zero (x : Vector ℝ n) : x + Vector.replicate n 0 = x :=
  get_injective (by simp)

theorem replicate_zero_add (x : Vector ℝ n) : Vector.replicate n 0 + x = x :=
  get_injective (by simp)

theorem dot_eq_dotProduct (x y : Vector ℝ n) : dot x y = x.get ⬝ᵥ y.get := by
  unfold dot
  exact sumOver_eq_sum n _

theorem norm_eq_sqrt (x : Vector ℝ n) : norm x = Real.sqrt (x.get ⬝ᵥ x.get) := by
  rw [norm, sqrt_real, dot_eq_dotProduct]

theorem norm_nonneg (x : Vector ℝ n) : 0 ≤ norm x := by
  rw [norm_eq_sqrt]
  exact Real.sqrt_nonneg _

theorem norm_mul_self (x : Vector ℝ n) : norm x * norm x = x.get ⬝ᵥ x.get := by
  rw [norm_eq_sqrt]
  exact Real.mul_self_sqrt (Finset.sum_nonneg fun i _ => mul_self_nonneg (x.get i))

theorem norm_scale (a : ℝ) (z : Vector ℝ n) : norm (scale a z) = |a| * norm z := by
  rw [norm_eq_sqrt, norm_eq_sqrt, get_scale, smul_dotProduct, dotProduct_smul, smul_eq_mul,
    smul_eq_mul, ← mul_assoc, Real.sqrt_mul (mul_self_nonneg a), Real.sqrt_mul_self_eq_abs]

theorem norm_eq_zero_iff {x : Vector ℝ n} : norm x = 0 ↔ x.get = 0 := by
  rw [← mul_self_eq_zero, norm_mul_self, dotProduct_self_eq_zero]

theorem norm_sub_eq_zero_iff {x y : Vector ℝ n} : norm (x - y) = 0 ↔ x.get = y.get := by
  rw [norm_eq_zero_iff, get_sub, sub_eq_zero]

theorem get_append (x : Vector ℝ n) (y : Vector ℝ m) : (x ++ y).get = Fin.append x.get y.get := by
  funext i
  cases i using Fin.addCases with
  | left i =>
    rw [Fin.append_left, ← left_apply, left_append]
  | right i =>
    rw [Fin.append_right, ← right_apply, right_append]

theorem append_left_right (z : Vector ℝ (n + m)) : left z ++ right z = z := by
  apply get_injective
  rw [get_append]
  funext i
  cases i using Fin.addCases with
  | left i => rw [Fin.append_left, left_apply]
  | right i => rw [Fin.append_right, right_apply]

theorem ext_parts {z w : Vector ℝ (n + m)} (upper : left z = left w) (lower : right z = right w) :
    z = w := by
  rw [← append_left_right z, ← append_left_right w, upper, lower]

theorem dot_parts (z w : Vector ℝ (n + m)) :
    z.get ⬝ᵥ w.get = (left z).get ⬝ᵥ (left w).get + (right z).get ⬝ᵥ (right w).get := by
  simp only [dotProduct, Fin.sum_univ_add]
  congr 1
  · exact Finset.sum_congr rfl fun i _ => by rw [left_apply, left_apply]
  · exact Finset.sum_congr rfl fun i _ => by rw [right_apply, right_apply]

theorem dot_append (x : Vector ℝ n) (y : Vector ℝ m) (w : Vector ℝ (n + m)) :
    (x ++ y).get ⬝ᵥ w.get = x.get ⬝ᵥ (left w).get + y.get ⬝ᵥ (right w).get := by
  rw [dot_parts, left_append, right_append]

@[simp]
theorem left_add (z w : Vector ℝ (n + m)) : left (z + w) = left z + left w :=
  ext fun i => by simp

@[simp]
theorem right_add (z w : Vector ℝ (n + m)) : right (z + w) = right z + right w :=
  ext fun i => by simp

@[simp]
theorem left_neg (z : Vector ℝ (n + m)) : left (-z) = -left z :=
  ext fun i => by simp

@[simp]
theorem right_neg (z : Vector ℝ (n + m)) : right (-z) = -right z :=
  ext fun i => by simp

end Vec

end ConicDerivative
