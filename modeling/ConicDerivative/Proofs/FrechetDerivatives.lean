import ConicDerivative.Failure
import ConicDerivative.Proofs.Adjoints

/-!
Linear maps that are derivatives. A function of vectors is read as one of their entries, for which all
norms have the same Fréchet derivatives. It is enough that the remainder beside the linear map is
bounded by the square of the step.
-/

namespace ConicDerivative

open Scalar Matrix Filter Topology

variable {m n : Nat}

namespace Vec

def onEntries (p : Vector ℝ n → Vector ℝ m) (v : Fin n → ℝ) : Fin m → ℝ := (p (Vector.ofFn v)).get

theorem ofFn_get (x : Vector ℝ n) : Vector.ofFn x.get = x := get_injective (get_ofFn _)

theorem onEntries_get (p : Vector ℝ n → Vector ℝ m) (x : Vector ℝ n) :
    onEntries p x.get = (p x).get := by
  rw [onEntries, ofFn_get]

theorem norm_get_le (x : Vector ℝ n) : ‖x.get‖ ≤ norm x := by
  rw [pi_norm_le_iff_of_nonneg (norm_nonneg x), norm_eq_sqrt]
  intro i
  apply Real.abs_le_sqrt
  rw [pow_two]
  exact Finset.single_le_sum (fun j _ => mul_self_nonneg (x.get j)) (Finset.mem_univ i)

theorem dot_self_le (h : Fin n → ℝ) : h ⬝ᵥ h ≤ n * ‖h‖ ^ 2 := by
  calc
    h ⬝ᵥ h ≤ ∑ _ : Fin n, ‖h‖ ^ 2 := by
      apply Finset.sum_le_sum
      intro i _
      rw [← abs_mul_abs_self, ← pow_two]
      exact pow_le_pow_left₀ (abs_nonneg _) (norm_le_pi_norm h i) 2
    _ = n * ‖h‖ ^ 2 := by simp

end Vec

theorem hasFDerivAt_of_quadratic {g : (Fin n → ℝ) → Fin m → ℝ} {L : (Fin n → ℝ) →L[ℝ] Fin m → ℝ}
    {x : Fin n → ℝ} {C : ℝ} (bound : ∀ v, ‖g v - g x - L (v - x)‖ ≤ C * ‖v - x‖ ^ 2) :
    HasFDerivAt g L x := by
  have small : (fun v => g v - g x - L (v - x)) =O[𝓝 x] fun v => ‖v - x‖ ^ 2 := by
    apply Asymptotics.IsBigO.of_bound C
    apply Eventually.of_forall
    intro v
    rw [norm_pow, norm_norm]
    exact bound v
  have linear : HasFDerivAt (fun v => L (v - x)) L x := by
    have shifted := L.hasFDerivAt.comp x ((hasFDerivAt_id x).sub_const x)
    rwa [ContinuousLinearMap.comp_id] at shifted
  have total := ((small.hasFDerivAt one_lt_two).add linear).add_const (g x)
  rw [zero_add] at total
  refine total.congr_of_eventuallyEq (Eventually.of_forall fun v => ?_)
  simp

namespace Operator

/-- The function has a value everywhere, and the map is its Fréchet derivative at `x`. -/
def IsDerivative (P : Operator ℝ m n) (f : Vector ℝ n → Outcome ℝ (Vector ℝ m)) (x : Vector ℝ n) :
    Prop :=
  ∃ (p : Vector ℝ n → Vector ℝ m) (M : Matrix (Fin m) (Fin n) ℝ), (∀ v, f v = .ok (p v)) ∧
    P.Represents M ∧ HasFDerivAt (Vec.onEntries p) M.mulVecLin.toContinuousLinearMap x.get

/-- In the norm of the library it is enough to bound the remainder by the square of the step. -/
theorem Represents.hasFDerivAt {P : Operator ℝ m n} {M : Matrix (Fin m) (Fin n) ℝ}
    (given : P.Represents M) {p : Vector ℝ n → Vector ℝ m} {x : Vector ℝ n} {C : ℝ} (nonneg : 0 ≤ C)
    (bound : ∀ v, Vec.norm (p v - p x - P.apply (v - x)) ≤ C * ((v - x).get ⬝ᵥ (v - x).get)) :
    HasFDerivAt (Vec.onEntries p) M.mulVecLin.toContinuousLinearMap x.get := by
  apply hasFDerivAt_of_quadratic (C := C * n)
  intro v
  have rest : Vec.onEntries p v - Vec.onEntries p x.get -
      M.mulVecLin.toContinuousLinearMap (v - x.get) =
      (p (Vector.ofFn v) - p x - P.apply (Vector.ofFn v - x)).get := by
    rw [Vec.get_sub, Vec.get_sub, given.apply, Vec.get_sub, Vec.get_ofFn, Vec.onEntries_get]
    rfl
  have step : (Vector.ofFn v - x).get = v - x.get := by rw [Vec.get_sub, Vec.get_ofFn]
  calc
    _ ≤ Vec.norm (p (Vector.ofFn v) - p x - P.apply (Vector.ofFn v - x)) :=
      rest ▸ Vec.norm_get_le _
    _ ≤ C * ((v - x.get) ⬝ᵥ (v - x.get)) := step ▸ bound (Vector.ofFn v)
    _ ≤ C * (n * ‖v - x.get‖ ^ 2) := mul_le_mul_of_nonneg_left (Vec.dot_self_le _) nonneg
    _ = C * n * ‖v - x.get‖ ^ 2 := (mul_assoc ..).symm

end Operator

end ConicDerivative
