import ConicDerivative.Proofs.ConsistentDerivatives
import ConicDerivative.Proofs.GuardedNumbers

/-!
The matrix of the derivative without a division by zero. Run on numbers that tell such a division,
its algorithm returns defined entries, and they are the real ones: the norm is positive wherever a
second-order cone divides by it, and two eigenvalues differ wherever a semidefinite cone keeps the
quotient by their difference. The matrix is symmetric and firm, so its eigenvalues are between zero
and one.
-/

namespace ConicDerivative

open Scalar Matrix Outcomes Guarded

variable {n k d : Nat}

namespace SecondOrder

variable {t norm : ℝ}

theorem isClose_number : isClose (number t) (number norm) = isClose t norm := by
  simp [isClose]

theorem region_number : region (number t) (number norm) = region t norm := by
  simp [region, isClose_number]

theorem derivativeBetween_number (nonzero : norm ≠ 0) (z : Vector ℝ n) :
    derivativeBetween (number t) (number norm) (ofVector z) =
      ofMat (derivativeBetween t norm z) := by
  have unit (i : Fin n) : ((ofVector z).map (· / number norm)) i = number ((z.map (· / norm)) i) := by
    simp [Vec.apply_eq_getElem, ofVector, number_div nonzero]
  apply Mat.ext
  intro i j
  cases i using Fin.cases with
  | zero =>
    cases j using Fin.cases with
    | zero => simp [derivativeBetween, half]
    | succ j => simp [derivativeBetween, half, unit]
  | succ i =>
    cases j using Fin.cases with
    | zero => simp [derivativeBetween, half, unit]
    | succ j => simp [derivativeBetween, half, unit, identity_eq, number_div nonzero]

/-- Only between the cone and its polar is there a division, and there the norm is positive. -/
theorem derivative_ofVector (x : Vector ℝ (n + 1)) :
    derivative (ofVector x) = ofMat (derivative x) := by
  have moved : region (Vec.head (ofVector x)) (Vec.norm (Vec.tail (ofVector x))) =
      region (Vec.head x) (Vec.norm (Vec.tail x)) := by
    rw [head_ofVector, tail_ofVector, norm_ofVector, region_number]
  cases found : region (Vec.head x) (Vec.norm (Vec.tail x)) with
  | inside =>
    simp only [derivative, moved, found]
    exact identity_eq
  | polar =>
    simp only [derivative, moved, found]
    exact Mat.ext (by simp)
  | between =>
    have nonzero := ((abs_nonneg _).trans_lt (abs_lt_of_between found)).ne'
    simp only [derivative, moved, found]
    rw [head_ofVector, tail_ofVector, norm_ofVector, derivativeBetween_number nonzero]

end SecondOrder

namespace Packed

theorem rootTwo_number : (rootTwo : Guarded) = number rootTwo := by
  have nonneg : 0 ≤ (two : ℝ) := by
    rw [two_real]
    exact zero_le_two
  rw [rootTwo, two_eq, number_sqrt nonneg, rootTwo]

theorem unpack_ofVector (x : Vector ℝ (triangle d)) :
    unpack d (ofVector x) = ofMat (unpack d x) := by
  apply Mat.ext
  intro i j
  simp [unpack, rootTwo_number, number_div, rootTwo_ne_zero, two_real, apply_ite number]

theorem pack_ofMat (X : Mat ℝ d d) : pack (ofMat X) = ofVector (pack X) := by
  apply Vec.ext
  intro k
  simp [pack, rootTwo_number, number_div, rootTwo_ne_zero, apply_ite number]

end Packed

namespace Guarded

def ofEigen (eigen : Eigen ℝ d) : Eigen Guarded d := ⟨ofVector eigen.values, ofMat eigen.vectors⟩

noncomputable instance eigenSolver [EigenSolver ℝ] : EigenSolver Guarded where
  decompose X := open Classical in
    if defined : ∃ A, ofMat A = X then (EigenSolver.decompose defined.choose).map ofEigen else none

theorem decompose_ofMat [EigenSolver ℝ] (A : Mat ℝ d d) :
    EigenSolver.decompose (ofMat A) = (EigenSolver.decompose A).map ofEigen := by
  have defined : ∃ B, ofMat B = ofMat A := ⟨A, rfl⟩
  have same : defined.choose = A := ofMat_injective defined.choose_spec
  refine (dif_pos defined).trans ?_
  rw [same]

end Guarded

namespace Semidefinite

open Packed

/-- A quotient is kept for two eigenvalues of which one is positive alone, so they differ. -/
theorem slope_number (l l' : ℝ) : slope (number l) (number l') = number (slope l l') := by
  unfold slope
  simp only [zero_eq, one_eq, number_lt]
  split_ifs with both neither
  · rfl
  · rfl
  · have apart : l - l' ≠ 0 := by
      intro tied
      obtain rfl : l = l' := sub_eq_zero.1 tied
      by_cases positive : 0 < l
      · exact both ⟨positive, positive⟩
      · exact neither ⟨positive, positive⟩
    rw [positivePart_number, positivePart_number, number_sub, number_sub, number_div apart]

theorem derivative_ofVector (eigen : Eigen ℝ d) (dx : Vector ℝ (triangle d)) :
    derivative (ofEigen eigen) (ofVector dx) = ofVector (derivative eigen dx) := by
  have scaled (turned : Mat ℝ d d) :
      (Mat.ofFn fun i j =>
        slope (ofVector eigen.values i) (ofVector eigen.values j) * ofMat turned i j) =
      ofMat (.ofFn fun i j => slope (eigen.values i) (eigen.values j) * turned i j) := by
    apply Mat.ext
    simp [slope_number]
  simp only [derivative, ofEigen, transpose_ofMat, unpack_ofVector, mul_ofMat, scaled, pack_ofMat]

theorem decompose_ofVector [EigenSolver ℝ] {x : Vector ℝ k} {found : Decomposed ℝ k}
    (success : decompose x = .ok found) :
    decompose (ofVector x) = .ok ⟨ofEigen found.eigen, found.size_eq⟩ := by
  unfold decompose at success ⊢
  split_ifs at success ⊢ with size_eq
  rw [cast_ofVector, unpack_ofVector, decompose_ofMat]
  cases solved : EigenSolver.decompose (unpack (packedSide k) (x.cast size_eq)) with
  | none =>
    rw [solved] at success
    cases success
  | some eigen =>
    rw [solved] at success
    cases success
    rfl

end Semidefinite

theorem Cone.mask_eq (keep : Vector Bool k) :
    (mask keep : Sparse Guarded k k) = Guarded.ofSparse (mask keep) := by
  simp [mask, Guarded.ofSparse, Function.comp_def, apply_ite (List.map ofEntry), ofEntry]

section

variable [EigenSolver ℝ] {dual : Bool}

namespace Cone

theorem semidefinite_ofVector {x : Vector ℝ k} {S : Sparse ℝ k k}
    (success : semidefinite.derivativeMatrix x = .ok S) :
    semidefinite.derivativeMatrix (ofVector x) = .ok (Guarded.ofSparse S) := by
  obtain ⟨nonempty, P, derived, rfl⟩ := derivativeMatrix_semidefinite_eq_ok.1 success
  obtain ⟨found, solved, apply_eq, _⟩ := derivative_semidefinite_ok derived
  have guarded := Semidefinite.decompose_ofVector solved
  refine derivativeMatrix_semidefinite_eq_ok.2
    ⟨nonempty, _, bind_eq_ok.2 ⟨_, guarded, rfl⟩, ?_⟩
  rw [← sparse_ofMat]
  refine congrArg Sparse.ofMat (toMat_eq ?_).symm
  intro dx
  simp only [apply_eq, cast_ofVector, Semidefinite.derivative_ofVector]

theorem derivativeMatrix_ofVector {cone : Cone} {x : Vector ℝ k} {S : Sparse ℝ k k}
    (success : cone.derivativeMatrix x = .ok S) :
    cone.derivativeMatrix (ofVector x) = .ok (Guarded.ofSparse S) := by
  cases cone with
  | zero | free =>
    cases success
    exact congrArg Except.ok (mask_eq _)
  | nonnegative =>
    cases success
    have kept : (ofVector x).map (fun v => decide (0 < v)) = x.map fun v => decide (0 < v) := by
      simp [ofVector, Function.comp_def]
    exact congrArg Except.ok ((congrArg mask kept).trans (mask_eq _))
  | secondOrder =>
    cases k with
    | zero => cases success
    | succ k =>
      cases success
      refine congrArg Except.ok ?_
      rw [SecondOrder.derivative_ofVector, sparse_ofMat]
  | semidefinite => exact semidefinite_ofVector success

end Cone

theorem Block.derivativeMatrix_ofVector {block : Block} {x : Vector ℝ n}
    {S : Sparse ℝ (block.span n).size (block.span n).size}
    (success : block.derivativeMatrix x dual = .ok S) :
    block.derivativeMatrix (ofVector x) dual = .ok (Guarded.ofSparse S) := by
  obtain ⟨cone, named, single⟩ := derivativeMatrix_eq_ok.1 success
  refine derivativeMatrix_eq_ok.2 ⟨cone, named, ?_⟩
  rw [slice_ofVector]
  exact Cone.derivativeMatrix_ofVector single

theorem ProductCone.derivativeMatrix_ofVector {blocks : List Block} {x : Vector ℝ n}
    {S : Sized (Sparse ℝ)} (success : derivativeMatrix blocks x dual = .ok S) :
    derivativeMatrix blocks (ofVector x) dual = .ok (S.map Guarded.ofSparse) := by
  obtain ⟨parts, mapped, joined⟩ := bind_eq_ok.1 success
  cases pure_eq_ok.1 joined
  refine bind_eq_ok.2 ⟨parts.map fun part => part.map Guarded.ofSparse, mapM_eq_ok.2 ?_,
    congrArg Except.ok (blockDiagonal_ofSparse parts)⟩
  rw [List.forall₂_map_right_iff]
  refine (mapM_eq_ok.1 mapped).imp ?_
  intro block part made
  obtain ⟨T, single, sized⟩ := bind_eq_ok.1 made
  cases pure_eq_ok.1 sized
  exact bind_eq_ok.2 ⟨_, Block.derivativeMatrix_ofVector single, rfl⟩

end

theorem spectrum_subset_of_firm {D : Matrix (Fin n) (Fin n) ℝ}
    (firm : ∀ u, D *ᵥ u ⬝ᵥ D *ᵥ u ≤ D *ᵥ u ⬝ᵥ u) : spectrum ℝ D ⊆ Set.Icc 0 1 := by
  intro μ listed
  rw [← spectrum_toLin', ← Module.End.hasEigenvalue_iff_mem_spectrum] at listed
  obtain ⟨u, eigen⟩ := listed.exists_hasEigenvector
  have image : D *ᵥ u = μ • u := eigen.apply_eq_smul
  have nonneg : 0 ≤ u ⬝ᵥ u := Finset.sum_nonneg fun i _ => mul_self_nonneg (u i)
  have positive : 0 < u ⬝ᵥ u :=
    nonneg.lt_of_ne fun zero => eigen.2 (dotProduct_self_eq_zero.1 zero.symm)
  have bound := firm u
  simp only [image, smul_dotProduct, dotProduct_smul, smul_eq_mul, ← mul_assoc] at bound
  have square : μ * μ ≤ μ := le_of_mul_le_mul_right bound positive
  have lower : 0 ≤ μ := (mul_self_nonneg μ).trans square
  exact ⟨lower, by nlinarith⟩

namespace ProductCone

section

variable [EigenSolver ℝ] {blocks : List Block} {x : Vector ℝ n} {dual : Bool}

/--
The derivative has a symmetric and firm matrix, and no quotient that is kept in it has a zero divisor:
neither a norm nor the difference of two eigenvalues.
-/
def HasFirmMatrix (blocks : List Block) (x : Vector ℝ n) (dual : Bool) : Prop :=
  ∃ D : Sparse ℝ n n, derivativeMatrix blocks x dual = .ok ⟨D⟩ ∧
    derivativeMatrix blocks (ofVector x) dual = .ok ⟨Guarded.ofSparse D⟩ ∧
    D.matrix.IsSymm ∧ (∀ u, D.matrix *ᵥ u ⬝ᵥ D.matrix *ᵥ u ≤ D.matrix *ᵥ u ⬝ᵥ u) ∧
    spectrum ℝ D.matrix ⊆ Set.Icc 0 1

theorem hasFirmMatrix_iff_haveSides [LawfulEigenSolver]
    (tiling : Block.checkTiling blocks n = .ok ()) (heads : Block.HaveHeads blocks) :
    HasFirmMatrix blocks x dual ↔ Block.HaveSides blocks := by
  have assembled := exists_matrix_iff_haveSides tiling heads x dual
  constructor
  · rintro ⟨D, derived, _⟩
    exact assembled.1 ⟨D, derived⟩
  · intro sides
    obtain ⟨D, derived⟩ := assembled.2 sides
    have map := derivative_of_derivativeMatrix derived
    have given := Operator.represents_ofSparse D
    have firm := (derivative_isFirm tiling map).mulVec given
    exact ⟨D, derived, derivativeMatrix_ofVector derived,
      (derivative_isSelfAdjoint tiling map).isSymm given, firm, spectrum_subset_of_firm firm⟩

/--
The derivative has a symmetric and firm matrix that takes no quotient by zero just if every
semidefinite block has a matrix with rows. For fewer than `2 ^ 53` rows, where no size is rounded, an
empty semidefinite block is all that keeps it from one; as a map the derivative is symmetric and firm
in any case.
-/
theorem hasFirmMatrix_iff [LawfulEigenSolver] (tiling : Block.checkTiling blocks n = .ok ())
    (heads : Block.HaveHeads blocks) (x : Vector ℝ n) (dual : Bool) :
    (HasFirmMatrix blocks x dual ↔ Block.HaveSides blocks) ∧
      (n < 2 ^ 53 →
        (HasFirmMatrix blocks x dual ↔
          ∀ block ∈ blocks, block.kind = .cone .semidefinite → block.size ≠ 0) ∧
        ∃ D : Operator ℝ n n, derivative blocks x dual = .ok ⟨D⟩ ∧ D.IsSelfAdjoint ∧ D.IsFirm) := by
  refine ⟨hasFirmMatrix_iff_haveSides tiling heads, ?_⟩
  intro small
  rw [hasFirmMatrix_iff_haveSides tiling heads, Block.haveSides_iff tiling small]
  refine ⟨Iff.rfl, ?_⟩
  obtain ⟨D, derived⟩ :=
    exists_derivative (x := x) tiling (Block.exists_target tiling heads small dual)
  exact ⟨D, derived, derivative_isSelfAdjoint tiling derived, derivative_isFirm tiling derived⟩

end

/-- A point between the second-order cone and its polar, with a zero eigenvalue. -/
theorem hasFirmMatrix_of_oneOfEach : HasFirmMatrix oneOfEach #v[1, -1, 0, 0, 1, 0] false := by
  have heads : Block.HaveHeads oneOfEach := by decide
  refine ((hasFirmMatrix_iff tiling_oneOfEach heads _ false).2 (by decide)).1.2 ?_
  decide

theorem emptySide_not_hasFirmMatrix : Block.checkTiling Program.emptySide.blocks 1 = .ok () ∧
    Block.HaveHeads Program.emptySide.blocks ∧
    (∃ D : Operator ℝ 1 1, derivative Program.emptySide.blocks #v[-1] true = .ok ⟨D⟩ ∧ D.IsFirm) ∧
    ∀ S, derivativeMatrix Program.emptySide.blocks (#v[-1] : Vector ℝ 1) true ≠ .ok S := by
  have tiling : Block.checkTiling Program.emptySide.blocks 1 = .ok () := Program.emptySide.tiling
  have heads : Block.HaveHeads Program.emptySide.blocks := by decide
  refine ⟨tiling, heads, ?_, ?_⟩
  · obtain ⟨D, derived⟩ := exists_derivative (x := #v[-1]) tiling
      (Block.exists_target tiling heads (by decide) true)
    exact ⟨D, derived, derivative_isFirm tiling derived⟩
  · exact derivativeMatrix_ne_ok_of_empty tiling (List.mem_cons_of_mem _ List.mem_cons_self) rfl
      rfl #v[-1] true

end ProductCone

end ConicDerivative
