import ConicDerivative.Projection
import ConicDerivative.Proofs.Outcomes
import ConicDerivative.Proofs.SecondOrderMaps
import ConicDerivative.Proofs.SpectralMaps

/-!
The projections onto single cones and their derivatives over the real numbers. The derivative of
every cone is its own transpose, the assembled matrix acts as the map that assembles nothing, and
both the point and its projection are sent to the projection.
-/

namespace ConicDerivative

open Scalar Matrix Outcomes

variable [EigenSolver ℝ] {k : Nat}

namespace Operator

structure IsSelfAdjoint (A : Operator ℝ k k) : Prop where
  pair : A.IsAdjoint
  same : A.adjoint = A.apply

omit [EigenSolver ℝ] in
theorem Represents.isSelfAdjoint {A : Operator ℝ k k} {M : Matrix (Fin k) (Fin k) ℝ}
    (given : A.Represents M) (symm : M.IsSymm) : A.IsSelfAdjoint := by
  refine ⟨given.isAdjoint, ?_⟩
  funext x
  apply Vec.get_injective
  rw [given.adjoint, given.apply, symm.eq]

end Operator

namespace Cone

omit [EigenSolver ℝ] in
theorem matrix_mask (keep : Vector Bool k) :
    (mask keep : Sparse ℝ k k).matrix = diagonal fun i => if keep i then 1 else 0 := by
  funext i j
  rw [Sparse.matrix_apply, mask, Vec.ofFn_apply]
  by_cases here : i = j
  · subst here
    rw [diagonal_apply_eq]
    by_cases kept : keep i
    · simp [kept, Sparse.share]
    · simp [kept]
  · rw [diagonal_apply_ne _ here]
    by_cases kept : keep j
    · simp [kept, Sparse.share, Ne.symm here]
    · simp [kept]

omit [EigenSolver ℝ] in
theorem mulVec_mask {keep : Vector Bool k} {x p : Vector ℝ k}
    (kept : ∀ i, p i = if keep i then x i else 0) : (mask keep).mulVec x = p := by
  apply Vec.get_injective
  funext i
  rw [Sparse.get_mulVec, matrix_mask, mulVec_diagonal, kept]
  split_ifs
  · exact one_mul _
  · exact zero_mul _

omit [EigenSolver ℝ] in
theorem isSelfAdjoint_mask (keep : Vector Bool k) :
    (Operator.ofSparse (mask keep : Sparse ℝ k k)).IsSelfAdjoint := by
  apply (Operator.represents_ofSparse (mask keep)).isSelfAdjoint
  rw [matrix_mask]
  exact isSymm_diagonal _

end Cone

namespace Semidefinite

open Packed

theorem decompose_lawful [LawfulEigenSolver] {x : Vector ℝ k} {found : Decomposed ℝ k}
    (success : decompose x = .ok found) :
    found.eigen.Decomposes (unpack found.side (x.cast found.size_eq)) := by
  unfold decompose at success
  split_ifs at success with size_eq
  obtain ⟨eigen, solved, decomposes⟩ :=
    LawfulEigenSolver.decompose_symm (unpack (packedSide k) (x.cast size_eq)) (unpack_symm _)
  rw [solved] at success
  cases success
  exact decomposes

/-- The matrix that a vector packs, if there is one, has eigenvectors for the solver. -/
def Solvable {α : Type} [Scalar α] [EigenSolver α] (x : Vector α k) : Prop :=
  ∀ size_eq : k = triangle (packedSide k),
    ∃ eigen, EigenSolver.decompose (unpack (packedSide k) (x.cast size_eq)) = some eigen

omit [EigenSolver ℝ] in
theorem exists_decompose_iff_of_solvable {α : Type} [Scalar α] [EigenSolver α] {x : Vector α k}
    (solvable : Solvable x) : (∃ found, decompose x = .ok found) ↔ k = triangle (packedSide k) := by
  unfold decompose
  split_ifs with size_eq
  · obtain ⟨eigen, solved⟩ := solvable size_eq
    rw [solved]
    exact ⟨fun _ => size_eq, fun _ => ⟨_, rfl⟩⟩
  · simp [size_eq]

theorem solvable_real [LawfulEigenSolver] (x : Vector ℝ k) : Solvable x := by
  intro size_eq
  obtain ⟨eigen, solved, _⟩ :=
    LawfulEigenSolver.decompose_symm (unpack (packedSide k) (x.cast size_eq)) (unpack_symm _)
  exact ⟨eigen, solved⟩

end Semidefinite

namespace Cone

open Packed

variable {cone : Cone} {x : Vector ℝ k}

theorem derivative_semidefinite_ok {P : Operator ℝ k k}
    (success : semidefinite.derivative x = .ok P) : ∃ found : Semidefinite.Decomposed ℝ k,
      Semidefinite.decompose x = .ok found ∧
      P.apply = (fun dx => (Semidefinite.derivative found.eigen (dx.cast found.size_eq)).cast
        found.size_eq.symm) ∧ P.adjoint = P.apply := by
  cases solved : Semidefinite.decompose x with
  | error cause => simp [derivative, solved, bind, Except.bind] at success
  | ok found =>
    simp only [derivative, solved, bind, Except.bind] at success
    cases success
    exact ⟨found, rfl, rfl, rfl⟩

theorem derivative_isSelfAdjoint {P : Operator ℝ k k} (success : cone.derivative x = .ok P) :
    P.IsSelfAdjoint := by
  cases cone with
  | zero | free | nonnegative =>
    cases success
    exact isSelfAdjoint_mask _
  | secondOrder =>
    cases k with
    | zero => cases success
    | succ k =>
      cases success
      exact (Operator.represents_ofMat _).isSelfAdjoint (SecondOrder.derivative_symm x)
  | semidefinite =>
    obtain ⟨⟨eigen, size_eq⟩, _, apply_eq, same⟩ := derivative_semidefinite_ok success
    subst size_eq
    refine ⟨?_, same⟩
    intro dx dy
    rw [same, apply_eq]
    exact Semidefinite.derivative_selfAdjoint eigen dx dy

omit [EigenSolver ℝ] in
theorem derivativeMatrix_semidefinite_eq_ok {α : Type} [Scalar α] [EigenSolver α] {x : Vector α k}
    {S : Sparse α k k} : semidefinite.derivativeMatrix x = .ok S ↔
      k ≠ 0 ∧ ∃ P, semidefinite.derivative x = .ok P ∧ S = .ofMat P.toMat := by
  have reading : semidefinite.derivativeMatrix x = semidefinite.derivative x >>= fun map =>
      if k = 0 then .error (.invalid .value) else .ok (.ofMat map.toMat) := by
    rw [derivativeMatrix]
    congr 1
  rw [reading, bind_eq_ok]
  by_cases empty : k = 0
  · simp [empty]
  · simp [empty, eq_comm]

def HasMatrix (cone : Cone) (k : Nat) : Prop :=
  match cone with
  | secondOrder => k ≠ 0
  | semidefinite => k ≠ 0 ∧ k = triangle (packedSide k)
  | _ => True

omit [EigenSolver ℝ] in
theorem exists_derivativeMatrix_iff_of_solvable {α : Type} [Scalar α] [EigenSolver α]
    {x : Vector α k} (solvable : cone = semidefinite → Semidefinite.Solvable x) :
    (∃ S, cone.derivativeMatrix x = .ok S) ↔ cone.HasMatrix k := by
  cases cone with
  | zero | free | nonnegative => exact ⟨fun _ => trivial, fun _ => ⟨_, rfl⟩⟩
  | secondOrder =>
    cases k with
    | zero => simp [derivativeMatrix, HasMatrix]
    | succ k => exact ⟨fun _ => k.succ_ne_zero, fun _ => ⟨_, rfl⟩⟩
  | semidefinite =>
    rw [HasMatrix, ← Semidefinite.exists_decompose_iff_of_solvable (solvable rfl)]
    simp only [derivativeMatrix_semidefinite_eq_ok]
    constructor
    · rintro ⟨S, nonempty, P, success, _⟩
      obtain ⟨found, solved, _⟩ := bind_eq_ok.1 success
      exact ⟨nonempty, found, solved⟩
    · rintro ⟨nonempty, found, solved⟩
      exact ⟨_, nonempty, _, bind_eq_ok.2 ⟨found, solved, rfl⟩, rfl⟩

theorem exists_derivativeMatrix_iff [LawfulEigenSolver] (cone : Cone) (x : Vector ℝ k) :
    (∃ S, cone.derivativeMatrix x = .ok S) ↔ cone.HasMatrix k :=
  exists_derivativeMatrix_iff_of_solvable fun _ => Semidefinite.solvable_real x

theorem derivative_of_derivativeMatrix {S : Sparse ℝ k k}
    (success : cone.derivativeMatrix x = .ok S) : cone.derivative x = .ok (.ofSparse S) := by
  cases cone with
  | zero | free | nonnegative =>
    cases success
    rfl
  | secondOrder =>
    cases k with
    | zero => cases success
    | succ k =>
      cases success
      rw [Operator.ofSparse_ofMat]
      rfl
  | semidefinite =>
    obtain ⟨_, P, solved, rfl⟩ := derivativeMatrix_semidefinite_eq_ok.1 success
    rw [Operator.ofSparse_ofMat, (derivative_isSelfAdjoint solved).pair.ofMat_toMat, solved]

omit [EigenSolver ℝ] in
theorem get_map_positivePart (x : Vector ℝ k) (i : Fin k) :
    (x.map positivePart) i = max (x i) 0 := by
  rw [← positivePart_eq_max]
  simp [Vec.apply_eq_getElem]

theorem derivative_point [LawfulEigenSolver] {P : Operator ℝ k k}
    (success : cone.derivative x = .ok P) :
    ∃ p, cone.project x = .ok p ∧ P.apply x = p ∧ P.apply p = p := by
  cases cone with
  | zero =>
    cases success
    refine ⟨Vector.replicate k 0, rfl, mulVec_mask ?_, mulVec_mask ?_⟩
    all_goals
      intro i
      simp
  | free =>
    cases success
    refine ⟨x, rfl, mulVec_mask ?_, mulVec_mask ?_⟩
    all_goals
      intro i
      simp
  | nonnegative =>
    cases success
    have kept (i : Fin k) : (x.map fun v => decide (0 < v)) i = decide (0 < x i) := by
      simp [Vec.apply_eq_getElem]
    refine ⟨x.map positivePart, rfl, mulVec_mask ?_, mulVec_mask ?_⟩
    all_goals
      intro i
      rw [kept, get_map_positivePart]
      by_cases positive : 0 < x i
      · simp [positive, positive.le]
      · simp [positive, not_lt.1 positive]
  | secondOrder =>
    cases k with
    | zero => cases success
    | succ k =>
      cases success
      refine ⟨SecondOrder.project x, rfl, ?_, ?_⟩
      · apply Vec.get_injective
        exact (Mat.get_mulVec _ _).trans (SecondOrder.derivative_point x)
      · apply Vec.get_injective
        exact (Mat.get_mulVec _ _).trans (SecondOrder.derivative_project x)
  | semidefinite =>
    obtain ⟨⟨eigen, size_eq⟩, solved, apply_eq, _⟩ := derivative_semidefinite_ok success
    have decomposes := Semidefinite.decompose_lawful solved
    subst size_eq
    refine ⟨Semidefinite.project eigen, ?_, ?_, ?_⟩
    · simp only [project, solved, bind, Except.bind]
      rfl
    · rw [apply_eq]
      exact Semidefinite.derivative_point decomposes
    · rw [apply_eq]
      exact Semidefinite.derivative_project decomposes

end Cone

end ConicDerivative
