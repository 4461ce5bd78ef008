import ConicDerivative.Proofs.NearestPoints
import ConicDerivative.Proofs.SystemForms

/-!
The projection and the matrix of its derivative beside each other. At every point the matrix takes
both the point and its projection to the projection: on the surfaces of the cones, in the band of
points that count as inside and at ties of eigenvalues too. A block list without a matrix has an empty
semidefinite block; there the derivative as a map still does the same.
-/

namespace ConicDerivative

open Scalar Matrix Outcomes

variable {n k : Nat}

theorem Cone.HasMatrix.accepts {cone : Cone} (sized : cone.HasMatrix k) : cone.Accepts k := by
  cases cone with
  | zero | free | nonnegative => trivial
  | secondOrder => exact sized
  | semidefinite => exact sized.2

namespace ProductCone

section

variable [EigenSolver ℝ] [LawfulEigenSolver] {blocks : List Block} {x : Vector ℝ n} {dual : Bool}

theorem derivativeMatrix_ne_ok_of_empty {block : Block} (tiling : Block.checkTiling blocks n = .ok ())
    (listed : block ∈ blocks) (kind : block.kind = .cone .semidefinite) (empty : block.size = 0)
    (x : Vector ℝ n) (dual : Bool) (S : Sized (Sparse ℝ)) :
    derivativeMatrix blocks x dual ≠ .ok S := by
  intro success
  obtain ⟨parts, mapped, _⟩ := bind_eq_ok.1 success
  obtain ⟨part, made⟩ := exists_mapM_iff.1 ⟨parts, mapped⟩ block listed
  obtain ⟨T, single, _⟩ := bind_eq_ok.1 made
  have sized := (Block.exists_derivativeMatrix_iff block x dual).1 ⟨T, single⟩
  rw [Block.exists_target_iff Cone.hasMatrix_dual kind] at sized
  rw [Block.size_eq_span tiling listed] at empty
  exact sized.1 (Int.natCast_eq_zero.1 empty)

/-- The derivative has a matrix, which takes the point and its projection to the projection. -/
def IsConsistent (blocks : List Block) (x : Vector ℝ n) (dual : Bool) : Prop :=
  ∃ (D : Sparse ℝ n n) (p : Vector ℝ n), derivativeMatrix blocks x dual = .ok ⟨D⟩ ∧
    project blocks x dual = .ok p ∧ D.matrix *ᵥ x.get = p.get ∧ D.matrix *ᵥ p.get = p.get

theorem exists_project_of_haveSides (tiling : Block.checkTiling blocks n = .ok ())
    (heads : Block.HaveHeads blocks) (sides : Block.HaveSides blocks) (x : Vector ℝ n)
    (dual : Bool) : ∃ p, project blocks x dual = .ok p := by
  rw [exists_project_iff tiling]
  intro block listed
  obtain ⟨cone, named, sized⟩ := (Block.hasMatrix_iff tiling dual).2 ⟨heads, sides⟩ block listed
  exact ⟨cone, named, sized.accepts⟩

theorem isConsistent_iff_haveSides (tiling : Block.checkTiling blocks n = .ok ())
    (heads : Block.HaveHeads blocks) : IsConsistent blocks x dual ↔ Block.HaveSides blocks := by
  have assembled := exists_matrix_iff_haveSides tiling heads x dual
  constructor
  · rintro ⟨D, _, derived, _⟩
    exact assembled.1 ⟨D, derived⟩
  · intro sides
    obtain ⟨D, derived⟩ := assembled.2 sides
    obtain ⟨p, projected⟩ := exists_project_of_haveSides tiling heads sides x dual
    obtain ⟨point, fixed⟩ :=
      derivative_point tiling (derivative_of_derivativeMatrix derived) projected
    have given := Operator.represents_ofSparse D
    refine ⟨D, p, derived, projected, ?_, ?_⟩
    · rw [← given.apply, point]
    · rw [← given.apply, fixed]

theorem exists_derivative_consistent (tiling : Block.checkTiling blocks n = .ok ())
    (heads : Block.HaveHeads blocks) (small : n < 2 ^ 53) (x : Vector ℝ n) (dual : Bool) :
    ∃ (D : Operator ℝ n n) (p : Vector ℝ n), derivative blocks x dual = .ok ⟨D⟩ ∧
      project blocks x dual = .ok p ∧ D.apply x = p ∧ D.apply p = p := by
  have accepted := Block.exists_target tiling heads small dual
  obtain ⟨D, derived⟩ := exists_derivative (x := x) tiling accepted
  obtain ⟨p, projected⟩ := (exists_project_iff (x := x) tiling).2 accepted
  exact ⟨D, p, derived, projected, derivative_point tiling derived projected⟩

/--
Projection and derivative are consistent at every point just if every semidefinite block has a matrix
with rows. For fewer than `2 ^ 53` rows, where no size is rounded, an empty semidefinite block is all
that keeps them from it, and only since it has no matrix: as a map the derivative takes the point and
its projection to the projection in any case.
-/
theorem isConsistent_iff (tiling : Block.checkTiling blocks n = .ok ())
    (heads : Block.HaveHeads blocks) (x : Vector ℝ n) (dual : Bool) :
    (IsConsistent blocks x dual ↔ Block.HaveSides blocks) ∧
      (n < 2 ^ 53 →
        (IsConsistent blocks x dual ↔
          ∀ block ∈ blocks, block.kind = .cone .semidefinite → block.size ≠ 0) ∧
        ∃ (D : Operator ℝ n n) (p : Vector ℝ n), derivative blocks x dual = .ok ⟨D⟩ ∧
          project blocks x dual = .ok p ∧ D.apply x = p ∧ D.apply p = p) := by
  refine ⟨isConsistent_iff_haveSides tiling heads, ?_⟩
  intro small
  refine ⟨?_, exists_derivative_consistent tiling heads small x dual⟩
  rw [isConsistent_iff_haveSides tiling heads, Block.haveSides_iff tiling small]

end

theorem isConsistent_of_oneOfEach : IsConsistent oneOfEach #v[1, -1, 0, 1, 1, 0] true := by
  have heads : Block.HaveHeads oneOfEach := by decide
  refine ((isConsistent_iff tiling_oneOfEach heads _ true).2 (by decide)).1.2 ?_
  decide

theorem emptySide_not_isConsistent : Block.checkTiling Program.emptySide.blocks 1 = .ok () ∧
    Block.HaveHeads Program.emptySide.blocks ∧
    (∃ D p, derivative Program.emptySide.blocks (#v[1] : Vector ℝ 1) false = .ok ⟨D⟩ ∧
      project Program.emptySide.blocks #v[1] false = .ok p ∧ D.apply #v[1] = p ∧ D.apply p = p) ∧
    ∀ S, derivativeMatrix Program.emptySide.blocks (#v[1] : Vector ℝ 1) false ≠ .ok S := by
  have tiling : Block.checkTiling Program.emptySide.blocks 1 = .ok () := Program.emptySide.tiling
  have heads : Block.HaveHeads Program.emptySide.blocks := by decide
  refine ⟨tiling, heads, exists_derivative_consistent tiling heads (by decide) #v[1] false, ?_⟩
  exact derivativeMatrix_ne_ok_of_empty tiling (List.mem_cons_of_mem _ List.mem_cons_self) rfl rfl
    #v[1] false

end ProductCone

end ConicDerivative
