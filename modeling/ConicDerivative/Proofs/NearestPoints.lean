import ConicDerivative.Proofs.AcceptedSizes
import ConicDerivative.Proofs.ConeProjections

/-!
Projections onto products of cones. Where no rows are in the band around a second-order cone, the
projection is the nearest point of the product, and what it adds to the point is the projection of
the opposite point onto the dual product.
-/

namespace ConicDerivative

open Scalar Matrix Outcomes

variable {n : Nat}

theorem Vec.slice_sub (x y : Vector ℝ n) (s : Span n) : slice (x - y) s = slice x s - slice y s := by
  apply ext
  intro i
  rw [sub_apply, slice_apply, slice_apply, slice_apply, sub_apply]

/-- Where the angle at `p` is not acute, the squares of two sides are at most that of the third. -/
theorem Vec.sq_add_sq_le {x p q : Vector ℝ n} (right : p.get ⬝ᵥ (p - x).get = 0)
    (acute : 0 ≤ q.get ⬝ᵥ (p - x).get) :
    (x - p).get ⬝ᵥ (x - p).get + (p - q).get ⬝ᵥ (p - q).get ≤ (x - q).get ⬝ᵥ (x - q).get := by
  -- Expanded, the two sides differ by twice the products of `p - x` with `q` and `p`.
  simp only [get_sub, dotProduct_sub, sub_dotProduct] at acute right ⊢
  have := dotProduct_comm q.get x.get
  have := dotProduct_comm p.get x.get
  have := dotProduct_comm p.get q.get
  linarith

theorem Vec.norm_sub_lt {x p q : Vector ℝ n} (right : p.get ⬝ᵥ (p - x).get = 0)
    (acute : 0 ≤ q.get ⬝ᵥ (p - x).get) (other : q ≠ p) : norm (x - p) < norm (x - q) := by
  have split := sq_add_sq_le right acute
  have apart : 0 < (p - q).get ⬝ᵥ (p - q).get := by
    refine (Finset.sum_nonneg fun i _ => mul_self_nonneg _).lt_of_ne ?_
    intro zero
    have same := dotProduct_self_eq_zero.1 zero.symm
    rw [get_sub, sub_eq_zero] at same
    exact other (get_injective same.symm)
  rw [norm_eq_sqrt, norm_eq_sqrt]
  exact Real.sqrt_lt_sqrt (Finset.sum_nonneg fun i _ => mul_self_nonneg _) (by linarith)

theorem Kind.eq_of_target_secondOrder {kind : Kind} {dual : Bool}
    (named : kind.target dual = .ok .secondOrder) : kind = .cone .secondOrder := by
  cases kind with
  | cone own => cases own <;> cases dual <;> first | rfl | cases named
  | other | literal | unnamed => cases named

namespace ProductCone

/-- No rows of a second-order block are outside the cone and count as inside. -/
def OutOfBand (blocks : List Block) (x : Vector ℝ n) : Prop :=
  ∀ block ∈ blocks, block.kind = .cone .secondOrder →
    ¬SecondOrder.InBand (Vec.slice x (block.span n))

/-- The point is the difference of orthogonal vectors of the product and of the dual product. -/
structure IsProjection (blocks : List Block) (dual : Bool) (x p : Vector ℝ n) : Prop where
  inside : Holds blocks dual p
  residual : Holds blocks (!dual) (p - x)
  orthogonal : p.get ⬝ᵥ (p - x).get = 0

variable {blocks : List Block} {dual : Bool} {x p q : Vector ℝ n}

namespace IsProjection

theorem opposite (projection : IsProjection blocks dual x p) :
    IsProjection blocks (!dual) (-x) (p - x) := by
  have back : p - x - -x = p := Vec.get_injective (by simp)
  refine ⟨projection.residual, ?_, ?_⟩
  · rw [back, Bool.not_not]
    exact projection.inside
  · rw [back, dotProduct_comm]
    exact projection.orthogonal

theorem norm_lt (tiling : Block.checkTiling blocks n = .ok ())
    (projection : IsProjection blocks dual x p) (inside : Holds blocks dual q) (other : q ≠ p) :
    Vec.norm (x - p) < Vec.norm (x - q) :=
  Vec.norm_sub_lt projection.orthogonal (inside.dot_nonneg tiling projection.residual) other

theorem unique (tiling : Block.checkTiling blocks n = .ok ())
    (first : IsProjection blocks dual x p) (second : IsProjection blocks dual x q) : p = q := by
  by_contra other
  exact lt_asymm (first.norm_lt tiling second.inside (Ne.symm other))
    (second.norm_lt tiling first.inside other)

end IsProjection

section

variable [EigenSolver ℝ] [LawfulEigenSolver]

theorem project_isProjection (tiling : Block.checkTiling blocks n = .ok ())
    (clear : OutOfBand blocks x) (success : project blocks x dual = .ok p) :
    IsProjection blocks dual x p := by
  have parts (block : Block) (listed : block ∈ blocks) : ∃ cone,
      block.kind.target dual = .ok cone ∧
        cone.IsProjection (Vec.slice x (block.span n)) (Vec.slice p (block.span n)) := by
    obtain ⟨cone, named, projected⟩ :=
      Block.project_eq_ok.1 (project_slices tiling success block listed)
    refine ⟨cone, named, Cone.project_isProjection projected ?_⟩
    rintro rfl
    exact clear block listed (Kind.eq_of_target_secondOrder named)
  constructor
  · intro block listed
    obtain ⟨cone, named, part⟩ := parts block listed
    exact ⟨cone, named, part.inside⟩
  · intro block listed
    obtain ⟨cone, named, part⟩ := parts block listed
    refine ⟨cone.dual, Kind.target_not named, ?_⟩
    rw [Vec.slice_sub]
    exact part.residual
  · rw [← Block.dot_slices tiling]
    apply List.sum_eq_zero
    intro product summed
    obtain ⟨block, listed, rfl⟩ := List.mem_map.1 summed
    obtain ⟨cone, _, part⟩ := parts block listed
    rw [Vec.slice_sub]
    exact part.orthogonal

theorem exists_project_opposite (tiling : Block.checkTiling blocks n = .ok ())
    (success : project blocks x dual = .ok p) (y : Vector ℝ n) :
    ∃ q, project blocks y (!dual) = .ok q := by
  rw [exists_project_iff tiling]
  intro block listed
  obtain ⟨cone, named, size⟩ := (exists_project_iff tiling).1 ⟨p, success⟩ block listed
  exact ⟨cone.dual, Kind.target_not named, Cone.accepts_dual.2 size⟩

/--
The projection is the nearest point of the product, or of the dual product: what it adds to the point
lies in the other one and is orthogonal to it. A point is the difference of the projections of itself
and of its opposite. Below `2 ^ 53` rows, where no size is rounded, there always is a projection.
-/
theorem project_nearest (tiling : Block.checkTiling blocks n = .ok ())
    (heads : Block.HaveHeads blocks) (clear : OutOfBand blocks x) (dual : Bool) :
    (n < 2 ^ 53 → ∃ p, project blocks x dual = .ok p) ∧
      ∀ p, project blocks x dual = .ok p →
        IsProjection blocks dual x p ∧
        (∀ q, Holds blocks dual q → 0 ≤ (p - x).get ⬝ᵥ q.get ∧
          (q ≠ p → Vec.norm (x - p) < Vec.norm (x - q))) ∧
        (OutOfBand blocks (-x) →
          ∃ p', project blocks (-x) (!dual) = .ok p' ∧ p - p' = x) := by
  constructor
  · intro small
    exact (exists_project_iff tiling).2 (Block.exists_target tiling heads small dual)
  · intro p success
    have projection := project_isProjection tiling clear success
    refine ⟨projection, ?_, ?_⟩
    · intro q inside
      refine ⟨?_, projection.norm_lt tiling inside⟩
      rw [dotProduct_comm]
      exact inside.dot_nonneg tiling projection.residual
    · intro clear'
      obtain ⟨p', success'⟩ := exists_project_opposite tiling success (-x)
      have same := (project_isProjection tiling clear' success').unique tiling projection.opposite
      refine ⟨p', success', Vec.get_injective ?_⟩
      rw [same]
      simp

end

def oneOfEach : List Block :=
  [⟨.cone .zero, 1, 0, 1⟩, ⟨.cone .free, 1, 1, 2⟩, ⟨.cone .nonnegative, 1, 2, 3⟩,
    ⟨.cone .secondOrder, 2, 3, 5⟩, ⟨.cone .semidefinite, 1, 5, 6⟩]

theorem tiling_oneOfEach : Block.checkTiling oneOfEach 6 = .ok () := by
  have triangular : Kind.rowCount (.cone .semidefinite) 1 = .ok 1 :=
    rowCount_triangle (d := 1) (by decide)
  refine Block.checkTiling_ok.2 ?_
  simp only [oneOfEach, Block.checkFrom_cons_ok]
  exact ⟨trivial, by decide, rfl, trivial, by decide, rfl, trivial, by decide, rfl, trivial,
    by decide, rfl, trivial, by decide, triangular, rfl⟩

theorem eq_of_kind_oneOfEach : ∀ block ∈ oneOfEach, ∀ other ∈ oneOfEach,
    block.kind = other.kind → block = other := by decide

theorem outOfBand_oneOfEach {x : Vector ℝ 6} (first : x 3 = 0) (second : x 4 * x 4 = 1) :
    OutOfBand oneOfEach x := by
  intro block listed kind
  obtain rfl := eq_of_kind_oneOfEach block listed ⟨.cone .secondOrder, 2, 3, 5⟩ (by decide) kind
  let rows : Vector ℝ (1 + 1) := Vec.slice x (Block.span ⟨.cone .secondOrder, 2, 3, 5⟩ 6)
  have head : Vec.head rows = 0 := (Vec.slice_apply ..).trans first
  have norm : Vec.norm (Vec.tail rows) = 1 := by
    have entry : Vec.tail rows 0 = x 4 := (Vec.tail_apply ..).trans (Vec.slice_apply ..)
    rw [Vec.norm_eq_sqrt, dotProduct, Fin.sum_univ_one, entry, second, Real.sqrt_one]
  intro band
  have near := (SecondOrder.inBand_iff (x := rows)).1 band
  rw [head, norm] at near
  norm_num at near

theorem project_nearest_of_oneOfEach : ∃ p p',
    project oneOfEach #v[1, -1, -1, 0, 1, -1] false = .ok p ∧
      IsProjection oneOfEach false #v[1, -1, -1, 0, 1, -1] p ∧
      project oneOfEach (-#v[1, -1, -1, 0, 1, -1]) true = .ok p' ∧
      p - p' = (#v[1, -1, -1, 0, 1, -1] : Vector ℝ 6) := by
  have clear : OutOfBand oneOfEach (#v[1, -1, -1, 0, 1, -1] : Vector ℝ 6) :=
    outOfBand_oneOfEach rfl (one_mul 1)
  have clear' : OutOfBand oneOfEach (-#v[1, -1, -1, 0, 1, -1] : Vector ℝ 6) :=
    outOfBand_oneOfEach ((Vec.neg_apply ..).trans neg_zero) (by
      rw [Vec.neg_apply, neg_mul_neg]
      exact one_mul 1)
  obtain ⟨exists_p, nearest⟩ := project_nearest tiling_oneOfEach (by decide) clear false
  obtain ⟨p, success⟩ := exists_p (by decide)
  obtain ⟨projection, _, opposite⟩ := nearest p success
  obtain ⟨p', success', split⟩ := opposite clear'
  exact ⟨p, p', success, projection, success', split⟩

end ProductCone

end ConicDerivative
