import ConicDerivative.Proofs.NearestPoints

/-!
What the projection onto a product of cones does at every point, those in the band around a
second-order cone included. Rows in the band count as a vector of the cone and are left alone; all
other rows go to the nearest vector. Projecting a second time changes nothing, and what a projection
adds to a point is left alone by the projection onto the dual product.
-/

namespace ConicDerivative

open Scalar Matrix Outcomes

variable {k n : Nat}

namespace Cone

/-- A vector of the cone, or the point itself where it counts as one. -/
def Admits (cone : Cone) (x q : Vector ℝ k) : Prop :=
  cone.Holds q ∨ cone = secondOrder ∧ SecondOrder.InBand x ∧ q = x

variable {cone : Cone} {x p q : Vector ℝ k}

theorem Admits.holds (admitted : cone.Admits x q)
    (clear : cone = secondOrder → ¬SecondOrder.InBand x) : cone.Holds q := by
  rcases admitted with inside | ⟨second, band, _⟩
  · exact inside
  · exact absurd band (clear second)

theorem Admits.self (admitted : cone.Admits x q) : cone.Admits q q := by
  rcases admitted with inside | ⟨second, band, rfl⟩
  · exact .inl inside
  · exact .inr ⟨second, band, rfl⟩

variable [EigenSolver ℝ]

theorem project_of_inBand (band : SecondOrder.InBand x) (success : secondOrder.project x = .ok p) :
    p = x := by
  cases k with
  | zero => exact band.elim
  | succ k =>
    cases success
    apply SecondOrder.project_of_inside
    unfold SecondOrder.region
    exact if_pos (.inr band.2)

variable [LawfulEigenSolver]

theorem isProjection_or_inBand (success : cone.project x = .ok p) :
    cone.IsProjection x p ∨ cone = secondOrder ∧ SecondOrder.InBand x ∧ p = x := by
  by_cases band : cone = secondOrder ∧ SecondOrder.InBand x
  · obtain ⟨rfl, band⟩ := band
    exact .inr ⟨rfl, band, project_of_inBand band success⟩
  · exact .inl (project_isProjection success fun second inside => band ⟨second, inside⟩)

theorem project_admits (success : cone.project x = .ok p) : cone.Admits x p := by
  rcases isProjection_or_inBand success with projection | fixed
  · exact .inl projection.inside
  · exact .inr fixed

/-- What the projection adds is a vector of the dual cone that is orthogonal to the projection. -/
theorem project_residual (success : cone.project x = .ok p) :
    cone.dual.Holds (p - x) ∧ p.get ⬝ᵥ (p - x).get = 0 := by
  rcases isProjection_or_inBand success with projection | ⟨rfl, _, rfl⟩
  · exact ⟨projection.residual, projection.orthogonal⟩
  · have difference : p - p = Vector.replicate k 0 := Vec.get_injective (by simp)
    have rows : secondOrder.dual.rows k = k := rfl
    rw [difference, Vec.get_zeros, dotProduct_zero]
    exact ⟨holds_zeros rows, rfl⟩

theorem sq_add_sq_le (success : cone.project x = .ok p) (admitted : cone.Admits x q) :
    (x - p).get ⬝ᵥ (x - p).get + (p - q).get ⬝ᵥ (p - q).get ≤ (x - q).get ⬝ᵥ (x - q).get := by
  by_cases band : cone = secondOrder ∧ SecondOrder.InBand x
  · obtain ⟨rfl, band⟩ := band
    obtain rfl := project_of_inBand band success
    rw [Vec.get_sub, sub_self, zero_dotProduct, zero_add]
  · have inside := admitted.holds fun second inside => band ⟨second, inside⟩
    obtain ⟨residual, right⟩ := project_residual success
    exact Vec.sq_add_sq_le right (inside.dot_nonneg residual)

end Cone

namespace ProductCone

def Admits (blocks : List Block) (dual : Bool) (x q : Vector ℝ n) : Prop :=
  ∀ block ∈ blocks, ∃ cone, block.kind.target dual = .ok cone ∧
    cone.Admits (Vec.slice x (block.span n)) (Vec.slice q (block.span n))

def distances (P : Vector ℝ n → Prop) (x : Vector ℝ n) : Set ℝ :=
  {distance | ∃ q, P q ∧ Vec.norm (x - q) = distance}

variable {blocks : List Block} {dual : Bool} {x p q : Vector ℝ n}

theorem Admits.self (admitted : Admits blocks dual x q) : Admits blocks dual q q := by
  intro block listed
  obtain ⟨cone, named, part⟩ := admitted block listed
  exact ⟨cone, named, part.self⟩

theorem Holds.admits (inside : Holds blocks dual q) : Admits blocks dual x q := by
  intro block listed
  obtain ⟨cone, named, part⟩ := inside block listed
  exact ⟨cone, named, .inl part⟩

theorem admits_iff_holds (clear : OutOfBand blocks x) :
    Admits blocks dual x q ↔ Holds blocks dual q := by
  refine ⟨?_, Holds.admits⟩
  intro admitted block listed
  obtain ⟨cone, named, part⟩ := admitted block listed
  refine ⟨cone, named, part.holds ?_⟩
  rintro rfl
  exact clear block listed (Kind.eq_of_target_secondOrder named)

section

variable [EigenSolver ℝ] (tiling : Block.checkTiling blocks n = .ok ())

include tiling

theorem project_parts (success : project blocks x dual = .ok p) :
    ∀ block ∈ blocks, ∃ cone, block.kind.target dual = .ok cone ∧
      cone.project (Vec.slice x (block.span n)) = .ok (Vec.slice p (block.span n)) :=
  fun block listed => Block.project_eq_ok.1 (project_slices tiling success block listed)

variable [LawfulEigenSolver]

theorem project_admits (success : project blocks x dual = .ok p) : Admits blocks dual x p := by
  intro block listed
  obtain ⟨cone, named, part⟩ := project_parts tiling success block listed
  exact ⟨cone, named, Cone.project_admits part⟩

theorem project_residual (success : project blocks x dual = .ok p) :
    Holds blocks (!dual) (p - x) ∧ p.get ⬝ᵥ (p - x).get = 0 := by
  have parts := project_parts tiling success
  constructor
  · intro block listed
    obtain ⟨cone, named, part⟩ := parts block listed
    refine ⟨cone.dual, Kind.target_not named, ?_⟩
    rw [Vec.slice_sub]
    exact (Cone.project_residual part).1
  · rw [← Block.dot_slices tiling]
    apply List.sum_eq_zero
    intro product summed
    obtain ⟨block, listed, rfl⟩ := List.mem_map.1 summed
    obtain ⟨cone, _, part⟩ := parts block listed
    rw [Vec.slice_sub]
    exact (Cone.project_residual part).2

theorem sq_add_sq_le (success : project blocks x dual = .ok p) (admitted : Admits blocks dual x q) :
    (x - p).get ⬝ᵥ (x - p).get + (p - q).get ⬝ᵥ (p - q).get ≤ (x - q).get ⬝ᵥ (x - q).get := by
  rw [← Block.dot_slices tiling, ← Block.dot_slices tiling (p - q),
    ← Block.dot_slices tiling (x - q), ← List.sum_map_add]
  apply List.sum_le_sum
  intro block listed
  obtain ⟨cone, named, part⟩ := project_parts tiling success block listed
  obtain ⟨cone', named', inside⟩ := admitted block listed
  cases named.symm.trans named'
  simp only [Vec.slice_sub]
  exact Cone.sq_add_sq_le part inside

/-- The projection is at the least distance among all that is admitted. -/
theorem project_isLeast (success : project blocks x dual = .ok p) :
    IsLeast (distances (Admits blocks dual x) x) (Vec.norm (x - p)) := by
  refine ⟨⟨p, project_admits tiling success, rfl⟩, ?_⟩
  rintro _ ⟨q, admitted, rfl⟩
  have nearer := sq_add_sq_le tiling success admitted
  have nonneg : 0 ≤ (p - q).get ⬝ᵥ (p - q).get := Finset.sum_nonneg fun i _ => mul_self_nonneg _
  rw [Vec.norm_eq_sqrt, Vec.norm_eq_sqrt]
  exact Real.sqrt_le_sqrt (by linarith)

theorem project_eq_self_iff (success : project blocks x dual = .ok p) :
    p = x ↔ Admits blocks dual x x := by
  constructor
  · rintro rfl
    exact project_admits tiling success
  · intro admitted
    have nearer := sq_add_sq_le tiling success admitted
    have null : (p - x).get ⬝ᵥ (p - x).get = 0 := by
      refine le_antisymm ?_ (Finset.sum_nonneg fun i _ => mul_self_nonneg _)
      have nonneg : 0 ≤ (x - p).get ⬝ᵥ (x - p).get := Finset.sum_nonneg fun i _ => mul_self_nonneg _
      rw [Vec.get_sub x x, sub_self, zero_dotProduct] at nearer
      linarith
    have same := dotProduct_self_eq_zero.1 null
    rw [Vec.get_sub, sub_eq_zero] at same
    exact Vec.get_injective same

theorem project_self (success : project blocks x dual = .ok p) (admitted : Admits blocks dual q q) :
    project blocks q dual = .ok q := by
  obtain ⟨q', success'⟩ := (exists_project_iff tiling).2 ((exists_project_iff tiling).1 ⟨p, success⟩)
  rw [(project_eq_self_iff tiling success').2 admitted] at success'
  exact success'

theorem project_split (success : project blocks x dual = .ok p) :
    project blocks p dual = .ok p ∧ project blocks (p - x) (!dual) = .ok (p - x) ∧
      p.get ⬝ᵥ (p - x).get = 0 := by
  obtain ⟨residual, right⟩ := project_residual tiling success
  obtain ⟨q, opposite⟩ := exists_project_opposite tiling success x
  exact ⟨project_self tiling success (project_admits tiling success).self,
    project_self tiling opposite residual.admits, right⟩

end

end ProductCone

end ConicDerivative
