import ConicDerivative.Proofs.OptimalPoints
import ConicDerivative.Proofs.ProjectedPoints

/-!
What the residuals of a point measure. They all vanish just at the optimal points, where rows of a
second-order cone may also lie in the band that counts as inside. The last two are distances from the
cone and from its dual, in which rows in the band do not count.
-/

namespace ConicDerivative

open Scalar Matrix Outcomes

namespace Program

section

variable {α : Type} [Scalar α] [EigenSolver α] {program : Program α}
  {point : Point α program.rows program.cols} {r : Residuals α}

theorem residuals_ok : program.residuals point = .ok r ↔ ∃ slack price,
    ProductCone.project program.blocks point.s false = .ok slack ∧
      ProductCone.project program.blocks point.y true = .ok price ∧
        r = ⟨Vec.norm (program.A.mulVec point.x + point.s - program.b),
          Vec.norm (program.A.transposeMulVec point.y + program.c),
          Scalar.abs (Vec.dot point.s point.y), Vec.norm (point.s - slack),
          Vec.norm (point.y - price)⟩ := by
  rw [residuals, bind_eq_ok]
  constructor
  · rintro ⟨slack, first, rest⟩
    obtain ⟨price, second, value⟩ := bind_eq_ok.1 rest
    exact ⟨slack, price, first, second, (pure_eq_ok.1 value).symm⟩
  · rintro ⟨slack, price, first, second, rfl⟩
    exact ⟨slack, first, bind_eq_ok.2 ⟨price, second, rfl⟩⟩

theorem exists_residuals_iff : (∃ r, program.residuals point = .ok r) ↔
    (∃ slack, ProductCone.project program.blocks point.s false = .ok slack) ∧
      ∃ price, ProductCone.project program.blocks point.y true = .ok price := by
  simp only [residuals_ok]
  constructor
  · rintro ⟨_, slack, price, first, second, _⟩
    exact ⟨⟨slack, first⟩, price, second⟩
  · rintro ⟨⟨slack, first⟩, price, second⟩
    exact ⟨_, slack, price, first, second, rfl⟩

end

/-- A primal and a dual solution without a gap, some second-order rows of which may be in the band. -/
structure IsOptimalWithBand (program : Program ℝ) (point : Point ℝ program.rows program.cols) :
    Prop where
  primal : program.A.matrix *ᵥ point.x.get + point.s.get = program.b.get
  dual : program.A.matrixᵀ *ᵥ point.y.get + program.c.get = 0
  slack_mem : ProductCone.Admits program.blocks false point.s point.s
  price_mem : ProductCone.Admits program.blocks true point.y point.y
  complementary : point.s.get ⬝ᵥ point.y.get = 0

variable {program : Program ℝ} {point : Point ℝ program.rows program.cols} {r : Residuals ℝ}

theorem residuals_eq_zero_iff {slack price : Vector ℝ program.rows} :
    (⟨Vec.norm (program.A.mulVec point.x + point.s - program.b),
        Vec.norm (program.A.transposeMulVec point.y + program.c),
        Scalar.abs (Vec.dot point.s point.y), Vec.norm (point.s - slack),
        Vec.norm (point.y - price)⟩ : Residuals ℝ) = ⟨0, 0, 0, 0, 0⟩ ↔
      program.A.matrix *ᵥ point.x.get + point.s.get = program.b.get ∧
      program.A.matrixᵀ *ᵥ point.y.get + program.c.get = 0 ∧
      point.s.get ⬝ᵥ point.y.get = 0 ∧ slack = point.s ∧ price = point.y := by
  have primal : Vec.norm (program.A.mulVec point.x + point.s - program.b) = 0 ↔
      program.A.matrix *ᵥ point.x.get + point.s.get = program.b.get := by
    rw [Vec.norm_sub_eq_zero_iff, Vec.get_add, Sparse.get_mulVec]
  have dual : Vec.norm (program.A.transposeMulVec point.y + program.c) = 0 ↔
      program.A.matrixᵀ *ᵥ point.y.get + program.c.get = 0 := by
    have opposite : program.A.transposeMulVec point.y + program.c =
        program.A.transposeMulVec point.y - -program.c := Vec.get_injective (by simp)
    rw [opposite, Vec.norm_sub_eq_zero_iff, Sparse.get_transposeMulVec, Vec.get_neg,
      eq_neg_iff_add_eq_zero]
  have gap : Scalar.abs (Vec.dot point.s point.y) = 0 ↔ point.s.get ⬝ᵥ point.y.get = 0 := by
    rw [abs_real, abs_eq_zero, Vec.dot_eq_dotProduct]
  have fixed (x p : Vector ℝ program.rows) : Vec.norm (x - p) = 0 ↔ p = x := by
    rw [Vec.norm_sub_eq_zero_iff, eq_comm]
    exact Vec.get_injective.eq_iff
  rw [Residuals.mk.injEq, primal, dual, gap, fixed, fixed]

section

variable [EigenSolver ℝ] [LawfulEigenSolver]

theorem exists_residuals (point : Point ℝ program.rows program.cols)
    (heads : Block.HaveHeads program.blocks) (small : program.rows < 2 ^ 53) :
    ∃ r, program.residuals point = .ok r :=
  exists_residuals_iff.2
    ⟨(ProductCone.exists_project_iff program.tiling).2
        (Block.exists_target program.tiling heads small false),
      (ProductCone.exists_project_iff program.tiling).2
        (Block.exists_target program.tiling heads small true)⟩

theorem residuals_zero_iff (success : program.residuals point = .ok r) :
    r = ⟨0, 0, 0, 0, 0⟩ ↔ program.IsOptimalWithBand point := by
  obtain ⟨slack, price, first, second, rfl⟩ := residuals_ok.1 success
  rw [residuals_eq_zero_iff, ProductCone.project_eq_self_iff program.tiling first,
    ProductCone.project_eq_self_iff program.tiling second]
  constructor
  · rintro ⟨primal, dual, complementary, slack_mem, price_mem⟩
    exact ⟨primal, dual, slack_mem, price_mem, complementary⟩
  · intro optimal
    exact ⟨optimal.primal, optimal.dual, optimal.complementary, optimal.slack_mem,
      optimal.price_mem⟩

/--
All five residuals are zero just at the optimal points, among which are those whose second-order rows
are in the band. The last two are the distances from the cone and from its dual, except that rows in
the band are at no distance; where there are none, they are the distances. Below `2 ^ 53` rows, where
no size is rounded, there always are residuals.
-/
theorem residuals_zero_iff_optimal (program : Program ℝ) (heads : Block.HaveHeads program.blocks)
    (point : Point ℝ program.rows program.cols) :
    (program.rows < 2 ^ 53 → ∃ r, program.residuals point = .ok r) ∧
      ∀ r, program.residuals point = .ok r →
        (r = ⟨0, 0, 0, 0, 0⟩ ↔ program.IsOptimalWithBand point) ∧
        IsLeast (ProductCone.distances (ProductCone.Admits program.blocks false point.s) point.s)
          r.slackCone ∧
        IsLeast (ProductCone.distances (ProductCone.Admits program.blocks true point.y) point.y)
          r.dualCone ∧
        (ProductCone.OutOfBand program.blocks point.s →
          IsLeast (ProductCone.distances (ProductCone.Holds program.blocks false) point.s)
            r.slackCone) ∧
        (ProductCone.OutOfBand program.blocks point.y →
          IsLeast (ProductCone.distances (ProductCone.Holds program.blocks true) point.y)
            r.dualCone) := by
  refine ⟨exists_residuals point heads, ?_⟩
  intro r success
  obtain ⟨slack, price, first, second, rfl⟩ := residuals_ok.1 success
  have slackLeast := ProductCone.project_isLeast program.tiling first
  have priceLeast := ProductCone.project_isLeast program.tiling second
  have members {dual : Bool} {x : Vector ℝ program.rows}
      (clear : ProductCone.OutOfBand program.blocks x) :
      ProductCone.Admits program.blocks dual x = ProductCone.Holds program.blocks dual :=
    funext fun _ => propext (ProductCone.admits_iff_holds clear)
  refine ⟨residuals_zero_iff success, slackLeast, priceLeast, ?_, ?_⟩
  · intro clear
    rwa [members clear] at slackLeast
  · intro clear
    rwa [members clear] at priceLeast

end

noncomputable def nearPair : Vector ℝ (1 + 1) := Vec.cons 1 (.replicate 1 1.000005)

theorem nearPair_norm : Vec.norm (Vec.tail nearPair) = 1.000005 := by
  rw [nearPair, Vec.tail_cons, Vec.norm_eq_sqrt, Vec.get_replicate, dotProduct, Fin.sum_univ_one]
  exact Real.sqrt_mul_self (by norm_num)

theorem nearPair_head : Vec.head nearPair = 1 := Vec.head_cons ..

theorem nearPair_inBand : SecondOrder.InBand nearPair := by
  rw [SecondOrder.inBand_iff, nearPair_head, nearPair_norm]
  norm_num [abs_of_pos]

noncomputable abbrev nearBounds : Program ℝ where
  A := leastBound.A
  b := nearPair
  c := .replicate 1 0
  blocks := [⟨.cone .secondOrder, 2, 0, 2⟩]
  tiling := rfl

noncomputable def nearBoundsPoint : Point ℝ nearBounds.rows nearBounds.cols :=
  ⟨.replicate 1 0, .replicate 2 0, nearPair⟩

theorem nearBounds_heads : Block.HaveHeads nearBounds.blocks := by
  intro block listed _
  rw [List.mem_singleton.1 listed]
  decide

theorem nearBounds_slice (x : Vector ℝ 2) :
    Vec.slice x (Block.span ⟨.cone .secondOrder, 2, 0, 2⟩ 2) = x := by
  apply Vec.ext
  intro i
  rw [Vec.slice_apply]
  fin_cases i <;> rfl

theorem nearBounds_optimal : nearBounds.IsOptimalWithBand nearBoundsPoint := by
  constructor
  · rw [nearBoundsPoint, Vec.get_zeros, mulVec_zero, zero_add]
  · rw [nearBoundsPoint, Vec.get_zeros, Vec.get_zeros, mulVec_zero, zero_add]
  · intro block listed
    rw [List.mem_singleton.1 listed]
    refine ⟨.secondOrder, rfl, .inr ⟨rfl, ?_, rfl⟩⟩
    have slice := nearBounds_slice nearPair
    exact slice.symm ▸ nearPair_inBand
  · intro block listed
    rw [List.mem_singleton.1 listed]
    refine ⟨.secondOrder, rfl, .inl ?_⟩
    have slice := nearBounds_slice (.replicate 2 0)
    have rows : Cone.secondOrder.rows 2 = 2 := rfl
    exact slice.symm ▸ Cone.holds_zeros rows
  · rw [nearBoundsPoint, Vec.get_zeros, dotProduct_zero]

theorem residuals_zero_of_nearBounds : ∃ r, nearBounds.residuals nearBoundsPoint = .ok r ∧
    (r = ⟨0, 0, 0, 0, 0⟩ ↔ nearBounds.IsOptimalWithBand nearBoundsPoint) := by
  obtain ⟨exists_r, laws⟩ := residuals_zero_iff_optimal nearBounds nearBounds_heads nearBoundsPoint
  obtain ⟨r, success⟩ := exists_r (by decide)
  exact ⟨r, success, (laws r success).1⟩

/-- All residuals are zero at a point whose slacks are not in the cone. -/
theorem residuals_zero_outside : Block.HaveHeads nearBounds.blocks ∧
    nearBounds.residuals nearBoundsPoint = .ok ⟨0, 0, 0, 0, 0⟩ ∧
      ¬ProductCone.Holds nearBounds.blocks false nearBoundsPoint.s := by
  obtain ⟨r, success⟩ := exists_residuals nearBoundsPoint nearBounds_heads (by decide)
  refine ⟨nearBounds_heads, ?_, ?_⟩
  · rw [success, (residuals_zero_iff success).2 nearBounds_optimal]
  · intro inside
    obtain ⟨cone, named, part⟩ := inside _ (List.mem_singleton_self _)
    cases named
    have slice := nearBounds_slice nearPair
    have below := Cone.holds_secondOrder.1 (show Cone.secondOrder.Holds nearPair from slice ▸ part)
    rw [nearPair_head, nearPair_norm] at below
    norm_num at below

end Program

end ConicDerivative
