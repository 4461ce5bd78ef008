import ConicDerivative.Proofs.PolyhedralExactness

/-!
Where an optimal point is the only one. Two optimal points are complementary to each other. At a
strict point over cones of rows this makes their difference a vector of the kernel of the Jacobian,
so a regular point has no other beside it. It stays strict, and the derivative stays the same, for
every small move, so the moved points are unique as well.
-/

namespace ConicDerivative

open Scalar Matrix

open scoped Topology

variable {m n : Nat}

theorem cross_gap_eq_zero (A : Matrix (Fin m) (Fin n) ℝ) {x x' c : Fin n → ℝ}
    {y y' s s' b : Fin m → ℝ} (primal : A *ᵥ x + s = b) (primal' : A *ᵥ x' + s' = b)
    (dual : Aᵀ *ᵥ y + c = 0) (dual' : Aᵀ *ᵥ y' + c = 0) (gap : s ⬝ᵥ y = 0) (gap' : s' ⬝ᵥ y' = 0) :
    s ⬝ᵥ y' + s' ⬝ᵥ y = 0 := by
  have slacks : s - s' = A *ᵥ (x' - x) := by
    rw [mulVec_sub]
    linear_combination primal - primal'
  have prices : Aᵀ *ᵥ (y - y') = 0 := by
    rw [mulVec_sub]
    linear_combination dual - dual'
  have orthogonal : (s - s') ⬝ᵥ (y - y') = 0 := by
    rw [slacks, dotProduct_comm, dotProduct_mulVec, ← mulVec_transpose, prices, zero_dotProduct]
  rw [sub_dotProduct, dotProduct_sub, dotProduct_sub, gap, gap'] at orthogonal
  linear_combination -orthogonal

namespace Cone

variable {cone : Cone} {s s' y y' e v : ℝ}

theorem Complementary.image_eq_sub (row : cone.Complementary s y) (row' : cone.Complementary s' y')
    (polyhedral : cone.IsPolyhedral) (strict : cone = nonnegative → y ≠ s) (cross : s * y' = 0)
    (cross' : s' * y = 0) (image : cone.dual.Keeps (y - s) ∧ e = y' - s' - (y - s) ∨
      ¬cone.dual.Keeps (y - s) ∧ e = 0) : e = y' - y := by
  cases polyhedral with
  | zero =>
    obtain ⟨_, rfl⟩ := image.resolve_right fun dropped => dropped.1 keeps_free
    rw [allows_zero.1 row.slack, allows_zero.1 row'.slack, sub_zero, sub_zero]
  | free =>
    obtain ⟨_, rfl⟩ := image.resolve_left fun kept => not_keeps_zero kept.1
    rw [allows_zero.1 row.price, allows_zero.1 row'.price, sub_zero]
  | nonnegative =>
    have slack := allows_nonnegative.1 row.slack
    have price := allows_nonnegative.1 row.price
    rw [Cone.dual, keeps_nonnegative] at image
    rcases image with ⟨kept, rfl⟩ | ⟨dropped, rfl⟩
    · have positive : 0 < y := by linarith
      rw [(mul_eq_zero.1 row.product).resolve_right positive.ne',
        (mul_eq_zero.1 cross').resolve_right positive.ne', sub_zero, sub_zero]
    · have positive : 0 < s := lt_of_le_of_ne slack fun tight => strict rfl (by linarith)
      rw [(mul_eq_zero.1 row.product).resolve_left positive.ne',
        (mul_eq_zero.1 cross).resolve_left positive.ne', sub_zero]

end Cone

/-- The map keeps the rows that the derivative of the projection at `v` keeps, and no others. -/
def ProductCone.KeepsRows (blocks : List Block) (v : Vector ℝ n) (D : Operator ℝ n n) : Prop :=
  ∀ w, ∀ block ∈ blocks, ∀ cone, block.kind = .cone cone → ∀ i, (block.span n).Contains i →
    cone.dual.Keeps (v i) ∧ D.apply w i = w i ∨ ¬cone.dual.Keeps (v i) ∧ D.apply w i = 0

theorem ProductCone.KeepsRows.apply_null {blocks : List Block} {v w : Vector ℝ n}
    {D : Operator ℝ n n} (keeps : KeepsRows blocks v D)
    (tiling : Block.checkTiling blocks n = .ok ())
    (polyhedral : ∀ block ∈ blocks, block.IsPolyhedral) (null : w.get = 0) :
    (D.apply w).get = 0 := by
  funext i
  obtain ⟨block, listed, contained⟩ := Block.exists_span_contains tiling i
  obtain ⟨cone, kind, _⟩ := polyhedral block listed
  rcases keeps w block listed cone kind i contained with ⟨_, kept⟩ | ⟨_, dropped⟩
  · exact kept.trans (congrFun null i)
  · exact dropped

namespace Program

variable {program : Program ℝ} {point point' : Point ℝ program.rows program.cols}

theorem IsOptimal.cross_rows (optimal : program.IsOptimal point)
    (optimal' : program.IsOptimal point')
    (polyhedral : ∀ block ∈ program.blocks, block.IsPolyhedral) (i : Fin program.rows) :
    point.s i * point'.y i = 0 ∧ point'.s i * point.y i = 0 := by
  obtain ⟨_, _, rows⟩ := (isOptimal_iff_rows polyhedral).1 optimal
  obtain ⟨_, _, rows'⟩ := (isOptimal_iff_rows polyhedral).1 optimal'
  have nonneg (i : Fin program.rows) :
      0 ≤ point.s i * point'.y i ∧ 0 ≤ point'.s i * point.y i := by
    obtain ⟨block, listed, contained⟩ := Block.exists_span_contains program.tiling i
    obtain ⟨cone, kind, rowwise⟩ := polyhedral block listed
    have row := rows block listed cone kind i contained
    have row' := rows' block listed cone kind i contained
    exact ⟨rowwise.mul_nonneg row.slack row'.price, rowwise.mul_nonneg row'.slack row.price⟩
  have total : ∑ i, (point.s i * point'.y i + point'.s i * point.y i) = 0 := by
    rw [Finset.sum_add_distrib]
    exact cross_gap_eq_zero _ optimal.primal optimal'.primal optimal.dual optimal'.dual
      optimal.complementary optimal'.complementary
  have row := (Finset.sum_eq_zero_iff_of_nonneg fun i _ =>
    add_nonneg (nonneg i).1 (nonneg i).2).1 total i (Finset.mem_univ i)
  exact (add_eq_zero_iff_of_nonneg (nonneg i).1 (nonneg i).2).1 row

section

variable {D : Operator ℝ program.rows program.rows}

theorem IsOptimal.derivative_sub (optimal : program.IsOptimal point)
    (optimal' : program.IsOptimal point')
    (polyhedral : ∀ block ∈ program.blocks, block.IsPolyhedral) (strict : program.IsStrict point)
    (keeps : ProductCone.KeepsRows program.blocks (point.y - point.s) D) :
    D.apply (point'.y - point'.s - (point.y - point.s)) = point'.y - point.y := by
  obtain ⟨_, _, rows⟩ := (isOptimal_iff_rows polyhedral).1 optimal
  obtain ⟨_, _, rows'⟩ := (isOptimal_iff_rows polyhedral).1 optimal'
  apply Vec.ext
  intro i
  obtain ⟨block, listed, contained⟩ := Block.exists_span_contains program.tiling i
  obtain ⟨cone, kind, rowwise⟩ := polyhedral block listed
  obtain ⟨cross, cross'⟩ := optimal.cross_rows optimal' polyhedral i
  have image := keeps (point'.y - point'.s - (point.y - point.s)) block listed cone kind i contained
  rw [Vec.sub_apply _ (point.y - point.s), Vec.sub_apply, Vec.sub_apply] at image
  rw [Vec.sub_apply]
  exact (rows block listed cone kind i contained).image_eq_sub
    (rows' block listed cone kind i contained) rowwise
    (fun same => strict block listed (same ▸ kind) i contained) cross cross' image

/--
A strict point over cones of rows is the only optimal one, if the Jacobian put together from a map
that keeps the rows of the derivative has no kernel.
-/
theorem IsOptimal.unique (optimal : program.IsOptimal point) (optimal' : program.IsOptimal point')
    (polyhedral : ∀ block ∈ program.blocks, block.IsPolyhedral) (strict : program.IsStrict point)
    (keeps : ProductCone.KeepsRows program.blocks (point.y - point.s) D)
    (injective : ∀ z, ((Jacobian.ofOperator program.A D).apply z).get = 0 → z.get = 0) :
    point' = point := by
  have image := optimal.derivative_sub optimal' polyhedral strict keeps
  have null := injective (point'.x - point.x ++ (point'.y - point'.s - (point.y - point.s))) <| by
    rw [Vec.get_eq_zero_iff]
    simp only [Jacobian.ofOperator, Vec.left_append, Vec.right_append, image, Vec.get_add,
      Vec.get_sub, Sparse.get_mulVec, Sparse.get_transposeMulVec, mulVec_sub]
    constructor
    · linear_combination optimal'.dual - optimal.dual
    · linear_combination optimal'.primal - optimal.primal
  rw [Vec.get_eq_zero_iff, Vec.left_append, Vec.right_append, Vec.get_sub, sub_eq_zero] at null
  obtain ⟨still, none⟩ := null
  have prices : (point'.y - point.y).get = 0 := by
    rw [← image]
    exact keeps.apply_null program.tiling polyhedral none
  rw [Vec.get_sub] at prices
  have slacks : point'.s.get = point.s.get := by
    rw [Vec.get_sub, Vec.get_sub, Vec.get_sub] at none
    linear_combination prices - none
  obtain ⟨x, y, s⟩ := point
  obtain ⟨x', y', s'⟩ := point'
  rw [Point.mk.injEq]
  exact ⟨Vec.get_injective still, Vec.get_injective (sub_eq_zero.1 prices),
    Vec.get_injective slacks⟩

end

end Program

end ConicDerivative
