import ConicDerivative.Proofs.OptimalPoints
import ConicDerivative.Proofs.ProductDerivatives

/-!
Rows of cones that constrain each row by itself. The derivative of the projection keeps a row or
drops it. Where the slack and the price of an inequality are not both zero, it keeps the row just if
the price is the one that is not, and the two go together still after a small move along it.
-/

namespace ConicDerivative

open Scalar Matrix

open scoped Topology

variable {k n : Nat}

namespace Cone

def Keeps (cone : Cone) (a : ℝ) : Prop := cone = free ∨ cone = nonnegative ∧ 0 < a

variable {cone : Cone} {a s y dv dy : ℝ}

theorem not_keeps_zero : ¬zero.Keeps a := by simp [Keeps]

theorem keeps_free : free.Keeps a := .inl rfl

theorem keeps_nonnegative : nonnegative.Keeps a ↔ 0 < a := by simp [Keeps]

theorem mulVec_mask_apply (keep : Vector Bool k) (w : Vector ℝ k) (i : Fin k) :
    (mask keep).mulVec w i = if keep i then w i else 0 := by
  have masked : (mask keep).mulVec w = Vector.ofFn fun i => if keep i then w i else 0 :=
    mulVec_mask fun i => Vec.ofFn_apply ..
  rw [masked, Vec.ofFn_apply]

theorem eventually_pos {a : ℝ} (positive : 0 < a) (da : ℝ) :
    ∀ᶠ τ in 𝓝 (0 : ℝ), 0 < a + τ * da := by
  have line : Filter.Tendsto (fun τ => a + τ * da) (𝓝 0) (𝓝 (a + 0 * da)) :=
    (continuous_const.add (continuous_id.mul continuous_const)).tendsto 0
  rw [zero_mul, add_zero] at line
  exact line.eventually_const_lt positive

theorem eventually_allows_of_pos {a : ℝ} (positive : 0 < a) (da : ℝ) :
    ∀ᶠ τ in 𝓝 (0 : ℝ), nonnegative.Allows (a + τ * da) :=
  (eventually_pos positive da).mono fun _ above => allows_nonnegative.2 above.le

/-- A row that is not at the border of both cones stays complementary along the derivative. -/
theorem Complementary.eventually (row : cone.Complementary s y) (polyhedral : cone.IsPolyhedral)
    (strict : cone = nonnegative → y ≠ s)
    (image : cone.dual.Keeps (y - s) ∧ dy = dv ∨ ¬cone.dual.Keeps (y - s) ∧ dy = 0) :
    ∀ᶠ τ in 𝓝 (0 : ℝ), cone.Complementary (s + τ * (dy - dv)) (y + τ * dy) := by
  obtain ⟨slack, price, product⟩ := row
  cases polyhedral with
  | zero =>
    obtain ⟨_, rfl⟩ := image.resolve_right fun dropped => dropped.1 keeps_free
    filter_upwards with τ
    rw [allows_zero.1 slack, sub_self, mul_zero, add_zero]
    exact ⟨allows_zero.2 rfl, allows_free _, zero_mul _⟩
  | free =>
    obtain ⟨_, rfl⟩ := image.resolve_left fun kept => not_keeps_zero kept.1
    filter_upwards with τ
    rw [allows_zero.1 price, mul_zero, add_zero]
    exact ⟨allows_free _, allows_zero.2 rfl, mul_zero _⟩
  | nonnegative =>
    have slack := allows_nonnegative.1 slack
    have price := allows_nonnegative.1 price
    have apart := strict rfl
    rw [Cone.dual, keeps_nonnegative] at image
    rcases image with ⟨kept, rfl⟩ | ⟨dropped, rfl⟩
    · have positive : 0 < y := by linarith
      have tight : s = 0 := (mul_eq_zero.1 product).resolve_right positive.ne'
      filter_upwards [eventually_allows_of_pos positive dy] with τ allowed
      rw [tight, sub_self, mul_zero, add_zero]
      exact ⟨allows_nonnegative.2 le_rfl, allowed, zero_mul _⟩
    · have positive : 0 < s := lt_of_le_of_ne slack fun tight => apart (by linarith)
      have idle : y = 0 := (mul_eq_zero.1 product).resolve_left positive.ne'
      filter_upwards [eventually_allows_of_pos positive (0 - dv)] with τ allowed
      rw [idle, mul_zero, add_zero]
      exact ⟨allowed, allows_nonnegative.2 le_rfl, mul_zero _⟩

end Cone

theorem Block.eventually_rows {blocks : List Block}
    (polyhedral : ∀ block ∈ blocks, block.IsPolyhedral) {P : Cone → Fin n → ℝ → Prop}
    (row : ∀ block ∈ blocks, ∀ cone, block.kind = .cone cone → cone.IsPolyhedral →
      ∀ i, (block.span n).Contains i → ∀ᶠ τ in 𝓝 (0 : ℝ), P cone i τ) :
    ∀ᶠ τ in 𝓝 (0 : ℝ), ∀ block ∈ blocks, ∀ cone, block.kind = .cone cone →
      ∀ i, (block.span n).Contains i → P cone i τ := by
  -- There are finitely many rows, so what is true of each for a while is true of all for a while.
  refine (Filter.eventually_all_finite blocks.finite_toSet).2 ?_
  intro block listed
  obtain ⟨cone, kind, rowwise⟩ := polyhedral block listed
  have moved : ∀ᶠ τ in 𝓝 (0 : ℝ), ∀ i, (block.span n).Contains i → P cone i τ :=
    Filter.eventually_all.2 fun i => Filter.eventually_imp_distrib_left.2 fun contained =>
      row block listed cone kind rowwise i contained
  filter_upwards [moved] with τ holds other same
  cases kind.symm.trans same
  exact holds

section

variable [EigenSolver ℝ]

namespace Cone

theorem IsPolyhedral.derivative_row {cone : Cone} (polyhedral : cone.IsPolyhedral) {x : Vector ℝ k}
    {P : Operator ℝ k k} (success : cone.derivative x = .ok P) (w : Vector ℝ k) (i : Fin k) :
    cone.Keeps (x i) ∧ P.apply w i = w i ∨ ¬cone.Keeps (x i) ∧ P.apply w i = 0 := by
  cases polyhedral with
  | zero =>
    cases success
    exact .inr ⟨not_keeps_zero, (mulVec_mask_apply ..).trans (by simp)⟩
  | free =>
    cases success
    exact .inl ⟨keeps_free, (mulVec_mask_apply ..).trans (by simp)⟩
  | nonnegative =>
    cases success
    have image := mulVec_mask_apply (x.map fun v => decide (0 < v)) w i
    have kept : (x.map fun v => decide (0 < v)) i = decide (0 < x i) := by
      simp [Vec.apply_eq_getElem]
    rw [kept] at image
    rw [keeps_nonnegative]
    by_cases positive : 0 < x i
    · exact .inl ⟨positive, image.trans (by simp [positive])⟩
    · exact .inr ⟨positive, image.trans (by simp [positive])⟩

end Cone

theorem ProductCone.derivative_row {blocks : List Block} {block : Block} {cone : Cone}
    {v : Vector ℝ n} {D : Operator ℝ n n} (tiling : Block.checkTiling blocks n = .ok ())
    (success : derivative blocks v true = .ok ⟨D⟩) (listed : block ∈ blocks)
    (kind : block.kind = .cone cone) (polyhedral : cone.IsPolyhedral) (w : Vector ℝ n) {i : Fin n}
    (contained : (block.span n).Contains i) :
    cone.dual.Keeps (v i) ∧ D.apply w i = w i ∨ ¬cone.dual.Keeps (v i) ∧ D.apply w i = 0 := by
  obtain ⟨E, same, slices⟩ := derivative_slices tiling success
  cases same
  obtain ⟨P, single, image, _⟩ := slices w w block listed
  obtain ⟨target, named, single⟩ := Block.derivative_eq_ok.1 single
  rw [kind] at named
  cases named
  have row := polyhedral.dual.derivative_row single (Vec.slice w (block.span n))
    ((block.span n).offset i contained)
  rwa [← image, Vec.slice_apply, Vec.slice_apply, Vec.slice_apply, Vec.Span.index_offset] at row

namespace Program

theorem leastBound_derivative : ∃ D : Sparse ℝ 2 2,
    ProductCone.derivativeMatrix leastBound.blocks (leastBoundPoint.y - leastBoundPoint.s) true =
      .ok ⟨D⟩ ∧ ∀ w, D.matrix *ᵥ w = ![w 0, 0] := by
  let v := leastBoundPoint.y - leastBoundPoint.s
  let keep := (Vec.slice v (.between 2 0 2)).map fun a => decide (0 < a)
  let D : Sparse ℝ 2 2 := .diagonal (Cone.mask keep) (.empty 0 0)
  have derived : ProductCone.derivativeMatrix leastBound.blocks v true = .ok ⟨D⟩ := rfl
  refine ⟨D, derived, ?_⟩
  intro w
  have image : (D.mulVec (Vector.ofFn w)).get = D.matrix *ᵥ w := by
    rw [Sparse.get_mulVec, Vec.get_ofFn]
  have row {i : Fin 2} (contained : (Vec.Span.between 2 0 2).Contains i) :
      0 < v i ∧ D.mulVec (Vector.ofFn w) i = Vector.ofFn w i ∨
        ¬0 < v i ∧ D.mulVec (Vector.ofFn w) i = 0 := by
    rw [← Cone.keeps_nonnegative]
    exact ProductCone.derivative_row leastBound.tiling
      (ProductCone.derivative_of_derivativeMatrix derived) List.mem_cons_self rfl .nonnegative
      (Vector.ofFn w) contained
  rw [leastBound_direction, image, Vec.get_ofFn] at row
  have first := (row (i := 0) (by decide)).resolve_right fun dropped => dropped.1 one_pos
  have second := (row (i := 1) (by decide)).resolve_left fun kept =>
    kept.1.not_gt (neg_neg_of_pos one_pos)
  funext i
  fin_cases i
  · exact first.2
  · exact second.2

theorem leastBound_projected : ProductCone.project leastBound.blocks
    (leastBoundPoint.y - leastBoundPoint.s) true = .ok leastBoundPoint.y := by
  let v := leastBoundPoint.y - leastBoundPoint.s
  let rows : Vec.Span 2 := .between 2 0 2
  have written : ProductCone.project leastBound.blocks v true = .ok
      (Vec.overwrite (Vector.replicate 2 0) rows ((Vec.slice v rows).map positivePart)) := rfl
  have positive (i : Fin 2) : max (![1, -1] i) 0 = (![1, 0] i : ℝ) := by
    fin_cases i <;> simp
  have part : (Vec.slice v rows).map positivePart = Vec.slice leastBoundPoint.y rows := by
    apply Vec.ext
    intro i
    rw [Cone.get_map_positivePart, Vec.slice_apply, Vec.slice_apply, leastBound_direction,
      leastBoundPoint, Vec.get_pair, positive]
  rw [written, Except.ok.injEq, part]
  apply Block.ext_slices leastBound.tiling
  intro block listed
  rw [List.mem_singleton.1 listed]
  exact Vec.slice_overwrite ..

end Program

end

end ConicDerivative
