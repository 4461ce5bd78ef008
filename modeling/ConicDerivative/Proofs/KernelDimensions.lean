import ConicDerivative.Proofs.EigenChoices
import ConicDerivative.Proofs.NearestPoints
import ConicDerivative.Proofs.Regularity

/-!
How many columns a program may have if a point of it is to be regular. For the derivative `D` of the
projection there are no fewer than there are independent vectors that `D` keeps, and no more than it
has independent images. Both bounds are sums over the blocks of a product.
-/

namespace ConicDerivative

open Scalar Matrix Module Outcomes

variable {m n k d : Nat}

theorem finrank_le_card {ι : Type} [Fintype ι] {V : Submodule ℝ (Fin k → ℝ)}
    (f : (Fin k → ℝ) →ₗ[ℝ] ι → ℝ) (told : ∀ v ∈ V, f v = 0 → v = 0) :
    finrank ℝ V ≤ Fintype.card ι := by
  have injective : Function.Injective (f.domRestrict V) := by
    rw [injective_iff_map_eq_zero]
    intro v null
    exact Subtype.ext (told v v.2 null)
  exact (LinearMap.finrank_le_finrank_of_injective injective).trans_eq
    (finrank_fintype_fun_eq_card ℝ)

theorem finrank_le_of_support {V : Submodule ℝ (Fin k → ℝ)} (places : Finset (Fin k))
    (outside : ∀ v ∈ V, ∀ i, i ∉ places → v i = 0) : finrank ℝ V ≤ places.card := by
  rw [← Fintype.card_coe places]
  apply finrank_le_card (LinearMap.funLeft ℝ ℝ fun i : places => i.1)
  intro v inside null
  funext i
  by_cases listed : i ∈ places
  · exact congrFun null ⟨i, listed⟩
  · exact outside v inside i listed

/-- The number of columns is at least the dimension of what is kept, and at most the rank. -/
structure AdmitsColumns (D : Matrix (Fin k) (Fin k) ℝ) (n : Nat) : Prop where
  fixed : finrank ℝ (LinearMap.ker (D - 1).mulVecLin) ≤ n
  null : n + finrank ℝ (LinearMap.ker D.mulVecLin) ≤ k

theorem mem_ker_sub_one {D : Matrix (Fin k) (Fin k) ℝ} {v : Fin k → ℝ} :
    v ∈ LinearMap.ker (D - 1).mulVecLin ↔ D *ᵥ v = v := by
  rw [LinearMap.mem_ker, mulVecLin_apply, sub_mulVec, one_mulVec, sub_eq_zero]

theorem admitsColumns_of_injective {A : Matrix (Fin m) (Fin n) ℝ} {D : Matrix (Fin m) (Fin m) ℝ}
    (moving : ∀ dx, D *ᵥ (A *ᵥ dx) = 0 → dx = 0)
    (priced : ∀ u, D *ᵥ u = u → Aᵀ *ᵥ u = 0 → u = 0) : AdmitsColumns D n := by
  constructor
  · have bound := finrank_le_card (V := LinearMap.ker (D - 1).mulVecLin) Aᵀ.mulVecLin
      fun u kept null => priced u (mem_ker_sub_one.1 kept) null
    rwa [Fintype.card_fin] at bound
  · have injective : Function.Injective (D.mulVecLin.rangeRestrict ∘ₗ A.mulVecLin) := by
      rw [injective_iff_map_eq_zero]
      intro dx null
      exact moving dx (congrArg Subtype.val null)
    have rank := LinearMap.finrank_le_finrank_of_injective injective
    have total := D.mulVecLin.finrank_range_add_finrank_ker
    rw [finrank_fin_fun] at rank total
    omega

theorem Jacobian.admitsColumns_of_isUnit {A : Sparse ℝ m n} {D : Sparse ℝ m m}
    (own : (Operator.ofSparse D).IsSelfAdjoint) (firm : (Operator.ofSparse D).IsFirm)
    (unit : IsUnit (ofSparse A D).matrix) : AdmitsColumns D.matrix n := by
  have injective := (Operator.represents_ofSparse (ofSparse A D)).isUnit_iff.1 unit
  rw [ofSparse_eq_ofOperator, injective_iff A own firm (Operator.represents_ofSparse D)] at injective
  exact admitsColumns_of_injective injective.1 injective.2

namespace Block

variable {blocks : List Block}

theorem finrank_le_sum (tiling : checkTiling blocks n = .ok ()) {V : Submodule ℝ (Fin n → ℝ)}
    (W : ∀ block : Block, Submodule ℝ (Fin (block.span n).size → ℝ))
    (parts : ∀ v ∈ V, ∀ block ∈ blocks, v ∘ (block.span n).index ∈ W block) :
    finrank ℝ V ≤ (blocks.map fun block => finrank ℝ (W block)).sum := by
  let part (i : Fin blocks.length) : V →ₗ[ℝ] W (blocks.get i) :=
    (LinearMap.funLeft ℝ ℝ ((blocks.get i).span n).index).restrict
      fun v inside => parts v inside _ (blocks.get_mem i)
  have injective : Function.Injective (LinearMap.pi part) := by
    rw [injective_iff_map_eq_zero]
    intro v null
    apply Subtype.ext
    funext row
    obtain ⟨block, listed, inside⟩ := exists_span_contains tiling row
    obtain ⟨i, rfl⟩ := List.get_of_mem listed
    have zero := congrArg Subtype.val (congrFun null i)
    have entry := congrFun zero (((blocks.get i).span n).offset row inside)
    change v.1 (((blocks.get i).span n).index _) = 0 at entry
    rwa [Vec.Span.index_offset] at entry
  have bound := LinearMap.finrank_le_finrank_of_injective injective
  rw [finrank_pi_fintype] at bound
  refine bound.trans_eq ?_
  rw [← List.sum_ofFn]
  congr 1
  apply List.ext_getElem
  · simp
  · intro i left right
    simp

theorem admitsColumns (tiling : checkTiling blocks n = .ok ()) {D : Matrix (Fin n) (Fin n) ℝ}
    {M : ∀ block : Block, Matrix (Fin (block.span n).size) (Fin (block.span n).size) ℝ}
    (acts : ∀ v, ∀ block ∈ blocks,
      (D *ᵥ v) ∘ (block.span n).index = M block *ᵥ (v ∘ (block.span n).index))
    {counts : Block → Nat} (single : ∀ block ∈ blocks, AdmitsColumns (M block) (counts block)) :
    AdmitsColumns D (blocks.map counts).sum := by
  constructor
  · refine (finrank_le_sum tiling (fun block => LinearMap.ker (M block - 1).mulVecLin) ?_).trans ?_
    · intro v kept block listed
      rw [mem_ker_sub_one, ← acts v block listed, mem_ker_sub_one.1 kept]
    · exact List.sum_le_sum fun block listed => (single block listed).fixed
  · have bound := finrank_le_sum tiling (V := LinearMap.ker D.mulVecLin)
        (fun block => LinearMap.ker (M block).mulVecLin) <| by
      intro v null block listed
      rw [LinearMap.mem_ker, mulVecLin_apply] at null ⊢
      rw [← acts v block listed, null]
      rfl
    calc
      _ ≤ (blocks.map counts).sum +
          (blocks.map fun block => finrank ℝ (LinearMap.ker (M block).mulVecLin)).sum :=
        Nat.add_le_add_left bound _
      _ ≤ (blocks.map fun block => (block.span n).size).sum := by
        rw [← List.sum_map_add]
        exact List.sum_le_sum fun block listed => (single block listed).null
      _ = n := sum_sizes tiling

end Block

theorem admitsColumns_diagonal (keep : Fin k → Prop) [DecidablePred keep] :
    AdmitsColumns (diagonal fun i => if keep i then 1 else 0 : Matrix (Fin k) (Fin k) ℝ)
      (Finset.univ.filter keep).card := by
  constructor
  · apply finrank_le_of_support
    intro v kept i outside
    have entry := congrFun (mem_ker_sub_one.1 kept) i
    have dropped : ¬keep i := by simpa using outside
    rwa [mulVec_diagonal, if_neg dropped, zero_mul, eq_comm] at entry
  · have bound := finrank_le_of_support (Finset.univ.filter fun i => ¬keep i)
      (V := LinearMap.ker (diagonal fun i => if keep i then 1 else 0 :
        Matrix (Fin k) (Fin k) ℝ).mulVecLin) <| by
      intro v null i outside
      have entry := congrFun null i
      have kept : keep i := by simpa using outside
      rwa [mulVecLin_apply, mulVec_diagonal, if_pos kept, one_mul] at entry
    have all := Finset.card_filter_add_card_filter_not (s := Finset.univ) keep
    rw [Finset.card_univ, Fintype.card_fin] at all
    omega

theorem admitsColumns_one : AdmitsColumns (1 : Matrix (Fin k) (Fin k) ℝ) k := by
  have all := admitsColumns_diagonal fun _ : Fin k => True
  rwa [Finset.filter_true, Finset.card_univ, Fintype.card_fin] at all

theorem admitsColumns_zero : AdmitsColumns (0 : Matrix (Fin k) (Fin k) ℝ) 0 := by
  have none := admitsColumns_diagonal fun _ : Fin k => False
  rw [Finset.filter_false, Finset.card_empty] at none
  rwa [← diagonal_zero]

namespace SecondOrder

variable {t norm : ℝ} {z : Vector ℝ n}

theorem get_cons_ofFn (v : Fin (n + 1) → ℝ) :
    (Vec.cons (v 0) (Vector.ofFn fun i => v i.succ)).get = v := by
  funext i
  cases i using Fin.cases with
  | zero => exact Vec.cons_zero ..
  | succ i => exact (Vec.cons_succ ..).trans (Vec.ofFn_apply ..)

theorem eq_zero_of_kept (bound : |t| < norm) {w : Vector ℝ n}
    (kept : (derivativeBetween t norm z).matrix *ᵥ (Vec.cons 0 w).get = (Vec.cons 0 w).get) :
    (Vec.cons 0 w).get = 0 := by
  have positive := (abs_nonneg t).trans_lt bound
  have ratio : t / norm < 1 := (div_lt_one positive).2 (abs_lt.1 bound).2
  rw [mulVec_derivativeBetween_cons] at kept
  have head := congrFun kept 0
  rw [Vec.cons_zero, Vec.cons_zero] at head
  have along : z.get ⬝ᵥ w.get / norm = 0 := by linarith
  funext i
  cases i using Fin.cases with
  | zero => exact Vec.cons_zero ..
  | succ i =>
    have entry := congrFun kept i.succ
    rw [along, Vec.cons_succ, Vec.cons_succ, Vec.add_apply, Vec.scale_apply, Vec.scale_apply,
      mul_zero, sub_zero, zero_div, zero_mul, zero_add] at entry
    have scaled : (1 - t / norm) * w i = 0 := by linarith
    exact (Vec.cons_succ ..).trans ((mul_eq_zero.1 scaled).resolve_left (by linarith))

/-- Between the cone and its polar one direction is kept, and not all are lost. -/
theorem admitsColumns_between (bound : |t| < norm) :
    AdmitsColumns (derivativeBetween t norm z).matrix 1 := by
  constructor
  · refine (finrank_le_card (LinearMap.funLeft ℝ ℝ fun _ : Unit => (0 : Fin (n + 1))) ?_).trans_eq
      Fintype.card_unit
    intro v kept null
    have head : v 0 = 0 := congrFun null ()
    have kept := mem_ker_sub_one.1 kept
    rw [← get_cons_ofFn v, head] at kept ⊢
    exact eq_zero_of_kept bound kept
  · have tails := finrank_le_card (LinearMap.funLeft ℝ ℝ (Fin.succ : Fin n → Fin (n + 1)))
      (V := LinearMap.ker (derivativeBetween t norm z).matrix.mulVecLin) <| by
      intro v null tail
      have zeros : (Vector.ofFn fun i => v i.succ) = Vector.replicate n 0 := by
        apply Vec.get_injective
        rw [Vec.get_ofFn, Vec.get_zeros]
        exact tail
      rw [LinearMap.mem_ker, mulVecLin_apply, ← get_cons_ofFn v, zeros,
        mulVec_derivativeBetween_cons] at null
      have head := congrFun null 0
      rw [Vec.cons_zero, Vec.get_zeros, dotProduct_zero, zero_div, add_zero] at head
      funext i
      cases i using Fin.cases with
      | zero => exact (div_eq_zero_iff.1 head).resolve_right two_ne_zero
      | succ i => exact congrFun tail i
    rw [Fintype.card_fin] at tails
    omega

section

variable {x : Vector ℝ (n + 1)}

theorem head_neg (x : Vector ℝ (n + 1)) : Vec.head (-x) = -Vec.head x := Vec.neg_apply ..

theorem norm_tail_neg (x : Vector ℝ (n + 1)) :
    Vec.norm (Vec.tail (-x)) = Vec.norm (Vec.tail x) := by
  have opposite : Vec.tail (-x) = Vec.scale (-1) (Vec.tail x) := by
    apply Vec.ext
    intro i
    rw [Vec.tail_apply, Vec.neg_apply, Vec.scale_apply, Vec.tail_apply, neg_one_mul]
  rw [opposite, Vec.norm_scale, abs_neg, abs_one, one_mul]

noncomputable abbrev regionAt (x : Vector ℝ (n + 1)) : Region := region (Vec.head x) (Vec.norm (Vec.tail x))

theorem regionAt_neg_of_polar (found : regionAt x = .polar) : regionAt (-x) = .inside := by
  have polar := norm_le_of_polar found
  rw [regionAt, head_neg, norm_tail_neg]
  exact if_pos (.inl polar)

theorem regionAt_neg_of_between (clear : ¬InBand (-x)) (found : regionAt x = .between) :
    regionAt (-x) = .between := by
  have bound := abs_lt.1 (abs_lt_of_between found)
  cases opposite : regionAt (-x) with
  | inside =>
    have inside := norm_le_of_inside clear opposite
    rw [head_neg, norm_tail_neg] at inside
    linarith
  | polar =>
    have polar := norm_le_of_polar opposite
    rw [head_neg, norm_tail_neg] at polar
    linarith
  | between => rfl

theorem regionAt_neg_of_inside (clear : ¬InBand x) (clear' : ¬InBand (-x))
    (nonzero : x ≠ Vector.replicate (n + 1) 0) (found : regionAt x = .inside) :
    regionAt (-x) = .polar := by
  -- Zero is the only point that is in the cone with its opposite.
  have inside := norm_le_of_inside clear found
  have length := Vec.norm_nonneg (Vec.tail x)
  cases opposite : regionAt (-x) with
  | inside =>
    have inside' := norm_le_of_inside clear' opposite
    rw [head_neg, norm_tail_neg] at inside'
    have head : Vec.head x = 0 := by linarith
    have tail : Vec.norm (Vec.tail x) = 0 := by linarith
    refine absurd (Vec.get_injective ?_) nonzero
    rw [Vec.get_zeros]
    funext i
    cases i using Fin.cases with
    | zero => exact head
    | succ i => exact (Vec.tail_apply x i).symm.trans (congrFun (Vec.norm_eq_zero_iff.1 tail) i)
  | polar => rfl
  | between =>
    have bound := abs_lt.1 (abs_lt_of_between opposite)
    rw [head_neg, norm_tail_neg] at bound
    linarith

end

end SecondOrder

theorem Packed.triangle_eq_choose (d : Nat) : triangle d = (d + 1).choose 2 := by
  induction d with
  | zero => rfl
  | succ d ih => rw [triangle, ih, Nat.choose_succ_succ' (d + 1) 1, Nat.choose_one_right]

def Eigen.opposite (eigen : Eigen ℝ d) : Eigen ℝ d := ⟨-eigen.values, eigen.vectors⟩

namespace Semidefinite

open Packed

variable {eigen : Eigen ℝ d} {x : Vector ℝ (triangle d)}

theorem unpack_ofFn_add (v w : Fin (triangle d) → ℝ) : (unpack d (Vector.ofFn (v + w))).matrix =
    (unpack d (Vector.ofFn v)).matrix + (unpack d (Vector.ofFn w)).matrix := by
  funext i j
  simp only [unpack_cell, Vec.ofFn_apply, Matrix.add_apply, Pi.add_apply]
  split_ifs
  · rfl
  · exact add_div _ _ _

theorem unpack_ofFn_smul (a : ℝ) (v : Fin (triangle d) → ℝ) :
    (unpack d (Vector.ofFn (a • v))).matrix = a • (unpack d (Vector.ofFn v)).matrix := by
  funext i j
  simp only [unpack_cell, Vec.ofFn_apply, Matrix.smul_apply, Pi.smul_apply, smul_eq_mul]
  split_ifs
  · rfl
  · exact mul_div_assoc _ _ _

theorem unpack_neg (x : Vector ℝ (triangle d)) :
    (unpack d (-x)).matrix = -(unpack d x).matrix := by
  funext i j
  simp only [unpack_cell, Vec.neg_apply, Matrix.neg_apply]
  split_ifs
  · rfl
  · exact neg_div _ _

theorem opposite_decomposes (decomposes : eigen.Decomposes (unpack d x)) :
    eigen.opposite.Decomposes (unpack d (-x)) := by
  refine ⟨decomposes.orthogonal, Mat.matrix_injective ?_⟩
  have values : diagonal eigen.opposite.values.get = -diagonal eigen.values.get := by
    rw [Eigen.opposite, Vec.get_neg]
    exact (diagonal_neg _).symm
  rw [Eigen.matrix_compose, values, unpack_neg, decomposes.matrix_eq, Matrix.mul_neg,
    Matrix.neg_mul]
  rfl

noncomputable def turned (eigen : Eigen ℝ d) :
    (Fin (triangle d) → ℝ) →ₗ[ℝ] Matrix (Fin d) (Fin d) ℝ where
  toFun v := eigen.vectors.matrixᵀ * (unpack d (Vector.ofFn v)).matrix * eigen.vectors.matrix
  map_add' v w := by rw [unpack_ofFn_add, Matrix.mul_add, Matrix.add_mul]
  map_smul' a v := by
    rw [unpack_ofFn_smul, Matrix.mul_smul, Matrix.smul_mul, RingHom.id_apply]

theorem eq_zero_of_turned (decomposes : eigen.Decomposes (unpack d x))
    {v : Fin (triangle d) → ℝ} (null : turned eigen v = 0) : v = 0 := by
  have back : (unpack d (Vector.ofFn v)).matrix =
      eigen.vectors.matrix * turned eigen v * eigen.vectors.matrixᵀ := by
    calc
      (unpack d (Vector.ofFn v)).matrix = eigen.vectors.matrix * eigen.vectors.matrixᵀ * (unpack d (Vector.ofFn v)).matrix *
          (eigen.vectors.matrix * eigen.vectors.matrixᵀ) := by
        rw [decomposes.orthogonal', Matrix.one_mul, Matrix.mul_one]
      _ = eigen.vectors.matrix * (eigen.vectors.matrixᵀ * (unpack d (Vector.ofFn v)).matrix *
          eigen.vectors.matrix) * eigen.vectors.matrixᵀ := by simp only [Matrix.mul_assoc]
  have square := dot_eq_trace (Vector.ofFn v) (Vector.ofFn v)
  rw [back, null, Matrix.mul_zero, Matrix.zero_mul, Matrix.zero_mul, trace_zero, Vec.get_ofFn] at square
  exact dotProduct_self_eq_zero.1 square

theorem finrank_le_of_turned (decomposes : eigen.Decomposes (unpack d x))
    {V : Submodule ℝ (Fin (triangle d) → ℝ)} (cells : Finset (Sym2 (Fin d)))
    (outside : ∀ v ∈ V, ∀ i j, s(i, j) ∉ cells → turned eigen v i j = 0) :
    finrank ℝ V ≤ cells.card := by
  rw [← Fintype.card_coe cells]
  apply finrank_le_card (LinearMap.pi fun cell : cells =>
    entryLinearMap ℝ ℝ cell.1.inf cell.1.sup ∘ₗ turned eigen)
  intro v inside null
  apply eq_zero_of_turned decomposes
  ext i j
  by_cases listed : s(i, j) ∈ cells
  · have entry : turned eigen v (i ⊓ j) (i ⊔ j) = 0 := congrFun null ⟨s(i, j), listed⟩
    -- Of the two cells of a pair one is looked up, and the matrix is symmetric.
    have symm : (turned eigen v).IsSymm := turned_symm _ (unpack_symm _)
    rcases le_total i j with order | order
    · rwa [inf_eq_left.2 order, sup_eq_right.2 order] at entry
    · rwa [inf_eq_right.2 order, sup_eq_left.2 order, symm.apply] at entry
  · exact outside v inside i j listed

theorem slope_ne_zero {l l' : ℝ} (positive : 0 < l ∨ 0 < l') : slope l l' ≠ 0 := by
  intro zero
  have mean := abs_add_abs_mul_slope l l'
  rw [zero, mul_zero] at mean
  have first := le_max_right l 0
  have second := le_max_right l' 0
  rcases positive with positive | positive
  · linarith [le_max_left l 0]
  · linarith [le_max_left l' 0]

theorem slope_neg_eq_zero {l l' : ℝ} (first : 0 < l) (second : 0 < l') : slope (-l) (-l') = 0 := by
  unfold slope
  rw [if_neg fun both => by linarith [both.1], if_pos ⟨by linarith, by linarith⟩]

theorem turned_opposite (decomposes : eigen.Decomposes (unpack d x))
    {M : Matrix (Fin (triangle d)) (Fin (triangle d)) ℝ}
    (acts : ∀ v, M *ᵥ v = (derivative eigen.opposite (Vector.ofFn v)).get)
    (v : Fin (triangle d) → ℝ) (i j : Fin d) : turned eigen (M *ᵥ v) i j =
      slope (-eigen.values i) (-eigen.values j) * turned eigen v i j := by
  have orthogonal := (opposite_decomposes decomposes).orthogonal
  have cell := congrFun (congrFun (turned_derivative orthogonal (Vector.ofFn v)) i) j
  have first : eigen.opposite.values i = -eigen.values i := Vec.neg_apply ..
  have second : eigen.opposite.values j = -eigen.values j := Vec.neg_apply ..
  have read : Vector.ofFn (M *ᵥ v) = derivative eigen.opposite (Vector.ofFn v) := by
    apply Vec.get_injective
    rw [Vec.get_ofFn, acts]
  rw [scaled, first, second, ← read] at cell
  exact cell

/--
At the opposite of a regular matrix the derivative loses the cells of two eigenvectors with positive
eigenvalues, and what it keeps has none of these.
-/
theorem admitsColumns_opposite (decomposes : eigen.Decomposes (unpack d x))
    (regular : IsUnit (unpack d x).matrix)
    {M : Matrix (Fin (triangle d)) (Fin (triangle d)) ℝ}
    (acts : ∀ v, M *ᵥ v = (derivative eigen.opposite (Vector.ofFn v)).get) :
    AdmitsColumns M
      (triangle d - triangle (Finset.univ.filter fun i => 0 < eigen.values i).card) := by
  obtain ⟨P, positive⟩ : ∃ P, (Finset.univ.filter fun i => 0 < eigen.values i) = P := ⟨_, rfl⟩
  have mem_P {i : Fin d} : i ∈ P ↔ 0 < eigen.values i := by
    rw [← positive, Finset.mem_filter, and_iff_right (Finset.mem_univ i)]
  have lost : P.sym2.card = triangle P.card := by rw [Finset.card_sym2, triangle_eq_choose]
  have total : Fintype.card (Sym2 (Fin d)) = triangle d := by
    rw [Sym2.card, Fintype.card_fin, triangle_eq_choose]
  have image := turned_opposite decomposes acts
  rw [positive]
  constructor
  · have bound := finrank_le_of_turned decomposes (V := LinearMap.ker (M - 1).mulVecLin) P.sym2ᶜ <| by
      intro v kept i j inside
      rw [Finset.mem_compl, not_not, Finset.mk_mem_sym2_iff, mem_P, mem_P] at inside
      have cell := image v i j
      rwa [mem_ker_sub_one.1 kept, slope_neg_eq_zero inside.1 inside.2, zero_mul] at cell
    rwa [Finset.card_compl, total, lost] at bound
  · have bound := finrank_le_of_turned decomposes (V := LinearMap.ker M.mulVecLin) P.sym2 <| by
      intro v null i j outside
      rw [Finset.mk_mem_sym2_iff, mem_P, mem_P, not_and_or, not_lt, not_lt] at outside
      have cell := image v i j
      rw [LinearMap.mem_ker, mulVecLin_apply] at null
      rw [null, map_zero, Matrix.zero_apply, eq_comm, mul_eq_zero] at cell
      apply cell.resolve_left
      apply slope_ne_zero
      have first := values_ne_zero decomposes regular i
      have second := values_ne_zero decomposes regular j
      exact outside.imp (fun below => neg_pos.2 (below.lt_of_ne first))
        fun below => neg_pos.2 (below.lt_of_ne second)
    have all := Finset.card_le_univ P.sym2
    omega

end Semidefinite

end ConicDerivative
