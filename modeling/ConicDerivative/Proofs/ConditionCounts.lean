import ConicDerivative.Proofs.KernelDimensions
import ConicDerivative.Proofs.PackedArrays
import ConicDerivative.Proofs.TableBlocks
import ConicDerivative.RandomProgram

/-!
The number of variables of a random program, against the numbers that a regular point admits. Each
block counts so many that its own derivative at the opposite vector admits them, but for a
second-order block on which the vector is zero: there the derivative keeps all rows, and the count
has none of them.
-/

namespace ConicDerivative

open Scalar Matrix Packed Outcomes

variable {n k d : Nat}

theorem Vec.countP_toList (x : Vector ℝ k) (p : ℝ → Prop) [DecidablePred p] :
    x.toList.countP (fun v => decide (p v)) = (Finset.univ.filter fun i => p (x i)).card := by
  have listed : x.toList = (List.finRange k).map fun i => x i := by
    apply List.ext_getElem
    · simp
    · intro i left right
      simp [apply_eq_getElem]
  rw [listed, List.countP_map, ← List.toFinset_finRange,
    (List.nodup_finRange k).card_eq_countP]
  rfl

theorem Vec.slice_neg (x : Vector ℝ n) (s : Span n) : slice (-x) s = -slice x s := by
  apply ext
  intro i
  rw [neg_apply, slice_apply, slice_apply, neg_apply]

theorem Vec.neg_zeros : -Vector.replicate k (0 : ℝ) = Vector.replicate k 0 := by
  apply get_injective
  rw [get_neg, get_zeros, neg_zero]

theorem Vec.slice_zeros (s : Span n) :
    slice (Vector.replicate n (0 : ℝ)) s = Vector.replicate s.size 0 := by
  apply ext
  intro i
  rw [slice_apply]
  exact (congrFun get_zeros _).trans (congrFun get_zeros i).symm

theorem SecondOrder.norm_tail_zeros :
    Vec.norm (Vec.tail (Vector.replicate (k + 1) (0 : ℝ))) = Vec.head (Vector.replicate (k + 1) 0) := by
  have head : Vec.head (Vector.replicate (k + 1) (0 : ℝ)) = 0 := congrFun Vec.get_zeros 0
  rw [head, Vec.norm_eq_zero_iff]
  funext i
  exact (Vec.tail_apply ..).trans (congrFun Vec.get_zeros i.succ)

theorem SecondOrder.regionAt_zeros : regionAt (Vector.replicate (k + 1) (0 : ℝ)) = .inside :=
  if_pos (.inl norm_tail_zeros.le)

theorem SecondOrder.not_inBand_zeros : ¬InBand (Vector.replicate k (0 : ℝ)) := by
  intro band
  cases k with
  | zero => exact band
  | succ k => exact lt_irrefl _ (band.1.trans_eq norm_tail_zeros)

theorem SecondOrder.regionOf?_cast {α : Type} [Scalar α] {l : Nat} (same : k = l)
    (x : Vector α k) : regionOf? (x.cast same) = regionOf? x := by
  subst same
  rfl

theorem Vec.Span.size_le (s : Span n) : s.size ≤ n := (Nat.sub_le ..).trans s.stop_le

/-- The semidefinite blocks hold the triangles of nonsingular matrices. -/
def ProductCone.IsNonsingular (blocks : List Block) (z : Vector ℝ n) : Prop :=
  ∀ block ∈ blocks, block.kind = .cone .semidefinite →
    ∀ d, ∀ triangular : (block.span n).size = triangle d,
      IsUnit (unpack d ((Vec.slice z (block.span n)).cast triangular)).matrix

namespace Block

theorem foldlM_count {blocks : List Block} {f : Block → Outcome ℝ Int} {counts : Block → Nat}
    (single : ∀ block ∈ blocks, f block = .ok (counts block)) (start : Int) :
    blocks.foldlM (fun count block => do return count + (← f block)) start =
      .ok (start + ((blocks.map counts).sum : Nat)) := by
  induction blocks generalizing start with
  | nil => exact congrArg Except.ok (add_zero start).symm
  | cons block rest ih =>
    obtain ⟨first, others⟩ := List.forall_mem_cons.1 single
    refine foldlM_cons_eq_ok.2 ⟨_, bind_eq_ok.2 ⟨_, first, rfl⟩, ?_⟩
    rw [ih others, List.map_cons, List.sum_cons, Nat.cast_add, add_assoc]

theorem admitsColumns_mask (keep : Vector Bool k) :
    AdmitsColumns (Cone.mask keep : Sparse ℝ k k).matrix
      (Finset.univ.filter fun i => keep i = true).card := by
  rw [Cone.matrix_mask]
  exact admitsColumns_diagonal _

variable [EigenSolver ℝ]

/--
The block counts so many columns that, with some more, the derivative of the projection onto the
dual cone at the opposite vector admits them.
-/
def Admits (block : Block) (cone : Cone) (x : Vector ℝ k) (more : Nat) : Prop :=
  ∃ (count : Nat) (S : Sparse ℝ k k), block.conditionsOn (.ofVector x) = .ok (count : Int) ∧
    cone.dual.derivativeMatrix (-x) = .ok S ∧ AdmitsColumns S.matrix (count + more)

variable {block : Block}

theorem admits_zero (kind : block.kind = .cone .zero) (size : block.size = k) (x : Vector ℝ k) :
    block.Admits .zero x 0 := by
  have counted : block.conditionsOn (.ofVector x) = .ok (k : Int) := by
    unfold conditionsOn
    rw [kind, ← size]
    rfl
  refine ⟨k, _, counted, rfl, ?_⟩
  have all := admitsColumns_mask (Vector.replicate k true)
  simpa [Vec.apply_eq_getElem] using all

theorem admits_free (kind : block.kind = .cone .free) (x : Vector ℝ k) :
    block.Admits .free x 0 := by
  have counted : block.conditionsOn (.ofVector x) = .ok ((0 : Nat) : Int) := by
    unfold conditionsOn
    rw [kind]
    rfl
  refine ⟨0, _, counted, rfl, ?_⟩
  have none := admitsColumns_mask (Vector.replicate k false)
  simpa [Vec.apply_eq_getElem] using none

theorem admits_nonnegative (kind : block.kind = .cone .nonnegative) (x : Vector ℝ k) :
    block.Admits .nonnegative x 0 := by
  have counted : block.conditionsOn (.ofVector x) =
      .ok ((x.toList.countP fun v => decide (v < 0) : Nat) : Int) := by
    unfold conditionsOn
    rw [kind, ← Vector.toList_cast (Nat.mul_one k).symm]
    rfl
  refine ⟨_, _, counted, rfl, ?_⟩
  have below (i : Fin k) : ((-x).map fun v => decide (0 < v)) i = true ↔ x i < 0 := by
    rw [Vec.map_apply, Vec.neg_apply, decide_eq_true_iff, neg_pos]
  have rows := admitsColumns_mask ((-x).map fun v => decide (0 < v))
  simp only [below] at rows
  rwa [Vec.countP_toList]

section

variable {x : Vector ℝ (k + 1)} {region : SecondOrder.Region}

theorem conditionsOn_secondOrder (kind : block.kind = .cone .secondOrder)
    (size : block.size = (k + 1 : Nat)) (found : SecondOrder.regionAt x = region) :
    block.conditionsOn (.ofVector x) = .ok ((if region = .polar then k + 1
      else if region = .between then 1 else 0 : Nat) : Int) := by
  have read : SecondOrder.regionOf? (Tensor.ofVector x).entries = some region :=
    (SecondOrder.regionOf?_cast (Nat.mul_one (k + 1)).symm x).trans (congrArg some found)
  unfold conditionsOn
  rw [kind]
  dsimp only
  rw [read]
  cases region with
  | inside => rfl
  | polar => exact congrArg Except.ok size
  | between => rfl

theorem admits_secondOrder (kind : block.kind = .cone .secondOrder)
    (size : block.size = (k + 1 : Nat)) (clear : ¬SecondOrder.InBand x)
    (clear' : ¬SecondOrder.InBand (-x)) (nonzero : x ≠ Vector.replicate (k + 1) 0) :
    block.Admits .secondOrder x 0 := by
  refine ⟨_, _, conditionsOn_secondOrder kind size rfl, rfl, ?_⟩
  rw [Sparse.matrix_ofMat]
  cases found : SecondOrder.regionAt x with
  | inside =>
    rw [SecondOrder.derivative_of_polar
      (SecondOrder.regionAt_neg_of_inside clear clear' nonzero found)]
    exact admitsColumns_zero
  | polar =>
    rw [SecondOrder.derivative_of_inside (SecondOrder.regionAt_neg_of_polar found)]
    exact admitsColumns_one
  | between =>
    have opposite := SecondOrder.regionAt_neg_of_between clear' found
    rw [SecondOrder.derivative_of_between opposite]
    exact SecondOrder.admitsColumns_between (SecondOrder.abs_lt_of_between opposite)

theorem admits_apex (kind : block.kind = .cone .secondOrder) (size : block.size = (k + 1 : Nat)) :
    block.Admits .secondOrder (Vector.replicate (k + 1) 0) (k + 1) := by
  refine ⟨0, _, conditionsOn_secondOrder kind size SecondOrder.regionAt_zeros, rfl, ?_⟩
  rw [Sparse.matrix_ofMat, Vec.neg_zeros, SecondOrder.derivative_of_inside SecondOrder.regionAt_zeros,
    zero_add]
  exact admitsColumns_one

/-- Only a block on which the vector is zero counts too little. -/
theorem admits_secondOrder_cases {x : Vector ℝ k} (kind : block.kind = .cone .secondOrder)
    (size : block.size = k) (nonempty : k ≠ 0) (clear : ¬SecondOrder.InBand x)
    (clear' : ¬SecondOrder.InBand (-x)) :
    (x ≠ Vector.replicate k 0 → block.Admits .secondOrder x 0) ∧
      (x = Vector.replicate k 0 → block.Admits .secondOrder x k) := by
  cases k with
  | zero => exact absurd rfl nonempty
  | succ k =>
    constructor
    · exact admits_secondOrder kind size clear clear'
    · rintro rfl
      exact admits_apex kind size

end

theorem conditionsOn_semidefinite (kind : block.kind = .cone .semidefinite) (side : block.dim = d)
    (size : block.size = triangle d) (small : triangle d < 2 ^ 53) {x : Vector ℝ (triangle d)}
    {eigen : Eigen ℝ d} (solved : EigenSolver.decompose (unpack d x) = some eigen) :
    block.conditionsOn (.ofVector x) = .ok ((triangle d -
      triangle (Finset.univ.filter fun i => 0 < eigen.values i).card : Nat) : Int) := by
  obtain ⟨r, rank⟩ : ∃ r, (Finset.univ.filter fun i => 0 < eigen.values i).card = r := ⟨_, rfl⟩
  have bound : r ≤ d := by
    rw [← rank]
    exact (Finset.card_le_univ _).trans_eq (Fintype.card_fin d)
  have smaller : triangle r ≤ triangle d := by
    rw [triangle_eq_choose, triangle_eq_choose]
    exact Nat.choose_le_choose 2 (Nat.succ_le_succ bound)
  have packed : packedSize r = .ok (triangle r) :=
    packedSize_of_rowCount (rowCount_triangle (smaller.trans_lt small))
  unfold conditionsOn
  rw [kind, side]
  refine bind_eq_ok.2 ⟨_, ofTensor_ofVector x, ?_⟩
  dsimp only
  rw [dif_pos rfl, solved]
  dsimp only
  rw [Vec.countP_toList, rank, size, Nat.cast_sub smaller, packed]
  rfl

theorem exists_derivativeMatrix_neg [LawfulEigenSolver] (nonempty : triangle d ≠ 0)
    (small : triangle d < 2 ^ 53) {x : Vector ℝ (triangle d)} {eigen : Eigen ℝ d}
    (decomposes : eigen.Decomposes (unpack d x)) : ∃ S : Sparse ℝ (triangle d) (triangle d),
      Cone.semidefinite.derivativeMatrix (-x) = .ok S ∧
      ∀ v, S.matrix *ᵥ v = (Semidefinite.derivative eigen.opposite (Vector.ofFn v)).get := by
  obtain ⟨other, solved, decomposes'⟩ := LawfulEigenSolver.decompose_symm _ (unpack_symm (-x))
  have derived := Semidefinite.derivative_of_solved solved
  rw [packedSide_triangle small, if_pos rfl, Semidefinite.derivative_unique decomposes'
    (Semidefinite.opposite_decomposes decomposes)] at derived
  have represents := (Cone.derivative_isSelfAdjoint derived).pair.represents
  refine ⟨_, Cone.derivativeMatrix_semidefinite_eq_ok.2 ⟨nonempty, _, derived, rfl⟩, ?_⟩
  intro v
  rw [Sparse.matrix_ofMat]
  have image := represents.apply (Vector.ofFn v)
  rw [Vec.get_ofFn] at image
  exact image.symm

theorem admits_semidefinite [LawfulEigenSolver] (kind : block.kind = .cone .semidefinite)
    (side : block.dim = d) (size : block.size = k) (triangular : k = triangle d) (nonempty : k ≠ 0)
    (small : k < 2 ^ 53) {x : Vector ℝ k}
    (regular : IsUnit (unpack d (x.cast triangular)).matrix) : block.Admits .semidefinite x 0 := by
  subst triangular
  obtain ⟨eigen, solved, decomposes⟩ := LawfulEigenSolver.decompose_symm _ (unpack_symm x)
  obtain ⟨S, made, acts⟩ := exists_derivativeMatrix_neg nonempty small decomposes
  exact ⟨_, S, conditionsOn_semidefinite kind side size small solved, made,
    Semidefinite.admitsColumns_opposite decomposes regular acts⟩

open Classical in
/-- The rows of a second-order block on which the vector is zero. -/
noncomputable def apexRows (block : Block) (z : Vector ℝ n) : Nat :=
  if block.kind = .cone .secondOrder ∧
    Vec.slice z (block.span n) = Vector.replicate (block.span n).size 0
  then (block.span n).size else 0

omit [EigenSolver ℝ] in
theorem apexRows_eq_zero {z : Vector ℝ n} (nonzero : block.kind = .cone .secondOrder →
    Vec.slice z (block.span n) ≠ Vector.replicate (block.span n).size 0) : block.apexRows z = 0 :=
  if_neg fun both => nonzero both.1 both.2

section

variable {blocks : List Block} {z : Vector ℝ n} (tiling : checkTiling blocks n = .ok ())
  (listed : block ∈ blocks)

include tiling listed

omit [EigenSolver ℝ] in
theorem size_of_secondOrder (kind : block.kind = .cone .secondOrder) :
    block.dim = (block.span n).size := by
  have counted := rowCount_of_checkFrom (checkTiling_ok.1 tiling) block listed
  rw [kind, size_eq_span tiling listed] at counted
  exact Except.ok.inj counted

omit [EigenSolver ℝ] in
theorem size_of_semidefinite (kind : block.kind = .cone .semidefinite) (small : n < 2 ^ 53)
    (side : block.dim = d) : (block.span n).size = triangle d := by
  have counted := rowCount_of_checkFrom (checkTiling_ok.1 tiling) block listed
  rw [kind, size_eq_span tiling listed, side] at counted
  have bound : (block.span n).size < 2 ^ 53 := (block.span n).size_le.trans_lt small
  exact (half_of_packedSize (packedSize_of_rowCount counted) bound).trans (half_eq_triangle d)

theorem admits_of_secondOrder (kind : block.kind = .cone .secondOrder) (positive : 0 < block.dim)
    (clear : ProductCone.OutOfBand blocks z) (clear' : ProductCone.OutOfBand blocks (-z)) :
    block.Admits .secondOrder (Vec.slice z (block.span n)) (block.apexRows z) := by
  have size := size_eq_span tiling listed
  have rows := size_of_secondOrder tiling listed kind
  have nonempty : (block.span n).size ≠ 0 := by omega
  have opposite := clear' block listed kind
  rw [Vec.slice_neg] at opposite
  obtain ⟨counted, missed⟩ :=
    admits_secondOrder_cases kind size nonempty (clear block listed kind) opposite
  by_cases zero : Vec.slice z (block.span n) = Vector.replicate (block.span n).size 0
  · have all : block.apexRows z = (block.span n).size := if_pos ⟨kind, zero⟩
    rw [all]
    exact missed zero
  · rw [apexRows_eq_zero fun _ => zero]
    exact counted zero

theorem admits_of_semidefinite [LawfulEigenSolver] (kind : block.kind = .cone .semidefinite)
    (small : n < 2 ^ 53) (positive : 0 < block.dim)
    (regular : ProductCone.IsNonsingular blocks z) :
    block.Admits .semidefinite (Vec.slice z (block.span n)) 0 := by
  have size := size_eq_span tiling listed
  have bound : (block.span n).size < 2 ^ 53 := (block.span n).size_le.trans_lt small
  obtain ⟨d, side⟩ := Int.eq_ofNat_of_zero_le positive.le
  have triangular := size_of_semidefinite tiling listed kind small side
  have nonempty : (block.span n).size ≠ 0 := by
    cases d with
    | zero => omega
    | succ d => exact triangular.trans_ne (Nat.add_pos_left d.succ_pos _).ne'
  exact admits_semidefinite kind side size triangular nonempty bound
    (regular block listed kind d triangular)

theorem exists_admits [LawfulEigenSolver] (small : n < 2 ^ 53) (positive : 0 < block.dim)
    (clear : ProductCone.OutOfBand blocks z) (clear' : ProductCone.OutOfBand blocks (-z))
    (regular : ProductCone.IsNonsingular blocks z) : ∃ cone, block.kind = .cone cone ∧
      block.Admits cone (Vec.slice z (block.span n)) (block.apexRows z) := by
  obtain ⟨cone, kind⟩ := exists_cone tiling listed
  have other (different : cone ≠ .secondOrder) : block.apexRows z = 0 :=
    apexRows_eq_zero fun second => absurd (Kind.cone.inj (kind.symm.trans second)) different
  refine ⟨cone, kind, ?_⟩
  cases cone with
  | zero =>
    rw [other (by decide)]
    exact admits_zero kind (size_eq_span tiling listed) _
  | free =>
    rw [other (by decide)]
    exact admits_free kind _
  | nonnegative =>
    rw [other (by decide)]
    exact admits_nonnegative kind _
  | secondOrder => exact admits_of_secondOrder tiling listed kind positive clear clear'
  | semidefinite =>
    rw [other (by decide)]
    exact admits_of_semidefinite tiling listed kind small positive regular

theorem exists_count [LawfulEigenSolver] (small : n < 2 ^ 53) (positive : 0 < block.dim)
    (clear : ProductCone.OutOfBand blocks z) (clear' : ProductCone.OutOfBand blocks (-z))
    (regular : ProductCone.IsNonsingular blocks z) :
    ∃ (count : Nat) (S : Sparse ℝ (block.span n).size (block.span n).size),
      block.conditionCount z = .ok (count : Int) ∧ block.derivativeMatrix (-z) true = .ok S ∧
        AdmitsColumns S.matrix (count + block.apexRows z) := by
  obtain ⟨cone, kind, count, S, counted, made, admitted⟩ :=
    exists_admits tiling listed small positive clear clear' regular
  have target : block.kind.target true = .ok cone.dual := by
    rw [kind]
    rfl
  rw [← Vec.slice_neg] at made
  exact ⟨count, S, counted, derivativeMatrix_eq_ok.2 ⟨_, target, made⟩, admitted⟩

end

end Block

namespace ProductCone

section

variable [EigenSolver ℝ] {blocks : List Block} {z : Vector ℝ n} {D : Sparse ℝ n n}

theorem mulVec_slice {v : Vector ℝ n} {block : Block} {dual : Bool}
    {S : Sparse ℝ (block.span n).size (block.span n).size}
    (tiling : Block.checkTiling blocks n = .ok ())
    (derived : derivativeMatrix blocks v dual = .ok ⟨D⟩) (listed : block ∈ blocks)
    (single : block.derivativeMatrix v dual = .ok S) (w : Fin n → ℝ) :
    (D.matrix *ᵥ w) ∘ (block.span n).index = S.matrix *ᵥ (w ∘ (block.span n).index) := by
  obtain ⟨E, same, slices⟩ := derivative_slices tiling (derivative_of_derivativeMatrix derived)
  cases same
  obtain ⟨P, derived', image, _⟩ := slices (Vector.ofFn w) (Vector.ofFn w) block listed
  cases (Block.derivative_of_derivativeMatrix single).symm.trans derived'
  have rows (x : Vector ℝ n) : (Vec.slice x (block.span n)).get = x.get ∘ (block.span n).index :=
    funext fun i => Vec.slice_apply x _ i
  have entries := congrArg Vector.get image
  rw [rows, (Operator.represents_ofSparse D).apply, (Operator.represents_ofSparse S).apply, rows,
    Vec.get_ofFn] at entries
  exact entries

/--
The blocks of a table count so many variables for a vector that a regular point admits this number,
once the rows of the second-order blocks are added on which the vector is zero. Only these are
missed. No other number of columns leaves the Jacobian at a point with `y - s = -z` an inverse,
whatever the matrix of the program is.
-/
theorem conditionCount_admitsColumns [LawfulEigenSolver] {table : ConeTable}
    (layout : table.blocks = .ok blocks) (tiling : Block.checkTiling blocks n = .ok ())
    (small : n < 2 ^ 53) (clear : OutOfBand blocks z) (clear' : OutOfBand blocks (-z))
    (regular : IsNonsingular blocks z) : ∃ (count : Nat) (D : Sparse ℝ n n),
      conditionCount blocks z = .ok (count : Int) ∧
      derivativeMatrix blocks (-z) true = .ok ⟨D⟩ ∧
      AdmitsColumns D.matrix (count + (blocks.map fun block => block.apexRows z).sum) ∧
      ∀ {k : Nat} (A : Sparse ℝ n k), IsUnit (Jacobian.ofSparse A D).matrix →
        AdmitsColumns D.matrix k := by
  have single (block : Block) : ∃ (count : Nat)
      (S : Sparse ℝ (block.span n).size (block.span n).size), block ∈ blocks →
        block.conditionCount z = .ok (count : Int) ∧ block.derivativeMatrix (-z) true = .ok S ∧
          AdmitsColumns S.matrix (count + block.apexRows z) := by
    by_cases listed : block ∈ blocks
    · obtain ⟨count, S, counted⟩ := Block.exists_count tiling listed small
        (ConeTable.dim_pos_of_blocks layout listed) clear clear' regular
      exact ⟨count, S, fun _ => counted⟩
    · exact ⟨0, .empty _ _, fun inside => absurd inside listed⟩
  choose counts parts counted using single
  have derivable : ∃ D : Sparse ℝ n n, derivativeMatrix blocks (-z) true = .ok ⟨D⟩ :=
    (exists_derivativeMatrix_iff_blocks tiling).2
      fun block listed => ⟨_, (counted block listed).2.1⟩
  obtain ⟨D, derived⟩ := derivable
  refine ⟨(blocks.map counts).sum, D, ?_, derived, ?_, ?_⟩
  · have total := Block.foldlM_count (fun block listed => (counted block listed).1) 0
    rwa [zero_add] at total
  · rw [← List.sum_map_add]
    exact Block.admitsColumns tiling
      (fun v block listed => mulVec_slice tiling derived listed (counted block listed).2.1 v)
      fun block listed => (counted block listed).2.2
  · intro k A unit
    have derived' := derivative_of_derivativeMatrix derived
    exact Jacobian.admitsColumns_of_isUnit (derivative_isSelfAdjoint tiling derived')
      (derivative_isFirm tiling derived') unit

end

def tableOfEach : ConeTable :=
  [(.cone .zero, .integer 1), (.cone .free, .integer 1), (.cone .nonnegative, .integer 1),
    (.cone .secondOrder, .list [.integer 2]), (.cone .semidefinite, .list [.integer 1])]

theorem blocks_tableOfEach : tableOfEach.blocks = .ok oneOfEach := by
  have triangular : Kind.rowCount (.cone .semidefinite) 1 = .ok 1 :=
    rowCount_triangle (d := 1) (by decide)
  have laid : Block.layOut [(.cone .zero, 1), (.cone .free, 1), (.cone .nonnegative, 1),
      (.cone .secondOrder, 2), (.cone .semidefinite, 1)] 0 = .ok oneOfEach := by
    simp only [Block.layOut_cons_ok]
    exact ⟨1, _, rfl, ⟨1, _, rfl, ⟨1, _, rfl, ⟨2, _, rfl, ⟨1, _, triangular, rfl, rfl⟩, rfl⟩, rfl⟩,
      rfl⟩, rfl⟩
  exact bind_eq_ok.2 ⟨(), rfl, bind_eq_ok.2 ⟨_, rfl, laid⟩⟩

theorem isNonsingular_oneOfEach {z : Vector ℝ 6} (last : z 5 ≠ 0) :
    IsNonsingular oneOfEach z := by
  intro block listed kind d triangular
  obtain rfl := eq_of_kind_oneOfEach block listed ⟨.cone .semidefinite, 1, 5, 6⟩ (by decide) kind
  obtain rfl : d = 1 := triangle_injective (triangular.symm.trans rfl)
  rw [isUnit_iff_isUnit_det, det_fin_one, unpack_cell, if_pos rfl, isUnit_iff_ne_zero]
  have entry : (Vec.slice z (Block.span ⟨.cone .semidefinite, 1, 5, 6⟩ 6)).cast triangular
      (Packed.place 0 0) = z 5 := Vec.slice_apply ..
  rwa [entry]

theorem apexRows_oneOfEach {z : Vector ℝ 6} (tail : z 4 ≠ 0) :
    (oneOfEach.map fun block => block.apexRows z).sum = 0 := by
  apply List.sum_eq_zero
  intro rows counted
  obtain ⟨block, listed, rfl⟩ := List.mem_map.1 counted
  apply Block.apexRows_eq_zero
  intro kind zero
  obtain rfl := eq_of_kind_oneOfEach block listed ⟨.cone .secondOrder, 2, 3, 5⟩ (by decide) kind
  have entry : z 4 = 0 := (Vec.slice_apply ..).symm.trans
    (congrArg (fun rows : Vector ℝ (Block.span ⟨.cone .secondOrder, 2, 3, 5⟩ 6).size =>
      rows ⟨1, by decide⟩) zero)
  exact tail entry

theorem conditionCount_admitsColumns_of_oneOfEach : ∃ (count : Nat) (D : Sparse ℝ 6 6),
    conditionCount oneOfEach (#v[1, -1, -1, 0, 1, -1] : Vector ℝ 6) = .ok (count : Int) ∧
    derivativeMatrix oneOfEach (-#v[1, -1, -1, 0, 1, -1] : Vector ℝ 6) true = .ok ⟨D⟩ ∧
    AdmitsColumns D.matrix count := by
  have clear : OutOfBand oneOfEach (#v[1, -1, -1, 0, 1, -1] : Vector ℝ 6) :=
    outOfBand_oneOfEach rfl (one_mul 1)
  have clear' : OutOfBand oneOfEach (-#v[1, -1, -1, 0, 1, -1] : Vector ℝ 6) :=
    outOfBand_oneOfEach ((Vec.neg_apply ..).trans neg_zero) (by
      rw [Vec.neg_apply, neg_mul_neg]
      exact one_mul 1)
  have regular : IsNonsingular oneOfEach (#v[1, -1, -1, 0, 1, -1] : Vector ℝ 6) :=
    isNonsingular_oneOfEach (neg_ne_zero.2 one_ne_zero)
  have none := apexRows_oneOfEach (z := #v[1, -1, -1, 0, 1, -1]) one_ne_zero
  obtain ⟨count, D, counted, derived, admitted, _⟩ := conditionCount_admitsColumns
    blocks_tableOfEach tiling_oneOfEach (by decide) clear clear' regular
  rw [none, add_zero] at admitted
  exact ⟨count, D, counted, derived, admitted⟩

def pairAlone : List Block := [⟨.cone .secondOrder, 2, 0, 2⟩]

theorem blocks_pairAlone :
    ConeTable.blocks [(.cone .secondOrder, .list [.integer 2])] = .ok pairAlone := rfl

theorem tiling_pairAlone : Block.checkTiling pairAlone 2 = .ok () :=
  ConeTable.tiling_of_blocks blocks_pairAlone

theorem outOfBand_zeros (blocks : List Block) : OutOfBand blocks (Vector.replicate n 0) := by
  intro block _ _
  rw [Vec.slice_zeros]
  exact SecondOrder.not_inBand_zeros

theorem conditionCount_zeros :
    conditionCount pairAlone (Vector.replicate 2 (0 : ℝ)) = .ok ((0 : Nat) : Int) := by
  have single : Block.conditionCount ⟨.cone .secondOrder, 2, 0, 2⟩ (Vector.replicate 2 (0 : ℝ)) =
      .ok ((0 : Nat) : Int) := by
    unfold Block.conditionCount
    rw [Vec.slice_zeros]
    exact Block.conditionsOn_secondOrder (k := 1) rfl rfl SecondOrder.regionAt_zeros
  have counts : ∀ block ∈ pairAlone, block.conditionCount (Vector.replicate 2 (0 : ℝ)) =
      .ok ((0 : Nat) : Int) := List.forall_mem_singleton.2 single
  exact Block.foldlM_count counts 0

theorem exists_derivativeMatrix_zeros : ∃ D : Sparse ℝ 2 2,
    derivativeMatrix pairAlone (-Vector.replicate 2 (0 : ℝ)) true = .ok ⟨D⟩ ∧
      ∀ w, D.matrix *ᵥ w = w := by
  obtain ⟨S, made⟩ : ∃ S : Sparse ℝ (1 + 1) (1 + 1),
      S = .ofMat (SecondOrder.derivative (Vector.replicate 2 0)) := ⟨_, rfl⟩
  have keeps (v : Fin (1 + 1) → ℝ) : S.matrix *ᵥ v = v := by
    rw [made, Sparse.matrix_ofMat, SecondOrder.derivative_of_inside SecondOrder.regionAt_zeros,
      one_mulVec]
  have single : Block.derivativeMatrix ⟨.cone .secondOrder, 2, 0, 2⟩
      (-Vector.replicate 2 (0 : ℝ)) true = .ok S := by
    refine Block.derivativeMatrix_eq_ok.2 ⟨.secondOrder, rfl, ?_⟩
    rw [Vec.neg_zeros, Vec.slice_zeros, made]
    rfl
  obtain ⟨D, derived⟩ := (exists_derivativeMatrix_iff_blocks tiling_pairAlone).2
    (List.forall_mem_singleton.2 ⟨_, single⟩)
  refine ⟨D, derived, ?_⟩
  intro w
  have rows := (mulVec_slice tiling_pairAlone derived (List.mem_singleton_self _) single w).trans
    (keeps _)
  have whole : (Block.span ⟨.cone .secondOrder, 2, 0, 2⟩ 2).index = id :=
    funext fun i => Fin.ext (Nat.zero_add i.val)
  rwa [whole] at rows

/-- The pair is not counted, so that the number of columns is less than what the derivative keeps. -/
theorem conditionCount_misses_zeros : ∃ D : Sparse ℝ 2 2,
    ConeTable.blocks [(.cone .secondOrder, .list [.integer 2])] = .ok pairAlone ∧
    OutOfBand pairAlone (Vector.replicate 2 0) ∧ OutOfBand pairAlone (-Vector.replicate 2 0) ∧
    IsNonsingular pairAlone (Vector.replicate 2 0) ∧
    conditionCount pairAlone (Vector.replicate 2 (0 : ℝ)) = .ok ((0 : Nat) : Int) ∧
    derivativeMatrix pairAlone (-Vector.replicate 2 (0 : ℝ)) true = .ok ⟨D⟩ ∧
    ¬AdmitsColumns D.matrix 0 := by
  obtain ⟨D, derived, keeps⟩ := exists_derivativeMatrix_zeros
  have opposite : OutOfBand pairAlone (-Vector.replicate 2 0) := by
    rw [Vec.neg_zeros]
    exact outOfBand_zeros pairAlone
  have nonsingular : IsNonsingular pairAlone (Vector.replicate 2 0) := by
    intro block listed kind
    obtain rfl := List.mem_singleton.1 listed
    cases kind
  refine ⟨D, blocks_pairAlone, outOfBand_zeros pairAlone, opposite, nonsingular,
    conditionCount_zeros, derived, ?_⟩
  intro admitted
  have none := Submodule.finrank_eq_zero.1 (Nat.le_zero.1 admitted.fixed)
  have ones : (1 : Fin 2 → ℝ) ∈ LinearMap.ker (D.matrix - 1).mulVecLin :=
    mem_ker_sub_one.2 (keeps 1)
  rw [none, Submodule.mem_bot] at ones
  exact one_ne_zero ones

end ProductCone

end ConicDerivative
