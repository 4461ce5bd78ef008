import ConicDerivative.Program
import ConicDerivative.Proofs.ConeProducts
import ConicDerivative.Proofs.SelectedRows
import ConicDerivative.Proofs.SparseBlocks
import ConicDerivative.Proofs.Tiling

/-!
Optimal points of a program, and programs and points that are moved along a line. A point is optimal
if it solves both systems of equations, its slacks and its prices lie in the cones of their blocks
and in the duals, and the two are orthogonal. Where the cones constrain each row by itself, this is a
condition on each row.
-/

namespace ConicDerivative

open Scalar Matrix

variable {m n : Nat}

def Block.Contains (block : Block) (dual : Bool) (x : Vector ℝ n) : Prop :=
  ∃ cone, block.kind.target dual = .ok cone ∧
    cone.Contains .lower block.dim.toNat (Loose.entry (Vec.slice x (block.span n)).toList)

namespace Program

/-- A primal and a dual solution without a gap between them. -/
structure IsOptimal (program : Program ℝ) (point : Point ℝ program.rows program.cols) : Prop where
  primal : program.A.matrix *ᵥ point.x.get + point.s.get = program.b.get
  dual : program.A.matrixᵀ *ᵥ point.y.get + program.c.get = 0
  slack_mem : ∀ block ∈ program.blocks, block.Contains false point.s
  price_mem : ∀ block ∈ program.blocks, block.Contains true point.y
  complementary : point.s.get ⬝ᵥ point.y.get = 0

noncomputable def move (program : Program ℝ) (τ : ℝ) (db : Vector ℝ program.rows)
    (dc : Vector ℝ program.cols) : Program ℝ :=
  { program with b := program.b + Vec.scale τ db, c := program.c + Vec.scale τ dc }

end Program

noncomputable def Point.move (point : Point ℝ m n) (τ : ℝ) (d : Direction ℝ m n) : Point ℝ m n :=
  ⟨point.x + Vec.scale τ d.dx, point.y + Vec.scale τ d.dy, point.s + Vec.scale τ d.ds⟩

namespace Cone

/-- The cones that constrain each row by itself. -/
inductive IsPolyhedral : Cone → Prop where
  | zero : IsPolyhedral zero
  | free : IsPolyhedral free
  | nonnegative : IsPolyhedral nonnegative

def Allows (cone : Cone) (a : ℝ) : Prop := cone.Contains .lower 1 fun _ => a

variable {cone : Cone} {packing : Packing} {dim : Nat} {f : Nat → ℝ} {a s y : ℝ}

theorem allows_zero : zero.Allows a ↔ a = 0 :=
  ⟨fun row => row 0 Nat.one_pos, fun row _ _ => row⟩

theorem allows_nonnegative : nonnegative.Allows a ↔ 0 ≤ a :=
  ⟨fun row => row 0 Nat.one_pos, fun row _ _ => row⟩

theorem allows_free (a : ℝ) : free.Allows a := trivial

theorem IsPolyhedral.dual (polyhedral : cone.IsPolyhedral) : cone.dual.IsPolyhedral := by
  cases polyhedral with
  | zero => exact .free
  | free => exact .zero
  | nonnegative => exact .nonnegative

theorem IsPolyhedral.ne_semidefinite (polyhedral : cone.IsPolyhedral) : cone ≠ semidefinite := by
  rintro rfl
  cases polyhedral

theorem IsPolyhedral.contains_iff (polyhedral : cone.IsPolyhedral) :
    cone.Contains packing dim f ↔ ∀ i < dim, cone.Allows (f i) := by
  cases polyhedral with
  | zero => simp only [Contains, allows_zero]
  | free => exact ⟨fun _ _ _ => trivial, fun _ => trivial⟩
  | nonnegative => simp only [Contains, allows_nonnegative]

/-- A slack and a price of one row that go together. -/
structure Complementary (cone : Cone) (s y : ℝ) : Prop where
  slack : cone.Allows s
  price : cone.dual.Allows y
  product : s * y = 0

theorem IsPolyhedral.mul_nonneg (polyhedral : cone.IsPolyhedral) (slack : cone.Allows s)
    (price : cone.dual.Allows y) : 0 ≤ s * y := by
  cases polyhedral with
  | zero => rw [allows_zero.1 slack, zero_mul]
  | free => rw [allows_zero.1 price, mul_zero]
  | nonnegative => exact Left.mul_nonneg (allows_nonnegative.1 slack) (allows_nonnegative.1 price)

end Cone

namespace Block

variable {blocks : List Block} {block : Block} {cone : Cone} {dual : Bool}

def IsPolyhedral (block : Block) : Prop := ∃ cone, block.kind = .cone cone ∧ cone.IsPolyhedral

theorem dim_eq_size_of_polyhedral (tiling : checkTiling blocks n = .ok ()) (listed : block ∈ blocks)
    (kind : block.kind = .cone cone) (polyhedral : cone.IsPolyhedral) : block.dim = block.size := by
  have counted := rowCount_of_checkFrom (checkTiling_ok.1 tiling) block listed
  rw [kind] at counted
  cases polyhedral <;> exact Except.ok.inj counted

theorem dim_of_polyhedral (tiling : checkTiling blocks n = .ok ()) (listed : block ∈ blocks)
    (kind : block.kind = .cone cone) (polyhedral : cone.IsPolyhedral) :
    block.dim.toNat = (block.span n).size := by
  obtain ⟨nonneg, order, inside⟩ := (bounds_of_checkFrom (checkTiling_ok.1 tiling)).2 block listed
  rw [dim_eq_size_of_polyhedral tiling listed kind polyhedral, ← span_size nonneg order inside,
    Int.toNat_natCast]

theorem dim_nonneg_of_polyhedral (tiling : checkTiling blocks n = .ok ()) (listed : block ∈ blocks)
    (kind : block.kind = .cone cone) (polyhedral : cone.IsPolyhedral) : 0 ≤ block.dim := by
  obtain ⟨_, order, _⟩ := (bounds_of_checkFrom (checkTiling_ok.1 tiling)).2 block listed
  rw [dim_eq_size_of_polyhedral tiling listed kind polyhedral]
  exact sub_nonneg.2 order

theorem contains_iff_rows (tiling : checkTiling blocks n = .ok ()) (listed : block ∈ blocks)
    (kind : block.kind = .cone cone) (polyhedral : cone.IsPolyhedral) {x : Vector ℝ n} :
    block.Contains dual x ↔
      ∀ i, (block.span n).Contains i → (if dual then cone.dual else cone).Allows (x i) := by
  have target : block.kind.target dual = .ok (if dual then cone.dual else cone) := by
    rw [kind]
    rfl
  have rows : (if dual then cone.dual else cone).IsPolyhedral := by
    split_ifs
    · exact polyhedral.dual
    · exact polyhedral
  have entry (j : Fin (block.span n).size) :
      Loose.entry (Vec.slice x (block.span n)).toList j = x ((block.span n).index j) :=
    (congrFun (Loose.entries_toList (Vec.slice x (block.span n))) j).trans (Vec.slice_apply ..)
  simp only [Contains, target, Except.ok.injEq, exists_eq_left', rows.contains_iff,
    dim_of_polyhedral tiling listed kind polyhedral]
  constructor
  · intro inside i contained
    have row := inside _ ((block.span n).offset i contained).isLt
    rwa [entry, Vec.Span.index_offset] at row
  · intro inside j bound
    rw [entry ⟨j, bound⟩]
    exact inside _ ((block.span n).contains_index _)

end Block

namespace Program

variable {program : Program ℝ} {point : Point ℝ program.rows program.cols}

/-- Over cones of rows a point is optimal just if slacks and prices go together on each row. -/
theorem isOptimal_iff_rows (polyhedral : ∀ block ∈ program.blocks, block.IsPolyhedral) :
    program.IsOptimal point ↔
      program.A.matrix *ᵥ point.x.get + point.s.get = program.b.get ∧
      program.A.matrixᵀ *ᵥ point.y.get + program.c.get = 0 ∧
      ∀ block ∈ program.blocks, ∀ cone, block.kind = .cone cone →
        ∀ i, (block.span program.rows).Contains i → cone.Complementary (point.s i) (point.y i) := by
  have rows {block} (listed : block ∈ program.blocks) {cone} (kind : block.kind = .cone cone) :
      cone.IsPolyhedral := by
    obtain ⟨other, same, polyhedral⟩ := polyhedral block listed
    cases kind.symm.trans same
    exact polyhedral
  constructor
  · intro optimal
    have slack {block} (listed : block ∈ program.blocks) {cone} (kind : block.kind = .cone cone) :=
      (Block.contains_iff_rows program.tiling listed kind (rows listed kind)).1
        (optimal.slack_mem block listed)
    have price {block} (listed : block ∈ program.blocks) {cone} (kind : block.kind = .cone cone) :=
      (Block.contains_iff_rows program.tiling listed kind (rows listed kind)).1
        (optimal.price_mem block listed)
    have products (i : Fin program.rows) : 0 ≤ point.s i * point.y i := by
      obtain ⟨block, listed, contained⟩ := Block.exists_span_contains program.tiling i
      obtain ⟨cone, kind, polyhedral⟩ := polyhedral block listed
      exact polyhedral.mul_nonneg (slack listed kind i contained) (price listed kind i contained)
    have vanish := (Finset.sum_eq_zero_iff_of_nonneg fun i _ => products i).1 optimal.complementary
    refine ⟨optimal.primal, optimal.dual, ?_⟩
    intro block listed cone kind i contained
    exact ⟨slack listed kind i contained, price listed kind i contained,
      vanish i (Finset.mem_univ i)⟩
  · rintro ⟨primal, dual, row⟩
    refine ⟨primal, dual, ?_, ?_, ?_⟩
    · intro block listed
      obtain ⟨cone, kind, polyhedral⟩ := polyhedral block listed
      exact (Block.contains_iff_rows program.tiling listed kind polyhedral).2
        fun i contained => (row block listed cone kind i contained).slack
    · intro block listed
      obtain ⟨cone, kind, polyhedral⟩ := polyhedral block listed
      exact (Block.contains_iff_rows program.tiling listed kind polyhedral).2
        fun i contained => (row block listed cone kind i contained).price
    · apply Finset.sum_eq_zero
      intro i _
      obtain ⟨block, listed, contained⟩ := Block.exists_span_contains program.tiling i
      obtain ⟨cone, kind, _⟩ := polyhedral block listed
      exact (row block listed cone kind i contained).product

theorem IsOptimal.move (optimal : program.IsOptimal point)
    (polyhedral : ∀ block ∈ program.blocks, block.IsPolyhedral) {τ : ℝ}
    {d : Direction ℝ program.rows program.cols} {db : Vector ℝ program.rows}
    {dc : Vector ℝ program.cols} (primal : program.A.matrix *ᵥ d.dx.get + d.ds.get = db.get)
    (dual : program.A.matrixᵀ *ᵥ d.dy.get + dc.get = 0)
    (rows : ∀ block ∈ program.blocks, ∀ cone, block.kind = .cone cone →
      ∀ i, (block.span program.rows).Contains i →
        cone.Complementary (point.s i + τ * d.ds i) (point.y i + τ * d.dy i)) :
    (program.move τ db dc).IsOptimal (point.move τ d) := by
  have same : ∀ block ∈ (program.move τ db dc).blocks, block.IsPolyhedral := polyhedral
  refine (isOptimal_iff_rows same).2 ⟨?_, ?_, ?_⟩
  · show program.A.matrix *ᵥ (point.x + Vec.scale τ d.dx).get + (point.s + Vec.scale τ d.ds).get =
      (program.b + Vec.scale τ db).get
    simp only [Vec.get_add, Vec.get_scale, mulVec_add, mulVec_smul]
    rw [← primal, ← optimal.primal, smul_add]
    abel
  · show program.A.matrixᵀ *ᵥ (point.y + Vec.scale τ d.dy).get + (program.c + Vec.scale τ dc).get = 0
    simp only [Vec.get_add, Vec.get_scale, mulVec_add, mulVec_smul]
    calc
      _ = (program.A.matrixᵀ *ᵥ point.y.get + program.c.get) +
          τ • (program.A.matrixᵀ *ᵥ d.dy.get + dc.get) := by
        rw [smul_add]
        abel
      _ = 0 := by rw [optimal.dual, dual, smul_zero, add_zero]
  · show ∀ block ∈ program.blocks, ∀ cone, block.kind = .cone cone →
      ∀ i, (block.span program.rows).Contains i →
        cone.Complementary ((point.s + Vec.scale τ d.ds) i) ((point.y + Vec.scale τ d.dy) i)
    simp only [Vec.add_apply, Vec.scale_apply]
    exact rows

/-- The largest number below two bounds. -/
noncomputable abbrev leastBound : Program ℝ where
  A := (Sparse.identity 1).above (.identity 1)
  b := #v[1, 1 + 1]
  c := #v[-1]
  blocks := [⟨.cone .nonnegative, 2, 0, 2⟩]
  tiling := rfl

noncomputable def leastBoundPoint : Point ℝ leastBound.rows leastBound.cols :=
  ⟨#v[1], #v[1, 0], #v[0, 1]⟩

theorem leastBound_matrix : leastBound.A.matrix = of fun _ _ => 1 := by
  have single (i j : Fin 1) : (Sparse.identity 1).matrix i j = (1 : ℝ) := by
    rw [Sparse.matrix_identity, Subsingleton.elim i j, one_apply_eq]
  funext i j
  cases i using Fin.addCases (m := 1) (n := 1) with
  | left i => exact (Sparse.matrix_above_castAdd ..).trans (single i j)
  | right i => exact (Sparse.matrix_above_natAdd ..).trans (single i j)

theorem leastBound_direction : (leastBoundPoint.y - leastBoundPoint.s).get = ![1, -1] := by
  rw [Vec.get_sub, leastBoundPoint, Vec.get_pair, Vec.get_pair]
  funext i
  fin_cases i <;> simp

theorem leastBound_polyhedral : ∀ block ∈ leastBound.blocks, block.IsPolyhedral := by
  intro block listed
  rw [List.mem_singleton.1 listed]
  exact ⟨.nonnegative, rfl, .nonnegative⟩

theorem leastBound_optimal : leastBound.IsOptimal leastBoundPoint := by
  refine (isOptimal_iff_rows leastBound_polyhedral).2 ⟨?_, ?_, ?_⟩
  · rw [leastBound_matrix, leastBoundPoint, Vec.get_pair, Vec.get_single]
    funext i
    fin_cases i <;> simp
  · rw [leastBound_matrix, leastBoundPoint, Vec.get_pair, Vec.get_single]
    funext j
    fin_cases j
    simp [mulVec, dotProduct]
  · intro block listed cone kind i _
    rw [List.mem_singleton.1 listed] at kind
    cases kind
    rw [leastBoundPoint, Vec.get_pair, Vec.get_pair]
    refine ⟨Cone.allows_nonnegative.2 ?_, Cone.allows_nonnegative.2 ?_, ?_⟩ <;> fin_cases i <;> simp

end Program

end ConicDerivative
