import ConicDerivative.Proofs.ResidualLaws
import ConicDerivative.Proofs.SystemForms

/-!
Which programs can be used once they are made. Given eigenvectors of every finite symmetric matrix,
all that can still go wrong with a finite point lies in the sizes of the blocks: a second-order block
needs a first row, a semidefinite one as many rows as a triangle, and to be assembled at least one of
them. The check of the blocks does not ask for first rows; a table never lacks them.
-/

namespace ConicDerivative

open Scalar Packed Outcomes

variable {α : Type} [Scalar α] {k n : Nat}

/-- The solver decomposes every finite symmetric matrix. -/
def EigenSolver.IsTotal (α : Type) [Scalar α] [EigenSolver α] : Prop :=
  ∀ (d : Nat) (X : Mat α d d), X.allFinite → (∀ i j, X i j = X j i) →
    ∃ eigen, EigenSolver.decompose X = some eigen

theorem EigenSolver.isTotal_real [EigenSolver ℝ] [LawfulEigenSolver] : IsTotal ℝ := by
  intro d X _ symm
  have symm : X.matrix.IsSymm := Matrix.ext fun i j => symm j i
  obtain ⟨eigen, solved, _⟩ := LawfulEigenSolver.decompose_symm X symm
  exact ⟨eigen, solved⟩

theorem Packed.unpack_comm {d : Nat} (x : Vector α (triangle d)) (i j : Fin d) :
    unpack d x i j = unpack d x j i := by
  rw [unpack, Mat.ofFn_apply, Mat.ofFn_apply, place_comm i j]
  simp only [eq_comm]

namespace Semidefinite

def IsFinite (x : Vector α k) : Prop :=
  ∀ size_eq : k = triangle (packedSide k), (unpack (packedSide k) (x.cast size_eq)).allFinite

theorem IsFinite.solvable [EigenSolver α] (total : EigenSolver.IsTotal α) {x : Vector α k}
    (finite : IsFinite x) : Solvable x :=
  fun size_eq => total _ _ (finite size_eq) (unpack_comm _)

end Semidefinite

namespace Block

variable {blocks : List Block} {block : Block} {cone : Cone} {dual : Bool}

/-- Every semidefinite block has a row. -/
def HaveCorners (blocks : List Block) : Prop :=
  ∀ block ∈ blocks, block.kind = .cone .semidefinite → block.size ≠ 0

/-- Every semidefinite block has as many rows as the triangle of the side that they tell. -/
def HaveTriangles (blocks : List Block) : Prop :=
  ∀ block ∈ blocks, block.kind = .cone .semidefinite →
    block.size = triangle (packedSide block.size.toNat)

theorem haveSides_iff_corners : HaveSides blocks ↔ HaveCorners blocks ∧ HaveTriangles blocks := by
  constructor
  · intro sides
    exact ⟨fun block listed kind => (sides block listed kind).1,
      fun block listed kind => (sides block listed kind).2⟩
  · rintro ⟨corners, triangles⟩ block listed kind
    exact ⟨corners block listed kind, triangles block listed kind⟩

theorem haveTriangles (tiling : checkTiling blocks n = .ok ()) (small : n < 2 ^ 53) :
    HaveTriangles blocks := by
  intro block listed kind
  rw [size_eq_span tiling listed, Int.toNat_natCast]
  exact congrArg Nat.cast (size_eq_triangle tiling small listed kind)

theorem size_ne_zero (counted : block.kind.rowCount block.dim = .ok block.size)
    (positive : 0 < block.dim) : block.size ≠ 0 := by
  intro empty
  obtain ⟨cone, kind⟩ := Kind.exists_cone counted
  rw [empty, kind] at counted
  cases cone with
  | semidefinite =>
    have counted : Kind.rowCount (.cone .semidefinite) block.dim = .ok (0 : Nat) := counted
    exact packedSize_ne_zero (packedSize_of_rowCount counted) positive rfl
  | zero | free | nonnegative | secondOrder =>
    have none : block.dim = 0 := Except.ok.inj counted
    omega

theorem accepts_iff (tiling : checkTiling blocks n = .ok ()) (dual : Bool) :
    (∀ block ∈ blocks, ∃ cone, block.kind.target dual = .ok cone ∧
      cone.Accepts (block.span n).size) ↔ HaveHeads blocks ∧ HaveTriangles blocks := by
  refine Iff.trans (forall₂_congr fun block listed => ?_) forall₂_and
  obtain ⟨cone, kind⟩ := exists_cone tiling listed
  rw [exists_target_iff Cone.accepts_dual kind, kind, size_eq_span tiling listed, Int.toNat_natCast]
  cases cone <;> simp [Cone.Accepts]

theorem heads_and_corners {table : ConeTable} (laid : table.blocks = .ok blocks)
    (tiling : checkTiling blocks n = .ok ()) : HaveHeads blocks ∧ HaveCorners blocks := by
  have rows : ∀ block ∈ blocks, block.size ≠ 0 := fun block listed =>
    size_ne_zero (rowCount_of_checkFrom (checkTiling_ok.1 tiling) block listed)
      (ConeTable.dim_pos_of_blocks laid listed)
  exact ⟨fun block listed _ => rows block listed, fun block listed _ => rows block listed⟩

end Block

namespace ProductCone

variable [EigenSolver α] {blocks : List Block} {x : Vector α n} {dual : Bool}

def Solvable (blocks : List Block) (x : Vector α n) : Prop :=
  ∀ block ∈ blocks, block.kind = .cone .semidefinite →
    Semidefinite.Solvable (Vec.slice x (block.span n))

theorem Solvable.slice (solvable : Solvable blocks x) {block : Block} (listed : block ∈ blocks)
    {cone : Cone} (named : block.kind.target dual = .ok cone) :
    cone = .semidefinite → Semidefinite.Solvable (Vec.slice x (block.span n)) := by
  rintro rfl
  refine solvable block listed ?_
  cases kind : block.kind with
  | cone own =>
    rw [kind] at named
    cases own <;> cases dual <;> first | rfl | cases named
  | other | literal | unnamed =>
    rw [kind] at named
    cases named

variable (tiling : Block.checkTiling blocks n = .ok ()) (solvable : Solvable blocks x) (dual)

include tiling solvable

theorem exists_project_iff_sizes : (∃ p, project blocks x dual = .ok p) ↔
    Block.HaveHeads blocks ∧ Block.HaveTriangles blocks := by
  rw [exists_project_iff_blocks tiling, ← Block.accepts_iff tiling dual]
  refine forall₂_congr fun block listed => ?_
  simp only [Block.project_eq_ok]
  rw [exists_comm]
  refine exists_congr fun cone => ?_
  rw [exists_and_left]
  exact and_congr_right fun named =>
    Cone.exists_project_iff_of_solvable (solvable.slice listed named)

theorem exists_derivative_iff_sizes : (∃ D : Operator α n n, derivative blocks x dual = .ok ⟨D⟩) ↔
    Block.HaveHeads blocks ∧ Block.HaveTriangles blocks := by
  rw [exists_derivative_iff_blocks tiling, ← Block.accepts_iff tiling dual]
  refine forall₂_congr fun block listed => ?_
  simp only [Block.derivative_eq_ok]
  rw [exists_comm]
  refine exists_congr fun cone => ?_
  rw [exists_and_left]
  exact and_congr_right fun named =>
    Cone.exists_derivative_iff_of_solvable (solvable.slice listed named)

theorem exists_derivativeMatrix_iff_sizes :
    (∃ D : Sparse α n n, derivativeMatrix blocks x dual = .ok ⟨D⟩) ↔
      Block.HaveHeads blocks ∧ Block.HaveSides blocks := by
  rw [exists_derivativeMatrix_iff_blocks tiling, ← Block.hasMatrix_iff tiling dual]
  refine forall₂_congr fun block listed => ?_
  simp only [Block.derivativeMatrix_eq_ok]
  rw [exists_comm]
  refine exists_congr fun cone => ?_
  rw [exists_and_left]
  exact and_congr_right fun named =>
    Cone.exists_derivativeMatrix_iff_of_solvable (solvable.slice listed named)

end ProductCone

namespace Program

theorem blocks_of_ofData {A : Data α} {b c : Tensor α} {layout : Layout} {program : Program α}
    (success : ofData A b c layout = .ok program) : layout.blocks = .ok program.blocks := by
  obtain ⟨A, _, rest⟩ := bind_eq_ok.1 success
  obtain ⟨b, _, rest⟩ := bind_eq_ok.1 rest
  obtain ⟨c, _, rest⟩ := bind_eq_ok.1 rest
  obtain ⟨blocks, laid, rest⟩ := lift_bind_eq_ok.1 rest
  split at rest
  · cases rest
    exact laid
  · cases rest

section

variable [EigenSolver α]

/-- The matrices of the semidefinite blocks are finite, in the slacks, the prices and between them. -/
structure HasFiniteMatrices (program : Program α) (point : Point α program.rows program.cols) :
    Prop where
  slack : ∀ block ∈ program.blocks, block.kind = .cone .semidefinite →
    Semidefinite.IsFinite (Vec.slice point.s (block.span program.rows))
  price : ∀ block ∈ program.blocks, block.kind = .cone .semidefinite →
    Semidefinite.IsFinite (Vec.slice point.y (block.span program.rows))
  difference : ∀ block ∈ program.blocks, block.kind = .cone .semidefinite →
    Semidefinite.IsFinite (Vec.slice (point.y - point.s) (block.span program.rows))

variable {program : Program α} {point : Point α program.rows program.cols}
  (total : EigenSolver.IsTotal α) (finite : program.HasFiniteMatrices point)

include total finite

theorem exists_residuals_iff_sizes : (∃ r, program.residuals point = .ok r) ↔
    Block.HaveHeads program.blocks ∧ Block.HaveTriangles program.blocks := by
  have slack : ProductCone.Solvable program.blocks point.s := fun block listed kind =>
    (finite.slack block listed kind).solvable total
  have price : ProductCone.Solvable program.blocks point.y := fun block listed kind =>
    (finite.price block listed kind).solvable total
  rw [exists_residuals_iff, ProductCone.exists_project_iff_sizes false program.tiling slack,
    ProductCone.exists_project_iff_sizes true program.tiling price, and_self]

theorem exists_systemAt_iff_sizes (form : Form) :
    (∃ system, program.systemAt point form = .ok system) ↔
      Block.HaveHeads program.blocks ∧ Block.HaveTriangles program.blocks ∧
        (form = .operator ∨ Block.HaveCorners program.blocks) := by
  have solvable : ProductCone.Solvable program.blocks (point.y - point.s) :=
    fun block listed kind => (finite.difference block listed kind).solvable total
  have map := ProductCone.exists_derivative_iff_sizes true program.tiling solvable
  have matrix := ProductCone.exists_derivativeMatrix_iff_sizes true program.tiling solvable
  rw [Block.haveSides_iff_corners] at matrix
  by_cases mapped : form = .operator
  · subst mapped
    simp only [true_or, and_true, ← map]
    exact ⟨fun ⟨_, built⟩ => exists_map_of_systemAt built,
      fun ⟨_, derived⟩ => exists_systemAt_operator derived⟩
  · simp only [mapped, false_or, ← and_comm (a := Block.HaveCorners program.blocks), ← matrix]
    exact ⟨fun ⟨_, built⟩ => exists_matrix_of_systemAt mapped built,
      fun ⟨_, derived⟩ => exists_systemAt_assembled mapped derived⟩

end

/--
Residuals are returned just if every second-order block has a first row and every semidefinite one
the size of a triangle. So is the system in the form that assembles nothing; the other forms also
need a row in every semidefinite block. Below `2 ^ 53` rows every size is that of a triangle, and for
a program made from a table all of them are returned.
-/
theorem checks_suffice_iff [EigenSolver α] (program : Program α)
    (point : Point α program.rows program.cols) (total : EigenSolver.IsTotal α)
    (finite : program.HasFiniteMatrices point) :
    ((∃ r, program.residuals point = .ok r) ↔
      Block.HaveHeads program.blocks ∧ Block.HaveTriangles program.blocks) ∧
    (∀ form, (∃ system, program.systemAt point form = .ok system) ↔
      Block.HaveHeads program.blocks ∧ Block.HaveTriangles program.blocks ∧
        (form = .operator ∨ Block.HaveCorners program.blocks)) ∧
    (program.rows < 2 ^ 53 → Block.HaveTriangles program.blocks ∧
      ∀ A b c table, ofData A b c (.table table) = .ok program →
        (∃ r, program.residuals point = .ok r) ∧
          ∀ form, ∃ system, program.systemAt point form = .ok system) := by
  have residuals := exists_residuals_iff_sizes total finite
  have systems := exists_systemAt_iff_sizes total finite
  refine ⟨residuals, systems, ?_⟩
  intro small
  have triangles := Block.haveTriangles program.tiling small
  refine ⟨triangles, ?_⟩
  intro A b c table made
  obtain ⟨heads, corners⟩ := Block.heads_and_corners (blocks_of_ofData made) program.tiling
  exact ⟨residuals.2 ⟨heads, triangles⟩, fun form => (systems form).2 ⟨heads, triangles, .inr corners⟩⟩

theorem hasFiniteMatrices_real (program : Program ℝ) (point : Point ℝ program.rows program.cols) :
    program.HasFiniteMatrices point := by
  have finite {k : Nat} (x : Vector ℝ k) : Semidefinite.IsFinite x := fun _ => Mat.allFinite_real _
  exact ⟨fun _ _ _ => finite _, fun _ _ _ => finite _, fun _ _ _ => finite _⟩

theorem checks_suffice_of_threeBounds :
    (∃ r, threeBounds.residuals ⟨#v[1], #v[1, 0, 0], #v[0, 0, 0]⟩ = .ok r) ∧
      ∀ form, ∃ system,
        threeBounds.systemAt ⟨#v[1], #v[1, 0, 0], #v[0, 0, 0]⟩ form = .ok system := by
  obtain ⟨residuals, systems, small⟩ := checks_suffice_iff threeBounds
    ⟨#v[1], #v[1, 0, 0], #v[0, 0, 0]⟩ EigenSolver.isTotal_real (hasFiniteMatrices_real _ _)
  have heads : Block.HaveHeads threeBounds.blocks := by decide
  have corners : Block.HaveCorners threeBounds.blocks := by
    unfold Block.HaveCorners
    decide
  obtain ⟨triangles, _⟩ := small (by decide)
  exact ⟨residuals.2 ⟨heads, triangles⟩, fun form => (systems form).2 ⟨heads, triangles, .inr corners⟩⟩

noncomputable abbrev emptyHead : Program ℝ where
  A := .identity 1
  b := .replicate 1 1
  c := .replicate 1 (-1)
  blocks := [⟨.cone .nonnegative, 1, 0, 1⟩, ⟨.cone .secondOrder, 0, 1, 1⟩]
  tiling := rfl

noncomputable def emptyHeadPoint : Point ℝ 1 1 :=
  ⟨.replicate 1 1, .replicate 1 1, .replicate 1 0⟩

/-- Neither residuals nor a system in any form is returned. -/
theorem emptyHead_returns_nothing : (∀ r, emptyHead.residuals emptyHeadPoint ≠ .ok r) ∧
    ∀ form system, emptyHead.systemAt emptyHeadPoint form ≠ .ok system := by
  have headless : ¬Block.HaveHeads emptyHead.blocks := by decide
  have finite := hasFiniteMatrices_real emptyHead emptyHeadPoint
  constructor
  · intro r success
    exact headless ((exists_residuals_iff_sizes EigenSolver.isTotal_real finite).1 ⟨r, success⟩).1
  · intro form system built
    exact headless
      ((exists_systemAt_iff_sizes EigenSolver.isTotal_real finite form).1 ⟨system, built⟩).1

end Program

end ConicDerivative
