import ConicDerivative.Proofs.AcceptedSizes
import ConicDerivative.Proofs.Regularity

/-!
The forms of one system beside each other. Where the derivative of the projection has a matrix, every
form of the system is built, and no use tells two forms apart. An empty semidefinite block has no
matrix: it keeps the system from being assembled, while the form that assembles nothing is built.
-/

namespace ConicDerivative

open Scalar Matrix Outcomes

variable {m n : Nat}

theorem Cone.hasMatrix_dual {cone : Cone} {k : Nat} : cone.dual.HasMatrix k ↔ cone.HasMatrix k := by
  cases cone <;> rfl

namespace Block

variable {blocks : List Block}

def HaveSides (blocks : List Block) : Prop :=
  ∀ block ∈ blocks, block.kind = .cone .semidefinite →
    block.size ≠ 0 ∧ block.size = Packed.triangle (packedSide block.size.toNat)

theorem haveSides_iff (tiling : checkTiling blocks n = .ok ()) (small : n < 2 ^ 53) :
    HaveSides blocks ↔ ∀ block ∈ blocks, block.kind = .cone .semidefinite → block.size ≠ 0 := by
  constructor
  · intro sides block listed kind
    exact (sides block listed kind).1
  · intro nonempty block listed kind
    refine ⟨nonempty block listed kind, ?_⟩
    rw [size_eq_span tiling listed, Int.toNat_natCast]
    exact congrArg Nat.cast (size_eq_triangle tiling small listed kind)

theorem hasMatrix_iff (tiling : checkTiling blocks n = .ok ()) (dual : Bool) :
    (∀ block ∈ blocks, ∃ cone, block.kind.target dual = .ok cone ∧
      cone.HasMatrix (block.span n).size) ↔ HaveHeads blocks ∧ HaveSides blocks := by
  refine Iff.trans (forall₂_congr fun block listed => ?_) forall₂_and
  obtain ⟨cone, kind⟩ := exists_cone tiling listed
  rw [exists_target_iff Cone.hasMatrix_dual kind, kind, size_eq_span tiling listed,
    Int.toNat_natCast]
  cases cone <;> simp [Cone.HasMatrix]

end Block

namespace ProductCone

variable [EigenSolver ℝ] {blocks : List Block}

theorem exists_matrix_iff_haveSides [LawfulEigenSolver] (tiling : Block.checkTiling blocks n = .ok ())
    (heads : Block.HaveHeads blocks) (v : Vector ℝ n) (dual : Bool) :
    (∃ D : Sparse ℝ n n, derivativeMatrix blocks v dual = .ok ⟨D⟩) ↔ Block.HaveSides blocks := by
  rw [exists_derivativeMatrix_iff tiling, Block.hasMatrix_iff tiling, and_iff_right heads]

/-- On the rows of each block a map is the derivative of the block, and so is its transpose. -/
def ActsBlockwise (blocks : List Block) (v : Vector ℝ n) (dual : Bool) (D : Operator ℝ n n) : Prop :=
  ∀ block ∈ blocks, ∃ P, block.derivative v dual = .ok P ∧ ∀ dx,
    Vec.slice (D.apply dx) (block.span n) = P.apply (Vec.slice dx (block.span n)) ∧
    Vec.slice (D.adjoint dx) (block.span n) = P.adjoint (Vec.slice dx (block.span n))

def DerivativesAgree (blocks : List Block) (v : Vector ℝ n) (dual : Bool) : Prop :=
  ∃ (D : Operator ℝ n n) (S : Sparse ℝ n n), derivative blocks v dual = .ok ⟨D⟩ ∧
    derivativeMatrix blocks v dual = .ok ⟨S⟩ ∧ D.Represents S.matrix ∧
    ActsBlockwise blocks v dual D

theorem actsBlockwise {v : Vector ℝ n} {dual : Bool} {D : Operator ℝ n n}
    (tiling : Block.checkTiling blocks n = .ok ())
    (success : derivative blocks v dual = .ok ⟨D⟩) : ActsBlockwise blocks v dual D := by
  obtain ⟨E, same, slices⟩ := derivative_slices tiling success
  cases same
  intro block listed
  obtain ⟨P, single, _⟩ := slices v v block listed
  refine ⟨P, single, ?_⟩
  intro dx
  obtain ⟨P', single', images⟩ := slices dx dx block listed
  cases single.symm.trans single'
  exact images

theorem derivativesAgree {v : Vector ℝ n} {dual : Bool} {S : Sparse ℝ n n}
    (tiling : Block.checkTiling blocks n = .ok ())
    (success : derivativeMatrix blocks v dual = .ok ⟨S⟩) : DerivativesAgree blocks v dual := by
  have map := derivative_of_derivativeMatrix success
  exact ⟨_, S, map, success, Operator.represents_ofSparse S, actsBlockwise tiling map⟩

end ProductCone

/-- One system multiplies with the matrix of the other, and the two take solutions to the same. -/
structure OptimalitySystem.Agrees (system other : OptimalitySystem ℝ m n) : Prop where
  jacobian : system.jacobian.toOperator.Represents other.jacobian.toMat.matrix
  recover : ∀ dz, system.recover dz = other.recover dz
  recoverAdjoint : ∀ target, system.recoverAdjoint target = other.recoverAdjoint target

namespace Program

section

variable {α : Type} [Scalar α] [EigenSolver α] {program : Program α}
  {point : Point α program.rows program.cols} {form : Form}
  {system : OptimalitySystem α program.rows program.cols}

theorem exists_matrix_of_systemAt (assembled : form ≠ .operator)
    (built : program.systemAt point form = .ok system) :
    ∃ D : Sparse α program.rows program.rows,
      ProductCone.derivativeMatrix program.blocks (point.y - point.s) true = .ok ⟨D⟩ := by
  cases form with
  | operator => exact absurd rfl assembled
  | sparse | dense =>
    obtain ⟨sized, derived, rest⟩ := bind_eq_ok.1 built
    obtain ⟨D, shaped, _⟩ := bind_eq_ok.1 rest
    exact ⟨D, Sized.expect_eq_ok.1 shaped ▸ derived⟩

theorem exists_systemAt_assembled (assembled : form ≠ .operator)
    {D : Sparse α program.rows program.rows}
    (derived : ProductCone.derivativeMatrix program.blocks (point.y - point.s) true = .ok ⟨D⟩) :
    ∃ system, program.systemAt point form = .ok system := by
  have shaped : (Sized.expect ⟨D⟩ program.rows program.rows : Outcome α _) = .ok D :=
    Sized.expect_eq_ok.2 rfl
  cases form with
  | operator => exact absurd rfl assembled
  | sparse | dense => exact ⟨_, bind_eq_ok.2 ⟨_, derived, bind_eq_ok.2 ⟨D, shaped, rfl⟩⟩⟩

theorem exists_map_of_systemAt (built : program.systemAt point .operator = .ok system) :
    ∃ D : Operator α program.rows program.rows,
      ProductCone.derivative program.blocks (point.y - point.s) true = .ok ⟨D⟩ := by
  obtain ⟨sized, derived, rest⟩ := bind_eq_ok.1 built
  obtain ⟨D, shaped, _⟩ := bind_eq_ok.1 rest
  exact ⟨D, Sized.expect_eq_ok.1 shaped ▸ derived⟩

theorem exists_systemAt_operator {D : Operator α program.rows program.rows}
    (derived : ProductCone.derivative program.blocks (point.y - point.s) true = .ok ⟨D⟩) :
    ∃ system, program.systemAt point .operator = .ok system :=
  ⟨_, bind_eq_ok.2 ⟨_, derived, bind_eq_ok.2 ⟨D, Sized.expect_eq_ok.2 rfl, rfl⟩⟩⟩

end

section

variable [EigenSolver ℝ]

/-- Every form of the system is built, any two agree, and so do the derivatives anywhere. -/
structure FormsAgree (program : Program ℝ) (point : Point ℝ program.rows program.cols) : Prop where
  systems : ∀ form form', ∃ system system', program.systemAt point form = .ok system ∧
    program.systemAt point form' = .ok system' ∧ system.Agrees system'
  derivatives : ∀ v dual, ProductCone.DerivativesAgree program.blocks (n := program.rows) v dual

variable {program : Program ℝ} {point : Point ℝ program.rows program.cols} {form form' : Form}
  {system system' : OptimalitySystem ℝ program.rows program.cols}

theorem systemAt_agrees (built : program.systemAt point form = .ok system)
    (built' : program.systemAt point form' = .ok system') : system.Agrees system' := by
  obtain ⟨_, derived, jacobian⟩ := systemAt_ok built
  obtain ⟨_, derived', jacobian'⟩ := systemAt_ok built'
  have represents := Jacobian.represents_toMat (jacobian_isAdjoint built')
  obtain ⟨_, J, D⟩ := system
  obtain ⟨_, J', D'⟩ := system'
  cases derived.symm.trans derived'
  rw [jacobian', ← jacobian] at represents
  exact ⟨represents, fun _ => rfl, fun _ => rfl⟩

theorem formsAgree_iff_haveSides [LawfulEigenSolver] (heads : Block.HaveHeads program.blocks) :
    program.FormsAgree point ↔ Block.HaveSides program.blocks := by
  have assembled := ProductCone.exists_matrix_iff_haveSides program.tiling heads
  constructor
  · intro agree
    -- Only a form that is assembled tells; the operator form is built in any case.
    obtain ⟨system, _, built, _⟩ := agree.systems .sparse .sparse
    exact (assembled _ true).1 (exists_matrix_of_systemAt (by decide) built)
  · intro sides
    constructor
    · intro form form'
      obtain ⟨D, derived⟩ := (assembled (point.y - point.s) true).2 sides
      obtain ⟨system, built⟩ := exists_systemAt derived form
      obtain ⟨system', built'⟩ := exists_systemAt derived form'
      exact ⟨system, system', built, built', systemAt_agrees built built'⟩
    · intro v dual
      obtain ⟨D, derived⟩ := (assembled v dual).2 sides
      exact ProductCone.derivativesAgree program.tiling derived

/--
The forms agree at a point just if every semidefinite block has a matrix with rows. For fewer than
`2 ^ 53` rows, where no size is rounded, an empty semidefinite block is all that sets them apart.
-/
theorem formsAgree_iff [LawfulEigenSolver] (program : Program ℝ)
    (point : Point ℝ program.rows program.cols) (heads : Block.HaveHeads program.blocks) :
    (program.FormsAgree point ↔ Block.HaveSides program.blocks) ∧
      (program.rows < 2 ^ 53 → (program.FormsAgree point ↔
        ∀ block ∈ program.blocks, block.kind = .cone .semidefinite → block.size ≠ 0)) := by
  refine ⟨formsAgree_iff_haveSides heads, ?_⟩
  intro small
  rw [formsAgree_iff_haveSides heads, Block.haveSides_iff program.tiling small]

end

noncomputable abbrev threeBounds : Program ℝ where
  A := (Sparse.identity 1).above ((Sparse.identity 1).above (.identity 1))
  b := .replicate 3 1
  c := .replicate 1 (-1)
  blocks := [⟨.cone .nonnegative, 1, 0, 1⟩, ⟨.cone .secondOrder, 1, 1, 2⟩,
    ⟨.cone .semidefinite, 1, 2, 3⟩]
  tiling := by
    have triangular : Kind.rowCount (.cone .semidefinite) 1 = .ok 1 :=
      rowCount_triangle (d := 1) (by decide)
    refine Block.checkTiling_ok.2 ?_
    simp only [Block.checkFrom_cons_ok]
    exact ⟨trivial, by decide, rfl, trivial, by decide, rfl, trivial, by decide, triangular, rfl⟩

theorem formsAgree_of_threeBounds : threeBounds.FormsAgree ⟨#v[1], #v[1, 0, 0], #v[0, 0, 0]⟩ := by
  have heads : Block.HaveHeads threeBounds.blocks := by decide
  refine ((formsAgree_iff threeBounds _ heads).2 (by decide)).2 ?_
  decide

noncomputable abbrev emptySide : Program ℝ where
  A := .identity 1
  b := .replicate 1 1
  c := .replicate 1 (-1)
  blocks := [⟨.cone .nonnegative, 1, 0, 1⟩, ⟨.cone .semidefinite, 0, 1, 1⟩]
  tiling := by
    have triangular : Kind.rowCount (.cone .semidefinite) 0 = .ok 0 :=
      rowCount_triangle (d := 0) (by decide)
    refine Block.checkTiling_ok.2 ?_
    simp only [Block.checkFrom_cons_ok]
    exact ⟨trivial, by decide, rfl, trivial, by decide, triangular, rfl⟩

theorem emptySide_forms_differ : Block.HaveHeads emptySide.blocks ∧
    (∃ system, emptySide.systemAt ⟨#v[1], #v[1], #v[0]⟩ .operator = .ok system) ∧
    ∀ form system, form ≠ .operator →
      emptySide.systemAt ⟨#v[1], #v[1], #v[0]⟩ form ≠ .ok system := by
  have heads : Block.HaveHeads emptySide.blocks := by decide
  refine ⟨heads, ?_, ?_⟩
  · have accepted := Block.exists_target emptySide.tiling heads (by decide) true
    obtain ⟨D, derived⟩ := ProductCone.exists_derivative emptySide.tiling accepted
    exact exists_systemAt_operator derived
  · intro form system assembled built
    have matrix := exists_matrix_of_systemAt assembled built
    rw [ProductCone.exists_matrix_iff_haveSides emptySide.tiling heads,
      Block.haveSides_iff emptySide.tiling (by decide)] at matrix
    exact matrix _ (List.mem_cons_of_mem _ List.mem_cons_self) rfl rfl

end Program

end ConicDerivative
