import ConicDerivative.RandomProgram
import ConicDerivative.Proofs.GivenChanges
import ConicDerivative.Proofs.ResidualLaws
import ConicDerivative.Proofs.TableBlocks

/-!
Random programs over the real numbers. Whatever numbers are drawn, the program that comes out can be
read as one, and its point is an optimal point of it: the slacks and the prices are the two parts
into which a projection splits a vector, and the right-hand side and the costs are chosen to fit.
-/

namespace ConicDerivative

open Scalar Matrix Outcomes

variable {m n : Nat}

theorem Sparse.hasNaN_real (A : Sparse ℝ m n) : A.hasNaN = false := by
  simp [hasNaN, isNaN]

namespace Tensor

variable {α : Type}

theorem toColumn_ofVector (field : Field) (x : Vector α n) :
    toColumn field (ofVector x) = .ok ⟨x⟩ := rfl

theorem expect_ofVector (field : Field) (x : Vector α n) : expect field n (ofVector x) = .ok x := by
  simp only [expect, toVector?_ofVector]

end Tensor

theorem Point.ofTensors_ok {α : Type} (point : Point α m n) :
    ofTensors (.ofVector point.x) (.ofVector point.y) (.ofVector point.s) = .ok ⟨point⟩ := by
  refine bind_eq_ok.2 ⟨_, Tensor.toColumn_ofVector .x point.x, bind_eq_ok.2
    ⟨_, Tensor.toColumn_ofVector .y point.y, bind_eq_ok.2
      ⟨_, Tensor.toColumn_ofVector .s point.s, bind_eq_ok.2
        ⟨_, Tensor.expect_ofVector .s point.s, rfl⟩⟩⟩⟩

namespace Program

section

variable {α : Type} [Scalar α]

theorem matrixOf_ofSparse {A : Sparse α m n} (clean : A.hasNaN = false) :
    matrixOf (.sparse m n (.ofSparse A)) = .ok ⟨A.sumDuplicates.dropZeros⟩ := by
  have read : (Data.sparse m n (.ofSparse A)).toSparse = (.ok ⟨A⟩ : Outcome α _) :=
    congrArg (fun A : Sparse α m n => Except.ok (⟨A⟩ : Sized (Sparse α)))
      (Stored.toSparse_ofSparse A)
  refine bind_eq_ok.2 ⟨_, read, ?_⟩
  rw [clean]
  rfl

omit [Scalar α] in
theorem vectorOf_ofVector (field : Field) (x : Vector α n) :
    vectorOf field n (.ofVector x) = .ok x :=
  bind_eq_ok.2 ⟨_, Tensor.toColumn_ofVector field x, Tensor.expect_ofVector field x⟩

theorem ofData_of_clean {A : Sparse α m n} (clean : A.hasNaN = false) (b : Vector α m)
    (c : Vector α n) {layout : Layout} {blocks : List Block} (laid : layout.blocks = .ok blocks)
    (tiling : Block.checkTiling blocks m = .ok ()) :
    ofData (.sparse m n (.ofSparse A)) (.ofVector b) (.ofVector c) layout =
      .ok ⟨A.sumDuplicates.dropZeros, b, c, blocks, tiling⟩ := by
  refine bind_eq_ok.2 ⟨_, matrixOf_ofSparse clean, bind_eq_ok.2 ⟨_, vectorOf_ofVector .b b,
    bind_eq_ok.2 ⟨_, vectorOf_ofVector .c c, lift_bind_eq_ok.2 ⟨_, laid, ?_⟩⟩⟩⟩
  split
  · rfl
  · next failed =>
    rw [tiling] at failed
    cases failed

end

theorem ofData_ok (A : Sparse ℝ m n) (b : Vector ℝ m) (c : Vector ℝ n) {layout : Layout}
    {blocks : List Block} (laid : layout.blocks = .ok blocks)
    (tiling : Block.checkTiling blocks m = .ok ()) :
    ofData (.sparse m n (.ofSparse A)) (.ofVector b) (.ofVector c) layout =
      .ok ⟨A.sumDuplicates.dropZeros, b, c, blocks, tiling⟩ :=
  ofData_of_clean A.hasNaN_real b c laid tiling

end Program

namespace RandomProgram

section

variable [EigenSolver ℝ] {blocks : List Block} {numbers : Nat → ℝ}

theorem draw_ok {tries used : Nat} {drawn : Sized (RandomProgram ℝ)}
    (success : draw blocks m numbers tries used = .ok drawn) :
    ∃ (count : Nat) (z : Vector ℝ m) (used : Nat) (program : RandomProgram ℝ m count),
      0 < count ∧ ofDraws blocks count z numbers used = .ok program ∧ drawn = ⟨program⟩ := by
  induction tries generalizing used with
  | zero => cases success
  | succ tries ih =>
    obtain ⟨count, _, rest⟩ := bind_eq_ok.1 success
    split_ifs at rest with positive
    · obtain ⟨program, made, joined⟩ := bind_eq_ok.1 rest
      exact ⟨count.toNat, _, _, program, by omega, made, (pure_eq_ok.1 joined).symm⟩
    · exact ih rest

theorem ofDraws_ok {z : Vector ℝ m} {used : Nat} {drawn : RandomProgram ℝ m n}
    (success : ofDraws blocks n z numbers used = .ok drawn) :
    ProductCone.project blocks z false = .ok drawn.point.s ∧ drawn.point.y = drawn.point.s - z ∧
      drawn.b = drawn.A.mulVec drawn.point.x + drawn.point.s ∧
      drawn.c = -(drawn.A.transposeMulVec drawn.point.y) := by
  obtain ⟨s, projected, joined⟩ := bind_eq_ok.1 success
  cases pure_eq_ok.1 joined
  exact ⟨projected, rfl, rfl, rfl⟩

variable [LawfulEigenSolver]

/-- Whatever is drawn, the point of the program has no residuals. -/
theorem residuals_of_ofDraws {z : Vector ℝ m} {used : Nat} {drawn : RandomProgram ℝ m n}
    (success : ofDraws blocks n z numbers used = .ok drawn)
    (tiling : Block.checkTiling blocks m = .ok ()) :
    Program.residuals ⟨drawn.A.sumDuplicates.dropZeros, drawn.b, drawn.c, blocks, tiling⟩
      drawn.point = .ok ⟨0, 0, 0, 0, 0⟩ := by
  obtain ⟨projected, price, side, costs⟩ := ofDraws_ok success
  obtain ⟨slack, dual, right⟩ := ProductCone.project_split tiling projected
  rw [← price] at dual right
  refine Program.residuals_ok.2 ⟨_, _, slack, dual, (Program.residuals_eq_zero_iff.2 ?_).symm⟩
  refine ⟨?_, ?_, right, rfl, rfl⟩
  · show drawn.A.sumDuplicates.dropZeros.matrix *ᵥ drawn.point.x.get + drawn.point.s.get =
      drawn.b.get
    rw [Sparse.matrix_dropZeros, Sparse.matrix_sumDuplicates, side, Vec.get_add, Sparse.get_mulVec]
  · show drawn.A.sumDuplicates.dropZeros.matrixᵀ *ᵥ drawn.point.y.get + drawn.c.get = 0
    rw [Sparse.matrix_dropZeros, Sparse.matrix_sumDuplicates, costs, Vec.get_neg,
      Sparse.get_transposeMulVec, add_neg_cancel]

/--
A random program over the cones of a table has a variable. Its data are accepted as those of a
program, and its point is accepted as one of that program, of which all residuals are zero.
-/
theorem ofTable_optimal {cones : ConeTable} {tries : Int} {drawn : Sized (RandomProgram ℝ)}
    (success : ofTable cones tries numbers = .ok drawn) :
    0 < drawn.cols ∧
      Point.ofTensors (.ofVector drawn.value.point.x) (.ofVector drawn.value.point.y)
        (.ofVector drawn.value.point.s) = .ok ⟨drawn.value.point⟩ ∧
      ∃ program : Program ℝ,
        Program.ofData (.sparse drawn.rows drawn.cols (.ofSparse drawn.value.A))
          (.ofVector drawn.value.b) (.ofVector drawn.value.c) (.table cones) = .ok program ∧
        ∃ point, Point.fit ⟨drawn.value.point⟩ program.rows program.cols = .ok point ∧
          program.residuals point = .ok ⟨0, 0, 0, 0, 0⟩ := by
  obtain ⟨blocks, laid, rest⟩ := lift_bind_eq_ok.1 success
  obtain ⟨count, z, used, program, positive, made, rfl⟩ := draw_ok rest
  have tiling := ConeTable.tiling_of_blocks laid
  have laid : (Layout.table cones).blocks = .ok blocks := laid
  exact ⟨positive, Point.ofTensors_ok program.point, _, Program.ofData_ok _ _ _ laid tiling, _,
    Point.fit_mk _, residuals_of_ofDraws made tiling⟩

end

def equationAndPair : ConeTable :=
  [(.cone .zero, .integer 1), (.cone .secondOrder, .list [.integer 2])]

def equationThenPair : List Block := [⟨.cone .zero, 1, 0, 1⟩, ⟨.cone .secondOrder, 2, 1, 3⟩]

theorem blocks_equationAndPair : equationAndPair.blocks = .ok equationThenPair := rfl

/-- Three numbers, the last two of which are in the band, and ones after that. -/
noncomputable def nearDraws (i : Nat) : ℝ := if i = 2 then 1.000005 else 1

noncomputable def nearDraw : Vector ℝ 3 := Vector.ofFn fun i => nearDraws (0 + i)

theorem conditionCount_nearDraw : conditionCount equationThenPair nearDraw = .ok 1 := by
  have pair : (Vec.slice nearDraw (Block.span ⟨.cone .secondOrder, 2, 1, 3⟩ 3) : Vector ℝ 2) =
      Program.nearPair := by
    apply Vec.ext
    intro i
    rw [Vec.slice_apply, nearDraw, Vec.ofFn_apply]
    fin_cases i
    · exact (if_neg (by decide)).trans (Vec.cons_zero ..).symm
    · exact (if_pos rfl).trans (Vec.cons_succ 1 (.replicate 1 1.000005) 0).symm
  have near : SecondOrder.regionOf? Program.nearPair = some .inside :=
    congrArg some (if_pos (.inr Program.nearPair_inBand.2))
  have region : SecondOrder.regionOf? (Tensor.ofVector
      (Vec.slice nearDraw (Block.span ⟨.cone .secondOrder, 2, 1, 3⟩ 3))).entries = some .inside := by
    rw [← near, ← pair]
    rfl
  have single : Block.conditionCount ⟨.cone .secondOrder, 2, 1, 3⟩ nearDraw = .ok 0 := by
    unfold Block.conditionCount Block.conditionsOn
    dsimp only
    rw [region]
    rfl
  exact bind_eq_ok.2 ⟨_, rfl, bind_eq_ok.2 ⟨_, bind_eq_ok.2 ⟨_, single, rfl⟩, rfl⟩⟩

theorem exists_equationAndPair : ∃ drawn, ofTable equationAndPair 1 nearDraws = .ok drawn := by
  have tiling : Block.checkTiling equationThenPair 3 = .ok () :=
    ConeTable.tiling_of_blocks blocks_equationAndPair
  have heads : Block.HaveHeads equationThenPair := by decide
  have small : 3 < 2 ^ 53 := by norm_num
  obtain ⟨s, projected⟩ := (ProductCone.exists_project_iff (x := nearDraw) tiling).2
    (Block.exists_target tiling heads small false)
  have made : ofDraws equationThenPair 1 nearDraw nearDraws 3 = .ok _ :=
    bind_eq_ok.2 ⟨s, projected, rfl⟩
  exact ⟨_, lift_bind_eq_ok.2 ⟨_, blocks_equationAndPair,
    bind_eq_ok.2 ⟨1, conditionCount_nearDraw, bind_eq_ok.2 ⟨_, made, rfl⟩⟩⟩⟩

theorem ofTable_optimal_of_equationAndPair : ∃ drawn program point,
    ofTable equationAndPair 1 nearDraws = .ok drawn ∧ 0 < drawn.cols ∧
      Program.ofData (.sparse drawn.rows drawn.cols (.ofSparse drawn.value.A))
        (.ofVector drawn.value.b) (.ofVector drawn.value.c) (.table equationAndPair) = .ok program ∧
      Point.fit ⟨drawn.value.point⟩ program.rows program.cols = .ok point ∧
      program.residuals point = .ok ⟨0, 0, 0, 0, 0⟩ := by
  obtain ⟨drawn, success⟩ := exists_equationAndPair
  obtain ⟨positive, _, program, accepted, point, fits, zero⟩ := ofTable_optimal success
  exact ⟨drawn, program, point, success, positive, accepted, fits, zero⟩

end RandomProgram

end ConicDerivative
