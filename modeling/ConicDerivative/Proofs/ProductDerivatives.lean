import ConicDerivative.Proofs.ConeMaps
import ConicDerivative.Proofs.Tiling

/-!
Products of cones over the real numbers. On the rows of each block the projection is that of the
block, and the derivative acts there as the derivative of the block, so what holds of single cones
holds of products that are tiled.
-/

namespace ConicDerivative

open Scalar Outcomes

namespace Sized

variable {F : Nat → Nat → Type} {m n : Nat}

theorem exists_eq_mk (A : Sized F) (rows : A.rows = m) (cols : A.cols = n) :
    ∃ a : F m n, A = ⟨a⟩ := by
  subst rows cols
  exact ⟨A.value, rfl⟩

theorem at?_eq_some {A : Sized F} {a : F m n} : A.at? m n = some a ↔ A = ⟨a⟩ := by
  constructor
  · intro found
    unfold at? at found
    split_ifs at found with shape
    obtain ⟨b, rfl⟩ := A.exists_eq_mk shape.1 shape.2
    cases found
    rfl
  · rintro rfl
    exact at?_mk a

theorem expect_eq_ok {α : Type} {A : Sized F} {a : F m n} :
    (A.expect m n : Outcome α (F m n)) = .ok a ↔ A = ⟨a⟩ := by
  rw [expect, ← at?_eq_some]
  cases A.at? m n with
  | none => simp
  | some b => simp

end Sized

namespace Block

variable {α : Type} [Scalar α] [EigenSolver α] {n : Nat} {dual : Bool} {x : Vector α n}

theorem project_eq_ok {block : Block} {w : Vector α (block.span n).size} :
    block.project x dual = .ok w ↔ ∃ cone, block.kind.target dual = .ok cone ∧
      cone.project (Vec.slice x (block.span n)) = .ok w := lift_bind_eq_ok

theorem derivative_eq_ok {block : Block}
    {P : Operator α (block.span n).size (block.span n).size} :
    block.derivative x dual = .ok P ↔ ∃ cone, block.kind.target dual = .ok cone ∧
      cone.derivative (Vec.slice x (block.span n)) = .ok P := lift_bind_eq_ok

theorem derivativeMatrix_eq_ok {block : Block}
    {S : Sparse α (block.span n).size (block.span n).size} :
    block.derivativeMatrix x dual = .ok S ↔ ∃ cone, block.kind.target dual = .ok cone ∧
      cone.derivativeMatrix (Vec.slice x (block.span n)) = .ok S := lift_bind_eq_ok

end Block

namespace ProductCone

variable {α : Type} [Scalar α] [EigenSolver α] {n : Nat} {blocks : List Block} {dual : Bool}
  {x p start : Vector α n} {offset stop : Int}

/-- Blocks that follow one another write their own rows and leave the earlier ones alone. -/
theorem slices_of_foldlM
    (projected : blocks.foldlM (fun projection block => do
      return Vec.overwrite projection (block.span n) (← block.project x dual)) start = .ok p)
    (accepted : Block.checkFrom blocks offset = .ok stop) (nonneg : 0 ≤ offset)
    (below : stop ≤ n) :
    (∀ block ∈ blocks, block.project x dual = .ok (Vec.slice p (block.span n))) ∧
      ∀ i : Fin n, i.val < offset → p i = start i := by
  induction blocks generalizing offset start with
  | nil =>
    rw [List.foldlM_nil, pure_eq_ok] at projected
    subst projected
    exact ⟨fun block listed => absurd listed List.not_mem_nil, fun i _ => rfl⟩
  | cons block rest ih =>
    obtain ⟨next, written, projected⟩ := foldlM_cons_eq_ok.1 projected
    obtain ⟨w, single, joined⟩ := bind_eq_ok.1 written
    have joined := pure_eq_ok.1 joined
    obtain ⟨place, order, _, accepted⟩ := Block.checkFrom_cons_ok.1 accepted
    obtain ⟨last, _⟩ := Block.bounds_of_checkFrom accepted
    have above : 0 ≤ block.start := by omega
    have inside : block.stop ≤ n := by omega
    obtain ⟨first, past⟩ := Block.span_eq above order inside
    obtain ⟨later, earlier⟩ := ih projected accepted (by omega)
    constructor
    · intro other listed
      rcases List.mem_cons.1 listed with same | listed
      · subst same
        have kept : Vec.slice p (other.span n) = Vec.slice next (other.span n) := by
          apply Vec.ext
          intro i
          rw [Vec.slice_apply, Vec.slice_apply]
          have inside := (other.span n).contains_index i
          exact earlier _ (by simp only [Vec.Span.Contains] at inside; omega)
        rw [kept, ← joined, Vec.slice_overwrite, single]
      · exact later other listed
    · intro i above
      have outside : ¬(block.span n).Contains i := by
        simp only [Vec.Span.Contains]
        omega
      rw [earlier i (by omega), ← joined, Vec.overwrite_of_not_contains outside]

theorem project_slices (tiling : Block.checkTiling blocks n = .ok ())
    (projected : project blocks x dual = .ok p) :
    ∀ block ∈ blocks, block.project x dual = .ok (Vec.slice p (block.span n)) :=
  (slices_of_foldlM projected (Block.checkTiling_ok.1 tiling) le_rfl le_rfl).1

end ProductCone

namespace Block

theorem sum_shapes {α : Type} {n : Nat} {blocks : List Block} {F : Nat → Nat → Type}
    {f : ∀ block : Block, Outcome α (F (block.span n).size (block.span n).size)}
    {parts : List (Sized F)} (tiling : checkTiling blocks n = .ok ())
    (mapped : blocks.mapM (fun block => (do return ⟨← f block⟩ : Outcome α (Sized F))) = .ok parts) :
    (parts.map Sized.rows).sum = n ∧ (parts.map Sized.cols).sum = n := by
  have shapes : parts.map Sized.rows = blocks.map (fun block => (block.span n).size) ∧
      parts.map Sized.cols = blocks.map (fun block => (block.span n).size) := by
    clear tiling
    rw [mapM_eq_ok] at mapped
    induction mapped with
    | nil => exact ⟨rfl, rfl⟩
    | cons made _ ih =>
      obtain ⟨part, _, sized⟩ := bind_eq_ok.1 made
      cases pure_eq_ok.1 sized
      exact ⟨congrArg _ ih.1, congrArg _ ih.2⟩
  rw [shapes.1, shapes.2, sum_sizes tiling]
  exact ⟨rfl, rfl⟩

end Block

theorem Operator.shape_blockDiagonal {α : Type} (parts : List (Sized (Operator α))) :
    (blockDiagonal parts).rows = (parts.map Sized.rows).sum ∧
      (blockDiagonal parts).cols = (parts.map Sized.cols).sum := by
  induction parts with
  | nil => exact ⟨rfl, rfl⟩
  | cons part parts ih =>
    exact ⟨congrArg (part.rows + ·) ih.1, congrArg (part.cols + ·) ih.2⟩

theorem Sparse.shape_blockDiagonal {α : Type} [Scalar α] (parts : List (Sized (Sparse α))) :
    (blockDiagonal parts).rows = (parts.map Sized.rows).sum ∧
      (blockDiagonal parts).cols = (parts.map Sized.cols).sum := by
  induction parts with
  | nil => exact ⟨rfl, rfl⟩
  | cons part parts ih =>
    exact ⟨congrArg (part.rows + ·) ih.1, congrArg (part.cols + ·) ih.2⟩

namespace ProductCone

variable {α : Type} [Scalar α] [EigenSolver α] {n : Nat} {blocks : List Block} {dual : Bool}
  {v : Vector α n}

theorem exists_derivative_iff_blocks (tiling : Block.checkTiling blocks n = .ok ()) :
    (∃ D : Operator α n n, derivative blocks v dual = .ok ⟨D⟩) ↔
      ∀ block ∈ blocks, ∃ P, block.derivative v dual = .ok P := by
  constructor
  · rintro ⟨D, success⟩ block listed
    obtain ⟨parts, mapped, _⟩ := bind_eq_ok.1 success
    obtain ⟨part, made⟩ := exists_mapM_iff.1 ⟨parts, mapped⟩ block listed
    obtain ⟨P, single, _⟩ := bind_eq_ok.1 made
    exact ⟨P, single⟩
  · intro single
    obtain ⟨parts, mapped⟩ := exists_mapM_iff.2 fun block listed =>
      (exists_bind_eq_ok fun P => ⟨(⟨P⟩ : Sized (Operator α)), rfl⟩).2 (single block listed)
    obtain ⟨rows, cols⟩ := Operator.shape_blockDiagonal parts
    obtain ⟨height, width⟩ := Block.sum_shapes tiling mapped
    obtain ⟨D, same⟩ := (Operator.blockDiagonal parts).exists_eq_mk (rows.trans height)
      (cols.trans width)
    exact ⟨D, bind_eq_ok.2 ⟨parts, mapped, congrArg Except.ok same⟩⟩

theorem exists_derivativeMatrix_iff_blocks (tiling : Block.checkTiling blocks n = .ok ()) :
    (∃ D : Sparse α n n, derivativeMatrix blocks v dual = .ok ⟨D⟩) ↔
      ∀ block ∈ blocks, ∃ S, block.derivativeMatrix v dual = .ok S := by
  constructor
  · rintro ⟨D, success⟩ block listed
    obtain ⟨parts, mapped, _⟩ := bind_eq_ok.1 success
    obtain ⟨part, made⟩ := exists_mapM_iff.1 ⟨parts, mapped⟩ block listed
    obtain ⟨S, single, _⟩ := bind_eq_ok.1 made
    exact ⟨S, single⟩
  · intro single
    obtain ⟨parts, mapped⟩ := exists_mapM_iff.2 fun block listed =>
      (exists_bind_eq_ok fun S => ⟨(⟨S⟩ : Sized (Sparse α)), rfl⟩).2 (single block listed)
    obtain ⟨rows, cols⟩ := Sparse.shape_blockDiagonal parts
    obtain ⟨height, width⟩ := Block.sum_shapes tiling mapped
    obtain ⟨D, same⟩ := (Sparse.blockDiagonal parts).exists_eq_mk (rows.trans height)
      (cols.trans width)
    exact ⟨D, bind_eq_ok.2 ⟨parts, mapped, congrArg Except.ok same⟩⟩

end ProductCone

theorem Operator.window_diagonal {α : Type} {k l m n p q offset : Nat} {x : Vector α p}
    {y : Vector α q} (A : Operator α m n) (B : Operator α k l) (rows : offset + (m + k) ≤ q)
    (cols : offset + (n + l) ≤ p) (image : Vec.window y offset (m + k) rows =
      (diagonal A B).apply (Vec.window x offset (n + l) cols)) :
    Vec.window y offset m (by omega) = A.apply (Vec.window x offset n (by omega)) ∧
      Vec.window y (offset + m) k (by omega) =
        B.apply (Vec.window x (offset + n) l (by omega)) := by
  have upper := congrArg Vec.left image
  have lower := congrArg Vec.right image
  rw [Vec.left_window, diagonal, Vec.left_append, Vec.left_window] at upper
  rw [Vec.right_window, diagonal, Vec.right_append, Vec.right_window] at lower
  exact ⟨upper, lower⟩

namespace Block

variable {n : Nat} {blocks : List Block} {parts : List (Sized (Operator ℝ))}
  {R : ∀ block : Block, Operator ℝ (block.span n).size (block.span n).size → Prop}

/-- The parts are maps between the rows of the blocks, one for each, and all of them related. -/
def Related (R : ∀ block : Block, Operator ℝ (block.span n).size (block.span n).size → Prop)
    (blocks : List Block) (parts : List (Sized (Operator ℝ))) : Prop :=
  List.Forall₂ (fun block part => ∃ P, R block P ∧ part = ⟨P⟩) blocks parts

theorem offset_add_size {block : Block} {offset : Nat} {stop : Int}
    (first : block.start = offset) (order : block.start ≤ block.stop)
    (last : block.stop ≤ stop) (below : stop ≤ n) :
    ((offset + (block.span n).size : Nat) : Int) = block.stop := by
  have size := span_size (n := n) (by omega) order (by omega)
  simp only [Block.size] at size
  omega

theorem Related.shape {offset : Nat} {stop : Int} (related : Related R blocks parts)
    (accepted : checkFrom blocks offset = .ok stop) (below : stop ≤ n) :
    ((offset + (Operator.blockDiagonal parts).rows : Nat) : Int) = stop ∧
      ((offset + (Operator.blockDiagonal parts).cols : Nat) : Int) = stop := by
  induction related generalizing offset with
  | nil =>
    rw [checkFrom, Except.ok.injEq] at accepted
    exact ⟨accepted, accepted⟩
  | @cons block part rest parts head _ ih =>
    obtain ⟨P, _, rfl⟩ := head
    obtain ⟨first, order, _, accepted⟩ := checkFrom_cons_ok.1 accepted
    obtain ⟨last, _⟩ := bounds_of_checkFrom accepted
    have place := offset_add_size first order last below
    rw [← place] at accepted
    obtain ⟨rows, cols⟩ := ih accepted
    rw [Nat.add_assoc] at rows cols
    exact ⟨rows, cols⟩

theorem Related.isAdjoint (related : Related R blocks parts)
    (pairs : ∀ block P, R block P → P.IsAdjoint) :
    (Operator.blockDiagonal parts).value.IsAdjoint := by
  induction related with
  | nil => exact Operator.isAdjoint_empty
  | cons head _ ih =>
    obtain ⟨P, holds, rfl⟩ := head
    exact Operator.isAdjoint_diagonal (pairs _ P holds) ih

theorem Related.slices_of_window {offset : Nat} {stop : Int} (x x' y z : Vector ℝ n)
    (related : Related R blocks parts) (accepted : checkFrom blocks offset = .ok stop)
    (below : stop ≤ n) (rows : offset + (Operator.blockDiagonal parts).rows ≤ n)
    (cols : offset + (Operator.blockDiagonal parts).cols ≤ n)
    (image : Vec.window y offset _ rows =
      (Operator.blockDiagonal parts).value.apply (Vec.window x offset _ cols))
    (preimage : Vec.window z offset _ cols =
      (Operator.blockDiagonal parts).value.adjoint (Vec.window x' offset _ rows)) :
    ∀ block ∈ blocks, ∃ P, R block P ∧
      Vec.slice y (block.span n) = P.apply (Vec.slice x (block.span n)) ∧
      Vec.slice z (block.span n) = P.adjoint (Vec.slice x' (block.span n)) := by
  induction related generalizing offset with
  | nil => exact fun block listed => absurd listed List.not_mem_nil
  | @cons block part rest parts head _ ih =>
    obtain ⟨P, holds, rfl⟩ := head
    obtain ⟨first, order, _, accepted⟩ := checkFrom_cons_ok.1 accepted
    obtain ⟨last, _⟩ := bounds_of_checkFrom accepted
    have above : 0 ≤ block.start := by omega
    have inside : block.stop ≤ n := by omega
    obtain ⟨start, _⟩ := span_eq above order inside
    have place := offset_add_size first order last below
    rw [← place] at accepted
    have here : (block.span n).start = offset := by omega
    have size : offset + (block.span n).size ≤ n := by omega
    obtain ⟨upper, lower⟩ := Operator.window_diagonal P (Operator.blockDiagonal parts).value rows
      cols image
    obtain ⟨upper', lower'⟩ := Operator.window_diagonal P.transpose
      (Operator.blockDiagonal parts).value.transpose cols rows preimage
    intro other listed
    rcases List.mem_cons.1 listed with same | listed
    · subst same
      refine ⟨P, holds, ?_, ?_⟩
      · rw [Vec.slice_eq_window y _ here size, Vec.slice_eq_window x _ here size, upper]
      · rw [Vec.slice_eq_window z _ here size, Vec.slice_eq_window x' _ here size, upper']
        rfl
    · exact ih accepted _ _ lower lower' other listed

end Block

namespace Block

variable [EigenSolver ℝ] {n : Nat} {block : Block} {dual : Bool} {v : Vector ℝ n}

theorem derivative_isSelfAdjoint {P : Operator ℝ (block.span n).size (block.span n).size}
    (success : block.derivative v dual = .ok P) : P.IsSelfAdjoint := by
  obtain ⟨cone, _, single⟩ := derivative_eq_ok.1 success
  exact Cone.derivative_isSelfAdjoint single

theorem derivative_of_derivativeMatrix {S : Sparse ℝ (block.span n).size (block.span n).size}
    (success : block.derivativeMatrix v dual = .ok S) :
    block.derivative v dual = .ok (.ofSparse S) := by
  obtain ⟨cone, target, single⟩ := derivativeMatrix_eq_ok.1 success
  exact derivative_eq_ok.2 ⟨cone, target, Cone.derivative_of_derivativeMatrix single⟩

theorem exists_derivativeMatrix_iff [LawfulEigenSolver] (block : Block) (v : Vector ℝ n)
    (dual : Bool) : (∃ S, block.derivativeMatrix v dual = .ok S) ↔
      ∃ cone, block.kind.target dual = .ok cone ∧ cone.HasMatrix (block.span n).size := by
  simp only [derivativeMatrix_eq_ok,
    ← Cone.exists_derivativeMatrix_iff _ (Vec.slice v (block.span n))]
  constructor
  · rintro ⟨S, cone, target, made⟩
    exact ⟨cone, target, S, made⟩
  · rintro ⟨cone, target, S, made⟩
    exact ⟨S, cone, target, made⟩

theorem derivative_point [LawfulEigenSolver] {w : Vector ℝ (block.span n).size}
    {P : Operator ℝ (block.span n).size (block.span n).size}
    (success : block.derivative v dual = .ok P) (projected : block.project v dual = .ok w) :
    P.apply (Vec.slice v (block.span n)) = w ∧ P.apply w = w := by
  obtain ⟨cone, target, single⟩ := derivative_eq_ok.1 success
  obtain ⟨other, target', projected⟩ := project_eq_ok.1 projected
  obtain ⟨w', projected', point, fixed⟩ := Cone.derivative_point single
  have same : cone = other := Except.ok.inj (target.symm.trans target')
  subst same
  have values : w' = w := Except.ok.inj (projected'.symm.trans projected)
  subst values
  exact ⟨point, fixed⟩

end Block

namespace ProductCone

variable [EigenSolver ℝ] {n : Nat} {blocks : List Block} {dual : Bool} {v p : Vector ℝ n}

theorem related_of_derivative {A : Sized (Operator ℝ)} (success : derivative blocks v dual = .ok A) :
    ∃ parts, Block.Related (fun block P => block.derivative v dual = .ok P) blocks parts ∧
      Operator.blockDiagonal parts = A := by
  obtain ⟨parts, mapped, joined⟩ := bind_eq_ok.1 success
  refine ⟨parts, (mapM_eq_ok.1 mapped).imp ?_, pure_eq_ok.1 joined⟩
  intro block part made
  obtain ⟨P, single, sized⟩ := bind_eq_ok.1 made
  exact ⟨P, single, (pure_eq_ok.1 sized).symm⟩

theorem derivative_slices {A : Sized (Operator ℝ)} (tiling : Block.checkTiling blocks n = .ok ())
    (success : derivative blocks v dual = .ok A) : ∃ D : Operator ℝ n n, A = ⟨D⟩ ∧
      ∀ x x', ∀ block ∈ blocks, ∃ P, block.derivative v dual = .ok P ∧
        Vec.slice (D.apply x) (block.span n) = P.apply (Vec.slice x (block.span n)) ∧
        Vec.slice (D.adjoint x') (block.span n) = P.adjoint (Vec.slice x' (block.span n)) := by
  obtain ⟨parts, related, rfl⟩ := related_of_derivative success
  have accepted : Block.checkFrom blocks (0 : Nat) = .ok (n : Int) := Block.checkTiling_ok.1 tiling
  obtain ⟨rows, cols⟩ := related.shape accepted le_rfl
  obtain ⟨D, same⟩ := (Operator.blockDiagonal parts).exists_eq_mk (m := n) (n := n) (by omega)
    (by omega)
  refine ⟨D, same, ?_⟩
  intro x x'
  have slices := Block.Related.slices_of_window x x' (D.apply x) (D.adjoint x') related accepted
    le_rfl
  rw [same] at slices
  apply slices (by simp) (by simp)
  · rw [Vec.window_zero, Vec.window_zero]
  · rw [Vec.window_zero, Vec.window_zero]

theorem derivative_isSelfAdjoint {D : Operator ℝ n n}
    (tiling : Block.checkTiling blocks n = .ok ())
    (success : derivative blocks v dual = .ok ⟨D⟩) : D.IsSelfAdjoint := by
  obtain ⟨E, same, slices⟩ := derivative_slices tiling success
  cases same
  constructor
  · obtain ⟨parts, related, joined⟩ := related_of_derivative success
    have pair := related.isAdjoint fun block P single =>
      (Block.derivative_isSelfAdjoint single).pair
    rw [joined] at pair
    exact pair
  · funext x
    apply Block.ext_slices tiling
    intro block listed
    obtain ⟨P, single, apply, adjoint⟩ := slices x x block listed
    rw [apply, adjoint, (Block.derivative_isSelfAdjoint single).same]

/-- The derivative sends the point to its projection, and the projection to itself. -/
theorem derivative_point [LawfulEigenSolver] {D : Operator ℝ n n}
    (tiling : Block.checkTiling blocks n = .ok ())
    (success : derivative blocks v dual = .ok ⟨D⟩) (projected : project blocks v dual = .ok p) :
    D.apply v = p ∧ D.apply p = p := by
  obtain ⟨E, same, slices⟩ := derivative_slices tiling success
  cases same
  have parts := project_slices tiling projected
  constructor
  · apply Block.ext_slices tiling
    intro block listed
    obtain ⟨P, single, apply, _⟩ := slices v v block listed
    rw [apply, (Block.derivative_point single (parts block listed)).1]
  · apply Block.ext_slices tiling
    intro block listed
    obtain ⟨P, single, apply, _⟩ := slices p p block listed
    rw [apply, (Block.derivative_point single (parts block listed)).2]

theorem derivative_of_derivativeMatrix {S : Sized (Sparse ℝ)}
    (success : derivativeMatrix blocks v dual = .ok S) :
    derivative blocks v dual = .ok (S.map Operator.ofSparse) := by
  obtain ⟨parts, mapped, joined⟩ := bind_eq_ok.1 success
  cases pure_eq_ok.1 joined
  rw [Operator.ofSparse_blockDiagonal]
  refine bind_eq_ok.2 ⟨parts.map fun part => part.map Operator.ofSparse, mapM_eq_ok.2 ?_, rfl⟩
  rw [List.forall₂_map_right_iff]
  refine (mapM_eq_ok.1 mapped).imp ?_
  intro block part made
  obtain ⟨T, single, sized⟩ := bind_eq_ok.1 made
  cases pure_eq_ok.1 sized
  exact bind_eq_ok.2 ⟨_, Block.derivative_of_derivativeMatrix single, rfl⟩

theorem exists_derivativeMatrix_iff [LawfulEigenSolver]
    (tiling : Block.checkTiling blocks n = .ok ()) (v : Vector ℝ n) (dual : Bool) :
    (∃ D : Sparse ℝ n n, derivativeMatrix blocks v dual = .ok ⟨D⟩) ↔ ∀ block ∈ blocks,
      ∃ cone, block.kind.target dual = .ok cone ∧ cone.HasMatrix (block.span n).size := by
  simp only [exists_derivativeMatrix_iff_blocks tiling, Block.exists_derivativeMatrix_iff _ v]

end ProductCone

end ConicDerivative
