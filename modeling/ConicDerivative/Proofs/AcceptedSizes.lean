import ConicDerivative.Proofs.PackedSizes
import ConicDerivative.Proofs.ProductDerivatives

/-!
The sizes of blocks that can be projected onto. A second-order block needs a first row, and a
semidefinite block as many rows as a triangle. The projection and its derivative as a map ask for
nothing more; among fewer than `2 ^ 53` rows the check of the blocks leaves only the first rows to
ask for.
-/

namespace ConicDerivative

open Scalar Outcomes

variable {k n : Nat}

namespace Cone

/-- The sizes of the blocks that can be projected onto. -/
def Accepts (cone : Cone) (k : Nat) : Prop :=
  match cone with
  | secondOrder => k ≠ 0
  | semidefinite => k = Packed.triangle (packedSide k)
  | _ => True

variable {cone : Cone}

theorem accepts_dual : cone.dual.Accepts k ↔ cone.Accepts k := by cases cone <;> rfl

section

variable {α : Type} [Scalar α] [EigenSolver α] {x : Vector α k}
  (solvable : cone = semidefinite → Semidefinite.Solvable x)

include solvable

theorem exists_derivative_iff_of_solvable : (∃ P, cone.derivative x = .ok P) ↔ cone.Accepts k := by
  cases cone with
  | zero | free | nonnegative => exact ⟨fun _ => trivial, fun _ => ⟨_, rfl⟩⟩
  | secondOrder =>
    cases k with
    | zero => simp [derivative, Accepts]
    | succ k => exact ⟨fun _ => k.succ_ne_zero, fun _ => ⟨_, rfl⟩⟩
  | semidefinite =>
    rw [Accepts, ← Semidefinite.exists_decompose_iff_of_solvable (solvable rfl)]
    exact exists_bind_eq_ok fun _ => ⟨_, rfl⟩

theorem exists_project_iff_of_solvable : (∃ p, cone.project x = .ok p) ↔ cone.Accepts k := by
  cases cone with
  | zero | free | nonnegative => exact ⟨fun _ => trivial, fun _ => ⟨_, rfl⟩⟩
  | secondOrder =>
    cases k with
    | zero => simp [project, Accepts]
    | succ k => exact ⟨fun _ => k.succ_ne_zero, fun _ => ⟨_, rfl⟩⟩
  | semidefinite =>
    rw [Accepts, ← Semidefinite.exists_decompose_iff_of_solvable (solvable rfl)]
    exact exists_bind_eq_ok fun _ => ⟨_, rfl⟩

end

variable [EigenSolver ℝ] [LawfulEigenSolver]

theorem exists_derivative_iff (cone : Cone) (x : Vector ℝ k) :
    (∃ P, cone.derivative x = .ok P) ↔ cone.Accepts k :=
  exists_derivative_iff_of_solvable fun _ => Semidefinite.solvable_real x

theorem exists_project_iff (cone : Cone) (x : Vector ℝ k) :
    (∃ p, cone.project x = .ok p) ↔ cone.Accepts k :=
  exists_project_iff_of_solvable fun _ => Semidefinite.solvable_real x

end Cone

namespace Block

variable {blocks : List Block} {block : Block}

/-- Every second-order block has a first row. -/
def HaveHeads (blocks : List Block) : Prop :=
  ∀ block ∈ blocks, block.kind = .cone .secondOrder → block.size ≠ 0

instance (blocks : List Block) : Decidable (HaveHeads blocks) :=
  inferInstanceAs (Decidable (∀ block ∈ blocks, _ → _))

theorem size_eq_span (tiling : checkTiling blocks n = .ok ()) (listed : block ∈ blocks) :
    block.size = (block.span n).size := by
  obtain ⟨nonneg, order, inside⟩ := (bounds_of_checkFrom (checkTiling_ok.1 tiling)).2 block listed
  exact (span_size nonneg order inside).symm

theorem exists_cone (tiling : checkTiling blocks n = .ok ()) (listed : block ∈ blocks) :
    ∃ cone, block.kind = .cone cone :=
  Kind.exists_cone (rowCount_of_checkFrom (checkTiling_ok.1 tiling) block listed)

theorem exists_target_iff {P : Cone → Prop} {cone : Cone} {dual : Bool}
    (dual_iff : P cone.dual ↔ P cone) (kind : block.kind = .cone cone) :
    (∃ target, block.kind.target dual = .ok target ∧ P target) ↔ P cone := by
  rw [kind]
  cases dual with
  | false => simp [Kind.target]
  | true => simp [Kind.target, dual_iff]

theorem accepts_of_tiling {cone : Cone} (tiling : checkTiling blocks n = .ok ())
    (heads : HaveHeads blocks) (small : n < 2 ^ 53) (listed : block ∈ blocks)
    (kind : block.kind = .cone cone) : cone.Accepts (block.span n).size := by
  cases cone with
  | zero | free | nonnegative => exact trivial
  | secondOrder =>
    have head := heads block listed kind
    rw [size_eq_span tiling listed] at head
    exact Nat.cast_ne_zero.1 head
  | semidefinite => exact size_eq_triangle tiling small listed kind

theorem exists_target (tiling : checkTiling blocks n = .ok ()) (heads : HaveHeads blocks)
    (small : n < 2 ^ 53) (dual : Bool) : ∀ block ∈ blocks,
      ∃ cone, block.kind.target dual = .ok cone ∧ cone.Accepts (block.span n).size := by
  intro block listed
  obtain ⟨cone, kind⟩ := exists_cone tiling listed
  have accepted := accepts_of_tiling tiling heads small listed kind
  rw [kind]
  cases dual with
  | false => exact ⟨cone, rfl, accepted⟩
  | true => exact ⟨cone.dual, rfl, Cone.accepts_dual.2 accepted⟩

end Block

namespace ProductCone

section

variable {α : Type} [Scalar α] [EigenSolver α] {blocks : List Block} {x : Vector α n} {dual : Bool}

theorem exists_foldlM (start : Vector α n)
    (single : ∀ block ∈ blocks, ∃ w, block.project x dual = .ok w) :
    ∃ p, blocks.foldlM (fun projection block => do
      return Vec.overwrite projection (block.span n) (← block.project x dual)) start = .ok p := by
  induction blocks generalizing start with
  | nil => exact ⟨start, rfl⟩
  | cons block rest ih =>
    obtain ⟨⟨w, first⟩, others⟩ := List.forall_mem_cons.1 single
    obtain ⟨p, later⟩ := ih (Vec.overwrite start (block.span n) w) others
    exact ⟨p, foldlM_cons_eq_ok.2 ⟨_, bind_eq_ok.2 ⟨w, first, rfl⟩, later⟩⟩

theorem exists_project_iff_blocks (tiling : Block.checkTiling blocks n = .ok ()) :
    (∃ p, project blocks x dual = .ok p) ↔ ∀ block ∈ blocks, ∃ w, block.project x dual = .ok w := by
  constructor
  · rintro ⟨p, success⟩ block listed
    exact ⟨_, project_slices tiling success block listed⟩
  · exact exists_foldlM _

end

variable [EigenSolver ℝ] [LawfulEigenSolver] {blocks : List Block} {x : Vector ℝ n} {dual : Bool}
  (tiling : Block.checkTiling blocks n = .ok ())

include tiling

theorem exists_project_iff : (∃ p, project blocks x dual = .ok p) ↔ ∀ block ∈ blocks,
    ∃ cone, block.kind.target dual = .ok cone ∧ cone.Accepts (block.span n).size := by
  rw [exists_project_iff_blocks tiling]
  refine forall₂_congr fun block _ => ?_
  simp only [Block.project_eq_ok, ← Cone.exists_project_iff _ (Vec.slice x (block.span n))]
  constructor
  · rintro ⟨w, cone, named, single⟩
    exact ⟨cone, named, w, single⟩
  · rintro ⟨cone, named, w, single⟩
    exact ⟨w, cone, named, single⟩

theorem exists_derivative (accepted : ∀ block ∈ blocks, ∃ cone,
    block.kind.target dual = .ok cone ∧ cone.Accepts (block.span n).size) :
    ∃ D : Operator ℝ n n, derivative blocks x dual = .ok ⟨D⟩ := by
  refine (exists_derivative_iff_blocks tiling).2 fun block listed => ?_
  obtain ⟨cone, named, size⟩ := accepted block listed
  obtain ⟨P, made⟩ := (cone.exists_derivative_iff (Vec.slice x (block.span n))).2 size
  exact ⟨P, Block.derivative_eq_ok.2 ⟨cone, named, made⟩⟩

end ProductCone

end ConicDerivative
