import ConicDerivative.Proofs.ConeProducts
import ConicDerivative.Proofs.FirmDerivatives
import ConicDerivative.Proofs.PackedSizes
import ConicDerivative.Proofs.SelectedRows

/-!
Vectors in a cone of their own size, and in products of such cones. Read over vectors, each cone is
what its name says, and a vector of a cone and one of the dual cone have no negative product.
-/

namespace ConicDerivative

open Scalar Matrix Packed

variable {k n d : Nat}

theorem trace_mul_nonneg {X Y : Matrix (Fin d) (Fin d) ℝ} (first : X.PosSemidef)
    (second : Y.PosSemidef) : 0 ≤ (X * Y).trace := by
  obtain ⟨terms, v, rfl⟩ := posSemidef_iff_eq_sum_vecMulVec.1 first
  rw [Finset.sum_mul, trace_sum]
  apply Finset.sum_nonneg
  intro i _
  rw [star_trivial, vecMulVec_mul, trace_vecMulVec, dotProduct_comm, ← dotProduct_mulVec]
  exact second.dotProduct_mulVec_nonneg (v i)

namespace Cone

def Holds (cone : Cone) (x : Vector ℝ k) : Prop :=
  ∃ dim, cone.rows dim = k ∧ cone.Contains .lower dim (Loose.entry x.toList)

theorem entry_toList (x : Vector ℝ k) (i : Fin k) : Loose.entry x.toList i = x i :=
  congrFun (Loose.entries_toList x) i

theorem holds_zero {x : Vector ℝ k} : zero.Holds x ↔ x.get = 0 := by
  constructor
  · rintro ⟨dim, rfl, inside⟩
    funext i
    exact (entry_toList x i).symm.trans (inside i i.isLt)
  · intro null
    refine ⟨k, rfl, ?_⟩
    intro i bound
    exact (entry_toList x ⟨i, bound⟩).trans (congrFun null _)

theorem holds_free (x : Vector ℝ k) : free.Holds x := ⟨k, rfl, trivial⟩

theorem holds_nonnegative {x : Vector ℝ k} : nonnegative.Holds x ↔ ∀ i, 0 ≤ x i := by
  constructor
  · rintro ⟨dim, rfl, inside⟩ i
    rw [← entry_toList]
    exact inside i i.isLt
  · intro inside
    refine ⟨k, rfl, ?_⟩
    intro i bound
    rw [entry_toList x ⟨i, bound⟩]
    exact inside _

theorem holds_secondOrder {x : Vector ℝ (k + 1)} :
    secondOrder.Holds x ↔ Vec.norm (Vec.tail x) ≤ Vec.head x := by
  have head : Loose.entry x.toList 0 = Vec.head x := entry_toList x 0
  have tail : ∑ i ∈ Finset.range k, Loose.entry x.toList (i + 1) ^ 2 =
      (Vec.tail x).get ⬝ᵥ (Vec.tail x).get := by
    rw [Finset.sum_range]
    apply Finset.sum_congr rfl
    intro i _
    rw [Vec.tail_apply, sq]
    exact congrArg₂ (· * ·) (entry_toList x i.succ) (entry_toList x i.succ)
  have meaning : secondOrder.Contains .lower (k + 1) (Loose.entry x.toList) ↔
      Vec.norm (Vec.tail x) ≤ Vec.head x := by
    rw [Contains, head, tail, Vec.norm_eq_sqrt]
  constructor
  · rintro ⟨dim, rows, inside⟩
    obtain rfl : dim = k + 1 := rows
    exact meaning.1 inside
  · intro inside
    exact ⟨k + 1, rfl, meaning.2 inside⟩

theorem holds_semidefinite {x : Vector ℝ k} (size_eq : k = triangle d) :
    semidefinite.Holds x ↔ (unpack d (x.cast size_eq)).matrix.PosSemidef := by
  subst size_eq
  have meaning : semidefinite.Contains .lower d (Loose.entry x.toList) ↔
      (unpack d (x.cast rfl)).matrix.PosSemidef := by
    rw [Contains, Packing.matrix_lower (x := x) (entry_toList x)]
    rfl
  constructor
  · rintro ⟨dim, rows, inside⟩
    obtain rfl : dim = d := triangle_injective rows
    exact meaning.1 inside
  · intro inside
    exact ⟨d, rfl, meaning.2 inside⟩

theorem holds_zeros {cone : Cone} {dim : Nat} (rows : cone.rows dim = k) :
    cone.Holds (Vector.replicate k (0 : ℝ)) := by
  have entry (i : Fin k) : Vector.replicate k (0 : ℝ) i = 0 := congrFun Vec.get_zeros i
  cases cone with
  | zero => exact holds_zero.2 Vec.get_zeros
  | free => exact holds_free _
  | nonnegative => exact holds_nonnegative.2 fun i => (entry i).ge
  | secondOrder =>
    cases k with
    | zero => exact ⟨0, rfl, trivial⟩
    | succ k =>
      have null : (Vec.tail (Vector.replicate (k + 1) (0 : ℝ))).get = 0 := by
        funext i
        exact (Vec.tail_apply ..).trans (entry i.succ)
      rw [holds_secondOrder, Vec.norm_eq_sqrt, null, zero_dotProduct, Real.sqrt_zero]
      exact (entry 0).ge
  | semidefinite =>
    have size_eq : k = triangle dim := rows.symm
    subst size_eq
    have null : (unpack dim (Vector.replicate (triangle dim) (0 : ℝ))).matrix = 0 := by
      funext i j
      rw [unpack_cell, entry, entry, zero_div, ite_self]
      rfl
    refine (holds_semidefinite rfl).2 ?_
    change (unpack dim (Vector.replicate (triangle dim) (0 : ℝ))).matrix.PosSemidef
    rw [null]
    exact PosSemidef.zero

theorem neg_norm_mul_norm_le (z w : Vector ℝ k) :
    -(Vec.norm z * Vec.norm w) ≤ z.get ⬝ᵥ w.get := by
  have schwarz := SecondOrder.sq_dot_le z w
  rw [← Vec.norm_mul_self, ← Vec.norm_mul_self] at schwarz
  have nonneg := mul_nonneg (Vec.norm_nonneg z) (Vec.norm_nonneg w)
  have bound : (z.get ⬝ᵥ w.get) ^ 2 ≤ (Vec.norm z * Vec.norm w) ^ 2 := by linarith
  exact (abs_le.1 (abs_le_of_sq_le_sq bound nonneg)).1

theorem Holds.dot_nonneg {cone : Cone} {x y : Vector ℝ k} (inside : cone.Holds x)
    (inside' : cone.dual.Holds y) : 0 ≤ x.get ⬝ᵥ y.get := by
  cases cone with
  | zero => rw [holds_zero.1 inside, zero_dotProduct]
  | free => rw [holds_zero.1 inside', dotProduct_zero]
  | nonnegative =>
    exact Finset.sum_nonneg fun i _ =>
      mul_nonneg (holds_nonnegative.1 inside i) (holds_nonnegative.1 inside' i)
  | secondOrder =>
    cases k with
    | zero => rw [dotProduct, Finset.univ_eq_empty, Finset.sum_empty]
    | succ k =>
      have first := holds_secondOrder.1 inside
      have second := holds_secondOrder.1 inside'
      have product := mul_le_mul first second (Vec.norm_nonneg _) ((Vec.norm_nonneg _).trans first)
      have schwarz := neg_norm_mul_norm_le (Vec.tail x) (Vec.tail y)
      rw [← Vec.cons_tail x, ← Vec.cons_tail y, SecondOrder.dot_cons]
      linarith
  | semidefinite =>
    have ⟨d, rows, _⟩ := inside
    have size_eq : k = triangle d := rows.symm
    have first := (holds_semidefinite size_eq).1 inside
    have second := (holds_semidefinite size_eq).1 inside'
    subst size_eq
    rw [dot_eq_trace]
    exact trace_mul_nonneg first second

end Cone

theorem Kind.target_not {kind : Kind} {dual : Bool} {cone : Cone}
    (named : kind.target dual = .ok cone) : kind.target (!dual) = .ok cone.dual := by
  cases kind with
  | cone own =>
    cases dual with
    | false =>
      cases named
      rfl
    | true =>
      cases named
      exact congrArg Except.ok own.dual_dual.symm
  | other | literal | unnamed => cases named

def Block.Holds (block : Block) (dual : Bool) (x : Vector ℝ n) : Prop :=
  ∃ cone, block.kind.target dual = .ok cone ∧ cone.Holds (Vec.slice x (block.span n))

namespace ProductCone

/-- The vector lies in the product of the cones of the blocks, or in the product of the duals. -/
def Holds (blocks : List Block) (dual : Bool) (x : Vector ℝ n) : Prop :=
  ∀ block ∈ blocks, block.Holds dual x

/-- The duals of the cones make up the dual of the product. -/
theorem Holds.dot_nonneg {blocks : List Block} {dual : Bool} {x y : Vector ℝ n}
    (tiling : Block.checkTiling blocks n = .ok ()) (inside : Holds blocks dual x)
    (inside' : Holds blocks (!dual) y) : 0 ≤ x.get ⬝ᵥ y.get := by
  rw [← Block.dot_slices tiling]
  apply List.sum_nonneg
  intro product summed
  obtain ⟨block, listed, rfl⟩ := List.mem_map.1 summed
  obtain ⟨cone, named, first⟩ := inside block listed
  obtain ⟨cone', named', second⟩ := inside' block listed
  cases (Kind.target_not named).symm.trans named'
  exact first.dot_nonneg second

end ProductCone

end ConicDerivative
