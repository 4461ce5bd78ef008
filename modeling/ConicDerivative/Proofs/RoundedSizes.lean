import ConicDerivative.Projection.Arrays
import ConicDerivative.Proofs.PackedArrays
import ConicDerivative.Proofs.PackedSizes

/-!
Sides and sizes of semidefinite blocks that are rounded on the way. The size of a large block is
rounded, and rounded again before its root is taken; yet the root keeps its distance from the next
whole number, so that the side is found again. A vector as long as no triangle has no side at all,
and it is refused.
-/

namespace ConicDerivative

open Packed

namespace Binary64

theorem roundShift_near (n drop : Nat) :
    2 * (roundShift n drop * 2 ^ drop) ≤ 2 * n + 2 ^ drop ∧
      2 * n ≤ 2 * (roundShift n drop * 2 ^ drop) + 2 ^ drop := by
  obtain ⟨unit, unit_eq⟩ : ∃ unit, 2 ^ drop = unit := ⟨_, rfl⟩
  have parts := Nat.div_add_mod n unit
  have rest : n % unit < unit := Nat.mod_lt n (unit_eq ▸ Nat.two_pow_pos drop)
  have same : Nat.pow 2 drop = unit := unit_eq
  unfold roundShift
  rw [same, unit_eq]
  dsimp only
  rw [Nat.mul_comm unit] at parts
  split_ifs with up
  · rw [Nat.add_mul, Nat.one_mul]
    omega
  · omega

theorem exists_round_near {n e : Nat} (digits : n < 2 ^ (53 + e)) (finite : e ≤ 970) :
    ∃ r, round n = some r ∧ 2 * r ≤ 2 * n + 2 ^ e ∧ 2 * n ≤ 2 * r + 2 ^ e := by
  obtain ⟨upper, lower⟩ := roundShift_near n (width n - 53)
  have units : 2 ^ (width n - 53) ≤ 2 ^ e := by
    have few := width_le digits
    exact Nat.pow_le_pow_right two_pos (by omega)
  have sum : 2 ^ (53 + e) + 2 ^ e ≤ 2 ^ (54 + e) := by
    rw [Nat.pow_add, Nat.pow_add]
    omega
  have below (k : Nat) (wide : 54 + e ≤ k) :
      roundShift n (width n - 53) * Nat.pow 2 (width n - 53) < Nat.pow 2 k :=
    calc
      roundShift n (width n - 53) * 2 ^ (width n - 53) < 2 ^ (54 + e) := by omega
      _ ≤ 2 ^ k := Nat.pow_le_pow_right two_pos wide
  refine ⟨roundShift n (width n - 53) * 2 ^ (width n - 53), ?_, by omega, by omega⟩
  unfold round
  dsimp only
  refine if_pos ?_
  apply below
  omega

end Binary64

theorem packedSize_of_round {d size : Nat} (rounded : Binary64.round (triangle d) = some size) :
    packedSize d = .ok size := by
  unfold packedSize
  rw [half_eq_triangle, rounded]

/-- Up to `2 ^ 27` rows and columns no size is rounded; the last one is even. -/
theorem packedSize_triangle {d : Nat} (small : d ≤ 2 ^ 27) : packedSize d = .ok (triangle d) := by
  apply packedSize_of_round
  have double := two_mul_triangle d
  rcases Nat.lt_or_eq_of_le small with below | last
  · exact Binary64.round_of_lt (by nlinarith)
  · have even : triangle d = 2 * (2 ^ 25 * (2 ^ 27 + 1)) := by
      rw [last] at double ⊢
      omega
    rw [even]
    exact Binary64.round_two_mul (by norm_num)

theorem packedSideOf_eq {size : Nat} (small : size < 2 ^ 63) :
    packedSideOf size = .ok (packedSide size) := by
  have bounds : ¬((size : Int) < -Int.pow 2 62 ∨ Int.pow 2 63 ≤ (size : Int)) := by
    have low : Int.pow 2 62 = 2 ^ 62 := rfl
    have high : Int.pow 2 63 = 2 ^ 63 := rfl
    rw [low, high]
    omega
  have nonneg : ¬(size : Int) < 0 := by omega
  rw [packedSideOf, if_neg bounds, if_neg nonneg, Int.toNat_natCast]

theorem exists_packedSize {d : Nat} (small : d < 2 ^ 31) :
    ∃ size, packedSize d = .ok size ∧ packedSideOf size = .ok d := by
  have double := two_mul_triangle d
  have digits : triangle d < 2 ^ (53 + 8) := by
    have square : d * (d + 1) ≤ (2 ^ 31 - 1) * 2 ^ 31 := Nat.mul_le_mul (by omega) (by omega)
    omega
  obtain ⟨size, counted, upper, lower⟩ := Binary64.exists_round_near digits (by norm_num)
  refine ⟨size, packedSize_of_round counted, ?_⟩
  rw [packedSideOf_eq (by omega)]
  apply congrArg Except.ok
  by_cases exact : triangle d < 2 ^ 53
  · obtain rfl : size = triangle d :=
      Option.some.inj (counted.symm.trans (Binary64.round_of_lt exact))
    exact packedSide_triangle exact
  · have large : 2 ^ 26 ≤ d := by
      by_contra low
      nlinarith
    obtain ⟨whole, doubled, upper', lower'⟩ :=
      Binary64.exists_round_near (n := 2 * size) (e := 10) (by omega) (by norm_num)
    rw [packedSide, doubled, Option.getD_some]
    -- The two roundings together stay far below half of the side.
    have least : d * d ≤ whole := by
      rw [Nat.mul_add, Nat.mul_one] at double
      omega
    have most : 2 * whole ≤ 2 * (d * d) + 3 * d := by
      rw [Nat.mul_add, Nat.mul_one] at double
      omega
    exact Binary64.wholeSquareRoot_eq least most (by omega)

section

variable {α : Type} [Scalar α] {s : Nat}

omit [Scalar α] in
theorem Semidefinite.entriesOf_eq_error (x : Vector α s) (gap : ∀ d, s ≠ triangle d) :
    entriesOf (.ofVector x) = .error (.invalid .value) := by
  have length : (Tensor.ofVector x).entries.toList.length = s := by
    rw [toList_ofVector, Vector.length_toList]
  unfold entriesOf
  dsimp only
  -- A single entry would be repeated, but it is a triangle of its own.
  rw [length, broadcast?_ofVector_of_ne x (gap 1) (gap _)]

variable [EigenSolver α]

theorem Semidefinite.decompose_eq_error (x : Vector α s) (gap : ∀ d, s ≠ triangle d) :
    decompose x = .error (.invalid .value) := dif_neg (gap _)

end

/--
Sizes and sides through doubles. A size is exact up to a side of `2 ^ 27`, and below `2 ^ 31` the
side is found again from it. A vector as long as no triangle is neither projected onto the cone or
its dual nor differentiated there, as an array or as it is.
-/
theorem packed_sizes {α : Type} [Scalar α] [EigenSolver α] :
    (∀ d : Nat, d ≤ 2 ^ 27 → packedSize d = .ok (d * (d + 1) / 2)) ∧
    (∀ d : Nat, d < 2 ^ 31 → ∃ size, packedSize d = .ok size ∧ packedSideOf size = .ok d) ∧
    ∀ (s : Nat) (x : Vector α s) (dual : Bool), (∀ d, s ≠ d * (d + 1) / 2) →
      (Kind.cone .semidefinite).target dual = .ok .semidefinite ∧
      Cone.semidefinite.projectTensor (.ofVector x) = .error (.invalid .value) ∧
      Cone.semidefinite.derivativeAt (.ofVector x) = .error (.invalid .value) ∧
      Cone.semidefinite.project x = (.error (.invalid .value) : Outcome α _) ∧
      Cone.semidefinite.derivative x = (.error (.invalid .value) : Outcome α _) := by
  refine ⟨?_, fun d => exists_packedSize, ?_⟩
  · intro d small
    rw [packedSize_triangle small, triangle_eq_half]
  · intro s x dual gap
    simp only [← triangle_eq_half] at gap
    have refused := Semidefinite.entriesOf_eq_error x gap
    have refused' := Semidefinite.decompose_eq_error x gap
    refine ⟨?_, ?_, ?_, ?_, ?_⟩
    · cases dual <;> rfl
    · rw [Cone.projectTensor, refused]
      rfl
    · rw [Cone.derivativeAt, Cone.vectorOf, refused]
      rfl
    · simp only [Cone.project, refused']
      rfl
    · simp only [Cone.derivative, refused']
      rfl

theorem packed_sizes_at_bounds :
    packedSize ((2 ^ 27 : Nat) : Int) = .ok (2 ^ 27 * (2 ^ 27 + 1) / 2) ∧
    (∃ size, packedSize ((2 ^ 31 - 1 : Nat) : Int) = .ok size ∧
      packedSideOf size = .ok (2 ^ 31 - 1)) ∧
    Cone.semidefinite.projectTensor (.ofVector (.replicate 2 (1 : Float))) =
      .error (.invalid .value) := by
  obtain ⟨exact, restored, refused⟩ := @packed_sizes Float _ _
  refine ⟨exact _ le_rfl, restored _ (by norm_num), ?_⟩
  have gap (d : Nat) : 2 ≠ d * (d + 1) / 2 := by
    rcases d with _ | _ | d
    · decide
    · decide
    · have large : 2 * 3 ≤ (d + 1 + 1) * (d + 1 + 1 + 1) := Nat.mul_le_mul (by omega) (by omega)
      omega
  exact (refused 2 (.replicate 2 1) false gap).2.1

end ConicDerivative
