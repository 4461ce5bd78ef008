import ConicDerivative.Packed
import ConicDerivative.Proofs.TableBlocks

/-!
Sizes of semidefinite blocks that are counted through doubles. Below `2 ^ 53` rows no rounding is
ever seen: a size that is accepted is that of a triangle, and its side is found again from the
square root.
-/

namespace ConicDerivative

open Packed

namespace Binary64

theorem lt_two_pow_width (n : Nat) : n < 2 ^ width n := by
  unfold width
  split_ifs with zero
  · rw [zero]
    exact Nat.one_pos
  · exact Nat.lt_log2_self

theorem two_pow_le_of_width {n k : Nat} (large : k < width n) : 2 ^ k ≤ n := by
  unfold width at large
  split_ifs at large with zero
  · exact absurd large (Nat.not_lt_zero k)
  · exact (Nat.pow_le_pow_right two_pos (Nat.le_of_lt_succ large)).trans (Nat.log2_self_le zero)

theorem width_le {n k : Nat} (small : n < 2 ^ k) : width n ≤ k := by
  by_contra large
  exact absurd (two_pow_le_of_width (not_le.1 large)) (not_le.2 small)

theorem round_two_mul {k : Nat} (small : k < 2 ^ 53) : round (2 * k) = some (2 * k) := by
  by_cases narrow : 2 * k < 2 ^ 53
  · exact round_of_lt narrow
  · have digits : width (2 * k) - 53 = 1 := by
      have upper : width (2 * k) ≤ 54 := width_le (by omega)
      have lower : ¬width (2 * k) ≤ 53 := by
        intro few
        have := (lt_two_pow_width (2 * k)).trans_le (Nat.pow_le_pow_right two_pos few)
        omega
      omega
    have half : roundShift (2 * k) 1 = k := by
      simp [roundShift]
    have power (e : Nat) (large : 54 ≤ e) : k * Nat.pow 2 1 < Nat.pow 2 e :=
      calc
        k * 2 < 2 ^ 54 := by omega
        _ ≤ 2 ^ e := Nat.pow_le_pow_right two_pos large
    have same : k * Nat.pow 2 1 = 2 * k := Nat.mul_comm k 2
    rw [same] at power
    unfold round
    simp only [digits, half, same]
    refine if_pos ?_
    apply power
    norm_num

theorem eq_of_round {n size : Nat} (rounded : round n = some size) (small : size < 2 ^ 53) :
    size = n := by
  by_cases narrow : n < 2 ^ 53
  · rw [round_of_lt narrow] at rounded
    exact (Option.some.inj rounded).symm
  · exfalso
    obtain ⟨drop, digits⟩ : ∃ drop, width n = 53 + (drop + 1) := by
      have wide : ¬width n ≤ 53 := by
        intro few
        have := (lt_two_pow_width n).trans_le (Nat.pow_le_pow_right two_pos few)
        omega
      exact ⟨width n - 54, by omega⟩
    -- The leading digits that are left count at least `2 ^ 52` units, each of two or more.
    have quotient : 2 ^ 52 ≤ n / 2 ^ (drop + 1) := by
      rw [Nat.le_div_iff_mul_le (Nat.two_pow_pos _), ← Nat.pow_add]
      exact two_pow_le_of_width (by omega)
    have shifted : 2 ^ 52 ≤ roundShift n (drop + 1) := by
      refine quotient.trans ?_
      unfold roundShift
      dsimp only
      split_ifs
      · exact Nat.le_succ _
      · exact le_rfl
    have large : 2 ^ 53 ≤ roundShift n (drop + 1) * Nat.pow 2 (drop + 1) := by
      calc
        2 ^ 53 = 2 ^ 52 * 2 ^ 1 := by norm_num
        _ ≤ roundShift n (drop + 1) * 2 ^ (drop + 1) :=
          Nat.mul_le_mul shifted (Nat.pow_le_pow_right two_pos (by omega))
    unfold round at rounded
    simp only [digits, Nat.add_sub_cancel_left] at rounded
    split_ifs at rounded
    rw [← Option.some.inj rounded] at small
    omega

theorem squareRoot_spec (n : Nat) :
    squareRoot n * squareRoot n ≤ n ∧ n < (squareRoot n + 1) * (squareRoot n + 1) := by
  induction n using Nat.strongRecOn with
  | ind n ih =>
    rw [squareRoot]
    split_ifs with zero
    · rw [zero]
      exact ⟨le_rfl, Nat.one_pos⟩
    · obtain ⟨lower, upper⟩ := ih (n / 4) (by omega)
      dsimp only
      split_ifs with odd
      · refine ⟨odd, ?_⟩
        have quarter : n < 4 * (n / 4 + 1) := by omega
        nlinarith
      · refine ⟨?_, not_le.1 odd⟩
        have quarter : 4 * (n / 4) ≤ n := by omega
        nlinarith

theorem squareRoot_eq {n d : Nat} (lower : d * d ≤ n) (upper : n < (d + 1) * (d + 1)) :
    squareRoot n = d := by
  obtain ⟨below, above⟩ := squareRoot_spec n
  have first := Nat.mul_self_lt_mul_self_iff.1 (lower.trans_lt above)
  have second := Nat.mul_self_lt_mul_self_iff.1 (below.trans_lt upper)
  omega

/-- A root that stays a quarter of a unit below the next whole number is not rounded up to it. -/
theorem wholeSquareRoot_eq {n d : Nat} (lower : d * d ≤ n) (upper : 2 * n ≤ 2 * (d * d) + 3 * d)
    (small : d < 2 ^ 51) : wholeSquareRoot n = d := by
  have root : squareRoot n = d := squareRoot_eq lower (by nlinarith)
  have digits : width d ≤ 51 := width_le small
  obtain ⟨shift, places⟩ : ∃ shift, 53 - width d = shift + 2 := ⟨51 - width d, by omega⟩
  obtain ⟨unit, unit_eq⟩ : ∃ unit, Nat.pow 2 (shift + 2) = unit := ⟨_, rfl⟩
  have fine : 4 ≤ unit := by
    rw [← unit_eq]
    exact Nat.pow_le_pow_right two_pos (Nat.le_add_left 2 shift)
  have square : Nat.pow 4 (shift + 2) = unit * unit := by
    rw [← unit_eq]
    exact Nat.mul_pow 2 2 (shift + 2)
  unfold wholeSquareRoot
  simp only [root, places, square, unit_eq]
  obtain ⟨below, above⟩ := squareRoot_spec (n * (unit * unit))
  obtain ⟨r, r_eq⟩ : ∃ r, squareRoot (n * (unit * unit)) = r := ⟨_, rfl⟩
  rw [r_eq] at below above ⊢
  -- In units of the last digit the root lies between `d` and `d + 3 / 4`.
  have least : d * unit ≤ r := by
    apply Nat.le_of_lt_succ
    apply Nat.mul_self_lt_mul_self_iff.1
    calc
      d * unit * (d * unit) = d * d * (unit * unit) := by ring
      _ ≤ n * (unit * unit) := Nat.mul_le_mul_right _ lower
      _ < (r + 1) * (r + 1) := above
  have most : 4 * r < (4 * d + 3) * unit := by
    apply Nat.mul_self_lt_mul_self_iff.1
    calc
      4 * r * (4 * r) = 8 * (2 * (r * r)) := by ring
      _ ≤ 8 * (2 * n * (unit * unit)) := by linarith
      _ ≤ 8 * ((2 * (d * d) + 3 * d) * (unit * unit)) :=
        Nat.mul_le_mul_left 8 (Nat.mul_le_mul_right _ upper)
      _ < (4 * d + 3) * unit * ((4 * d + 3) * unit) := by nlinarith
  apply Nat.div_eq_of_lt_le
  · split_ifs <;> omega
  · have expanded : (4 * d + 3) * unit + unit = 4 * ((d + 1) * unit) := by ring
    split_ifs <;> omega

end Binary64

theorem Packed.triangle_injective : Function.Injective triangle := by
  intro d d' same
  have first := two_mul_triangle d
  have second := two_mul_triangle d'
  rw [same] at first
  rcases lt_trichotomy d d' with below | equal | above
  · nlinarith
  · exact equal
  · nlinarith

theorem packedSide_triangle {d : Nat} (small : triangle d < 2 ^ 53) :
    packedSide (triangle d) = d := by
  have double := two_mul_triangle d
  have side : d < 2 ^ 51 := by nlinarith
  rw [packedSide, Binary64.round_two_mul small, Option.getD_some]
  exact Binary64.wholeSquareRoot_eq (by nlinarith) (by nlinarith) side

theorem Packed.half_eq_triangle (d : Nat) : ((d : Int) * (d + 1) / 2).toNat = triangle d := by
  have double := two_mul_triangle d
  have cast : (d : Int) * (d + 1) = 2 * (triangle d : Int) := by exact_mod_cast double.symm
  rw [cast]
  omega

theorem exists_triangle (side : Int) : ∃ d, (side * (side + 1) / 2).toNat = triangle d := by
  have halved {d : Nat} (product : side * (side + 1) = d * (d + 1)) :
      (side * (side + 1) / 2).toNat = triangle d := by
    have double := two_mul_triangle d
    have cast : side * (side + 1) = 2 * (triangle d : Int) := by
      rw [product]
      exact_mod_cast double.symm
    rw [cast]
    omega
  rcases le_or_gt 0 side with nonneg | negative
  · refine ⟨side.toNat, halved ?_⟩
    rw [Int.toNat_of_nonneg nonneg]
  · refine ⟨(-side - 1).toNat, halved ?_⟩
    rw [Int.toNat_of_nonneg (by omega)]
    ring

theorem rowCount_triangle {d : Nat} (small : triangle d < 2 ^ 53) :
    Kind.rowCount (.cone .semidefinite) d = .ok (triangle d) := by
  unfold Kind.rowCount packedSize
  rw [half_eq_triangle, Binary64.round_of_lt small]
  rfl

theorem packedSize_of_rowCount {side : Int} {size : Nat}
    (counted : Kind.rowCount (.cone .semidefinite) side = .ok size) : packedSize side = .ok size := by
  unfold Kind.rowCount at counted
  cases rows : packedSize side with
  | error cause =>
    rw [rows] at counted
    cases counted
  | ok value =>
    rw [rows] at counted
    exact congrArg Except.ok (Int.ofNat.inj (Except.ok.inj counted))

theorem packedSize_ne_zero {side : Int} {size : Nat} (counted : packedSize side = .ok size)
    (positive : 0 < side) : size ≠ 0 := by
  rintro rfl
  unfold packedSize at counted
  cases rounded : Binary64.round (side * (side + 1) / 2).toNat with
  | none =>
    rw [rounded] at counted
    cases counted
  | some value =>
    rw [rounded] at counted
    cases counted
    have none := Binary64.eq_of_round rounded (by norm_num)
    have product : 2 ≤ side * (side + 1) := by nlinarith
    omega

theorem half_of_packedSize {side : Int} {size : Nat} (counted : packedSize side = .ok size)
    (small : size < 2 ^ 53) : size = (side * (side + 1) / 2).toNat := by
  unfold packedSize at counted
  cases rounded : Binary64.round (side * (side + 1) / 2).toNat with
  | none =>
    rw [rounded] at counted
    cases counted
  | some value =>
    rw [rounded] at counted
    cases counted
    exact Binary64.eq_of_round rounded small

theorem triangle_of_packedSize {side : Int} {size : Nat} (counted : packedSize side = .ok size)
    (small : size < 2 ^ 53) : ∃ d, size = triangle d := by
  obtain ⟨d, same⟩ := exists_triangle side
  exact ⟨d, (half_of_packedSize counted small).trans same⟩

namespace Block

variable {blocks : List Block} {block : Block} {n : Nat}

/-- Among fewer than `2 ^ 53` rows a semidefinite block has as many as the triangle of its side. -/
theorem size_eq_triangle (tiling : checkTiling blocks n = .ok ()) (small : n < 2 ^ 53)
    (listed : block ∈ blocks) (kind : block.kind = .cone .semidefinite) :
    (block.span n).size = triangle (packedSide (block.span n).size) := by
  have accepted := checkTiling_ok.1 tiling
  obtain ⟨nonneg, order, inside⟩ := (bounds_of_checkFrom accepted).2 block listed
  have size := span_size nonneg order inside
  have bound : (block.span n).size < 2 ^ 53 := by
    simp only [Block.size] at size
    omega
  have counted := rowCount_of_checkFrom accepted block listed
  rw [kind, ← size] at counted
  obtain ⟨d, triangular⟩ := triangle_of_packedSize (packedSize_of_rowCount counted) bound
  rw [triangular] at bound ⊢
  rw [packedSide_triangle bound]

end Block

end ConicDerivative
