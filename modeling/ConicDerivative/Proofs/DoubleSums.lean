import ConicDerivative.Scalar
import ConicDerivative.Proofs.RoundedDoubles

/-!
On which side of zero a sum of doubles lies. The order of the doubles tells the side of each; a sum
of two lies on theirs, if they do not lie on opposite sides, however it is rounded.
-/

namespace ConicDerivative.Double

open Float.Model Float.Model.UnpackedFloat

/-- The side of zero that a double lies on; a NaN lies on none. -/
def side (x : Float) : Option SignType :=
  if 0 < x then some 1 else if x < 0 then some (-1) else if x == 0 then some 0 else none

theorem lt_iff {x y : Float} :
    x < y ↔ x.toModel.unpack.compare y.toModel.unpack = some .lt := by
  change Float.lt x y = true ↔ _
  rw [Float.lt, decide_eq_true_iff]
  exact beq_iff_eq

theorem le_iff {x y : Float} : x ≤ y ↔
    (x.toModel.unpack.compare y.toModel.unpack).any Ordering.isLE = true := by
  change Float.le x y = true ↔ _
  rw [Float.le, decide_eq_true_iff]
  rfl

theorem beq_iff {x y : Float} :
    (x == y) = true ↔ x.toModel.unpack.compare y.toModel.unpack = some .eq := by
  change UnpackedFloat.beq _ _ = true ↔ _
  rw [UnpackedFloat.beq]
  exact beq_iff_eq

theorem unpack_zero : (0 : Float).toModel.unpack = .zero .positive := by
  with_unfolding_all rfl

theorem side_eq (x : Float) : side x = direction x.toModel.unpack := by
  simp only [side, lt_iff, beq_iff, unpack_zero]
  cases x.toModel.unpack with
  | notANumber => rfl
  | zero s => rfl
  | infinity s => cases s <;> rfl
  | finite s m e positive => cases s <;> rfl

theorem beq_zero_iff {x : Float} : (x == 0) = true ↔ side x = some 0 := by
  rw [beq_iff, unpack_zero, side_eq]
  cases x.toModel.unpack with
  | notANumber => exact iff_of_false nofun nofun
  | zero s => exact iff_of_true rfl rfl
  | infinity s => cases s <;> exact iff_of_false nofun nofun
  | finite s m e positive => cases s <;> exact iff_of_false nofun nofun

theorem isNaN_iff {x : Float} : Scalar.isNaN x = true ↔ side x = none := by
  have ordered : x ≤ x ↔ direction x.toModel.unpack ≠ none := by
    rw [le_iff]
    cases x.toModel.unpack with
    | notANumber => exact iff_of_false nofun (absurd rfl)
    | zero s => exact iff_of_true rfl nofun
    | infinity s => cases s <;> exact iff_of_true rfl nofun
    | finite s m e positive => cases s <;> simp [UnpackedFloat.compare, direction]
  rw [Scalar.isNaN, Bool.not_eq_true', decide_eq_false_iff_not, ordered, not_not, side_eq]

theorem isRounded_toModel (x : Float) : IsRounded x.toModel.unpack := isRounded_unpack _

theorem side_eq_direction_add (x y : Float) : side (x + y) =
    direction (UnpackedFloat.add .binary64 x.toModel.unpack y.toModel.unpack) := by
  rw [side_eq]
  exact direction_pack (isRounded_add (isRounded_toModel x) (isRounded_toModel y))

theorem side_add {x y : Float} {a b : SignType} (first : side x = some a)
    (second : side y = some b) (aligned : a = 0 ∨ b = 0 ∨ a = b) :
    side (x + y) = some (if a = 0 then b else a) := by
  rw [side_eq] at first second
  rw [side_eq_direction_add]
  exact direction_add (isRounded_toModel x) (isRounded_toModel y) first second aligned

/-- A sum is a NaN if one of the doubles is, or if they are opposite infinities. -/
theorem side_add_eq_none {x y : Float} : side (x + y) = none ↔
    side x = none ∨ side y = none ∨ x.isInf = true ∧ y.isInf = true ∧ side x ≠ side y := by
  rw [side_eq_direction_add, side_eq x, side_eq y]
  exact direction_add_eq_none (isRounded_toModel x) (isRounded_toModel y)

theorem ofNat_eq (n : Nat) : Float.ofNat n =
    if n < 2 ^ 53 then n.toUInt64.toFloat * Float.ofBits 0x3FF0000000000000
    else ⟨Float.Model.ofScientific n 0⟩ := by
  change Float.ofScientific n false 0 = _
  unfold Float.ofScientific
  by_cases small : n < 2 ^ 53
  · rw [dif_pos ⟨small, Nat.zero_le 22⟩, if_pos small]
    rfl
  · rw [dif_neg fun both => small both.1, if_neg small]
    rfl

theorem unpack_one : (Float.ofBits 0x3FF0000000000000).toModel.unpack =
    .finite .positive (2 ^ 52) (-52) (by decide) := by
  with_unfolding_all rfl

theorem side_ofNat {n : Nat} (positive : 0 < n) : side (Float.ofNat n) = some 1 := by
  rw [side_eq, ofNat_eq]
  split_ifs with small
  · have kept : n.toUInt64.toNat = n := by
      rw [Nat.toUInt64, UInt64.toNat_ofNat']
      omega
    have above : direction n.toUInt64.toFloat.toModel.unpack = some 1 := by
      change direction
        (Float.Model.pack (UnpackedFloat.normalize _ n.toUInt64.toNat 0 _)).unpack = _
      obtain ⟨rounded, found⟩ := direction_normalize (e := 0) n.toUInt64.toNat (by decide)
      rw [direction_pack rounded, found, kept, sign_pos (by exact_mod_cast positive)]
    obtain ⟨rounded, found⟩ := direction_mul_one (isRounded_toModel _) above (by decide)
    change direction (Float.Model.pack (UnpackedFloat.mul _ _
      (Float.ofBits 0x3FF0000000000000).toModel.unpack)).unpack = _
    rw [unpack_one, direction_pack rounded, found]
  · obtain ⟨rounded, found⟩ := direction_ofScientific positive
    change direction (Float.Model.pack (UnpackedFloat.ofScientific .binary64 n 0)).unpack = _
    rw [direction_pack rounded, found]

theorem side_neg (x : Float) : side (-x) = (side x).map (-·) := by
  rw [side_eq, side_eq, ← direction_neg]
  exact direction_pack (isRounded_neg (isRounded_toModel x))

theorem side_ofInt (n : Int) : side (Float.ofInt n) = some (SignType.sign n) := by
  cases n with
  | ofNat n =>
    obtain rfl | positive := n.eq_zero_or_pos
    · change side 0 = _
      rw [side_eq, unpack_zero]
      rfl
    · change side (Float.ofNat n) = _
      rw [side_ofNat positive, Int.ofNat_eq_natCast, sign_pos (Int.natCast_pos.2 positive)]
  | negSucc n =>
    change side (-Float.ofNat (n + 1)) = _
    rw [side_neg, side_ofNat n.succ_pos, sign_neg (Int.negSucc_lt_zero n)]
    rfl

/-- What the sides of two numbers tell about the side of their sum. -/
structure Joins (first second sum : Option SignType) : Prop where
  unordered : first = none ∨ second = none → sum = none
  aligned : ∀ a b, first = some a → second = some b → a = 0 ∨ b = 0 ∨ a = b →
    sum = some (if a = 0 then b else a)

theorem joins_add (x y : Float) : Joins (side x) (side y) (side (x + y)) where
  unordered missing := side_add_eq_none.2 (missing.imp_right .inl)
  aligned _ _ first second same := side_add first second same

theorem joins_sign (m n : ℤ) : Joins (some (SignType.sign m)) (some (SignType.sign n))
    (some (SignType.sign (m + n))) where
  unordered missing := by simp at missing
  aligned a b first second same := by
    cases first
    cases second
    congr 1
    split_ifs with zero
    · rw [sign_eq_zero_iff.1 zero, zero_add]
    rcases same.resolve_left zero with none | same
    · rw [sign_eq_zero_iff.1 none, add_zero]
    · obtain negative | positive := lt_or_gt_of_ne (mt sign_eq_zero_iff.2 zero)
      · rw [sign_neg negative] at same ⊢
        exact sign_neg (add_neg negative (sign_eq_neg_one_iff.1 same.symm))
      · rw [sign_pos positive] at same ⊢
        exact sign_pos (add_pos positive (sign_eq_one_iff.1 same.symm))

/-- A number at zero or on the side `t`, or a NaN. -/
def Within (t : SignType) (side : Option SignType) : Prop := ∀ a ∈ side, a = 0 ∨ a = t

theorem Joins.within {t : SignType} {first second sum : Option SignType}
    (joins : Joins first second sum) (hfirst : Within t first) (hsecond : Within t second) :
    Within t sum ∧ (sum = some 0 ↔ first = some 0 ∧ second = some 0) := by
  cases first with
  | none =>
    rw [joins.unordered (.inl rfl)]
    exact ⟨nofun, iff_of_false nofun fun both => nomatch both.1⟩
  | some a =>
    cases second with
    | none =>
      rw [joins.unordered (.inr rfl)]
      exact ⟨nofun, iff_of_false nofun fun both => nomatch both.2⟩
    | some b =>
      have left := hfirst a rfl
      have right := hsecond b rfl
      have same : a = 0 ∨ b = 0 ∨ a = b := by
        rcases left with zero | rfl
        · exact .inl zero
        · exact .inr (right.imp_right Eq.symm)
      rw [joins.aligned a b rfl rfl same]
      split_ifs with zero
      · exact ⟨hsecond, by simp [zero]⟩
      · exact ⟨hfirst, by simp [zero]⟩

end ConicDerivative.Double
