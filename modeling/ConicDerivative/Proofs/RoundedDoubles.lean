import Mathlib

/-!
Doubles as signs, mantissas and exponents. Rounding leaves a number on its side of zero, and brings
none down to zero that is at least the least double. So the sum of two numbers on one side of zero
lies there as well, and a sum is a NaN only if an operand is or two opposite infinities meet.
-/

namespace ConicDerivative.Double

open Float.Model Float.Model.UnpackedFloat

def ofSign : Sign → SignType
  | .negative => -1
  | .positive => 1

theorem ofSign_ne_zero (s : Sign) : ofSign s ≠ 0 := by cases s <;> decide

theorem ofSign_injective : Function.Injective ofSign := by
  intro s t same
  cases s <;> cases t <;> first | rfl | cases same

theorem sign_apply (s : Sign) {k : Nat} (positive : 0 < k) :
    SignType.sign (s.apply k) = ofSign s := by
  cases s with
  | negative => exact sign_neg (by simpa [Sign.apply])
  | positive => exact sign_pos (by simpa [Sign.apply])

def direction : UnpackedFloat → Option SignType
  | .notANumber => none
  | .zero _ => some 0
  | .infinity s | .finite s _ _ _ => some (ofSign s)

/-- The mantissa has at most 53 digits, and counts the least double or a multiple of it. -/
def IsRounded : UnpackedFloat → Prop
  | .finite _ m e _ => m < 2 ^ 53 ∧ -1074 ≤ e
  | .infinity _ | .notANumber | .zero _ => True

theorem bias_eq : Format.binary64.exponentBias = 1023 := by decide

theorem mantissaBits_eq : Format.binary64.mantissaBits = 53 := by decide

theorem ofBitVec_unpackSign {format : Format} (s : Sign) (e : BitVec format.exponentBits)
    (m : BitVec format.mantissaBitsWithoutImplicit) :
    Sign.ofBitVec (unpackSign (packComponents format s e m)) = s := by
  have kept : unpackSign (packComponents format s e m) = s.toBitVec := by
    ext i bound
    obtain rfl : i = 0 := by omega
    simp [unpackSign, packComponents, BitVec.getLsbD_append, BitVec.getElem_append]
  rw [kept]
  cases s <;> rfl

theorem direction_unpack_packComponents {s : Sign} {e : BitVec 11} {m : BitVec 52}
    (finite : e ≠ -1#11) (nonzero : e ≠ 0#11 ∨ m ≠ 0#52) :
    direction (UnpackedFloat.unpack .binary64 (packComponents .binary64 s e m)) =
      some (ofSign s) := by
  unfold UnpackedFloat.unpack
  simp only [unpackMantissa_packComponents, unpackExponent_packComponents, ofBitVec_unpackSign]
  rw [if_neg finite]
  split_ifs with subnormal zero
  · exact absurd zero (nonzero.resolve_left (not_not.2 subnormal))
  · rfl
  · rfl

/-- A rounded number keeps its side as a double, also where it becomes infinite. -/
theorem direction_pack {u : UnpackedFloat} (rounded : IsRounded u) :
    direction (Float.Model.pack u).unpack = direction u := by
  unfold Float.Model.unpack Float.Model.pack
  cases u with
  | notANumber => rfl
  | infinity s => cases s <;> rfl
  | zero s => cases s <;> rfl
  | finite s m e positive =>
    obtain ⟨short, least⟩ := rounded
    change direction (UnpackedFloat.unpack .binary64 (UnpackedFloat.pack .binary64 _)) = _
    unfold UnpackedFloat.pack
    simp only [bias_eq, mantissaBits_eq]
    split_ifs with overflow normal
    · cases s <;> rfl
    · -- The stored exponent is neither the least nor the greatest one.
      refine direction_unpack_packComponents ?_ (.inl ?_) <;>
      · intro same
        have field := congrArg BitVec.toNat same
        simp at field
        omega
    · have digits : m.log2 < 53 := (Nat.log2_lt positive.ne').2 short
      have shorter : m < 2 ^ 52 := (Nat.log2_lt positive.ne').1 (by omega)
      refine direction_unpack_packComponents (by decide) (.inr ?_)
      intro same
      have field := congrArg BitVec.toNat same
      rw [BitVec.toNat_ofNat, Nat.mod_eq_of_lt shorter] at field
      exact positive.ne' field

theorem isRounded_unpack (bits : BitVec Format.binary64.numBits) :
    IsRounded (UnpackedFloat.unpack .binary64 bits) := by
  unfold UnpackedFloat.unpack
  simp only [bias_eq]
  split_ifs with special infinite subnormal zero
  · trivial
  · trivial
  · trivial
  · refine ⟨(unpackMantissa bits).isLt.trans (by decide), ?_⟩
    push_cast
    omega
  · refine ⟨(1#1 ++ unpackMantissa bits).isLt, ?_⟩
    have stored : (unpackExponent bits).toNat ≠ 0 := fun none =>
      subnormal (BitVec.eq_of_toNat_eq none)
    push_cast
    omega

theorem shiftRight_mantissa (em : ExtendedMantissa) (k : Nat) :
    (em >>> k).mantissa = em.mantissa / 2 ^ k := by
  induction k with
  | zero => exact (Nat.div_one _).symm
  | succ k ih =>
    change (em >>> k).mantissa / 2 = _
    rw [ih, Nat.div_div_eq_div_mul, ← Nat.pow_succ]

theorem le_roundedMantissa (em : ExtendedMantissa) : em.mantissa ≤ em.roundedMantissa := by
  obtain ⟨m, half, sticky⟩ := em
  cases half <;> cases sticky <;> simp [ExtendedMantissa.roundedMantissa,
    ExtendedMantissa.accuracy, Accuracy.roundToNearestEven]

def dropped (m : Nat) (e : Int) : Nat :=
  (Format.binary64.targetExponent (totalExponent m e) - e).toNat

variable {m : Nat} {e : Int}

theorem dropped_eq : dropped m e = (max ((m.log2 : Int) - 52) (-1074 - e)).toNat := by
  have target (t : Int) : Format.binary64.targetExponent t = max (t - 53) (-1074) := rfl
  rw [dropped, target, totalExponent]
  congr 1
  omega

theorem shifted_bounds (positive : 0 < m) (least : -1074 ≤ e + m.log2) :
    0 < m / 2 ^ dropped m e ∧ m / 2 ^ dropped m e < 2 ^ 53 ∧ -1074 ≤ e + dropped m e := by
  rw [dropped_eq]
  set k := (max ((m.log2 : Int) - 52) (-1074 - e)).toNat with counted
  have few : k ≤ m.log2 := by omega
  have many : m.log2 + 1 ≤ 53 + k := by omega
  refine ⟨Nat.div_pos ?_ (Nat.two_pow_pos k), ?_, by omega⟩
  · calc 2 ^ k ≤ 2 ^ m.log2 := Nat.pow_le_pow_right two_pos few
      _ ≤ m := Nat.log2_self_le positive.ne'
  · rw [Nat.div_lt_iff_lt_mul (Nat.two_pow_pos k)]
    calc m < 2 ^ (m.log2 + 1) := Nat.lt_log2_self
      _ ≤ 2 ^ (53 + k) := Nat.pow_le_pow_right two_pos many
      _ = 2 ^ 53 * 2 ^ k := Nat.pow_add ..

theorem shiftToTargetExponent_eq (m : Nat) (e : Int) :
    shiftToTargetExponent .binary64 m e .exact =
      (ExtendedMantissa.mk m false false >>> dropped m e, e + dropped m e) := rfl

theorem direction_roundWithAccuracy (s : Sign) (positive : 0 < m) (least : -1074 ≤ e + m.log2) :
    IsRounded (roundWithAccuracy .binary64 s m e .exact) ∧
      direction (roundWithAccuracy .binary64 s m e .exact) = some (ofSign s) := by
  obtain ⟨left, _, bound⟩ := shifted_bounds positive least
  have rounded : 0 < (ExtendedMantissa.mk m false false >>> dropped m e).roundedMantissa := by
    refine Nat.lt_of_lt_of_le ?_ (le_roundedMantissa _)
    rwa [shiftRight_mantissa]
  unfold roundWithAccuracy
  rw [shiftToTargetExponent_eq]
  dsimp only
  -- Rounding up may have added a digit, so the mantissa is shifted a second time.
  generalize (ExtendedMantissa.mk m false false >>> dropped m e).roundedMantissa = r at rounded
  obtain ⟨left, short, bound⟩ := shifted_bounds (e := e + dropped m e) rounded (by omega)
  rw [shiftToTargetExponent_eq]
  simp only [shiftRight_mantissa, left.ne', ↓reduceDIte]
  exact ⟨⟨short, bound⟩, rfl⟩

theorem shiftLeft_pos (positive : 0 < m) (k : Nat) : 0 < m <<< k := by
  rw [Nat.shiftLeft_eq]
  exact Nat.mul_pos positive (Nat.two_pow_pos k)

theorem le_log2_shiftLeft (positive : 0 < m) (k : Nat) : m.log2 + k ≤ (m <<< k).log2 := by
  rw [Nat.le_log2 (shiftLeft_pos positive k).ne', Nat.shiftLeft_eq, Nat.pow_add]
  exact Nat.mul_le_mul_right _ (Nat.log2_self_le positive.ne')

theorem direction_round (s : Sign) (positive : 0 < m) (least : -1074 ≤ e) :
    IsRounded (UnpackedFloat.round .binary64 s m e) ∧
      direction (UnpackedFloat.round .binary64 s m e) = some (ofSign s) := by
  unfold UnpackedFloat.round decreaseExponent
  dsimp only
  generalize (e - Format.binary64.targetExponent (totalExponent m e)).toNat = k
  have long := le_log2_shiftLeft positive k
  exact direction_roundWithAccuracy s (shiftLeft_pos positive k) (by omega)

theorem direction_normalize (n : Int) (least : -1074 ≤ e) :
    IsRounded (UnpackedFloat.normalize .binary64 n e .positive) ∧
      direction (UnpackedFloat.normalize .binary64 n e .positive) = some (SignType.sign n) := by
  unfold UnpackedFloat.normalize
  rcases lt_trichotomy n 0 with negative | rfl | positive
  · rw [Int.compare_eq_lt.2 negative, sign_neg negative]
    exact direction_round .negative (by omega) least
  · rw [sign_zero]
    exact ⟨trivial, rfl⟩
  · rw [Int.compare_eq_gt.2 positive, sign_pos positive]
    exact direction_round .positive (by omega) least

theorem add_finite {s t : Sign} {m' : Nat} {e' : Int} {positive : 0 < m} {positive' : 0 < m'}
    (least : -1074 ≤ e) (least' : -1074 ≤ e') : ∃ k k' : Nat, 0 < k ∧ 0 < k' ∧
      IsRounded (UnpackedFloat.add .binary64 (.finite s m e positive) (.finite t m' e' positive')) ∧
      direction
        (UnpackedFloat.add .binary64 (.finite s m e positive) (.finite t m' e' positive')) =
          some (SignType.sign (s.apply k + t.apply k')) :=
  ⟨_, _, shiftLeft_pos positive _, shiftLeft_pos positive' _,
    direction_normalize _ (le_min least least')⟩

variable {u v : UnpackedFloat}

theorem isRounded_add (hu : IsRounded u) (hv : IsRounded v) :
    IsRounded (UnpackedFloat.add .binary64 u v) := by
  cases u with
  | notANumber => trivial
  | infinity s =>
    cases v with
    | infinity t => cases s <;> cases t <;> trivial
    | _ => trivial
  | zero s =>
    cases v with
    | zero t => cases s <;> cases t <;> trivial
    | _ => exact hv
  | finite s m e positive =>
    cases v with
    | notANumber | infinity t => trivial
    | zero t => exact hu
    | finite t m' e' positive' =>
      obtain ⟨_, _, _, _, rounded, _⟩ := add_finite hu.2 hv.2
      exact rounded

theorem direction_add {a b : SignType} (hu : IsRounded u) (hv : IsRounded v)
    (first : direction u = some a) (second : direction v = some b)
    (aligned : a = 0 ∨ b = 0 ∨ a = b) :
    direction (UnpackedFloat.add .binary64 u v) = some (if a = 0 then b else a) := by
  have eq_of_aligned {s t : Sign} (aligned : ofSign s = 0 ∨ ofSign t = 0 ∨ ofSign s = ofSign t) :
      s = t :=
    ofSign_injective ((aligned.resolve_left (ofSign_ne_zero s)).resolve_left (ofSign_ne_zero t))
  cases u with
  | notANumber => cases first
  | zero s =>
    cases first
    rw [if_pos rfl, ← second]
    cases v with
    | zero t => cases s <;> cases t <;> rfl
    | _ => rfl
  | infinity s =>
    cases first
    rw [if_neg (ofSign_ne_zero s)]
    cases v with
    | notANumber => cases second
    | infinity t =>
      cases second
      obtain rfl := eq_of_aligned aligned
      cases s <;> rfl
    | _ => rfl
  | finite s m e positive =>
    cases first
    rw [if_neg (ofSign_ne_zero s)]
    cases v with
    | notANumber => cases second
    | zero t => rfl
    | infinity t =>
      cases second
      obtain rfl := eq_of_aligned aligned
      rfl
    | finite t m' e' positive' =>
      cases second
      obtain rfl := eq_of_aligned aligned
      obtain ⟨k, k', above, _, _, sum⟩ := add_finite (s := s) (t := s) hu.2 hv.2
      have joined : s.apply k + s.apply k' = s.apply ((k + k' : Nat) : Int) := by
        cases s <;> simp [Sign.apply]; omega
      rw [sum, joined, sign_apply s (Nat.add_pos_left above k')]

theorem direction_add_eq_none (hu : IsRounded u) (hv : IsRounded v) :
    direction (UnpackedFloat.add .binary64 u v) = none ↔
      direction u = none ∨ direction v = none ∨
        u.isInf = true ∧ v.isInf = true ∧ direction u ≠ direction v := by
  cases u with
  | notANumber => exact iff_of_true rfl (.inl rfl)
  | zero s =>
    cases v with
    | zero t => cases s <;> cases t <;> simp [UnpackedFloat.add, direction]
    | _ => simp [UnpackedFloat.add, direction, UnpackedFloat.isInf]
  | infinity s =>
    cases v with
    | infinity t =>
      cases s <;> cases t <;> simp [UnpackedFloat.add, direction, UnpackedFloat.isInf, ofSign]
    | _ => simp [UnpackedFloat.add, direction, UnpackedFloat.isInf]
  | finite s m e positive =>
    cases v with
    | finite t m' e' positive' =>
      obtain ⟨_, _, _, _, _, sum⟩ := add_finite (s := s) (t := t) hu.2 hv.2
      rw [sum]
      simp [direction, UnpackedFloat.isInf]
    | _ => simp [UnpackedFloat.add, direction, UnpackedFloat.isInf]

theorem direction_mul {s t : Sign} {m' : Nat} {e' : Int} (positive : 0 < m)
    (positive' : 0 < m') (least : -1074 ≤ e + e' + (m * m').log2) :
    IsRounded (UnpackedFloat.mul .binary64 (.finite s m e positive) (.finite t m' e' positive')) ∧
      direction
        (UnpackedFloat.mul .binary64 (.finite s m e positive) (.finite t m' e' positive')) =
          some (ofSign (s * t)) :=
  direction_roundWithAccuracy (s * t) (Nat.mul_pos positive positive') least

theorem direction_mul_one (rounded : IsRounded u) (above : direction u = some 1)
    (one : 0 < 2 ^ 52) :
    IsRounded (UnpackedFloat.mul .binary64 u (.finite .positive (2 ^ 52) (-52) one)) ∧
      direction (UnpackedFloat.mul .binary64 u (.finite .positive (2 ^ 52) (-52) one)) =
        some 1 := by
  cases u with
  | notANumber | zero s => cases above
  | infinity s =>
    cases s with
    | negative => cases above
    | positive => exact ⟨trivial, rfl⟩
  | finite s m e positive =>
    cases s with
    | negative => cases above
    | positive =>
      have long : 52 ≤ (m * 2 ^ 52).log2 := by
        rw [Nat.le_log2 (Nat.mul_pos positive one).ne']
        exact Nat.le_mul_of_pos_left _ positive
      have bound := rounded.2
      exact direction_mul positive one (by omega)

theorem ofScientific_zero (format : Format) {n : Nat} (positive : 0 < n)
    (shifted : 0 < n <<< format.mantissaBits) : UnpackedFloat.ofScientific format n 0 =
      UnpackedFloat.mul format
        (.finite .positive (n <<< format.mantissaBits) (-format.mantissaBits) shifted)
        (.finite .positive 1 0 one_pos) := by
  have large : (0 : Int) ≤ 2 ^ format.exponentBits := by positivity
  unfold UnpackedFloat.ofScientific
  rw [dif_neg positive.ne', if_neg (not_lt.2 large), if_neg (by omega), if_pos le_rfl]
  rfl

theorem direction_ofScientific {n : Nat} (positive : 0 < n) :
    IsRounded (UnpackedFloat.ofScientific .binary64 n 0) ∧
      direction (UnpackedFloat.ofScientific .binary64 n 0) = some 1 := by
  have bits := mantissaBits_eq
  rw [ofScientific_zero .binary64 positive (shiftLeft_pos positive _)]
  exact direction_mul (shiftLeft_pos positive _) one_pos (by omega)

theorem direction_neg (u : UnpackedFloat) : direction u.neg = (direction u).map (-·) := by
  cases u with
  | notANumber | zero s => rfl
  | infinity s => cases s <;> rfl
  | finite s m e positive => cases s <;> rfl

theorem isRounded_neg (rounded : IsRounded u) : IsRounded u.neg := by
  cases u with
  | finite s m e positive => exact rounded
  | _ => trivial

end ConicDerivative.Double
