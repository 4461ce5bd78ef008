import ConicDerivative.Binary64

/-!
Decimal text of doubles. A double is read as a fraction and rounded to a number of significant
digits in whole arithmetic, so the digits are those of its exact value.
-/

namespace ConicDerivative.Text

/-- A number `digits * 10 ^ (exponent - places)` with `places + 1` digits. -/
structure Scientific where
  digits : Nat
  exponent : Int

namespace Scientific

def digitCount (n : Nat) : Nat := if n < 10 then 1 else digitCount (n / 10) + 1

def leadingExponent (num den : Nat) : Int :=
  if den ≤ num then digitCount (num / den) - 1
  else -digitCount ((den - 1) / num)

def nearestQuotient (num den : Nat) : Nat :=
  let twice := 2 * (num % den)
  if twice > den ∨ (twice = den ∧ num / den % 2 = 1) then num / den + 1 else num / den

/-- The nearest number with `places + 1` digits to the positive fraction `num / den`. -/
def ofFraction (places num den : Nat) : Scientific :=
  let exponent := leadingExponent num den
  let shift : Int := places - exponent
  let digits := nearestQuotient (num * Nat.pow 10 shift.toNat) (den * Nat.pow 10 (-shift).toNat)
  if digits = Nat.pow 10 (places + 1) then ⟨Nat.pow 10 places, exponent + 1⟩ else ⟨digits, exponent⟩

end Scientific

def padded (count n : Nat) : String :=
  let text := toString n
  "".pushn '0' (count - text.length) ++ text

def exponentText (e : Int) : String :=
  (if e < 0 then "e-" else "e+") ++ padded 2 e.natAbs

def specialText (x : Float) : Option String :=
  if x.isNaN then some "nan"
  else if x.isInf then some (if x < 0 then "-inf" else "inf")
  else none

def signText (negative : Bool) : String := if negative then "-" else ""

def pointed (digits : String) : String :=
  if digits.length ≤ 1 then digits else (digits.take 1).toString ++ "." ++ (digits.drop 1).toString

def scientific (places : Nat) (x : Float) : String :=
  match specialText x with
  | some word => word
  | none =>
    let (negative, num, den) := Binary64.fractionOf x
    let ⟨digits, exponent⟩ : Scientific :=
      if num = 0 then ⟨0, 0⟩ else .ofFraction places num den
    signText negative ++ pointed (padded (places + 1) digits) ++ exponentText exponent

def dropTrailingZeros (digits : String) : String := (digits.dropEndWhile (· == '0')).toString

/--
The given number of significant digits without zeros at the end, in positional notation while the
exponent is at least `-4` and the digits reach the point.
-/
def general (significant : Nat) (x : Float) : String :=
  match specialText x with
  | some word => word
  | none =>
    let (negative, num, den) := Binary64.fractionOf x
    if num = 0 then signText negative ++ "0"
    else
      let ⟨digits, exponent⟩ := Scientific.ofFraction (significant - 1) num den
      let text := toString digits
      let body :=
        if exponent < -4 ∨ (significant : Int) ≤ exponent then
          pointed (dropTrailingZeros text) ++ exponentText exponent
        else if exponent < 0 then
          "0." ++ "".pushn '0' ((-exponent).toNat - 1) ++ dropTrailingZeros text
        else
          let whole := exponent.toNat + 1
          let decimals := dropTrailingZeros (text.drop whole).toString
          (text.take whole).toString ++ (if decimals.isEmpty then "" else "." ++ decimals)
      signText negative ++ body

end ConicDerivative.Text
