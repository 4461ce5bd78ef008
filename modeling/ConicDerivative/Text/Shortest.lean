import ConicDerivative.Text.Decimal

/-!
The shortest decimal text of a double. The numbers that round to a double fill an interval around
it, whose ends belong to it if the significand is even. The fewest digits for which one of the two
decimal neighbours of the double lies in the interval are written, and of two such neighbours the
nearer one.
-/

namespace ConicDerivative.Text.Shortest

/-- The numbers that round to a double, in quarters of the unit in its last place. -/
structure Interval where
  /-- The unit is `num / den`. -/
  num : Nat
  den : Nat
  low : Nat
  middle : Nat
  high : Nat
  closed : Bool

/-- The interval of a positive finite double. Below a power of two the spacing is halved. -/
def interval (x : Float) : Interval :=
  let bits := x.toBits.toNat
  let stored := bits / Nat.pow 2 52 % Nat.pow 2 11
  let fraction := bits % Nat.pow 2 52
  let exponent := max stored 1
  let mantissa := if stored = 0 then fraction else fraction + Nat.pow 2 52
  { num := Nat.pow 2 (exponent - 1075), den := 4 * Nat.pow 2 (1075 - exponent)
    low := if fraction = 0 ∧ 1 < stored then 4 * mantissa - 1 else 4 * mantissa - 2
    middle := 4 * mantissa, high := 4 * mantissa + 2, closed := mantissa % 2 = 0 }

def Interval.contains (i : Interval) (value scale : Nat) : Bool :=
  let place := value * i.den
  let unit := i.num * scale
  if i.closed then decide (i.low * unit ≤ place) && decide (place ≤ i.high * unit)
  else decide (i.low * unit < place) && decide (place < i.high * unit)

def withPlaces? (i : Interval) (places : Nat) : Option Scientific :=
  let num := i.middle * i.num
  let exponent := Scientific.leadingExponent num i.den
  let shift : Int := places - exponent
  let up := Nat.pow 10 shift.toNat
  let down := Nat.pow 10 (-shift).toNat
  let below := num * up / (i.den * down)
  let rest := num * up % (i.den * down)
  let choose (digits : Nat) : Scientific :=
    if digits = Nat.pow 10 (places + 1) then ⟨Nat.pow 10 places, exponent + 1⟩
    else ⟨digits, exponent⟩
  match i.contains (below * down) up, i.contains ((below + 1) * down) up with
  | true, true =>
    some (choose (if 2 * rest < i.den * down ∨ (2 * rest = i.den * down ∧ below % 2 = 0) then below
      else below + 1))
  | true, false => some (choose below)
  | false, true => some (choose (below + 1))
  | false, false => none

/-- The fewest digits; seventeen are always enough. -/
def digits (x : Float) : Scientific :=
  ((List.range 17).findSome? (withPlaces? (interval x))).getD ⟨0, 0⟩

def positive (x : Float) : String :=
  let ⟨digits, exponent⟩ := digits x
  let text := dropTrailingZeros (toString digits)
  if exponent < -4 ∨ 16 ≤ exponent then pointed text ++ exponentText exponent
  else if exponent < 0 then "0." ++ "".pushn '0' ((-exponent).toNat - 1) ++ text
  else
    let whole := exponent.toNat + 1
    let padding := "".pushn '0' (whole - text.length)
    let decimals := (text.drop whole).toString
    (text.take whole).toString ++ padding ++ "." ++ (if decimals.isEmpty then "0" else decimals)

end Shortest

def shortest (x : Float) : String :=
  match specialText x with
  | some word => word
  | none =>
    let negative := (Binary64.fractionOf x).1
    signText negative ++ (if x == 0 then "0.0" else Shortest.positive x.abs)

end ConicDerivative.Text
