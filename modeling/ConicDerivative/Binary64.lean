/-!
The doubles on the integers: rounding a natural number or its square root to 53 binary digits, a tie
going to the even neighbour. Sizes of packed symmetric matrices are computed through these
roundings, so they are part of the layout.
-/

namespace ConicDerivative.Binary64

def squareRoot (n : Nat) : Nat :=
  if h : n = 0 then 0
  else
    let half := 2 * squareRoot (n / 4)
    if (half + 1) * (half + 1) ≤ n then half + 1 else half
termination_by n
decreasing_by omega

def width (n : Nat) : Nat := if n = 0 then 0 else n.log2 + 1

/-- The multiple of `2 ^ drop` nearest to `n`, counted in those units. -/
def roundShift (n drop : Nat) : Nat :=
  let quotient := n / Nat.pow 2 drop
  let twice := 2 * (n % Nat.pow 2 drop)
  if twice > Nat.pow 2 drop ∨ (twice = Nat.pow 2 drop ∧ quotient % 2 = 1) then quotient + 1
  else quotient

/-- The double nearest to `n`, or none if that is infinite. -/
def round (n : Nat) : Option Nat :=
  let drop := width n - 53
  let rounded := roundShift n drop * Nat.pow 2 drop
  if rounded < Nat.pow 2 1024 then some rounded else none

/--
The whole part of the double nearest to the square root of `n`. The root is scaled to 53 binary
digits; it is never halfway between two whole numbers, so the nearest one is found from its square.
-/
def wholeSquareRoot (n : Nat) : Nat :=
  let shift := 53 - width (squareRoot n)
  let scaled := n * Nat.pow 4 shift
  let root := squareRoot scaled
  let nearest := if root * root + root < scaled then root + 1 else root
  nearest / Nat.pow 2 shift

def fractionOf (x : Float) : Bool × Nat × Nat :=
  let bits := x.toBits.toNat
  let stored := bits / Nat.pow 2 52 % Nat.pow 2 11
  let mantissa := if stored = 0 then bits % Nat.pow 2 52 else bits % Nat.pow 2 52 + Nat.pow 2 52
  let exponent := max stored 1
  (bits / Nat.pow 2 63 = 1, mantissa * Nat.pow 2 (exponent - 1075), Nat.pow 2 (1075 - exponent))

def truncate (x : Float) : Int :=
  let (negative, num, den) := fractionOf x
  if negative then -(num / den : Nat) else (num / den : Nat)

end ConicDerivative.Binary64
