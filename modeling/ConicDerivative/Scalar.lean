/-!
The numbers that this library computes with. Every numeric definition is written once over a
`Scalar`: it runs on doubles, and read over the real numbers it is the exact algorithm. A double may
be a NaN, which is the only value unordered with itself; the tests below are phrased through the
order alone, so that they keep their meaning over an ordered field.
-/

namespace ConicDerivative

class Scalar (α : Type) extends Zero α, One α, Add α, Sub α, Neg α, Mul α, Div α, LE α, LT α,
    NatCast α, OfScientific α where
  sqrt : α → α
  log : α → α
  /-- The least whole number not below a number; zero for a NaN, and a huge one for infinity. -/
  ceil : α → Nat
  decideLE : ∀ x y : α, Decidable (x ≤ y)
  decideLT : ∀ x y : α, Decidable (x < y)

namespace Scalar

instance instDecidableLE {α : Type} [Scalar α] (x y : α) : Decidable (x ≤ y) := decideLE x y

instance instDecidableLT {α : Type} [Scalar α] (x y : α) : Decidable (x < y) := decideLT x y

instance float : Scalar Float where
  natCast := Float.ofNat
  sqrt := Float.sqrt
  log := Float.log
  ceil x := x.ceil.toUInt64.toNat
  decideLE _ _ := inferInstance
  decideLT _ _ := inferInstance

variable {α : Type} [Scalar α]

def isNaN (x : α) : Bool := !decide (x ≤ x)

def isZero (x : α) : Bool := decide (x ≤ 0) && decide (0 ≤ x)

/-- An infinite number minus itself is a NaN. -/
def isFinite (x : α) : Bool := !isNaN (x - x)

def abs (x : α) : α := if x < 0 then -x else x

def sign (x : α) : α := if 0 < x then 1 else if x < 0 then -1 else x

/-- The larger of `x` and zero; a NaN keeps itself. -/
def positivePart (x : α) : α := if x ≤ 0 then 0 else x

def larger (x y : α) : α := if x ≤ y then y else if y ≤ x then x else x + y

def smaller (x y : α) : α := if x ≤ y then x else if y ≤ x then y else x + y

def square (x : α) : α := x * x

def two : α := (2 : Nat)

def sumOver (n : Nat) (f : Fin n → α) : α := Fin.foldl n (fun total i => total + f i) 0

theorem sumOver_zero (f : Fin 0 → α) : sumOver 0 f = 0 := rfl

theorem sumOver_succ (n : Nat) (f : Fin (n + 1) → α) :
    sumOver (n + 1) f = sumOver n (fun i => f i.castSucc) + f (Fin.last n) := by
  simp [sumOver, Fin.foldl_succ_last]

end Scalar

end ConicDerivative
