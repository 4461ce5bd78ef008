import ConicDerivative.Scalar

/-!
A fixed sequence of draws from the standard normal distribution. Words of 32 bits come from a
twisted feedback shift register with 624 words of state; two of them make a number below one, and
the polar method turns a pair of such numbers inside the unit circle into two draws.
-/

namespace ConicDerivative.Draws

def seedWords : Array UInt32 :=
  (List.range 623).foldl
    (fun (words : Array UInt32) (k : Nat) =>
      let last : UInt32 := words.getD k 0
      words.push ((1812433253 : UInt32) * (last ^^^ (last >>> 30)) + (k + 1).toUInt32))
    #[(0 : UInt32)]

/-- The upper bit of one word and the lower bits of the next, shifted with feedback. -/
def twist (word next : UInt32) : UInt32 :=
  let joined := (word &&& 0x80000000) ||| (next &&& 0x7fffffff)
  (joined >>> 1) ^^^ (if joined &&& 1 = 1 then 0x9908b0df else 0)

def register (count : Nat) : Array UInt32 :=
  (List.range count).foldl
    (fun (words : Array UInt32) (k : Nat) =>
      words.push (words.getD (k + 397) 0 ^^^ twist (words.getD k 0) (words.getD (k + 1) 0)))
    seedWords

def temper (word : UInt32) : UInt32 :=
  let word := word ^^^ (word >>> 11)
  let word := word ^^^ ((word <<< 7) &&& 0x9d2c5680)
  let word := word ^^^ ((word <<< 15) &&& 0xefc60000)
  word ^^^ (word >>> 18)

def words (count : Nat) : List UInt32 := ((register count).toList.drop 624).map temper

open Scalar

variable {α : Type} [Scalar α]

def fraction (high low : UInt32) : α :=
  (((high >>> 5).toNat * Nat.pow 2 26 + (low >>> 6).toNat : Nat) : α) / ((Nat.pow 2 53 : Nat) : α)

/-- The two draws of a point of the square, if it lies inside the circle and is not its centre. -/
def polar (u v : α) : List α :=
  let x := two * u - 1
  let y := two * v - 1
  let square := x * x + y * y
  if 1 ≤ square ∨ isZero square then []
  else
    let factor := sqrt (-two * log square / square)
    [factor * y, factor * x]

def pairs : List UInt32 → List α
  | a :: b :: c :: d :: rest => polar (fraction a b) (fraction c d) ++ pairs rest
  | _ => []

/-- The first `n` draws. More than twice the needed words are made, since a fifth is rejected. -/
def normal (n : Nat) : Vector α n :=
  let draws : Array α := (pairs (words (4 * n + 64))).toArray
  Vector.ofFn fun i => draws.getD i 0

end ConicDerivative.Draws
