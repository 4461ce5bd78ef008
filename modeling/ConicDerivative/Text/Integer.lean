import ConicDerivative.Text.Blank
import ConicDerivative.Text.Digit

/-!
Whole numbers in decimal text, with a sign and blanks around them. The digits may be those of any
script, and single underscores may stand between them.
-/

namespace ConicDerivative.Text.Integer

/--
The text in the first 128 characters. As soon as it holds others, every digit and every further
blank is replaced by the plain one.
-/
def plain? (text : List Char) : Option (List Char) :=
  if text.all fun c => c.toNat < 128 then some text
  else text.mapM fun c =>
    if c.toNat < 127 then some c
    else if isBlank c then some ' '
    else (digit? c).map fun value => Char.ofNat ('0'.toNat + value)

def trimmed (text : List Char) : List Char :=
  ((text.dropWhile isPlainBlank).reverse.dropWhile isPlainBlank).reverse

def digitsValue : List Char → Nat → Option Nat
  | [], value => some value
  | '_' :: c :: rest, value =>
    if c.isDigit then digitsValue rest (10 * value + (c.toNat - '0'.toNat)) else none
  | c :: rest, value =>
    if c.isDigit then digitsValue rest (10 * value + (c.toNat - '0'.toNat)) else none

/-- A number may not have more digits than this, zeros in front included. -/
def mostDigits : Nat := 4300

def natural? : List Char → Option Nat
  | [] => none
  | c :: rest =>
    if c.isDigit && (c :: rest).countP Char.isDigit ≤ mostDigits then digitsValue (c :: rest) 0
    else none

def signed? : List Char → Option Int
  | '-' :: digits => (natural? digits).map fun n => -n
  | '+' :: digits => (natural? digits).map Int.ofNat
  | digits => (natural? digits).map Int.ofNat

def value? (text : String) : Option Int := (plain? text.toList).bind fun plain =>
  signed? (trimmed plain)

end ConicDerivative.Text.Integer
