import ConicDerivative.Text.Ranges

/-!
Blanks. The separators of the standard count as blanks, and so do the control characters that stand
for them.
-/

namespace ConicDerivative.Text

def blanks : Ranges :=
  [(0x9, 0xd), (0x1c, 0x20), (0x85, 0x85), (0xa0, 0xa0), (0x1680, 0x1680), (0x2000, 0x200a),
   (0x2028, 0x2029), (0x202f, 0x202f), (0x205f, 0x205f), (0x3000, 0x3000)]

def isBlank (c : Char) : Bool := blanks.contains c

/-- A blank of the first 128 characters that is no information separator. -/
def isPlainBlank (c : Char) : Bool := c = ' ' ∨ ('\t' ≤ c ∧ c ≤ '\r')

end ConicDerivative.Text
