import ConicDerivative.Text.Printable

/-!
Quoted text. A text stands between single quotes, or between double quotes if it holds a single
quote and no double one. The quote in use, the backslash and characters that cannot be printed are
escaped, so the text can be told from its quoted form.
-/

namespace ConicDerivative.Text

def hex : Nat → Nat → List Char
  | 0, _ => []
  | count + 1, n => hex count (n / 16) ++ ["0123456789abcdef".toList.getD (n % 16) '0']

def escapeCode (code : Nat) : List Char :=
  if code < 0x100 then '\\' :: 'x' :: hex 2 code
  else if code < 0x10000 then '\\' :: 'u' :: hex 4 code
  else '\\' :: 'U' :: hex 8 code

def escape (quote c : Char) : List Char :=
  if c = quote ∨ c = '\\' then ['\\', c]
  else if c = '\n' then ['\\', 'n']
  else if c = '\t' then ['\\', 't']
  else if c = '\r' then ['\\', 'r']
  else if isPrintable c then [c]
  else escapeCode c.toNat

def quoteFor (text : List Char) : Char :=
  if '\'' ∈ text ∧ '"' ∉ text then '"' else '\''

def quoted (text : String) : String :=
  let quote := quoteFor text.toList
  String.ofList (quote :: text.toList.flatMap (escape quote) ++ [quote])

def listed (items : List String) : String := "[" ++ ", ".intercalate items ++ "]"

/-- A list of lengths in round brackets; a single one is followed by a comma. -/
def shape : List Nat → String
  | [n] => "(" ++ toString n ++ ",)"
  | lengths => "(" ++ ", ".intercalate (lengths.map toString) ++ ")"

end ConicDerivative.Text
