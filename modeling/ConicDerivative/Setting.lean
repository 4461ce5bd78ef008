import ConicDerivative.Scalar
import ConicDerivative.Text.Quoted
import ConicDerivative.Text.Shortest

/-!
Named settings, as they are handed to a solver. Each has a value of one of a few kinds; which names
and kinds are understood is up to the reader.
-/

namespace ConicDerivative

inductive Setting (α : Type) where
  | integer (n : Int)
  | real (x : α)
  | flag (b : Bool)
  | text (s : String)
  | absent
  | list (items : List (Setting α))

abbrev Settings (α : Type) := List (String × Setting α)

namespace Settings

variable {α : Type}

def get? (settings : Settings α) (name : String) : Option (Setting α) :=
  (settings.find? (·.1 == name)).map (·.2)

def erase (settings : Settings α) (name : String) : Settings α := settings.filter (·.1 != name)

def insert (settings : Settings α) (name : String) (value : Setting α) : Settings α :=
  if settings.any (·.1 == name) then
    settings.map fun entry => if entry.1 == name then (name, value) else entry
  else settings ++ [(name, value)]

def withDefault (settings : Settings α) (name : String) (value : Setting α) : Settings α :=
  if settings.any (·.1 == name) then settings else settings ++ [(name, value)]

end Settings

namespace Setting

variable {α : Type} [Scalar α]

def ofInt : Int → α
  | .ofNat n => (n : α)
  | .negSucc n => -((n + 1 : Nat) : α)

/-- An absent value, an empty one and zero count as not set. -/
def isSet : Setting α → Bool
  | integer n => n != 0
  | real x => !Scalar.isZero x
  | flag b => b
  | text s => !s.isEmpty
  | absent => false
  | list items => !items.isEmpty

mutual

def literal : Setting Float → String
  | .integer n => toString n
  | .real x => Text.shortest x
  | .flag b => if b then "True" else "False"
  | .text s => Text.quoted s
  | .absent => "None"
  | .list items => Text.listed (literals items)

def literals : List (Setting Float) → List String
  | [] => []
  | item :: items => literal item :: literals items

end

def plain : Setting Float → String
  | .text s => s
  | value => value.literal

end Setting

end ConicDerivative
