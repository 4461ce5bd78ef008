import ConicDerivative.Text.Quoted

/-!
The kinds of cones. Five of them have a projection; a block may name another kind, or none, and is
then refused where a projection or a size is asked for.
-/

namespace ConicDerivative

inductive Cone where
  | zero
  | free
  | nonnegative
  | secondOrder
  | semidefinite
  deriving DecidableEq

namespace Cone

/-- The order in which the rows of a program are laid out for a solver. -/
def solverOrder : List Cone := [zero, free, nonnegative, secondOrder, semidefinite]

def letter : Cone → String
  | zero => "z"
  | free => "f"
  | nonnegative => "l"
  | secondOrder => "q"
  | semidefinite => "s"

def dual : Cone → Cone
  | zero => free
  | free => zero
  | nonnegative => nonnegative
  | secondOrder => secondOrder
  | semidefinite => semidefinite

theorem dual_dual (c : Cone) : c.dual.dual = c := by cases c <;> rfl

def isListed : Cone → Bool
  | zero | free | nonnegative => false
  | secondOrder | semidefinite => true

def rank : Cone → Nat
  | zero => 0
  | free => 1
  | nonnegative => 2
  | secondOrder => 3
  | semidefinite => 4

end Cone

inductive Kind where
  | cone (c : Cone)
  | other (name : String)
  /-- A number or a truth value in place of a name. -/
  | literal (text : String)
  | unnamed
  deriving DecidableEq

namespace Kind

def ofName (name : String) : Kind :=
  match Cone.solverOrder.find? (·.letter == name) with
  | some c => cone c
  | none => other name

def name? : Kind → Option String
  | cone c => some c.letter
  | other name => some name
  | literal _ | unnamed => none

def cone? : Kind → Option Cone
  | cone c => some c
  | other _ | literal _ | unnamed => none

def text : Kind → String
  | cone c => Text.quoted c.letter
  | other name => Text.quoted name
  | literal text => text
  | unnamed => "None"

end Kind

end ConicDerivative
