import RobustLP.Value

/-!
# The sense of an objective
-/

namespace RobustLP

/-- Whether an objective is to be made small or large. -/
inductive Sense where
  | minimize
  | maximize
  deriving DecidableEq, Repr, Inhabited

namespace Sense

/-- The name of a sense. -/
def name : Sense → String
  | minimize => "minimize"
  | maximize => "maximize"

/-- The factor that turns the objective into one to be minimised. -/
def sign : Sense → Int
  | minimize => 1
  | maximize => -1

/-- A sense is given by its name or by its sign. -/
def ofValue? (v : Value) : Option Sense :=
  match v with
  | .text s => if s == "minimize" then some minimize else if s == "maximize" then some maximize else none
  | v =>
    if v.same (.int 1) then some minimize
    else if v.same (.int (-1)) then some maximize
    else none

end Sense

end RobustLP
