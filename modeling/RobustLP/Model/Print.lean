import RobustLP.Model.Edit

/-!
# Printed models

The objective, the constraints, the bounds of the variables; then the uncertain constraints, the uncertainty set, and the
variables that follow an affine policy.
-/

namespace RobustLP.Model

variable {K B : Type} [Bound B] [Scalar K B] [Written K] [Written B]

/-- The bounds of a variable. -/
def boundsText (name : String) (lower upper : B) : String :=
  if Bound.isLower lower && Bound.isUpper upper then
    if Bound.beq lower upper then name ++ " == " ++ Written.clamped lower
    else Written.clamped lower ++ " <= " ++ name ++ " <= " ++ Written.clamped upper
  else if Bound.isLower lower then name ++ " >= " ++ Written.clamped lower
  else if Bound.isUpper upper then name ++ " <= " ++ Written.clamped upper
  else name ++ " free"

/-- The domain after the bounds, unless it is that of all real numbers. -/
def domainText (d : Domain) : String := if d = .reals then "" else ", " ++ d.name

/-- The lines of constraints. -/
def constraintLines (naming : Naming) (cs : List (Constraint K B)) : Except Fault (List String) :=
  cs.mapM fun c => do return " " ++ (← c.text naming)

/-- The lines of the deterministic part. -/
def deterministicLines (naming : Naming) (m : Model K B) : Except Fault (List String) := do
  let objective ← Print.expr naming true m.objective
  let constraints ← constraintLines naming m.constraints
  let bounds := m.decisions.zipIdx.map fun (d, i) =>
    " " ++ boundsText (m.variableName i) d.lower.value d.upper.value ++ domainText d.domain
  return [m.sense.name ++ " " ++ objective, "Subject to"] ++ constraints ++ bounds

/-- Policies in the order of the variables. -/
def sortedPolicies (m : Model K B) : List (Nat × List Nat) := m.affine.mergeSort fun a b => a.1 ≤ b.1

/-- The lines of the robust part. -/
def robustLines (naming : Naming) (m : Model K B) : Except Fault (List String) := do
  let uncertain ← constraintLines naming (m.uncertain.map (·.1))
  let setLines ← constraintLines naming m.setConstraints
  let parameters := m.parameters.zipIdx.map fun (d, k) =>
    " " ++ Written.clamped d.lower.value ++ " <= " ++ m.parameterName k ++ " <= "
      ++ Written.clamped d.upper.value ++ domainText d.domain
  let policies := m.sortedPolicies.map fun (j, ks) =>
    " " ++ m.variableName j ++ ": affine in (" ++ Text.joinWith ", " (ks.map m.parameterName) ++ ")"
  return (if uncertain.isEmpty then [] else "Uncertain constraints:" :: uncertain)
    ++ "Uncertainty set:" :: setLines ++ parameters
    ++ (if policies.isEmpty then [] else "Adaptive variables:" :: policies)

/-- **The lines of a model.** -/
def lines (naming : Naming) (m : Model K B) : Except Fault (List String) := do
  let deterministic ← m.deterministicLines naming
  if m.robust then return deterministic ++ (← m.robustLines naming) else return deterministic

end RobustLP.Model
