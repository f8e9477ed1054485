import RobustLP.Program
import RobustLP.Scalar.Double
import RobustLP.Scalar.Exact
import RobustLP.Simplex.Branch
import RobustLP.Solver

/-!
# The built-in solver

The built-in solver computes the optimum exactly and answers the doubles next to it. A program in doubles stands for a program in
rational numbers, since every finite double is one. A program that has an infinite or undefined coefficient, or an undefined bound,
stands for none.
-/

/-! ## The exact program -/

namespace RobustLP

open Decimal

/-- The exact bound that a double is. -/
def ExtRat.ofFloat? (x : Float) : Option ExtRat :=
  match toRat? x with
  | some q => some (.finite q)
  | none => if x.isNaN then none else some (if x < 0 then .negInf else .posInf)

namespace LinearProgram

/-- Exact coefficients. -/
def exactTerms? (ts : List (Nat × Float)) : Option (List (Nat × Rat)) :=
  ts.mapM fun (j, c) => do return (j, ← toRat? c)

/-- A column with exact bounds. -/
def exactColumn? (c : Column Float) : Option (Column ExtRat) := do
  return { lower := ← ExtRat.ofFloat? c.lower, upper := ← ExtRat.ofFloat? c.upper
           integer := c.integer, name := c.name }

/-- **The exact program that a program in doubles stands for.** -/
def overRationals? (p : LinearProgram Float Float) : Option (LinearProgram Rat ExtRat) := do
  return { name := p.name
           columns := ← p.columns.mapM exactColumn?
           rows :=
             { coefs := ← p.rows.coefs.mapM exactTerms?
               lower := ← p.rows.lower.mapM ExtRat.ofFloat?
               upper := ← p.rows.upper.mapM ExtRat.ofFloat?
               names := p.rows.names }
           objective :=
             { terms := ← exactTerms? p.objective.terms
               constant := ← toRat? p.objective.constant
               sense := p.objective.sense } }

end LinearProgram

end RobustLP

/-! ## The solver -/

namespace RobustLP.Solver

open Simplex

/-- The name of the built-in solver. -/
def builtInName : String := "highs"

/-- The answer to a program in doubles whose exact point of smallest cost is known. -/
def answerAt (p : LinearProgram Float Float) (point : List Rat) : SolverResults Float :=
  let x := point.map fun q => (Decimal.ofRat? q).getD Decimal.infinity
  match p.objectiveValue x with
  | .ok objective =>
    { termination := .optimal, status := .optimal, objective := some objective, point := some x
      solver := some builtInName }
  | .error _ => { termination := .error, solver := some builtInName }

/-- **Solves a program in doubles.** -/
def solveExactly (p : LinearProgram Float Float) : SolverResults Float :=
  let without (termination : Termination) : SolverResults Float := { termination, solver := some builtInName }
  match p.overRationals? with
  | none => without .error
  | some q => match Simplex.solve q with
    | .found point => answerAt p point
    | .contradictory => without .infeasible
    | .unbounded => without .unbounded
    | .exhausted => without .iterationLimit

/-- The built-in solver. -/
def builtIn : Solver Float Float := .computing builtInName solveExactly

end RobustLP.Solver
