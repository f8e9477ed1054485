import RobustLP.Solver.Results

/-!
# The outcome of a robust solve

A robust solve ends with a condition of its own, which for a solve that ended with the solver's answer is that answer's.
-/

namespace RobustLP

/-- How a robust solve ended. -/
inductive Outcome where
  | optimal
  | infeasible
  | unbounded
  | infeasibleOrUnbounded
  | maxIter
  | timeOut
  | error
  deriving DecidableEq, Repr, Inhabited

namespace Outcome

/-- The name of an outcome. -/
def name : Outcome → String
  | optimal => "optimal"
  | infeasible => "infeasible"
  | unbounded => "unbounded"
  | infeasibleOrUnbounded => "infeasible_or_unbounded"
  | maxIter => "max_iter"
  | timeOut => "time_out"
  | error => "error"

/-- The code of an outcome. -/
def code : Outcome → Int
  | optimal => 0
  | infeasible => 1
  | unbounded => 2
  | infeasibleOrUnbounded => 3
  | maxIter => 4
  | timeOut => 5
  | error => 6

/-- All outcomes. -/
def all : List Outcome :=
  [optimal, infeasible, unbounded, infeasibleOrUnbounded, maxIter, timeOut, error]

/-- An outcome in words. -/
def message : Outcome → String
  | optimal => "Robust optimal solution identified."
  | infeasible => "Problem is robust infeasible."
  | unbounded => "Problem is robust unbounded."
  | infeasibleOrUnbounded => "Problem is robust infeasible or unbounded."
  | maxIter => "Cutting-plane iteration limit reached."
  | timeOut => "Time limit reached before a robust solution was confirmed."
  | error => "The deterministic solver did not return a usable solution."

/-- The outcome a solver's answer stands for. -/
def ofTermination : Termination → Outcome
  | .optimal => optimal
  | .infeasible => infeasible
  | .unbounded => unbounded
  | .infeasibleOrUnbounded => infeasibleOrUnbounded
  | .maxTimeLimit => timeOut
  | .iterationLimit | .error | .unknown => error

end Outcome

/-- How the uncertain constraints were handled. -/
inductive SolvePath where
  | direct
  | cuttingPlane
  | hybrid
  deriving DecidableEq, Repr, Inhabited

namespace SolvePath

/-- The name of a path. -/
def name : SolvePath → String
  | direct => "direct"
  | cuttingPlane => "cutting_plane"
  | hybrid => "hybrid"

/-- The code of a path. -/
def code : SolvePath → Int
  | direct => 0
  | cuttingPlane => 1
  | hybrid => 2

/-- All paths. -/
def all : List SolvePath := [direct, cuttingPlane, hybrid]

/-- The path of a solve in which some constraints are reformulated and some separated. -/
def of (anyReformulated anySeparated : Bool) : SolvePath :=
  match anyReformulated, anySeparated with
  | true, true => hybrid
  | false, true => cuttingPlane
  | _, false => direct

end SolvePath

end RobustLP
