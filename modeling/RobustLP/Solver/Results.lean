import RobustLP.Scalar

/-!
# What a solver reports

A solver says why it stopped (`Termination`), what kind of point it has (`PointStatus`), and gives the point and its
objective.
-/

namespace RobustLP

/-- Why a solver stopped. -/
inductive Termination where
  | optimal
  | maxTimeLimit
  | iterationLimit
  | unbounded
  | infeasible
  | infeasibleOrUnbounded
  | error
  | unknown
  deriving DecidableEq, Repr, Inhabited

/-- The name of a reason to stop. -/
def Termination.name : Termination → String
  | optimal => "optimal"
  | maxTimeLimit => "maxTimeLimit"
  | iterationLimit => "iterationLimit"
  | unbounded => "unbounded"
  | infeasible => "infeasible"
  | infeasibleOrUnbounded => "infeasibleOrUnbounded"
  | error => "error"
  | unknown => "unknown"

/-- The code of a reason to stop. -/
def Termination.code : Termination → Int
  | optimal => 0
  | maxTimeLimit => 1
  | iterationLimit => 2
  | unbounded => 5
  | infeasible => 6
  | infeasibleOrUnbounded => 8
  | error => 9
  | unknown => 42

/-- All reasons to stop. -/
def Termination.all : List Termination :=
  [optimal, maxTimeLimit, iterationLimit, unbounded, infeasible, infeasibleOrUnbounded, error, unknown]

/-- The reason of a name. -/
def Termination.ofName? (s : String) : Option Termination := all.find? fun t => t.name == s

theorem Termination.ofName?_name (t : Termination) : ofName? t.name = some t := by cases t <;> rfl

/-- What kind of point a solver has. -/
inductive PointStatus where
  | noSolution
  | feasible
  | optimal
  deriving DecidableEq, Repr, Inhabited

/-- The name of a kind of point. -/
def PointStatus.name : PointStatus → String
  | noSolution => "noSolution"
  | feasible => "feasible"
  | optimal => "optimal"

/-- The code of a kind of point. -/
def PointStatus.code : PointStatus → Int
  | noSolution => 0
  | feasible => 20
  | optimal => 30

/-- All kinds of points. -/
def PointStatus.all : List PointStatus := [noSolution, feasible, optimal]

/-- The outcome of one solve. -/
structure SolverResults (K : Type) where
  termination : Termination := .unknown
  status : PointStatus := .noSolution
  /-- the objective with its constant -/
  objective : Option K := none
  point : Option (List K) := none
  iterations : Option Int := none
  solver : Option String := none
  deriving Repr

/-- The lines of a report. -/
def SolverResults.lines {K : Type} [Written K] (r : SolverResults K) : List String :=
  [s!"termination_condition: {r.termination.name}", s!"solution_status: {r.status.name}",
    "incumbent_objective: " ++ match r.objective with
      | some x => Written.plain x
      | none => "None"]

end RobustLP
