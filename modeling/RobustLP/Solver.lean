import RobustLP.Program
import RobustLP.Solver.Results

/-!
# Solvers

A solver takes a linear program and reports a `SolverResults`. Two sorts are told apart: one that computes its results from
the program, and one that replays answers given beforehand, which stands for a solver about which nothing is known but what it
answered. A replayed answer may also take time, or be a failure.
-/

namespace RobustLP

/-- The number of a solver. -/
abbrev SolverId := Nat

/-- A limit on the time of one solve, as given: its text, and its length if it is admissible. -/
structure TimeAllowance (K : Type) where
  text : String
  seconds : Except Error K

/-- One answer to be replayed. -/
structure ReplayedAnswer (K : Type) where
  /-- the time the answer takes -/
  delay : K
  /-- the solver fails with this message -/
  failure : Option String := none
  termination : Termination := .optimal
  point : Option (List K) := none
  /-- the objective, if it is not that of the program at the point -/
  objective : Option (Option K) := none
  deriving Repr

/-- A solver. -/
inductive Solver (K B : Type) where
  | computing (name : String) (solve : LinearProgram K B → SolverResults K)
  | replaying (name : String) (answers : List (ReplayedAnswer K))

/-- A program handed to a solver. -/
structure SolverCall (K B : Type) where
  solver : SolverId
  timeLimit : Option K
  program : LinearProgram K B
  deriving Repr

namespace Solver

variable {K B : Type} [Bound B] [Scalar K B]

/-- The name of a solver. -/
def name : Solver K B → String
  | computing n _ => n
  | replaying n _ => n

/-- The objective of a replayed answer. -/
def ReplayedAnswer.value (a : ReplayedAnswer K) (p : LinearProgram K B) : Except Fault (Option K) :=
  match a.objective, a.point with
  | some given, _ => .ok given
  | none, some x => do return some (← p.objectiveValue x)
  | none, none => .ok none

/-- The results of a replayed answer. -/
def ReplayedAnswer.results (name : String) (a : ReplayedAnswer K) (p : LinearProgram K B) :
    Except Error (SolverResults K) := do
  match a.failure with
  | some message => throw (.solverFailed message)
  | none =>
    return { termination := a.termination, objective := ← (ReplayedAnswer.value a p).mapError .fault
             point := a.point, solver := some name }

/-- Solves a program: the results, the time taken and the solver afterwards. A solver that has no answer left to replay
reports an error. -/
def answer (s : Solver K B) (p : LinearProgram K B) : Except Error (SolverResults K) × K × Solver K B :=
  match s with
  | computing n solve => (.ok (solve p), Scalar.zero, computing n solve)
  | replaying n [] => (.ok { termination := .error, solver := some n }, Scalar.zero, replaying n [])
  | replaying n (a :: rest) => (ReplayedAnswer.results n a p, a.delay, replaying n rest)

end Solver

end RobustLP
