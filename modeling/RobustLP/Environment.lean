import RobustLP.Oracle
import RobustLP.Timer.Stage

/-!
# What a solve interacts with

A solve reads a clock, hands programs to solvers, asks oracles, and writes a log. An `Environment` holds all of this,
together with the record of the calls made so far; a `Run` is a computation that may fail and leaves an environment in any
case.
-/

namespace RobustLP

/-- What a log entry is about: the progress of a solve, or details of one of its parts. -/
inductive LogTopic where
  | progress
  | expansion
  | dualization
  | loop
  deriving DecidableEq, Repr

/-- An entry of the log. -/
structure LogEntry where
  topic : LogTopic
  text : String
  deriving DecidableEq, Repr

/-- Clock, solvers, oracles and records. -/
structure Environment (K B : Type) where
  clock : K
  /-- the time that passes before each of the next looks at the clock -/
  pauses : List K := []
  solvers : List (Solver K B) := []
  oracles : List (Oracle K B) := []
  /-- the programs handed to solvers, in order -/
  calls : List (SolverCall K B) := []
  /-- what oracles were asked for, in order -/
  questions : List (OracleCall K B) := []
  log : List LogEntry := []
  /-- details are logged -/
  verbose : Bool := false

/-- A computation within an environment. -/
abbrev Run (K B : Type) := Edit (Environment K B)

namespace Run

variable {K B : Type} [Bound B] [Scalar K B]

/-- The time, after a pause if there is one. -/
def now : Run K B K := do
  let e ← get
  match e.pauses with
  | [] => return e.clock
  | pause :: rest =>
    set { e with clock := e.clock + pause, pauses := rest }
    return e.clock + pause

/-- Logs a line of progress. -/
def progress (text : String) : Run K B Unit :=
  modify fun e => { e with log := e.log ++ [⟨.progress, text⟩] }

/-- Logs a detail of some part. -/
def detail (topic : LogTopic) (text : String) : Run K B Unit :=
  modify fun e => if e.verbose then { e with log := e.log ++ [⟨topic, text⟩] } else e

/-- The solver of a number; a missing one can do nothing. -/
def solverOf (s : Option SolverId) : Run K B (SolverId × Solver K B) := do
  match s with
  | none => throw (.fault .noAttribute)
  | some i => match (← get).solvers[i]? with
    | some solver => return (i, solver)
    | none => throw (.fault .noAttribute)

/-- The name of a solver. -/
def solverName (s : Option SolverId) : Run K B String := do return (← solverOf s).2.name

/-- The length of an allowance. -/
def secondsOf (a : Option (TimeAllowance K)) : Run K B (Option K) := do
  match a with
  | none => return none
  | some a => return some (← Edit.lift a.seconds)

/-- **Hands a program to a solver.** The limit is checked first; then the call is recorded, and the clock moves on. -/
def solve (s : Option SolverId) (allowance : Option (TimeAllowance K)) (p : LinearProgram K B) :
    Run K B (SolverResults K) := do
  let (i, solver) ← solverOf s
  let timeLimit ← secondsOf allowance
  let (r, delay, solver) := solver.answer p
  modify fun e => { e with
    calls := e.calls ++ [{ solver := i, timeLimit, program := p }]
    clock := e.clock + delay
    solvers := e.solvers.set i solver }
  Edit.lift r

/-- The oracle of a number. -/
def oracleOf (o : OracleId) : Run K B (Oracle K B) := do
  match (← get).oracles[o]? with
  | some oracle => return oracle
  | none => throw (.fault .noAttribute)

/-- Replaces an oracle. -/
def setOracle (o : OracleId) (oracle : Oracle K B) : Run K B Unit :=
  modify fun e => { e with oracles := e.oracles.set o oracle }

/-- Records what an oracle is asked for. -/
def ask (q : OracleCall K B) : Run K B Unit := modify fun e => { e with questions := e.questions ++ [q] }

end Run

end RobustLP
