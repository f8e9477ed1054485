import RobustLP.Oracle.Protocol
import RobustLP.Solve.Results

/-!
# The solve loop

The program of a working model is solved; while separating oracles find violated realizations, the corresponding cuts are
added and the program is solved again. Each round first consults the solver and the oracles (`consult`) and then draws its
conclusions (`judge`). The loop ends

* with the outcome that the solver's answer stands for, if that is not optimal;
* as optimal, when no row is violated by the solver's answer;
* as out of time, when no time is left for a separation, a separation runs out of time, or the limit is reached after a
  round;
* with the limit on rounds.

A loop that runs into a limit answers the candidate of the round with the least violation, the first one of these.

`rounds` takes the number of rounds that it may make at most; an answer of none says that they did not suffice.
-/

namespace RobustLP

/-- The options of the loop; a missing value is of no use where it is needed. -/
structure LoopOptions (K : Type) where
  solver : Option SolverId
  /-- the limit on rounds, or minus one -/
  maxIterations : Option Int
  timeLimit : Option K
  workers : Option Int
  deriving Repr

/-- A candidate: the violation of its round, the values of the columns, and what the solver said of it. -/
structure Candidate (K B : Type) where
  violation : B
  point : Option (List K)
  results : SolverResults K
  deriving Repr

/-- The state between rounds. -/
structure LoopState (K B : Type) where
  program : LinearProgram K B
  timing : TimerTree K
  /-- the rounds made -/
  iterations : Nat := 0
  cuts : CutTable K B := []
  /-- the completed round with the least violation -/
  best : Option (Candidate K B) := none

/-- A round: the program that was solved, the answer, and what the separation of each row found; none if the rows were not all
separated. -/
structure Round (K B : Type) where
  program : LinearProgram K B
  answer : SolverResults K
  found : Option (List (Option (Realization K B))) := none
  deriving Repr

/-- How the loop ended: the outcome, the solver's last answer, and the final candidate. -/
structure LoopEnd (K B : Type) where
  outcome : Outcome
  last : SolverResults K
  final : Option (Option (List K) × SolverResults K)

namespace SolveLoop

variable {K B : Type} [Bound B] [Scalar K B] [Written K] [Written B]

/-! ## Time -/

/-- Runs a step as stage. -/
def timed {α : Type} (stage : Stage) (t : TimerTree K) (step : Run K B α) : Run K B (α × TimerTree K) := do
  let t := t.startStage (← Run.now) stage
  let a ← step
  let t ← Edit.lift (t.stopStage (← Run.now) stage)
  return (a, t)

/-- The time since the solve began. -/
def elapsed (t : TimerTree K) : Run K B K := do Edit.lift (t.elapsed (← Run.now))

/-- The time left before the limit. -/
def remaining (options : LoopOptions K) (t : TimerTree K) : Run K B (Option K) := do
  Edit.lift (t.remaining (← Run.now) options.timeLimit)

/-- A time as allowance. -/
def allowance (seconds : Option K) : Option (TimeAllowance K) :=
  seconds.map fun s => { text := Written.plain s, seconds := .ok s }

/-- Some time is left, or there is no limit. -/
def timeLeft (remaining : Option K) : Bool :=
  match remaining with
  | none => true
  | some s => Scalar.lt Scalar.zero s

/-- The limit is reached. -/
def outOfTime (options : LoopOptions K) (t : TimerTree K) : Run K B Bool := do
  match options.timeLimit with
  | none => return false
  | some limit => return Scalar.le limit (← elapsed t)

/-! ## Separation -/

/-- The distinct oracles of rows, in the order of first use. -/
def oraclesOf (rows : List (MixedRow K B)) : List OracleId := (rows.filterMap (·.oracle)).eraseDups

/-- Asks the oracle of a row to separate a candidate. -/
def separateRow (x : Option (List K)) (row : MixedRow K B) : Run K B (Option (Realization K B)) :=
  match row.oracle with
  | some o => Run.separate o row x
  | none => throw (.fault .noAttribute)

/-- The answer of a step, failed or not. -/
def attempt {σ α : Type} (e : Edit σ α) : Edit σ (Except Error α) := fun s =>
  match e.run s with
  | (r, s) => (.ok r, s)

/-- Separates all rows, several of them at the same time: a failure shows after all have been tried. -/
def separateTogether (x : Option (List K)) (rows : List (MixedRow K B)) :
    Run K B (List (Option (Realization K B))) := do
  let answers ← rows.mapM fun row => attempt (separateRow x row)
  answers.mapM Edit.lift

/-- Separates all rows; all answers are collected before any cut is added. -/
def separateAll (workers : Option Int) (x : Option (List K)) (rows : List (MixedRow K B)) :
    Run K B (List (Option (Realization K B))) := do
  match workers with
  | none => throw (.fault .badType)
  | some n => if 1 < n && 1 < rows.length then separateTogether x rows else rows.mapM (separateRow x)

/-- An error says that a separation ran out of time. -/
def isTimeLimit (e : Error) : Bool := e.kind == .separationTimeLimit

/-- One round of separations as stage; none if it ran out of time. -/
def separation (options : LoopOptions K) (rows : List (MixedRow K B)) (x : Option (List K)) (t : TimerTree K) :
    Run K B (Option (List (Option (Realization K B))) × TimerTree K) := do
  let (r, t) ← timed .separation t (attempt (separateAll options.workers x rows))
  match r with
  | .ok found => return (some found, t)
  | .error e =>
    if isTimeLimit e then
      Run.detail .loop (e.message.getD "")
      return (none, t)
    else throw e

/-- Separates a candidate while time is left; without rows there is nothing to be done. -/
def examine (options : LoopOptions K) (rows : List (MixedRow K B)) (x : Option (List K)) (t : TimerTree K) :
    Run K B (Option (List (Option (Realization K B))) × TimerTree K) := do
  if rows.isEmpty then return (some [], t)
  let left ← remaining options t
  if timeLeft left then
    (oraclesOf rows).forM fun o => Run.allow o (allowance left)
    separation options rows x t
  else return (none, t)

/-- Solves a program, and separates an optimal answer. -/
def consult (options : LoopOptions K) (rows : List (MixedRow K B)) (p : LinearProgram K B) (t : TimerTree K) :
    Run K B (Round K B × TimerTree K) := do
  let left ← remaining options t
  let (answer, t) ← timed .solve t (Run.solve options.solver (allowance left) p)
  if Outcome.ofTermination answer.termination = .optimal then
    let (found, t) ← examine options rows answer.point t
    return ({ program := p, answer, found }, t)
  else return ({ program := p, answer }, t)

/-! ## Conclusions -/

/-- The rows that a round found violated. -/
def violated (rows : List (MixedRow K B)) (found : List (Option (Realization K B))) :
    List (MixedRow K B × Realization K B) :=
  (rows.zip found).filterMap fun (row, r) => r.map fun r => (row, r)

/-- The largest violation of a round; zero if there is none. -/
def largestViolation (vs : List (MixedRow K B × Realization K B)) : B :=
  match vs with
  | [] => Scalar.bound (Scalar.zero : K)
  | (_, r) :: rest => rest.foldl (fun m v => Bound.max m v.2.violation) r.violation

/-- The candidate with the smaller violation; the earlier one unless the later is better. -/
def better (best : Option (Candidate K B)) (c : Candidate K B) : Candidate K B :=
  match best with
  | none => c
  | some b => if Bound.lt c.violation b.violation then c else b

/-- The name of the next cut of a source. -/
def cutName (source : RowSource) (cuts : CutTable K B) : String :=
  "_cut[" ++ source.text ++ "][" ++ toString (cuts.of source).length ++ "]"

/-- Adds a cut to the program, and records it. -/
def addCut (s : LoopState K B) (row : MixedRow K B) (r : Realization K B) : Except Error (LoopState K B) :=
  match (WorkingModel.addCutTo row (Lookup.ofList r.point) (some (cutName row.source s.cuts))).run s.program with
  | (.ok _, program) => .ok { s with program, cuts := s.cuts.record row.source r }
  | (.error e, _) => .error e

/-- Logs a line of the iteration log. -/
def logRound (s : LoopState K B) (objective : Option K) (cuts violated : Option Nat) (violation : Option B) :
    Run K B Unit := do
  let time ← elapsed s.timing
  let line : Report.Iteration K B := { number := s.iterations, objective, cuts, violated, violation, time }
  Run.progress line.text

/-- The best candidate so far, or else an answer. -/
def bestOr (answer : SolverResults K) (s : LoopState K B) : Option (List K) × SolverResults K :=
  match s.best with
  | none => (answer.point, answer)
  | some c => (c.point, c.results)

/-- The end with the best candidate so far. -/
def endWithBest (outcome : Outcome) (last : SolverResults K) (s : LoopState K B) : LoopEnd K B :=
  { outcome, last, final := s.best.map fun c => (c.point, c.results) }

/-- The loop has made as many rounds as it may. -/
def roundsSpent (options : LoopOptions K) (s : LoopState K B) : Run K B Bool := do
  match options.maxIterations with
  | none => throw (.fault .badType)
  | some n => return n ≠ -1 && n ≤ s.iterations

/-- What follows a round in which all rows were separated. -/
def conclude (options : LoopOptions K) (rows : List (MixedRow K B)) (answer : SolverResults K)
    (found : List (Option (Realization K B))) (s : LoopState K B) : Run K B (LoopState K B × Option (LoopEnd K B)) := do
  let vs := violated rows found
  let worst := largestViolation vs
  let s := { s with best := some (better s.best { violation := worst, point := answer.point, results := answer }) }
  let s ← Edit.lift (vs.foldlM (fun s (row, r) => addCut s row r) s)
  logRound s answer.objective (some s.cuts.size) (some vs.length) (some worst)
  if vs.isEmpty then return (s, some { outcome := .optimal, last := answer, final := some (answer.point, answer) })
  if ← roundsSpent options s then return (s, some (endWithBest .maxIter answer s))
  if ← outOfTime options s.timing then return (s, some (endWithBest .timeOut answer s))
  return (s, none)

/-- What follows a round. -/
def judge (options : LoopOptions K) (rows : List (MixedRow K B)) (r : Round K B) (s : LoopState K B) :
    Run K B (LoopState K B × Option (LoopEnd K B)) := do
  let answer := r.answer
  match Outcome.ofTermination answer.termination with
  | .optimal =>
    match r.found with
    | none =>
      logRound s answer.objective (some s.cuts.size) none none
      return (s, some { outcome := .timeOut, last := answer, final := some (bestOr answer s) })
    | some found =>
      if rows.isEmpty then
        logRound s answer.objective (some 0) (some 0) none
        return (s, some { outcome := .optimal, last := answer, final := some (answer.point, answer) })
      else conclude options rows answer found s
  | outcome =>
    logRound s none none none none
    if outcome = .timeOut && s.best.isSome then return (s, some (endWithBest .timeOut answer s))
    return (s, some { outcome, last := answer, final := none })

/-! ## Rounds -/

/-- One round: the solver and the oracles are consulted, and the conclusions drawn. -/
def round (options : LoopOptions K) (rows : List (MixedRow K B)) (s : LoopState K B) :
    Run K B (LoopState K B × Option (LoopEnd K B)) := do
  let (r, timing) ← consult options rows s.program s.timing
  judge options rows r { s with iterations := s.iterations + 1, timing }

/-- At most a number of rounds. -/
def rounds (options : LoopOptions K) (rows : List (MixedRow K B)) :
    Nat → LoopState K B → Run K B (LoopState K B × Option (LoopEnd K B))
  | 0, s => return (s, none)
  | n + 1, s => do
    let (s, ending) ← round options rows s
    match ending with
    | some e => return (s, some e)
    | none => rounds options rows n s

/-- **The loop,** under the titles of the iteration log. -/
def run (fuel : Nat) (options : LoopOptions K) (rows : List (MixedRow K B)) (s : LoopState K B) :
    Run K B (LoopState K B × Option (LoopEnd K B)) := do
  (Report.header true).forM Run.progress
  rounds options rows fuel s

end SolveLoop

end RobustLP
