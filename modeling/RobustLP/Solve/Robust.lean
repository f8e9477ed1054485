import RobustLP.Solve.Loop
import RobustLP.Working.Expand

/-!
# Robust solves

A robust solve runs through five stages, each of them timed:

* the working model is built and the decision rules are substituted (`expand`);
* every oracle of a row that involves parameters is set up against the uncertainty set (`prepare`); rows without
  parameters go to the program as they are;
* the rows of oracles that do not separate are reformulated; if asked for, separating oracles contribute their rows at a
  nominal point (`reformulate`);
* the program is solved, and solved again as long as cuts are found (`SolveLoop.run`).

`attempt` makes all of them and answers the results; `report` logs them; `refusal` is the error of a solve that was to end
optimally and did not.
-/

namespace RobustLP

/-- The options of a robust solve. -/
structure RobustOptions (K : Type) where
  solver : Option SolverId := none
  separationSolver : Option SolverId := none
  /-- the limit on rounds, or minus one -/
  maxIterations : Option Int := some (-1)
  timeLimit : Option K := none
  /-- violations up to this amount are ignored -/
  tolerance : Option K := none
  /-- how many separations may be made at the same time -/
  workers : Option Int := some 1
  /-- separating oracles contribute their rows at a nominal point -/
  nominalCuts : Bool := true
  /-- an end that is not optimal is an error -/
  refuseNonoptimal : Bool := true
  /-- the solution becomes the values of the variables -/
  loadSolution : Bool := true
  /-- the options as the log shows them -/
  shown : List String := []
  deriving Repr

namespace RobustOptions

variable {K : Type}

/-- What oracles need to know. -/
def forOracles (o : RobustOptions K) : OracleOptions K :=
  { solver := o.solver, separationSolver := o.separationSolver, tolerance := o.tolerance }

/-- What the loop needs to know. -/
def forLoop (o : RobustOptions K) : LoopOptions K :=
  { solver := o.solver, maxIterations := o.maxIterations, timeLimit := o.timeLimit, workers := o.workers }

end RobustOptions

namespace RobustSolve

variable {K B : Type} [Bound B] [Scalar K B] [Written K] [Written B]

/-! ## What the log says -/

/-- The name and version under which a solve announces itself. -/
def banner : String := "pyrobust: Python Robust Optimization, v0.3.0."

/-- The lines at the beginning. -/
def logIntro (options : RobustOptions K) : Run K B Unit := do
  Run.progress (Text.rule '=' Report.width)
  Run.progress banner
  Run.progress (Text.rule '=' Report.width)
  Run.progress "Solver options:"
  options.shown.forM Run.progress
  Run.progress (Text.rule '-' Report.width)

/-- The sizes of a model and its working model. -/
def statistics (m : Model K B) (wm : WorkingModel K B) : List (String × Nat) :=
  [("Number of variables", m.decisions.length), ("  Adaptive variables", m.affine.length),
    ("  Policy/epigraph variables", wm.program.numColumns - wm.userColumns),
    ("Number of uncertain parameters", m.parameters.length),
    ("Number of deterministic constraints", wm.program.numRows),
    ("Number of uncertain constraints", wm.rows.length),
    ("Number of uncertainty set constraints", m.setConstraints.length)]

/-- Logs the sizes. -/
def logStatistics (m : Model K B) (wm : WorkingModel K B) : Run K B Unit := do
  Run.progress "Model statistics:"
  (statistics m wm).forM fun (what, n) => Run.progress s!"  {what} : {n}"
  Run.progress (Text.rule '-' Report.width)

/-- What the log says about the way uncertain constraints are handled. -/
def pathLine (path : SolvePath) (reformulated separated : Nat) : String :=
  s!"Reformulation path: {path.name} ({reformulated} reformulated, {separated} separated uncertain constraints)"

/-- Logs how a solve ended. -/
def report (r : RobustResults K B) : Run K B Unit := do
  let rule := Text.rule '-' Report.width
  let timing ← Edit.lift r.timing.report
  [rule, r.outcome.message, rule, "Timing breakdown:\n\n" ++ Text.joinWith "\n" timing, rule,
    Text.joinWith "\n" r.lines, rule, "All done. Exiting robust solver.", Text.rule '=' Report.width].forM Run.progress

/-! ## Stages -/

/-- The working model with the decision rules substituted. -/
def expand (naming : Naming) (m : Model K B) : Run K B (WorkingModel K B) := do
  let e := Expander.ofModel m
  let wm ← Edit.lift (WorkingModel.ofModel naming m)
  let wm ← Edit.lift (e.apply wm)
  Run.detail .expansion (e.summary wm)
  return wm

/-- The values of parameters where none is needed. -/
def noParameters : Lookup K := fun _ => .error .noIndex

/-- Edits a program. -/
def editing {α : Type} (e : Edit (LinearProgram K B) α) (p : LinearProgram K B) : Run K B (LinearProgram K B) :=
  match e.run p with
  | (.ok _, p) => pure p
  | (.error err, _) => throw err

/-- Adds a row without parameters to the program. -/
def addDeterministic (p : LinearProgram K B) (row : MixedRow K B) : Run K B (LinearProgram K B) :=
  editing (WorkingModel.addCutTo row noParameters row.name) p

/-- The row involves no parameter. -/
def isDeterministic (row : MixedRow K B) : Bool := row.form.isDeterministic

/-- **Adds the rows without parameters to the program,** and sets up the oracles of the others. -/
def prepare (naming : Naming) (options : RobustOptions K) (m : Model K B) (wm : WorkingModel K B) :
    Run K B (LinearProgram K B × List (MixedRow K B)) := do
  let set ← Edit.lift (UncertaintySet.ofModel naming m)
  let program ← (wm.rows.filter isDeterministic).foldlM addDeterministic wm.program
  let rows := wm.rows.filter fun r => !isDeterministic r
  (SolveLoop.oraclesOf rows).forM fun o => Run.setUp o set options.forOracles
  return (program, rows)

/-- The oracle of a row is driven by separation. -/
def isSeparated (row : MixedRow K B) : Run K B Bool := do
  match row.oracle with
  | none => throw (.fault .noAttribute)
  | some o => return (← Run.oracleOf o).usesSeparation

/-- Adds what the oracle of a row answers in place of the row. -/
def injectRow (p : LinearProgram K B) (row : MixedRow K B) : Run K B (LinearProgram K B) := do
  match row.oracle with
  | none => throw (.fault .noAttribute)
  | some o => editing (WorkingModel.injectInto (← Run.reformulate o row)) p

/-- **Reformulates rows;** answers the program, how many were reformulated, and the rows that are to be separated. -/
def reformulate (options : RobustOptions K) (p : LinearProgram K B) (rows : List (MixedRow K B)) :
    Run K B (LinearProgram K B × Nat × List (MixedRow K B)) := do
  let marked ← rows.mapM fun row => do return (row, ← isSeparated row)
  let direct := (marked.filter fun e => !e.2).map (·.1)
  let separated := (marked.filter (·.2)).map (·.1)
  let p ← direct.foldlM injectRow p
  let p ← if options.nominalCuts then separated.foldlM injectRow p else pure p
  return (p, direct.length, separated)

/-! ## Solutions -/

/-- A value of the final point. -/
def valueAt (x : List K) (j : Nat) : Except Error K :=
  match x[j]? with
  | some v => .ok v
  | none => .error (.fault .noIndex)

/-- The policy of a variable at the final point. -/
def policyAt (model : ModelId) (wm : WorkingModel K B) (x : List K) (j : Nat) (ks : List Nat) :
    Except Error (AffinePolicy K) := do
  let base ← valueAt x j
  let coefficients ← ks.mapM fun k => do
    match wm.auxColumns.find? (·.1 == (j, k)) with
    | some (_, col) => return (({ model, index := k } : Parameter), ← valueAt x col)
    | none => return ({ model, index := k }, Scalar.zero)
  return { decision := { model, index := j }, base, coefficients }

/-- The results with the final point, if there is one. -/
def withSolution (model : ModelId) (m : Model K B) (wm : WorkingModel K B)
    (final : Option (Option (List K) × SolverResults K)) (r : RobustResults K B) :
    Except Error (RobustResults K B) := do
  match final with
  | none => return r
  | some (none, _) => throw (.fault .noIndex)
  | some (some x, answer) =>
    let policies ← m.affine.mapM fun (j, ks) => do return (j, ← policyAt model wm x j ks)
    return { r with
      solver := answer, objective := answer.objective, solution := some (x.take wm.userColumns), policies }

/-! ## The solve -/

/-- What the stages before the loop leave: the working model, the program with the rows that need no separation, how many rows
were reformulated, and the rows that are to be separated. -/
structure Launch (K B : Type) where
  working : WorkingModel K B
  program : LinearProgram K B
  reformulated : Nat
  separated : List (MixedRow K B)
  timing : TimerTree K

/-- The way uncertain constraints are handled. -/
def Launch.path (l : Launch K B) : SolvePath := SolvePath.of (l.reformulated != 0) (!l.separated.isEmpty)

/-- **The stages before the loop.** -/
def launch (naming : Naming) (options : RobustOptions K) (m : Model K B) : Run K B (Launch K B) := do
  if !m.robust then throw (.notRobust "Model")
  let t := TimerTree.empty.startStage (← Run.now) .main
  logIntro options
  let (working, t) ← SolveLoop.timed .expansion t (expand naming m)
  logStatistics m working
  let ((program, rows), t) ← SolveLoop.timed .setup t (prepare naming options m working)
  let ((program, reformulated, separated), timing) ← SolveLoop.timed .reformulation t (reformulate options program rows)
  let l : Launch K B := { working, program, reformulated, separated, timing }
  Run.progress (pathLine l.path reformulated separated.length)
  Run.detail .loop ("Deterministic program:\n" ++ Text.joinWith "\n" (← Edit.liftFault program.lines))
  return l

/-- The state in which the loop begins. -/
def Launch.start (l : Launch K B) : LoopState K B := { program := l.program, timing := l.timing }

/-- The results of a solve whose loop ended; a loop that did not end is an error. -/
def finish (model : ModelId) (m : Model K B) (l : Launch K B) (s : LoopState K B) (ending : Option (LoopEnd K B)) :
    Run K B (RobustResults K B) := do
  let ending := ending.getD (SolveLoop.endWithBest .error {} s)
  let timing ← Edit.lift (s.timing.stopStage (← Run.now) .main)
  let time ← Edit.lift (timing.totalTime Stage.main.name)
  let results : RobustResults K B :=
    { outcome := ending.outcome, path := l.path, iterations := s.iterations, time, solver := ending.last, cuts := s.cuts
      timing }
  Edit.lift (withSolution model m l.working ending.final results)

/-- **A robust solve up to its results.** `fuel` is the number of rounds after which it gives up. -/
def attempt (fuel : Nat) (naming : Naming) (options : RobustOptions K) (model : ModelId) (m : Model K B) :
    Run K B (RobustResults K B) := do
  let l ← launch naming options m
  let (s, ending) ← SolveLoop.run fuel options.forLoop l.separated l.start
  finish model m l s ending

/-- The error of a solve that ended otherwise than it had to. -/
def refusal (options : RobustOptions K) (r : RobustResults K B) : Option Error :=
  match options.refuseNonoptimal, r.outcome with
  | false, _ | _, .optimal => none
  | true, .maxIter => some (.iterationLimit Outcome.maxIter.message)
  | true, outcome => some (.notOptimal outcome.name outcome.message)

end RobustSolve

end RobustLP
