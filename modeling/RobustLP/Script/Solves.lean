import RobustLP.Script.Oracles

/-!
# Steps: solves

A robust solve answers its results, the values of the variables afterwards, the calls of solvers and, if asked for, the lines of
the log. What a solve with the built-in solver answers is rounded to six places.
-/

namespace RobustLP.Script

/-! ## Results -/

/-- The results of a solver. -/
def solverReply (r : SolverResults Float) : Reply :=
  .record [("termination_condition", .text r.termination.name), ("solution_status", .text r.status.name),
    ("objective", Render.number r.objective), ("primal", Reply.optional Reply.floats r.point),
    ("iteration_count", Reply.optional .int r.iterations), ("solver_name", Render.name r.solver),
    ("str", .text (Text.joinWith "\n" r.lines))]

/-- The cuts of a solve. -/
def cutsReply (t : CutTable Float Float) : Reply :=
  .list (t.map fun (source, rs) => .list [Render.source source, .list (rs.map Render.realization)])

/-- The timers of a solve. -/
def timersReply (t : TimerTree Float) : Reply :=
  .list (t.entries.map fun e => .list [.text (TimerTree.pathText e.path), .int e.calls, .float e.total])

/-- The fields that answer the results of a solve; `message` is that of its error, if it has one. -/
def resultFields (naming : Naming) (message : Option String) (r : RobustResults Float Float) : List (String × Reply) :=
  [("termination", .text r.outcome.name), ("message", .text (message.getD r.outcome.message)),
    ("path", .text r.path.name), ("iterations", .int r.iterations), ("time", .float r.time),
    ("objective", Render.number r.objective), ("solution", Reply.optional Reply.floats r.solution),
    ("num_cuts", .int r.cuts.size), ("cuts", cutsReply r.cuts),
    ("policies", .list (r.policies.map fun (j, p) => .list [.int j, Render.policy naming p])),
    ("solver_results", solverReply r.solver), ("timers", timersReply r.timing), ("str", .texts r.lines)]

/-- The values of the variables of a model. -/
def valuesReply (i : ModelId) : Step Reply := do return .list ((← Step.modelAt i).values.map Render.number)

/-! ## The log -/

/-- The logger that a topic belongs to; progress is reported by the one that the options name. -/
def topicLogger (progress : String) : LogTopic → String
  | .progress => progress
  | .expansion => Config.progressLogger ++ ".adaptive"
  | .dualization => Config.progressLogger ++ ".oracles.polyhedral"
  | .loop => Config.progressLogger ++ ".solve"

/-- A logger is another one or below it. -/
def isBelow (logger parent : String) : Bool := logger == parent || logger.startsWith (parent ++ ".")

/-- Entries that reach a capture of one logger. -/
def captured (progress : String) (e : LogEntry) : Bool :=
  e.topic = .progress || (isBelow progress Config.progressLogger && isBelow (topicLogger progress e.topic) progress)

/-- The lines of a captured log. -/
def capturedLines (progress : String) (log : List LogEntry) : List String :=
  (log.filter (captured progress)).flatMap (fun e => Text.lines e.text) ++ [""]

/-- The lines that the library's own handler writes: only the standard logger writes texts as they are, and loggers that are
not below it report no progress. -/
def handledLines (progress : String) (log : List LogEntry) : List String :=
  let texts := (log.filter (·.topic = .progress)).map (·.text)
  if progress == Config.progressLogger then texts.flatMap Text.lines ++ [""]
  else if isBelow progress Config.progressLogger then texts.flatMap (fun t => Text.lines ("INFO: " ++ t)) ++ [""]
  else [""]

/-- The log of a solve, if it is asked for. -/
def logFields (d : Data) (progress : String) : Step (List (String × Reply)) := do
  if !(d.field "log").truth then return []
  let log := (← get).environment.log
  let lines := if (d.field "stdout").truth then handledLines progress log else capturedLines progress log
  return [("log", .texts lines)]

/-! ## Robust solves -/

/-- The limit on rounds of one solve. -/
def roundLimit : Nat := 1000000

/-- Makes the solution of a solve the values of the variables. -/
def loadSolution (i : ModelId) (r : RobustResults Float Float) : Step (Option Error) := do
  match r.solution with
  | none => return none
  | some x =>
    let (loaded, m) := (Model.loadValues (x.map .ok)).run (← Step.modelAt i)
    modify fun s => { s with models := s.models.set i m }
    match loaded with
    | .ok () => return none
    | .error e => return some e

/-- A robust solve: its results, unless it failed before it had some, and its error. -/
def solveRobust (i : ModelId) (options : RobustOptions Float) :
    Step (Option (RobustResults Float Float) × Option Error) := do
  let m ← Step.modelAt i
  match ← Step.attempt (RobustSolve.attempt roundLimit (← Step.naming) options i m) with
  | .error e => return (none, some e)
  | .ok r =>
    match ← if options.loadSolution then loadSolution i r else pure none with
    | some e => return (none, some e)
    | none =>
      Step.within (RobustSolve.report r)
      return (some r, RobustSolve.refusal options r)

/-- The options of a step: those of the solver, changed by those of the solve. -/
def configIn (d : Data) : Step (Except Error Config) := do
  let general ← optionsIn d "solver_options"
  let own ← optionsIn d "options"
  return do (← Config.robust.updated (.plain general)).updated (.plain own)

/-- The results and the error of a step. -/
def solveStep (d : Data) (i : ModelId) :
    Step (String × Option (RobustResults Float Float) × Option Error) := do
  modify fun s => { s with environment := { s.environment with log := [], verbose := (d.field "debug").truth } }
  if !(← Step.modelAt i).robust then return (Config.progressLogger, none, some (.notRobust "Model"))
  match ← configIn d with
  | .error e => return (Config.progressLogger, none, some e)
  | .ok c =>
    let (r, e) ← solveRobust i (solveOptions c)
    match r with
    | none => return (loggerOf c, none, e)
    | some r =>
      let place := (← get).results.length
      modify fun s => { s with results := s.results ++ [(i, r)] }
      Step.bindTo d (.result place)
      return (loggerOf c, some r, e)

/-- The fields of a solve that ended with results, or without. -/
def endFields (naming : Naming) (e : Option Error) (r : Option (RobustResults Float Float)) : List (String × Reply) :=
  match r with
  | some r => resultFields naming (e.bind Error.message) r
  | none => []

/-- Solves a robust model. -/
def solveScripted (d : Data) (i : ModelId) : Step Reply := do
  let start ← callCount
  let (logger, r, e) ← solveStep d i
  let fields := endFields (← Step.naming) e r
    ++ [("values", ← valuesReply i), ("calls", ← callsSince start)] ++ (← logFields d logger)
  match e with
  | none => return .record fields
  | some e => return .failed (.error e) (fields.filter (·.1 != "message"))

/-! ## Solves with the built-in solver -/

/-- A double rounded to six places. -/
def rounded (x : Float) : Float :=
  match Decimal.toRat? x with
  | none => x
  | some q =>
    let n := roundEven (q * 1000000)
    (Decimal.ofRat? (mkRat n 1000000)).getD x

/-- A termination as it is answered: every way of having no optimum is the same. -/
def terminationWord (name : String) (noOptimum : Bool) : String := if noOptimum then "no_optimum" else name

/-- What a step is to report. -/
def reports (d : Data) (what : String) : Bool :=
  match d.field? "report" with
  | none => what == "values"
  | some ws => ws.items.any fun w => w.textD == what

/-- Rounded numbers. -/
def roundedNumbers (xs : List (Option Float)) : Reply := .list (xs.map fun x => Render.number (x.map rounded))

/-- Solves a robust model with the built-in solver. -/
def solveReal (d : Data) (i : ModelId) : Step Reply := do
  let (_, r, e) ← solveStep d i
  match r, e with
  | _, some e => return .error e
  | none, none => return .null
  | some r, none =>
    let noOptimum := r.outcome = .infeasible || r.outcome = .unbounded || r.outcome = .infeasibleOrUnbounded
    let all := (← Step.modelAt i).values
    let values := if reports d "values" then all else []
    let policies := r.policies.map fun (j, p) =>
      Reply.list [.int j, .float (rounded p.base), .floats (p.coefficients.map fun c => rounded c.2)]
    return .record ([("termination", .text (terminationWord r.outcome.name noOptimum)),
        ("objective", Render.number (r.objective.map rounded)), ("path", .text r.path.name),
        ("values", roundedNumbers values)]
      ++ if reports d "policies" then [("policies", .list policies)] else [])

/-- Solves a model. -/
def solveModel (d : Data) : Step Reply := do
  let i ← Step.refModel d
  if (d.field "options").has "solver" || (d.field "scripted").truth then solveScripted d i else solveReal d i

/-! ## Deterministic solves -/

/-- The limit of a solve, from its options. -/
def limitIn (d : Data) : Step (Option (TimeAllowance Float)) := do
  let c ← Step.lift (Config.solver.updated (.plain (← optionsIn d "options")))
  match optionOf c "time_limit" with
  | .float x => return some { text := Decimal.plain x, seconds := .ok x }
  | _ => return none

/-- Makes a point the values of the variables. -/
def loadPoint (i : ModelId) (x : Option (List Float)) : Step Unit :=
  match x with
  | none => pure ()
  | some x => Step.onModel i (Model.loadValues (x.map .ok))

/-- Whether the solution of a step becomes the values of the variables. -/
def loadsIn (d : Data) : Bool := ((d.field? "load").map Data.truth).getD true

/-- Solves a model without uncertainty. -/
def solveDeterministic (d : Data) : Step Reply := do
  let i ← Step.refModel d
  let p ← Step.lift (LinearProgram.ofModel (← Step.naming) (← Step.modelAt i))
  match d.field? "solver" with
  | some (.text id) =>
    match ← Step.lookup id with
    | .solver s =>
      let start ← callCount
      let r ← Step.within (Run.solve (some s) (← limitIn d) p)
      if loadsIn d then loadPoint i r.point
      return .record [("results", solverReply r), ("values", ← valuesReply i), ("calls", ← callsSince start)]
    | _ => Step.noAttribute
  | _ =>
    let r := Solver.solveExactly p
    if loadsIn d then loadPoint i r.point
    let noOptimum := r.termination = .infeasible || r.termination = .unbounded
    return .record [("termination", .text (terminationWord r.termination.name noOptimum)),
      ("objective", Render.number (r.objective.map rounded)),
      ("values", roundedNumbers (← Step.modelAt i).values)]

/-! ## Asking results -/

/-- The source that a step refers to. -/
def cutSource (d : Data) : RowSource :=
  match (d.field "constraint").raw with
  | .int i => .index i
  | .text s => .label s
  | _ => .unknown

/-- Asks the results of a solve. -/
def resultCall (d : Data) : Step Reply := do
  match ← Step.ref d "obj" with
  | .result place =>
    match (← get).results[place]?, d.word "call" with
    | some (_, r), "active_cuts" => return .list ((r.cuts.of (cutSource d)).map Render.realization)
    | some (_, r), "adaptive_policy" =>
      match ← Step.ref d "var" with
      | .operand (.decision v) =>
        let naming ← Step.naming
        let p ← Step.lift (r.policyOf naming v)
        let values ← decisions p (d.field "at")
        return (Render.policy naming p).withFields [("values", values)]
      | _ => Step.noAttribute
    | _, _ => Step.noAttribute
  | _ => Step.noAttribute

end RobustLP.Script
