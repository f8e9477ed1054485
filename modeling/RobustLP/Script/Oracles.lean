import RobustLP.Config.Standard
import RobustLP.Script.Workings

/-!
# Steps: solvers and oracles

A solver that a step makes replays the answers it is given. Steps that involve solvers answer the calls they made besides; the
built-in solver keeps no record.
-/

namespace RobustLP.Script

/-! ## Solvers -/

/-- An answer to be replayed. -/
def readAnswer (d : Data) : Except Error (ReplayedAnswer Float) := do
  let delay ← match d.field? "dt" with
    | none => pure 0
    | some v => v.number.readFloat
  let point ← if (d.field "x").isNull then pure none else some <$> (d.field "x").floats
  let objective ← match d.field? "obj" with
    | none => pure none
    | some .null => pure (some none)
    | some v => do pure (some (some (← v.number.readFloat)))
  return { delay, failure := (d.field? "raise").map fun t => t.raw.display
           termination := ((d.field? "tc").map fun t => (Termination.ofName? t.textD).getD .unknown).getD .optimal
           point, objective }

/-- Makes a solver. -/
def makeSolver (d : Data) : Step Reply := do
  let answers ← Step.lift ((d.field "responses").items.mapM readAnswer)
  let name := d.word "id"
  let i ← Step.putSolver (.replaying name answers)
  Step.bindTo d (.solver i)
  return .text name

/-- A solver that keeps a record of its calls. -/
def keepsRecord (s : Solver Float Float) : Bool :=
  match s with
  | .replaying .. => true
  | .computing .. => false

/-- A call of a solver. -/
def callReply (c : SolverCall Float Float) : Step (Option Reply) := do
  match (← get).environment.solvers[c.solver]? with
  | none => return none
  | some s =>
    if keepsRecord s then
      let lines ← Step.fault c.program.lines
      return some (.record [("solver", .text s.name), ("time_limit", Render.number c.timeLimit),
        ("name", Render.name c.program.name), ("lp", .texts (lines.flatMap Text.lines))])
    else return none

/-- The number of calls made so far. -/
def callCount : Step Nat := do return (← get).environment.calls.length

/-- The calls made after the first ones. -/
def callsSince (count : Nat) : Step Reply := do
  return .list ((← ((← get).environment.calls.drop count).mapM callReply).filterMap id)

/-! ## Options -/

/-- The value of an option; a solver is given by its identifier. -/
def optionValue (d : Data) : Step Value := do
  match d.field? "ref" with
  | some (.text id) => match ← Step.lookup id with
    | .solver i => return .solver id i
    | e => do
      let type := (← Step.asOperand e).type
      return .object type type
  | _ => return d.number

/-- Options as values by name. -/
def optionsIn (d : Data) (key : String) : Step Value := do
  match d.field key with
  | .record fields => return .dict (← fields.mapM fun (k, v) => do return (Value.text k, ← optionValue v))
  | _ => return .dict []

/-- The number of a solver. -/
def solverNumber : Value → Option SolverId
  | .solver _ i => some i
  | _ => none

/-- A double. -/
def floatNumber : Value → Option Float
  | .float x => some x
  | _ => none

/-- An integer. -/
def intNumber : Value → Option Int
  | .int n => some n
  | _ => none

/-- An option as the log shows it: solvers and loggers by their quoted names. -/
def optionLine (key : String) (v : Value) : String :=
  let text := match v with
    | .solver name _ => Text.quoted name
    | .logger name => Text.quoted name
    | v => v.shown
  " " ++ key ++ "=" ++ text

/-- The value of an option. -/
def optionOf (c : Config) (key : String) : Value := ((c.child? key).map Config.value).getD .none

/-- The name of the logger that reports progress. -/
def loggerOf (c : Config) : String :=
  match optionOf c "progress_logger" with
  | .logger name => name
  | _ => Config.progressLogger

/-- The lines that show options; a missing logger is the standard one. -/
def optionLines (c : Config) : List String :=
  c.entries.map fun (key, e) =>
    optionLine key (if key == "progress_logger" then .logger (loggerOf c) else e.value)

/-- The options of a robust solve. -/
def solveOptions (c : Config) : RobustOptions Float :=
  { solver := solverNumber (optionOf c "solver")
    separationSolver := solverNumber (optionOf c "separation_solver")
    maxIterations := intNumber (optionOf c "max_iter")
    timeLimit := floatNumber (optionOf c "time_limit")
    tolerance := floatNumber (optionOf c "feasibility_tolerance")
    workers := intNumber (optionOf c "separation_workers")
    nominalCuts := (optionOf c "nominal_cuts").truth
    refuseNonoptimal := (optionOf c "raise_exception_on_nonoptimal_result").truth
    loadSolution := (optionOf c "load_solution").truth
    shown := optionLines c }

/-! ## Oracles -/

/-- An answer to a separation to be replayed. -/
def readSeparation (d : Data) : Except Error (ReplayedSeparation Float Float) := do
  match d.field? "raise" with
  | some text => return .outOfTime text.raw.display
  | none => return .found (← readRealization d 1)

/-- The answers to separations, by source. -/
def readSeparations (d : Data) : Except Error (List (String × List (ReplayedSeparation Float Float))) :=
  match d with
  | .record fields => fields.mapM fun (source, rs) => do return (source, ← rs.items.mapM readSeparation)
  | _ => .ok []

/-- The tolerance of an oracle that is not set up. -/
def defaultTolerance : Float := Scalar.literal 1 6

/-- An oracle. -/
def readOracle (d : Data) : Step (Oracle Float Float) := do
  match d.word "type" with
  | "polyhedral" =>
    if (d.field "prefer_cuts").truth then return .separating true { tolerance := some defaultTolerance }
    else return .dualizing none
  | "cutting" =>
    match d.field? "solver" with
    | none | some .null => return .separating false { tolerance := some defaultTolerance }
    | some id => match ← Step.lookup id.textD with
      | .solver own => return .separating false { own := some own, tolerance := some defaultTolerance }
      | _ => Step.noAttribute
  | _ =>
    let reformulation ← if (d.field "reformulation").isNull then pure {} else readReformulation (d.field "reformulation")
    return .replaying
      { separating := (d.field "separating").truth
        setupFailure := if (d.field "setup_error").isNull then none else some (d.field "setup_error").raw.display
        reformulation
        separations := ← Step.lift (readSeparations (d.field "realizations")) }

/-- Makes an oracle. -/
def makeOracle (d : Data) : Step Reply := do
  let o ← readOracle d
  let i ← Step.putOracle o
  Step.bindTo d (.oracle i)
  return .record [("uses_separation", .bool o.usesSeparation)]

/-- The oracle that a step refers to. -/
def refOracle (d : Data) : Step OracleId := do
  match ← Step.ref d "oracle" with
  | .oracle i => return i
  | _ => Step.noAttribute

/-- The nominal point of a separating oracle. -/
def nominalReply (i : OracleId) : Step Reply := do
  match (← get).environment.oracles[i]? with
  | some (.separating false s) => return Reply.optional Reply.floats s.nominal
  | _ => return .null

/-- Sets up an oracle. -/
def setUpOracle (d : Data) : Step Reply := do
  let o ← refOracle d
  match ← Step.ref d "uset" with
  | .set s =>
    let options ← optionsIn d "options"
    let start ← callCount
    match Config.robust.updated (.plain options) with
    | .error e => return (Reply.error e).withFields [("calls", ← callsSince start)]
    | .ok c =>
      let r ← Step.attempt (Run.setUp o s (solveOptions c).forOracles)
      let calls ← callsSince start
      match r with
      | .ok () => return .record [("calls", calls), ("nominal", ← nominalReply o)]
      | .error e => return (Reply.error e).withFields [("calls", calls)]
  | _ => Step.noAttribute

/-- Asks an oracle to reformulate a row. -/
def reformulateRow (d : Data) : Step Reply := do
  let o ← refOracle d
  let row ← refRow d
  let f ← Step.within (Run.reformulate o row)
  Step.bindTo d (.reformulation f)
  return Render.reformulation f

/-- The length of a time limit, as solvers check it. -/
def limitSeconds (v : Value) : Except Error Float := do
  let c ← Config.solver.updated (.plain (.dict [(.text "time_limit", v)]))
  match floatNumber (optionOf c "time_limit") with
  | some x => return x
  | none => throw (.fault .badType)

/-- A time limit as given. -/
def allowanceOf (v : Value) : Option (TimeAllowance Float) :=
  match v with
  | .none => none
  | v => some { text := v.display, seconds := limitSeconds v }

/-- Asks an oracle to separate a candidate from a row. -/
def separateRow (d : Data) : Step Reply := do
  let o ← refOracle d
  let row ← refRow d
  match d.field? "time_limit" with
  | some v => Step.within (Run.allow o (allowanceOf v.number))
  | none => pure ()
  let x ← Step.lift (d.field "x").floats
  let start ← callCount
  let r ← Step.attempt (Run.separate o row (some x))
  let calls ← callsSince start
  match r with
  | .error e => return (Reply.error e).withFields [("calls", calls)]
  | .ok none => return .record [("realization", .null), ("calls", calls)]
  | .ok (some r) =>
    Step.bindTo d (.realization r)
    return .record [("realization", Render.realization r), ("repr", .text r.text), ("len", .int r.point.length),
      ("calls", calls)]

end RobustLP.Script
