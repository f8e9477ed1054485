import RobustLP.Backend
import RobustLP.Script.Solves

/-!
# Handing a program to a back end

A script gives a program, the options of the solver and of the solve, and what the back end answers or how it fails. The reply
shows what the back end was handed and what becomes of its answer.
-/

namespace RobustLP.Script.Backends

/-! ## Arguments -/

/-- Adds a column. -/
def addColumn (d : Data) : Edit (LinearProgram Float Float) Unit := do
  match d.items with
  | [lower, upper, integer, name] =>
    discard (LinearProgram.addColumn lower.optionalFloat upper.optionalFloat integer.truth name.name?)
  | _ => throw (.fault .badValue)

/-- Adds a row. -/
def addRow (d : Data) : Edit (LinearProgram Float Float) Unit := do
  match d.items with
  | [lower, upper, terms] =>
    discard (LinearProgram.addRow (termsIn (.record [("terms", terms)]) "terms") lower.optionalFloat
      upper.optionalFloat none)
  | _ => throw (.fault .badValue)

/-- Sets the objective, if one is given. -/
def setObjective (d : Data) : Edit (LinearProgram Float Float) Unit :=
  if d.isNull then pure ()
  else LinearProgram.setObjective (termsIn d "terms") (constantIn d) (senseIn d)

/-- The program of a script. -/
def readProgram (d : Data) : Except Error (LinearProgram Float Float) :=
  let build : Edit (LinearProgram Float Float) Unit := do
    (d.field "columns").items.forM addColumn
    (d.field "rows").items.forM addRow
    setObjective (d.field "objective")
  match build.run (LinearProgram.empty (d.field "name").name?) with
  | (.ok _, p) => .ok p
  | (.error e, _) => .error e

/-- Options as values. -/
def optionsOf (d : Data) : Value :=
  match d with
  | .record fields => .dict (fields.map fun (k, v) => (.text k, v.number))
  | _ => .dict []

/-- The options of a solver as values; its name is none of them. -/
def solverOptionsOf (d : Data) : Value :=
  match d with
  | .record fields => optionsOf (.record (fields.filter (·.1 != "name")))
  | d => optionsOf d

/-- The code of an answer. -/
def codeOf (d : Data) : Option Int :=
  match d.raw with
  | .int n => some n
  | .bool b => some (if b then 1 else 0)
  | .float x => if Decimal.isIntegral x then Decimal.truncate? x else none
  | _ => none

/-- What the back end answers, or the text with which it fails. -/
def readAnswer (d : Data) : Except String (BackendAnswer Float) :=
  match d.field? "raise" with
  | some text => .error text.raw.display
  | none =>
    let iterations := match (d.field "nit").number with
      | .none => none
      | v => some ((Value.toInt v).mapError .reading)
    .ok { code := codeOf (d.field "status"), message := (d.field "message").raw.display
          point := if (d.field "x").isNull then none else some (d.field "x").floats, iterations }

/-! ## The hand-over -/

/-- The options that a back end is handed. -/
def backendOptions (mixed : Bool) (c : Config) : List (String × Value) :=
  let own := match optionOf c "solver_options" with
    | .dict entries => entries.map fun (k, v) => (k.display, v)
    | _ => []
  let limit := optionOf c "time_limit"
  let gap := optionOf c "rel_gap"
  let given (name : String) (v : Value) : List (String × Value) := match v with
    | .none => []
    | v => [(name, v)]
  Config.tableOf ([("disp", optionOf c "tee"), ("presolve", optionOf c "presolve")] ++ given "time_limit" limit ++ own
    ++ if mixed then given "mip_rel_gap" gap else [])

/-- Rows with right-hand sides; none if there are none. -/
def splitReply (rows : List (List Float × Float)) : Reply × Reply :=
  if rows.isEmpty then (.null, .null) else (.matrix (rows.map (·.1)), .floats (rows.map (·.2)))

/-- What a back end was handed. -/
def requestReply (r : BackendRequest Float Float) : Reply :=
  let options := Reply.record (r.options.map fun (k, v) => (k, .text v.shown))
  match r.rows with
  | .split rows =>
    let (upperMatrix, upper) := splitReply rows.atMost
    let (equalMatrix, equal) := splitReply rows.equal
    .record [("function", .text "linprog"), ("c", .floats r.cost), ("A_ub", upperMatrix), ("b_ub", upper),
      ("A_eq", equalMatrix), ("b_eq", equal), ("bounds", .matrix (r.bounds.map fun (l, u) => [l, u])),
      ("method", .text "highs"), ("options", options)]
  | .ranged integrality rows =>
    .record [("function", .text "milp"), ("c", .floats r.cost),
      ("integrality", .list (integrality.map fun b => .int (if b then 1 else 0))),
      ("bounds", .matrix [r.bounds.map (·.1), r.bounds.map (·.2)]),
      ("constraints", Reply.optional (fun rows => .list [.matrix rows.matrix, .floats rows.lower, .floats rows.upper])
        rows),
      ("options", options)]

/-- What a solver reports besides: the message of the back end. -/
def extraReply (message : Option String) : Reply :=
  match message with
  | some m => .record [("message", .text (Text.quoted m))]
  | none => .record []

/-- The solve of a program: the request made, and the results with the message of the back end. -/
def solve (d : Data) (name : String) (solver : Config) (p : LinearProgram Float Float) :
    Option (BackendRequest Float Float) × Except Error (SolverResults Float × Option String) :=
  match solver.updated (.plain (optionsOf (d.field "options"))) with
  | .error e => (none, .error e)
  | .ok c =>
    let options := backendOptions (BackendRequest.isMixed p) c
    (BackendRequest.ofProgram? p options, p.solveThrough (fun _ => readAnswer (d.field "backend")) name options)

/-! ## Solving with the built-in solver -/

/-- The reply of a solve with the built-in solver. -/
def solveReal (p : LinearProgram Float Float) : Reply :=
  let r := Solver.solveExactly p
  let noOptimum := r.termination = .infeasible || r.termination = .unbounded
  .record [("termination", .text (terminationWord r.termination.name noOptimum)),
    ("objective", Render.number (r.objective.map rounded)),
    ("values", roundedNumbers ((r.point.getD []).map some))]

/-- **Runs a script.** -/
def run (d : Data) : Except Error Reply := do
  let given := d.field "solver_options"
  let solver ← Config.highs.updated (.plain (solverOptionsOf given))
  let name := (given.field "name").name?.getD Solver.builtInName
  let p ← readProgram d
  if (d.field "real").truth then return solveReal p
  let (request, r) := solve d name solver p
  let more := [("available", .text "FullLicense"), ("calls", .list (request.toList.map requestReply))]
  match r with
  | .error e => return .failed (.error e) more
  | .ok (results, message) =>
    return .record (more ++ [("results", solverReply results), ("extra_info", extraReply message)])

end RobustLP.Script.Backends
