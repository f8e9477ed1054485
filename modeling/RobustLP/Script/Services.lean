import RobustLP.Expr.Print
import RobustLP.Sense
import RobustLP.Solve.Report
import RobustLP.Script.Backends
import RobustLP.Script.Checks
import RobustLP.Script.Logs
import RobustLP.Script.Registry
import RobustLP.Script.Timers

/-!
# Single requests

Requests that need no session: texts of numbers, linear forms and relations, the wording of errors, the tables of a solve,
and the checks, logs, timers and solvers of other modules. `answer` finds what a request asks for.
-/

namespace RobustLP.Script.Services

/-! ## Texts -/

/-- The texts of numbers, and whether values are numbers. -/
def numbers (d : Data) : Reply :=
  let values := (d.field "values").items.map Data.number
  .record [("clamp", .list (values.map fun v =>
      .ofResult (fun x => .text (Decimal.clamped x)) (v.toFloat.mapError .reading))),
    ("is_numeric", .list (values.map fun v => .bool v.isNumeric))]

/-- A number that takes part in a computation; texts do not. -/
def operandIn (d : Data) : Except Error Float := d.number.operand.mapError .fault

/-- A name with its coefficient. -/
def readTerm (d : Data) : Except Error (String × Float) :=
  match d.items with
  | [name, c] => do return (name.raw.display, ← operandIn c)
  | _ => .error (.fault .badValue)

/-- The text of a linear form. The constant is looked at only where it is shown; on its own, it may be a text. -/
def linear (d : Data) : Except Error Reply := do
  let terms ← (d.field "terms").items.mapM readTerm
  let showConstant := ((d.field? "show_constant").map Data.truth).getD true
  let alone := Print.linear terms 0 false == "0"
  let constant ← if !showConstant then pure 0
    else if alone then (d.field "constant").number.readFloat
    else operandIn (d.field "constant")
  return .record [("text", .text (Print.linear terms constant showConstant))]

/-- A bound; a missing one is no bound. -/
def boundIn (d : Data) (key : String) (missing : Float) : Except Error Float :=
  if (d.field key).isNull then .ok missing else operandIn (d.field key)

/-- The text of a relation. -/
def relation (d : Data) : Except Error Reply := do
  let lower ← boundIn d "lower" (-Decimal.infinity)
  let upper ← boundIn d "upper" Decimal.infinity
  return .record [("text", .text (Print.relation (d.word "body") lower upper))]

/-! ## Errors -/

/-- The text of an error of a kind that is raised with arguments. -/
def errorText (kind : ErrorKind) (args : List Value) : String :=
  let plain := match args with
    | [] => kind.defaultText
    | [a] => a.display
    | args => (Value.tuple args).shown
  if kind = .developer then Error.internal plain else plain

/-- The width in a request for a message. -/
def widthIn (d : Data) : Except Error Int :=
  match d.field? "width" with
  | none => .ok 76
  | some (.int n) => .ok n
  | some (.float x) => .ok ((Decimal.truncate? x).getD 0)
  | some (.bool b) => .ok (if b then 1 else 0)
  | _ => .error (.fault .badType)

/-- A message as it is laid out behind a lead of some length. -/
def layoutMessage (lead : Nat) (d : Data) : Except Error Reply := do
  let width ← widthIn d
  let text ← (Message.layout (d.word "msg") (d.field "prolog").text? (d.field "epilog").text? lead width).mapError .fault
  return .record [("lines", .lines text)]

/-! ## Tables -/

/-- Lines of an iteration log. -/
def iterationLog (d : Data) : Reply :=
  let header := match d.field "header" with
    | .null => []
    | h => (Report.header h.truth).map Reply.text
  let rows := (d.field "records").items.map fun r =>
    Reply.ofResult Reply.text ((Report.rowOfValues (r.items.map Data.number)).mapError .fault)
  .record [("lines", .list (header ++ rows))]

/-- The summary of a solve. -/
def results (d : Data) : Except Error Reply := do
  let value (key : String) := ((d.field "fields").field key).number
  let lines ← (Report.summaryOfValues (value "iterations") (value "time") (value "objective_value")
    (value "reformulation_path") (value "termination_condition")).mapError .fault
  return .record [("lines", .texts lines), ("num_cuts", .int 0), ("active_cuts", .list [])]

/-- The senses of values. -/
def senses (d : Data) : Reply :=
  .record [("results", .list ((d.field "values").items.map fun v =>
    match Sense.ofValue? v.raw with
    | some s => .list [.text s.name, .int s.sign]
    | none => .fault .badValue))]

/-! ## Requests -/

/-- **The answer to a request.** -/
def answer (op : String) (d : Data) : Reply :=
  match op with
  | "highs" => .ofExcept (Backends.run d)
  | "factory" => Registry.runScript d
  | "timer" => Timers.runScript d
  | "numbers" => numbers d
  | "linear_to_string" => .ofExcept (linear d)
  | "relational_to_string" => .ofExcept (relation d)
  | "iteration_log" => iterationLog d
  | "results" => .ofExcept (results d)
  | "sense" => senses d
  | "log" => .ofExcept (Logs.log d)
  | "intercept" => .ofExcept (Logs.intercept d)
  | "almost" => .ofExcept (Checks.almost d)
  | "raises" => .ofExcept (Checks.raises d)
  | _ => .null

end RobustLP.Script.Services
