import RobustLP.Script.Forms

/-!
# Steps: programs

Programs are made from models, sets and working models, or from nothing, and then edited and asked.
-/

namespace RobustLP.Script

/-! ## Making -/

/-- Answers a program and binds it. -/
def answerProgram (d : Data) (place : Nat) : Step Reply := do
  Step.bindTo d (.program place)
  Render.program (← Step.programAt place)

/-- Puts a program on the shelf, answers it and binds it. -/
def answerNewProgram (d : Data) (p : LinearProgram Float Float) : Step Reply := do
  answerProgram d (← Step.putProgram p)

/-- Makes a program. -/
def makeProgram (d : Data) : Step Reply := do
  if d.has "model" then
    answerNewProgram d (← Step.lift (LinearProgram.ofModel (← Step.naming) (← Step.modelAt (← Step.refModel d))))
  else if d.has "uset" then
    match ← Step.ref d "uset" with
    | .set s =>
      let name := ((d.field? "name").map Data.name?).getD (some Run.setProgramName)
      answerNewProgram d (← Step.lift (s.toProgram name))
    | _ => Step.noAttribute
  else if d.has "working" then
    answerProgram d (← Step.workingAt (← Step.refWorking d "working")).1
  else answerNewProgram d (LinearProgram.empty (d.field "name").name?)

/-! ## Arguments -/

/-- The column of a term: an integer, a truth value or an integral double. -/
def columnOf (v : Value) : Except Error Int :=
  match v with
  | .int n => .ok n
  | .bool b => .ok (if b then 1 else 0)
  | .float x => match Decimal.truncate? x with
    | some n => .ok n
    | none => .error (.fault .badType)
  | _ => .error (.fault .badType)

/-- Terms, read where they are used. -/
def termsIn (d : Data) (key : String) : List (GivenTerm Float) :=
  (d.field key).items.map fun t => match t.items with
    | [c, k] => (columnOf c.number, k.number.readFloat)
    | _ => (.error (.fault .badValue), .error (.fault .badValue))

/-- A constant; zero if none is given. -/
def constantIn (d : Data) : Except Error Float :=
  match d.field? "constant" with
  | none => .ok 0
  | some v => v.number.readFloat

/-! ## Editing and asking -/

/-- Edits a program; none if the call is no edit. -/
def editCall (d : Data) (place : Nat) : Option (Step Reply) :=
  match d.word "call" with
  | "add_column" => some do
    let j ← Step.onProgram place (LinearProgram.addColumn (boundIn d "lower") (boundIn d "upper")
      (d.field "integer").truth (d.field "name").name?)
    return .int j
  | "add_row" => some do
    let i ← Step.onProgram place (LinearProgram.addRow (termsIn d "terms") (boundIn d "lower") (boundIn d "upper")
      (d.field "name").name?)
    return .int i
  | "remove_rows" => some do
    Step.removeRows place ((d.field "rows").items.filterMap fun r => (columnOf r.number).toOption)
    return .texts (← Step.programAt place).rows.names
  | "set_objective" => some do
    Step.onProgram place (LinearProgram.setObjective (termsIn d "terms") (constantIn d) (senseIn d))
    Render.program (← Step.programAt place)
  | "clone" => some do answerNewProgram d (← Step.programAt place)
  | "with_objective" => some do
    let (shelf, q) ← Step.lift ((← get).shelf.withObjective place (termsIn d "terms") (constantIn d) (senseIn d))
    modify fun s => { s with shelf }
    answerProgram d q
  | _ => none

/-- The point of a step. -/
def pointIn (d : Data) : Step (List Float) := Step.lift (d.field "x").floats

/-- Asks a program. -/
def askProgram (d : Data) (p : LinearProgram Float Float) : Step Reply := do
  match d.word "call" with
  | "show" => Render.program p
  | "size" => return .nats [p.numRows, p.numColumns]
  | "matrix" => return .matrix p.matrix
  | "objective_vector" => return .floats p.objectiveVector
  | "activity" => return .floats (← Step.fault (p.activity (← pointIn d)))
  | "objective_value" => return .float (← Step.fault (p.objectiveValue (← pointIn d)))
  | "max_violation" => return .float (← Step.fault (p.maxViolation (← pointIn d)))
  | "to_string" => return .texts ((← Step.fault p.lines).flatMap Text.lines)
  | _ => Step.noAttribute

/-- Edits or asks a program. -/
def programCall (d : Data) : Step Reply := do
  match ← Step.ref d "obj" with
  | .program place =>
    match editCall d place with
    | some step => step
    | none => askProgram d (← Step.programAt place)
  | _ => Step.noAttribute

end RobustLP.Script
