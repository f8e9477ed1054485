import RobustLP.Script.Formula

/-!
# Entities as replies

Each sort of entity is answered as a record of its parts; texts of the library go beside them, so that a step that answers an
entity fails if its text cannot be made. Entities that are handles only are answered by null.
-/

namespace RobustLP.Script.Render

/-! ## Symbols -/

/-- A missing name is null. -/
def name (n : Option String) : Reply := Reply.optional .text n

/-- A missing number is null. -/
def number (x : Option Float) : Reply := Reply.optional .float x

/-- The name of a model. -/
def modelName (i : Option ModelId) : Step Reply := do
  match i with
  | none => return .null
  | some i => return .text ((← Step.naming).ofModel i)

/-- A variable with what is declared of it. -/
def decision (v : Variable) : Step Reply := do
  let m ← Step.modelAt v.model
  let d ← Step.fault (nth m.decisions v.index)
  let value ← Step.fault (m.value v.index)
  return .record [("var", .text (m.variableName v.index)), ("index", .int v.index), ("model", .text m.name),
    ("lb", .float d.lower.value), ("ub", .float d.upper.value), ("bounds", .floats [d.lower.value, d.upper.value]),
    ("domain", .text d.domain.name), ("integer", .bool d.domain.isInteger), ("value", number value)]

/-- A parameter with what is declared of it. -/
def parameter (u : Parameter) : Step Reply := do
  let m ← Step.modelAt u.model
  let d ← Step.fault (nth m.parameters u.index)
  return .record [("param", .text (m.parameterName u.index)), ("index", .int u.index), ("model", .text m.name),
    ("lower", .float d.lower.value), ("upper", .float d.upper.value),
    ("bounds", .floats [d.lower.value, d.upper.value]), ("domain", .text d.domain.name),
    ("integer", .bool d.domain.isInteger)]

/-! ## Expressions and constraints -/

/-- A pair of a name and something. -/
def named (n : String) (r : Reply) : Reply := .list [.text n, r]

/-- A coefficient that is an expression in parameters. -/
def coefficient (naming : Naming) (e : Affine Parameter Float) : Reply :=
  .record [("terms", .list (e.terms.map fun t => named (naming.ofParameter t.1) (.float t.2))),
    ("constant", .float e.constant)]

/-- The word for a kind of expressions. -/
def kindWord : ExprKind → String
  | .linear => "linear"
  | .uncertain => "uncertain"
  | .full => "full"

/-- The terms and the constant of an expression. -/
def parts (naming : Naming) : Expr Float → List Reply × Reply
  | .linear e => (e.terms.map fun t => named (naming.ofVariable t.1) (.float t.2), .float e.constant)
  | .uncertain e => (e.terms.map fun t => named (naming.ofParameter t.1) (.float t.2), .float e.constant)
  | .full e => (e.terms.map fun t => named (naming.ofVariable t.1) (coefficient naming t.2),
      coefficient naming e.constant)

/-- An expression as it is stored. -/
def expr (e : Expr Float) : Step Reply := do
  let naming ← Step.naming
  let text ← Step.fault (Print.expr naming true e)
  let (terms, constant) := parts naming e
  return .record [("kind", .text (kindWord e.kind)), ("terms", .list terms), ("constant", constant),
    ("model", ← modelName e.owner), ("str", .text text)]

/-- A constraint. -/
def constraint (c : Constraint Float Float) : Step Reply := do
  let body ← expr c.body
  let text ← Step.fault (c.text (← Step.naming))
  return .record [("constraint", .text (Model.constraintType c.kind)), ("lower", .float c.lower),
    ("upper", .float c.upper), ("equality", .bool c.isEquality), ("has_lb", .bool (Bound.isLower c.lower)),
    ("has_ub", .bool (Bound.isUpper c.upper)), ("model", ← modelName c.owner), ("body", body), ("str", .text text)]

mutual

/-- A plain value. -/
def value : Value → Reply
  | .none => .null
  | .bool b => .bool b
  | .int n => .int n
  | .float x => .float x
  | .text s => .text s
  | .list xs => .list (values xs)
  | .tuple xs => .list (values xs)
  | .dict es => .text (Value.dict es).shown
  | .array xs => .text (Value.array xs).shown
  | .member e n v s => .text (Value.member e n v s).shown
  | .solver n i => .text (Value.solver n i).shown
  | .logger n => .text (Value.logger n).shown
  | .object t s => .text (Value.object t s).shown

/-- Several plain values. -/
def values : List Value → List Reply
  | [] => []
  | x :: xs => value x :: values xs

end

/-- An operand. -/
def operand : Operand → Step Reply
  | .plain v => return value v
  | .decision v => decision v
  | .parameter u => parameter u
  | .expr e => expr e
  | .constraint c => constraint c
  | .other t => return .text t

/-! ## Forms, programs, sets -/

/-- Numbered coefficients. -/
def terms (ts : List (Nat × Float)) : Reply := .list (ts.map fun t => .list [.int t.1, .float t.2])

/-- A form. -/
def form (f : Form Float) : Reply := .record [("linear", terms f.linear), ("constant", .float f.constant)]

/-- A mixed form. -/
def mixed (f : MixedForm Float) : Reply :=
  .record [("linear", .list (f.linear.map fun t => .list [.int t.1, form t.2])), ("constant", form f.constant)]

/-- A row of a program. -/
def programRow (p : LinearProgram Float Float) (i : Nat) (row : List (Nat × Float)) : Except Fault Reply := do
  let n ← nth p.rows.names i
  let lower ← nth p.rows.lower i
  let upper ← nth p.rows.upper i
  return .list [.text n, .float lower, .float upper, terms row]

/-- A program. -/
def program (p : LinearProgram Float Float) : Step Reply := do
  let rows ← p.rows.coefs.zipIdx.mapM fun (row, i) => Step.fault (programRow p i row)
  let columns := p.columns.map fun c => Reply.list [.text c.name, .float c.lower, .float c.upper, .bool c.integer]
  return .record [("lp", name p.name), ("sense", .text p.objective.sense.name), ("objective", terms p.objective.terms),
    ("objective_constant", .float p.objective.constant), ("rows", .list rows), ("columns", .list columns)]

/-- An uncertainty set. -/
def set (s : UncertaintySet Float Float) : Reply :=
  .record [("lower", .floats s.lower), ("upper", .floats s.upper), ("integer", .list (s.integer.map .bool)),
    ("names", .texts s.names), ("A_ub", .matrix s.atMostRows), ("b_ub", .floats s.atMostBounds),
    ("A_eq", .matrix s.equalRows), ("b_eq", .floats s.equalBounds)]

/-! ## Working models -/

/-- The source of a row. -/
def source : RowSource → Reply
  | .index i => .int i
  | .label s => .text s
  | .unknown => .null

/-- A mixed row. -/
def row (r : MixedRow Float Float) : Step Reply := do
  let text ← Step.fault (r.text (namesOr "_col" none) (namesOr "_unc" none))
  return .record [("row", name r.name), ("source", source r.source), ("lower", .float r.lower),
    ("upper", .float r.upper), ("repn", mixed r.form), ("str", .text text)]

/-- A working model. -/
def working (wm : WorkingModel Float Float) : Step Reply := do
  let rows ← wm.rows.mapM row
  let aux := wm.auxColumns.map fun ((j, k), c) => Reply.nats [j, k, c]
  return .record [("lp", ← program wm.program), ("mixed_rows", .list rows), ("objective", mixed wm.objective),
    ("num_user_columns", .int wm.userColumns), ("aux_columns", .list aux),
    ("epigraph_column", Reply.optional (fun (c : Nat) => .int c) wm.epigraphColumn)]

/-- A column of an auxiliary row. -/
def auxColumn : AuxColumn → Reply
  | .existing j => .int j
  | .auxiliary i => .record [("aux", .int i)]
  | .stray _ => .record [("aux", .null)]

/-- An auxiliary row. -/
def auxRow (r : AuxRow Float Float) : Reply :=
  .list [name r.name, .float r.lower, .float r.upper,
    .list (r.terms.map fun (c, k) => .list [auxColumn c, .float k])]

/-- A reformulation. -/
def reformulation (f : Reformulation Float Float) : Reply :=
  .record [("len", .int f.constraints.length),
    ("variables", .list (f.auxiliaries.map fun v => .list [name v.name, .float v.lower, .float v.upper])),
    ("constraints", .list (f.constraints.map auxRow))]

/-- A realization. -/
def realization (r : Realization Float Float) : Reply :=
  .record [("point", .floats r.point), ("violation", .float r.violation), ("side", .text r.side)]

/-- A policy. -/
def policy (naming : Naming) (p : AffinePolicy Float) : Reply :=
  .record [("variable", .text (naming.ofVariable p.decision)), ("base", .float p.base),
    ("coefficients", .list (p.coefficients.map fun (u, c) => named (naming.ofParameter u) (.float c))),
    ("str", .text (p.text naming))]

/-! ## Entities -/

mutual

/-- An entity. -/
def entity : Entity → Step Reply
  | .operand o => operand o
  | .model i => do return .text (← Step.modelAt i).name
  | .many es => do return .list (← entities es)
  | .form _ f => return form f
  | .mixed f => return mixed f
  | .program i => do program (← Step.programAt i)
  | .set s => return set s
  | .row r => row r
  | .working i => do working (← Step.workingAt i).2
  | .realization r => return realization r
  | .policy p => return policy (← Step.naming) p
  | .reformulation f => return reformulation f
  | .solver _ | .oracle _ | .result _ => return .null

/-- Several entities. -/
def entities : List Entity → Step (List Reply)
  | [] => return []
  | e :: es => do
    let r ← entity e
    return r :: (← entities es)

end

end RobustLP.Script.Render
