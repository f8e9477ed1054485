import RobustLP.Expr.Operand
import RobustLP.Program.Shelf
import RobustLP.Script.Data
import RobustLP.Script.Reply
import RobustLP.Solve.Robust
import RobustLP.Solver.BuiltIn

/-!
# Sessions

A session runs the steps of a script one after another. It holds models, programs, working models, solvers and oracles, and
what identifiers are bound to (`Entity`). A `Step` may fail; what it did to the session before it failed stays done.
-/

namespace RobustLP.Script

/-- Whether a form is one in columns or in parameters. -/
inductive FormSort where
  | columns
  | parameters
  deriving DecidableEq, Repr, Inhabited

/-- The name of a sort of forms. -/
def FormSort.typeName : FormSort → String
  | columns => "LinearRepn"
  | parameters => "UncertainRepn"

/-- What an identifier may be bound to. Models, programs and the like are referred to by their places in the session. -/
inductive Entity where
  | operand (o : Operand)
  | model (i : ModelId)
  | many (es : List Entity)
  | form (sort : FormSort) (f : Form Float)
  | mixed (f : MixedForm Float)
  | program (place : Nat)
  | set (s : UncertaintySet Float Float)
  | row (r : MixedRow Float Float)
  | working (i : Nat)
  | realization (r : Realization Float Float)
  | policy (p : AffinePolicy Float)
  | solver (i : SolverId)
  | oracle (i : OracleId)
  | reformulation (f : Reformulation Float Float)
  | result (i : Nat)
  deriving Inhabited

/-- A session. -/
structure Session where
  models : Catalog Float Float := []
  shelf : Shelf Float Float := {}
  /-- working models, each with the place of its program -/
  workings : List (Nat × WorkingModel Float Float) := []
  /-- the first solver is the built-in one -/
  environment : Environment Float Float := { clock := 0, solvers := [Solver.builtIn] }
  /-- the results of robust solves, each with its model -/
  results : List (ModelId × RobustResults Float Float) := []
  /-- what identifiers are bound to, the last binding first -/
  bindings : List (String × Entity) := []

/-- A step of a session. -/
abbrev Step := ExceptT Failure (StateM Session)

namespace Step

/-- Fails with an error. -/
def fail {α : Type} (e : Error) : Step α := throw (.error e)

/-- A computation as step. -/
def lift {α : Type} : Except Error α → Step α
  | .ok a => pure a
  | .error e => fail e

/-- A faulty computation as step. -/
def fault {α : Type} : Except Fault α → Step α
  | .ok a => pure a
  | .error f => fail (.fault f)

/-- A step whose failure is a part of the answer. -/
def inPlace (s : Step Reply) : Step Reply := tryCatch s fun f => pure (.failed f [])

/-- An object lacks what is asked of it. -/
def noAttribute {α : Type} : Step α := fail (.fault .noAttribute)

/-- The names in use. -/
def naming : Step Naming := do return (← get).models.naming

/-- A computation with expressions as step. -/
def expr {α : Type} (r : Except (ExprError Float) α) : Step α := do
  match r with
  | .ok a => return a
  | .error e => fail (e.report (← naming))

/-! ## Bindings -/

/-- What an identifier is bound to. -/
def lookup (id : String) : Step Entity := do
  match (← get).bindings.find? (·.1 == id) with
  | some (_, e) => return e
  | none => throw (.unbound id)

/-- Binds an identifier. -/
def bindAs (id : String) (e : Entity) : Step Unit := modify fun s => { s with bindings := (id, e) :: s.bindings }

/-- Binds the identifier of a step, if it has one. -/
def bindTo (d : Data) (e : Entity) : Step Unit :=
  match d.field? "id" with
  | some (.text id) => bindAs id e
  | _ => pure ()

/-- What the identifier in a field is bound to. -/
def ref (d : Data) (key : String) : Step Entity := lookup (d.word key)

/-! ## Models -/

/-- A model of the session. -/
def modelAt (i : ModelId) : Step (Model Float Float) := do
  match (← get).models[i]? with
  | some m => return m
  | none => noAttribute

/-- The model that a step refers to. -/
def refModel (d : Data) : Step ModelId := do
  match ← ref d "model" with
  | .model i => return i
  | _ => noAttribute

/-- The robust model that a step refers to. -/
def refRobust (d : Data) : Step ModelId := do
  let i ← refModel d
  if (← modelAt i).robust then return i else noAttribute

/-- Edits a model. -/
def onModel {α : Type} (i : ModelId) (e : Edit (Model Float Float) α) : Step α := do
  let (r, m) := e.run (← modelAt i)
  modify fun s => { s with models := s.models.set i m }
  lift r

/-! ## Programs and working models -/

/-- The program at a place. -/
def programAt (place : Nat) : Step (LinearProgram Float Float) := do
  match (← get).shelf.program? place with
  | some p => return p
  | none => noAttribute

/-- Puts a program on the shelf and answers its place. -/
def putProgram (p : LinearProgram Float Float) : Step Nat := do
  let (shelf, place) := (← get).shelf.insert p
  modify fun s => { s with shelf }
  return place

/-- Edits a program. -/
def onProgram {α : Type} (place : Nat) (e : Edit (LinearProgram Float Float) α) : Step α := do
  let (r, shelf) := (← get).shelf.edit place e
  modify fun s => { s with shelf }
  lift r

/-- Removes rows of a program. -/
def removeRows (place : Nat) (drop : List Int) : Step Unit := do
  let (r, shelf) := (← get).shelf.removeRows place drop
  modify fun s => { s with shelf }
  lift r

/-- A working model with the current state of its program, and the place of that. -/
def workingAt (i : Nat) : Step (Nat × WorkingModel Float Float) := do
  match (← get).workings[i]? with
  | some (place, wm) => return (place, { wm with program := ← programAt place })
  | none => noAttribute

/-- The working model that a field refers to. -/
def refWorking (d : Data) (key : String) : Step Nat := do
  match ← ref d key with
  | .working i => return i
  | _ => noAttribute

/-- Puts a working model with a program of its own into the session. -/
def putWorking (wm : WorkingModel Float Float) : Step Nat := do
  let place ← putProgram wm.program
  let i := (← get).workings.length
  modify fun s => { s with workings := s.workings ++ [(place, wm)] }
  return i

/-! ## Solvers and oracles -/

/-- Runs a computation within the environment. -/
def within {α : Type} (r : Run Float Float α) : Step α := do
  let (a, environment) := r.run (← get).environment
  modify fun s => { s with environment }
  lift a

/-- Runs a computation within the environment; its failure is an answer, too. -/
def attempt {α : Type} (r : Run Float Float α) : Step (Except Error α) := do
  let (a, environment) := r.run (← get).environment
  modify fun s => { s with environment }
  return a

/-- A new oracle. -/
def putOracle (o : Oracle Float Float) : Step OracleId := do
  let i := (← get).environment.oracles.length
  modify fun s => { s with environment := { s.environment with oracles := s.environment.oracles ++ [o] } }
  return i

/-- A new solver. -/
def putSolver (o : Solver Float Float) : Step SolverId := do
  let i := (← get).environment.solvers.length
  modify fun s => { s with environment := { s.environment with solvers := s.environment.solvers ++ [o] } }
  return i

end Step

/-- An entity as operand: anything that is none is known by the name of its type. -/
def Entity.asOperand (s : Session) : Entity → Operand
  | operand o => o
  | model i => .other (match s.models[i]? with
    | some m => if m.robust then "RobustModel" else "Model"
    | none => "Model")
  | many _ => .other "list"
  | form sort _ => .other sort.typeName
  | mixed _ => .other "MixedRepn"
  | program _ => .other "LinearProgram"
  | set _ => .other "UncertaintySet"
  | row _ => .other "MixedRow"
  | working _ => .other "WorkingModel"
  | realization _ => .other "Realization"
  | policy _ => .other "AdaptivePolicyValue"
  | solver _ => .other "ScriptedSolver"
  | oracle i => .other (match s.environment.oracles[i]? with
    | some (.dualizing _) | some (.separating true _) => "PolyhedralOracle"
    | some (.separating false _) => "CuttingPlaneOracle"
    | some (.replaying _) => "ScriptedOracle"
    | none => "Oracle")
  | reformulation _ => .other "Reformulation"
  | result _ => .other "RobustSolveResults"

/-- An entity as operand of the current session. -/
def Step.asOperand (e : Entity) : Step Operand := do return e.asOperand (← get)

end RobustLP.Script
