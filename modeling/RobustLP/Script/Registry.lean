import RobustLP.Script.Backends
import RobustLP.Script.Options

/-!
# A registry of solvers

A script registers sorts of solvers under names and makes solvers of them. A registered sort can do nothing but tell the options
that a solve would use; the built-in sort is registered from the beginning.
-/

namespace RobustLP.Script.Registry

/-- A sort of solvers: what is said of it, its options, and whether it can solve. -/
structure SolverSort where
  name : String
  description : Option String
  options : Config
  available : Bool

/-- The built-in sort. -/
def builtIn : SolverSort :=
  { name := Solver.builtInName, description := some "The HiGHS LP/MIP solver (through scipy)"
    options := .highs, available := true }

/-- The sorts with their names, and solvers. -/
structure State where
  sorts : List SolverSort := [builtIn]
  solvers : List (String × Config) := []

/-- A step of a script. -/
abbrev Step := ExceptT Failure (StateM State)

/-- A computation as step. -/
def lift {α : Type} : Except Error α → Step α
  | .ok a => pure a
  | .error e => throw (.error e)

/-- The names that are registered, in alphabetical order. -/
def names : Step (List String) := do return ((← get).sorts.map (·.name)).mergeSort (· ≤ ·)

/-- The name in a step. -/
def nameIn (d : Data) : String := (d.field "name").raw.display

/-- The sort of a name. -/
def sort? (name : String) : Step (Option SolverSort) := do return (← get).sorts.find? (·.name == name)

/-- Registers a sort, in place of one of the same name. -/
def register (d : Data) : Step Reply := do
  let sort : SolverSort :=
    { name := nameIn d, description := (d.field "doc").name?, options := .solver, available := false }
  modify fun s => { s with sorts := s.sorts.filter (·.name != sort.name) ++ [sort] }
  return .texts (← names)

/-- Removes a sort. -/
def unregister (d : Data) : Step Reply := do
  modify fun s => { s with sorts := s.sorts.filter (·.name != nameIn d) }
  return .texts (← names)

/-- Something of the sort of a name, which must be a text here. -/
def ofSort (d : Data) (reply : SolverSort → Reply) : Step Reply := do
  match ← (d.field "name").text?.bindM sort? with
  | some s => return reply s
  | none => lift (.error (.fault .noKey))

/-- Makes a solver of a sort: its name and its options. -/
def instantiate (d : Data) (sortName : String) (options : Config) : Step (String × Config) := do
  let given := d.field "options"
  let c ← lift (options.updated (.plain (Backends.solverOptionsOf given)))
  match d.field? "id" with
  | some (.text id) => modify fun s => { s with solvers := (id, c) :: s.solvers }
  | _ => pure ()
  return ((given.field "name").name?.getD sortName, c)

/-- Makes a solver of a registered sort. -/
def create (d : Data) : Step Reply := do
  match ← sort? (nameIn d) with
  | none => lift (.error (Config.unknownSolver (← names) (nameIn d)))
  | some s =>
    let (name, c) ← instantiate d s.name s.options
    return .record [("name", .text name), ("config", Options.shown c), ("available", .bool s.available),
      ("status", .text (if s.available then "FullLicense" else "NotFound"))]

/-- Makes a solver of a sort that is not registered. -/
def direct (d : Data) : Step Reply := do
  let (name, c) ← instantiate d "unregistered" .solver
  return .record [("name", .text name), ("config", Options.shown c)]

/-- The options that a solve uses, and those of the solver. -/
def solve (d : Data) : Step Reply := do
  let id := d.word "id"
  match (← get).solvers.find? (·.1 == id) with
  | none => throw (.unbound id)
  | some (_, c) =>
    let effective ← lift (c.updated (.plain (Backends.optionsOf (d.field "options"))))
    return .list [Options.shown effective, Options.shown c]

/-- A step. -/
def step (d : Data) : Step Reply := do
  match d.word "do" with
  | "register" => register d
  | "unregister" => unregister d
  | "contains" => return .bool (← sort? (nameIn d)).isSome
  | "doc" => ofSort d fun s => Reply.optional .text s.description
  | "class" => ofSort d fun s => .text s.name
  | "create" => create d
  | "direct" => direct d
  | "solve" => solve d
  | _ => lift (.error (.fault .noAttribute))

/-- Runs steps one after another. -/
def run : State → List Data → List Reply
  | _, [] => []
  | s, d :: rest => match (ExceptT.run (step d)).run s with
    | (.ok r, s) => r :: run s rest
    | (.error f, s) => .failed f [] :: run s rest

/-- **Runs a script on the registry.** -/
def runScript (d : Data) : Reply := .record [("results", .list (run {} (d.field "steps").items))]

end RobustLP.Script.Registry
