import RobustLP.Constraint
import RobustLP.Model.Domain
import RobustLP.Sense

/-!
# Models

A model holds its variables (name, bounds, domain, value), its deterministic constraints and its objective. A robust
model also holds uncertain parameters, the constraints that shape their uncertainty set, uncertain constraints with
their oracles, and the variables that follow an affine policy.

A `Catalog` is the collection of all models; symbols refer to their model by its number there.
-/

namespace RobustLP

/-- The number of an oracle. -/
abbrev OracleId := Nat

/-- What is declared of a variable or parameter. -/
structure Declared (B : Type) where
  name : Option String
  lower : Limit B
  upper : Limit B
  domain : Domain
  deriving Repr

/-- A model. `values` holds the current value of each variable. -/
structure Model (K B : Type) where
  name : String
  /-- the model may have uncertain parameters -/
  robust : Bool
  decisions : List (Declared B) := []
  values : List (Option K) := []
  constraints : List (Constraint K B) := []
  objective : Expr K
  sense : Sense := .minimize
  parameters : List (Declared B) := []
  /-- the constraints of the uncertainty set -/
  setConstraints : List (Constraint K B) := []
  /-- the uncertain constraints; none stands for the default oracle -/
  uncertain : List (Constraint K B × Option OracleId) := []
  /-- the variables that follow an affine policy, with the parameters it depends on -/
  affine : List (Nat × List Nat) := []
  defaultOracle : OracleId := 0
  deriving Repr

/-- All models. -/
abbrev Catalog (K B : Type) := List (Model K B)

section

variable {K B : Type} [Bound B] [Scalar K B]

namespace Model

/-- A model without content. -/
def empty (name : String) (robust : Bool) (defaultOracle : OracleId) : Model K B :=
  { name, robust, defaultOracle, objective := .linear (.ofConstant Scalar.zero) }

/-- The name of a variable; by default, its column. -/
def variableName (m : Model K B) (i : Nat) : String :=
  match m.decisions[i]? with
  | some { name := some n, .. } => n
  | _ => s!"_col{i}"

/-- The name of a parameter; by default, its position. -/
def parameterName (m : Model K B) (k : Nat) : String :=
  match m.parameters[k]? with
  | some { name := some n, .. } => n
  | _ => s!"_unc{k}"

/-- The value of a variable, if it has one. -/
def value (m : Model K B) (i : Nat) : Except Fault (Option K) :=
  match m.values[i]? with
  | some v => .ok v
  | none => .error .noIndex

/-- A variable of the model is an integer. -/
def isInteger (m : Model K B) (i : Nat) : Bool :=
  match m.decisions[i]? with
  | some d => d.domain.isInteger
  | none => false

end Model

/-- The names in use. -/
def Catalog.naming (ms : Catalog K B) : Naming where
  ofVariable v := match ms[v.model]? with
    | some m => m.variableName v.index
    | none => s!"_col{v.index}"
  ofParameter u := match ms[u.model]? with
    | some m => m.parameterName u.index
    | none => s!"_unc{u.index}"
  ofModel i := match ms[i]? with
    | some m => m.name
    | none => ""

/-- The current value of a variable as a factor: a variable without value has none. -/
def Catalog.currentValue (ms : Catalog K B) (v : Variable) : Except Fault K :=
  match ms[v.model]? with
  | none => .error .noIndex
  | some m =>
    match m.value v.index with
    | .ok (some x) => .ok x
    | .ok none => .error .badType
    | .error f => .error f

end

end RobustLP
