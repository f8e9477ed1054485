import RobustLP.Model

/-!
# Editing a model

Each operation edits a model step by step; an error may leave the steps before it in place, so the edited model is part
of the outcome in any case (`Edit`). What an argument is found to be when it is read is an `Except Error`: reading takes
place where the operation needs the number.

## Order of the steps

* A new variable is entered in the tables before its value is read.
* An objective is stored before its sense is read.
* Values are loaded one by one.
* Policies are set after all arguments have been checked.
-/

namespace RobustLP

/-- An operation that edits a state, and leaves one also when it fails. -/
abbrev Edit (σ : Type) := ExceptT Error (StateM σ)

/-- The outcome of an operation and the state it leaves. -/
def Edit.run {σ α : Type} (e : Edit σ α) (s : σ) : Except Error α × σ := (ExceptT.run e).run s

/-- A computation as step of an edit. -/
def Edit.lift {σ α : Type} : Except Error α → Edit σ α
  | .ok a => pure a
  | .error e => throw e

/-- A faulty computation as step of an edit. -/
def Edit.liftFault {σ α : Type} : Except Fault α → Edit σ α
  | .ok a => pure a
  | .error f => throw (.fault f)

/-- A bound as given: none for no bound, or what reading it gave. -/
abbrev GivenBound (B : Type) := Option (Except Error B)

/-- A bound as given, with its meaning if there is none. -/
def readBound {B σ : Type} (absent : B) : GivenBound B → Edit σ B
  | none => pure absent
  | some r => Edit.lift r

namespace Model

variable {K B : Type} [Bound B] [Scalar K B] [Written K] [Written B]

/-! ## Variables and parameters -/

/-- The declaration of a variable or parameter; a wrong domain is given by the name of its type. -/
structure Declaration (K B : Type) where
  lower : GivenBound B := none
  upper : GivenBound B := none
  domain : Except String Domain := .ok .reals
  name : Option String := none
  value : Option (Except Error K) := none

/-- A name as messages show it before it is entered. -/
def givenName (name : Option String) : String := name.getD "None"

/-- Checks a declaration and intersects its bounds with those of the domain. -/
def checkDeclaration (wrongDomain : String → Error) (wrongBounds : String → String → String → Error)
    (d : Declaration K B) : Edit (Model K B) (Declared B) := do
  match d.domain with
  | .error type => throw (wrongDomain type)
  | .ok domain =>
    let low ← readBound Bound.negInf d.lower
    let high ← readBound Bound.posInf d.upper
    let ofInt (n : Int) : B := Scalar.bound (Scalar.ofInt (K := K) n)
    let lower := Limit.lower low (domain.least?.map ofInt)
    let upper := Limit.upper high (domain.greatest?.map ofInt)
    if Bound.lt upper.value lower.value then
      throw (wrongBounds lower.text (givenName d.name) upper.text)
    return { name := d.name, lower, upper, domain }

/-- Declares a variable and answers its position. -/
def addVariable (d : Declaration K B) : Edit (Model K B) Nat := do
  let declared ← checkDeclaration .variableDomain .variableLower d
  let index := (← get).decisions.length
  modify fun m => { m with decisions := m.decisions ++ [declared] }
  match d.value with
  | none => modify fun m => { m with values := m.values ++ [none] }
  | some r =>
    let x ← Edit.lift r
    modify fun m => { m with values := m.values ++ [some x] }
  return index

/-- The name of an element of an array. -/
def elementName (name : Option String) (i : Nat) : Option String := name.map fun n => s!"{n}[{i}]"

/-- Declares several variables of the same kind. -/
def addVariables (n : Nat) (d : Declaration K B) : Edit (Model K B) (List Nat) :=
  (List.range n).mapM fun i => addVariable { d with name := elementName d.name i }

/-- Declares an uncertain parameter and answers its position. -/
def addParameter (d : Declaration K B) : Edit (Model K B) Nat := do
  let declared ← checkDeclaration .parameterDomain .parameterLower d
  let index := (← get).parameters.length
  modify fun m => { m with parameters := m.parameters ++ [declared] }
  return index

/-- Declares several parameters of the same kind. -/
def addParameters (n : Nat) (d : Declaration K B) : Edit (Model K B) (List Nat) :=
  (List.range n).mapM fun i => addParameter { d with name := elementName d.name i }

/-- Changes what is declared of a variable. -/
def changeVariable (i : Nat) (f : Declared B → Declared B) : Edit (Model K B) Unit :=
  modify fun m => { m with decisions := m.decisions.modify i f }

/-- Changes what is declared of a parameter. -/
def changeParameter (k : Nat) (f : Declared B → Declared B) : Edit (Model K B) Unit :=
  modify fun m => { m with parameters := m.parameters.modify k f }

/-- What is declared at a position. -/
def declaredAt (ds : List (Declared B)) (i : Nat) : Edit (Model K B) (Declared B) :=
  match ds[i]? with
  | some d => pure d
  | none => throw (.fault .noIndex)

/-- Renames a variable. -/
def renameVariable (i : Nat) (name : Option String) : Edit (Model K B) Unit :=
  changeVariable i fun d => { d with name }

/-- Renames a parameter. -/
def renameParameter (k : Nat) (name : Option String) : Edit (Model K B) Unit :=
  changeParameter k fun d => { d with name }

/-- Changes the lower bound of a variable. -/
def setLower (i : Nat) (b : GivenBound B) : Edit (Model K B) Unit := do
  let low ← readBound Bound.negInf b
  let d ← declaredAt (← get).decisions i
  if Bound.lt d.upper.value low then
    throw (.variableLower (Written.plain low) ((← get).variableName i) d.upper.text)
  changeVariable i fun d => { d with lower := ⟨low, false⟩ }

/-- Changes the upper bound of a variable. -/
def setUpper (i : Nat) (b : GivenBound B) : Edit (Model K B) Unit := do
  let high ← readBound Bound.posInf b
  let d ← declaredAt (← get).decisions i
  if Bound.lt high d.lower.value then
    throw (.variableUpper (Written.plain high) ((← get).variableName i) d.lower.text)
  changeVariable i fun d => { d with upper := ⟨high, false⟩ }

/-- Changes the lower bound of a parameter. -/
def setParameterLower (k : Nat) (b : GivenBound B) : Edit (Model K B) Unit := do
  let low ← readBound Bound.negInf b
  let d ← declaredAt (← get).parameters k
  if Bound.lt d.upper.value low then
    throw (.parameterLower (Written.plain low) ((← get).parameterName k) d.upper.text)
  changeParameter k fun d => { d with lower := ⟨low, false⟩ }

/-- Changes the upper bound of a parameter. -/
def setParameterUpper (k : Nat) (b : GivenBound B) : Edit (Model K B) Unit := do
  let high ← readBound Bound.posInf b
  let d ← declaredAt (← get).parameters k
  if Bound.lt high d.lower.value then
    throw (.parameterUpper (Written.plain high) ((← get).parameterName k) d.lower.text)
  changeParameter k fun d => { d with upper := ⟨high, false⟩ }

/-- Stores the value of a variable. -/
def storeValue (i : Nat) (x : Option K) : Edit (Model K B) Unit := do
  if i < (← get).values.length then
    modify fun m => { m with values := m.values.set i x }
  else throw (.fault .noIndex)

/-- Changes the value of a variable. -/
def setValue (i : Nat) (value : Option (Except Error K)) : Edit (Model K B) Unit := do
  match value with
  | none => storeValue i none
  | some r => storeValue i (some (← Edit.lift r))

/-- Loads values, one for each variable from the first on; further ones are ignored. -/
def loadValues (values : List (Except Error K)) : Edit (Model K B) Unit := do
  let n := (← get).decisions.length
  (values.take n).zipIdx.forM fun (r, i) => do storeValue i (some (← Edit.lift r))

/-! ## Constraints and objective -/

/-- The text of an expression as step of an edit. -/
def exprText (naming : Naming) (e : Expr K) : Edit (Model K B) String :=
  Edit.liftFault (Print.expr naming true e)

/-- The text of a constraint as step of an edit. -/
def constraintText (naming : Naming) (c : Constraint K B) : Edit (Model K B) String :=
  Edit.liftFault (c.text naming)

/-- Refuses an object of another model. -/
def checkOwner (self : ModelId) (owner : Option ModelId) (what : String)
    (text : Edit (Model K B) String) : Edit (Model K B) Unit := do
  match owner with
  | none => pure ()
  | some i =>
    if i ≠ self then throw (.notOwned what (← text) (← get).name)

/-- The name of the type of a constraint. -/
def constraintType : ExprKind → String
  | .linear => "LinearConstraint"
  | .uncertain => "UncSetConstraint"
  | .full => "UncConstraint"

/-- An object to be added as constraint; anything else is given by the name of its type and its text. -/
inductive ConstraintCandidate (K B : Type) where
  | constraint (c : Constraint K B)
  | other (type : String) (text : Except Fault String)

/-- The name of the type of a candidate. -/
def ConstraintCandidate.type : ConstraintCandidate K B → String
  | .constraint c => constraintType c.kind
  | .other t _ => t

/-- Adds a deterministic constraint. -/
def addDeterministic (naming : Naming) (self : ModelId) (c : ConstraintCandidate K B) :
    Edit (Model K B) (Constraint K B) := do
  match c with
  | .constraint c =>
    if c.kind = .linear then
      checkOwner self c.owner "Constraint" (constraintText naming c)
      modify fun m => { m with constraints := m.constraints ++ [c] }
      return c
    else throw (.onlyDeterministic (← get).name (constraintType c.kind))
  | .other t _ => throw (.onlyDeterministic (← get).name t)

/-- An oracle as given: none, an oracle, or the name of the type of something else. -/
abbrev GivenOracle := Option (Except String OracleId)

/-- Adds a constraint where its kind says, and answers it unless it went to the uncertainty set. -/
def addRobust (naming : Naming) (self : ModelId) (c : ConstraintCandidate K B) (oracle : GivenOracle) :
    Edit (Model K B) (Option (Constraint K B)) := do
  match c with
  | .constraint c =>
    match c.kind with
    | .full =>
      let bound ← match oracle with
        | none => pure none
        | some (.ok o) => pure (some o)
        | some (.error t) => throw (.notAnOracle (← constraintText naming c) t)
      checkOwner self c.owner "Constraint" (constraintText naming c)
      modify fun m => { m with uncertain := m.uncertain ++ [(c, bound)] }
      return some c
    | .uncertain =>
      if oracle.isSome then throw (.oracleNotAllowed (← constraintText naming c))
      checkOwner self c.owner "Constraint" (constraintText naming c)
      modify fun m => { m with setConstraints := m.setConstraints ++ [c] }
      return none
    | .linear =>
      if oracle.isSome then throw (.oracleNotAllowed (← constraintText naming c))
      return some (← addDeterministic naming self (.constraint c))
  | .other t text =>
    if oracle.isSome then throw (.oracleNotAllowed (← Edit.liftFault text))
    throw (.notAConstraint (← get).name t)

/-- Adds a constraint to a model of either kind. -/
def addConstraint (naming : Naming) (self : ModelId) (c : ConstraintCandidate K B) (oracle : GivenOracle) :
    Edit (Model K B) (Option (Constraint K B)) := do
  if (← get).robust then addRobust naming self c oracle
  else return some (← addDeterministic naming self c)

/-- The objective a quantity stands for. A model without uncertainty takes linear ones only. -/
def objectiveOf (naming : Naming) (q : Quantity K) : Edit (Model K B) (Expr K) := do
  match q with
  | .number x => return .linear (.ofConstant x)
  | .expr e =>
    if (← get).robust || e.kind = .linear then return e
    else throw (.objectiveNotLinear (← get).name (← exprText naming e))

/-- Sets the objective and its sense. -/
def setObjective (naming : Naming) (self : ModelId) (q : Except Error (Quantity K)) (sense : Option Sense) :
    Edit (Model K B) Unit := do
  let e ← objectiveOf naming (← Edit.lift q)
  checkOwner self e.owner "Objective" (exprText naming e)
  modify fun m => { m with objective := e }
  match sense with
  | some s => modify fun m => { m with sense := s }
  | none => throw (.fault .badValue)

/-- Sets the oracle of constraints without one. -/
def setDefaultOracle (oracle : Except String OracleId) : Edit (Model K B) Unit :=
  match oracle with
  | .ok o => modify fun m => { m with defaultOracle := o }
  | .error t => throw (.defaultOracle t)

/-! ## Policies -/

/-- The kinds of decision rules. -/
inductive PolicyKind where
  | fixed
  | affine
  deriving DecidableEq, Repr, Inhabited

/-- The name of a kind of decision rule. -/
def PolicyKind.name : PolicyKind → String
  | .fixed => "fixed"
  | .affine => "affine"

/-- A kind of decision rule is given by its name, in any case. -/
def PolicyKind.ofValue? (v : Value) : Option PolicyKind :=
  match v with
  | .text s =>
    let low := String.ofList (s.toList.map Char.toLower)
    if low == "fixed" then some .fixed else if low == "affine" then some .affine else none
  | _ => none

/-- One of the objects that a policy is declared for or depends on. -/
inductive PolicyObject where
  | decision (v : Variable)
  | parameter (u : Parameter)
  | other (type text : String)
  deriving Repr

/-- The name of the type of an object. -/
def PolicyObject.type : PolicyObject → String
  | .decision _ => "Variable"
  | .parameter _ => "UncertainParam"
  | .other t _ => t

/-- The text of an object. -/
def PolicyObject.text (naming : Naming) : PolicyObject → String
  | .decision v => naming.ofVariable v
  | .parameter u => naming.ofParameter u
  | .other _ t => t

/-- The positions of the parameters among objects, each once. -/
def policyParameters (naming : Naming) (self : ModelId) (objects : List PolicyObject) :
    Edit (Model K B) (List Nat) :=
  objects.foldlM (fun ks o => do
    match o with
    | .parameter u =>
      checkOwner self (some u.model) "Uncertain parameter" (pure (naming.ofParameter u))
      return if ks.contains u.index then ks else ks ++ [u.index]
    | o => throw (.policyDependsOn o.type)) []

/-- The positions of the variables among objects; integers cannot follow an affine policy. -/
def policyVariables (naming : Naming) (self : ModelId) (policy : PolicyKind) (objects : List PolicyObject) :
    Edit (Model K B) (List Nat) :=
  objects.mapM fun o => do
    match o with
    | .decision v =>
      checkOwner self (some v.model) "Variable" (pure (naming.ofVariable v))
      if policy = .affine && (← get).isInteger v.index then
        throw (.integerAdaptive (naming.ofVariable v))
      return v.index
    | o => throw (.notAdaptable o.type)

/-- Enters or replaces the policy of a variable. -/
def enterPolicy (j : Nat) (ks : List Nat) (table : List (Nat × List Nat)) : List (Nat × List Nat) :=
  if table.any (·.1 == j) then table.map fun e => if e.1 == j then (j, ks) else e
  else table ++ [(j, ks)]

/-- Declares the decision rule of variables. -/
def setPolicy (naming : Naming) (self : ModelId) (adapted : List PolicyObject) (policy : Value)
    (dependsOn : List PolicyObject) : Edit (Model K B) Unit := do
  match PolicyKind.ofValue? policy with
  | none => throw (.policyKind policy.display)
  | some policy =>
    let ks ← policyParameters naming self dependsOn
    if policy = .fixed && !ks.isEmpty then
      throw (.fixedDependsOn (Text.joinWith ", " (dependsOn.map (·.text naming))))
    let js ← policyVariables naming self policy adapted
    match policy with
    | .fixed => modify fun m => { m with affine := m.affine.filter fun e => !js.contains e.1 }
    | .affine => modify fun m => { m with affine := js.foldl (fun t j => enterPolicy j ks t) m.affine }

/-- The decision rule of a variable, with the parameters it depends on. -/
def policyOf (m : Model K B) (j : Nat) : PolicyKind × List Nat :=
  match m.affine.find? (·.1 == j) with
  | some (_, ks) => (.affine, ks)
  | none => (.fixed, [])

end Model

end RobustLP
