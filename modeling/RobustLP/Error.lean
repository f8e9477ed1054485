import RobustLP.Scalar
import RobustLP.Text.Quoted
import RobustLP.Text.Wrap

/-!
# Errors

`Error` lists the causes for which an operation is refused, `Error.kind` their classification and `Error.message`
their wording. A cause that is a mere `Fault` of a value has no message of its own; the few that arise while a number
is read keep the text that was read, so that other messages can quote why it was refused.

## Long messages

`Message.layout` wraps a message as for a console: behind the name of its kind on the first line, with an optional
heading and an optional closing line.
-/

namespace RobustLP

/-! ## Kinds -/

/-- The kinds of errors. -/
inductive ErrorKind where
  | general
  | value
  | type
  | attribute
  | index
  | key
  | overflow
  | zeroDivision
  | runtime
  | assertion
  | developer
  | ownership
  | typeMismatch
  | setup
  | separation
  | separationTimeLimit
  | iterationLimit
  | solver
  | nonlinear
  deriving DecidableEq, Repr, Inhabited

/-- The text of an error of a kind that is raised without one. -/
def ErrorKind.defaultText : ErrorKind → String
  | .ownership => "Expression mixes symbols owned by different models."
  | _ => ""

/-- The kind a fault belongs to. -/
def Fault.kind : Fault → ErrorKind
  | .badValue => .value
  | .badType => .type
  | .overflow => .overflow
  | .noAttribute => .attribute
  | .noIndex => .index
  | .noKey => .key
  | .zeroDivision => .zeroDivision

/-! ## Wrapped messages -/

namespace Message

/-- Wraps a text that is a single line; a text of several lines stays as it is. -/
def wrapLine (text : String) (width : Int) (first rest : String) : String :=
  if text.toList.contains '\n' then text else Text.fill width first rest text

/-- Lays out a message. `lead` is the room taken on the first line by what stands before the message. A width that is not
positive is refused as soon as a line has to be wrapped. -/
def layout (message : String) (heading closing : Option String) (lead : Nat) (width : Int) :
    Except Fault String := do
  let wraps (text : String) := !text.toList.contains '\n'
  if width ≤ 0 && (wraps message || heading.any wraps || closing.any wraps) then throw .badValue
  let indent := Text.blanks (if closing.any (!·.isEmpty) then 8 else 4)
  let (headed, indent, first) := match heading with
    | some text =>
      let wrapped := Text.trimLeft (wrapLine text width (Text.blanks lead) (Text.blanks 4))
      let indent := if wraps wrapped then indent else Text.blanks 8
      ([wrapped], indent, indent)
    | none => ([], indent, Text.blanks lead)
  let body := wrapLine message width first indent
  let body := if headed.isEmpty then Text.trimLeft body else body
  let closingLines := match closing with
    | some text => [wrapLine text width (Text.blanks 4) (Text.blanks 4)]
    | none => []
  return Text.joinWith "\n" (headed ++ [body] ++ closingLines)

end Message

/-! ## Causes -/

/-- Why a number could not be read from a value. -/
inductive ReadingError where
  /-- a text that is no decimal number -/
  | notDecimal (text : String)
  /-- a text that is no integer -/
  | notInteger (text : String)
  /-- a value of a type that has no number -/
  | noNumber (type : String)
  /-- a value of a type that has no integer -/
  | noInteger (type : String)
  | infinite
  | undefined
  | tooLarge
  deriving DecidableEq, Repr, Inhabited

/-- The fault behind a failed reading. -/
def ReadingError.fault : ReadingError → Fault
  | .notDecimal _ => .badValue
  | .notInteger _ => .badValue
  | .noNumber _ => .badType
  | .noInteger _ => .badType
  | .infinite => .overflow
  | .undefined => .badValue
  | .tooLarge => .overflow

/-- Why a reading failed, in words. -/
def ReadingError.explain : ReadingError → String
  | .notDecimal text => "could not convert string to float: " ++ Text.quoted text
  | .notInteger text => "invalid literal for int() with base 10: " ++ Text.quoted text
  | .noNumber type => "float() argument must be a string or a real number, not '" ++ type ++ "'"
  | .noInteger type =>
    "int() argument must be a string, a bytes-like object or a real number, not '" ++ type ++ "'"
  | .infinite => "cannot convert float infinity to integer"
  | .undefined => "cannot convert float NaN to integer"
  | .tooLarge => "int too large to convert to float"

/-- The causes of errors. The texts are names and printed expressions at the time of the error. -/
inductive Error where
  | fault (fault : Fault)
  | reading (error : ReadingError)
  /-- a fault with a text that other messages can quote -/
  | described (fault : Fault) (text : String)
  /-- an error of which nothing but the kind is known -/
  | bare (kind : ErrorKind)
  -- expressions
  | foreignSymbols (left right : String)
  | nonlinearProduct (left right : String)
  | nonlinearQuotient (dividend divisor : String)
  | quotientByZero (dividend : String)
  | truthOfExpression (expr : String)
  | truthOfConstraint (constraint : String)
  | notAnExpression (type : String)
  | boundNotNumeric (type : String)
  | bodyNotExpression (type : String)
  | notDeterministic (expr : String)
  | containsVariables (expr : String)
  -- models
  | variableDomain (type : String)
  | parameterDomain (type : String)
  | variableLower (lower name upper : String)
  | variableUpper (upper name lower : String)
  | parameterLower (lower name upper : String)
  | parameterUpper (upper name lower : String)
  | notOwned (what object model : String)
  | onlyDeterministic (model type : String)
  | objectiveNotLinear (model expr : String)
  | notAConstraint (model type : String)
  | notAnOracle (constraint type : String)
  | oracleNotAllowed (constraint : String)
  | defaultOracle (type : String)
  | notRobust (type : String)
  | policyKind (policy : String)
  | policyDependsOn (type : String)
  | fixedDependsOn (names : String)
  | notAdaptable (type : String)
  | integerAdaptive (name : String)
  | noPolicy (name : String)
  -- programs and sets
  | columnOutOfRange (column columns : String)
  | setBoundsLength (lower upper : Nat)
  | setBounds (lower : String) (index : Nat) (upper : String)
  | matrixShape (shape : String) (columns : Nat)
  | pointSize (size parameters : Nat)
  | strayAuxiliary (row column : String)
  | uncertainAdaptiveCoefficient (column constraint : String)
  -- oracles and solves
  | integerDualization (names : String)
  | emptySet
  | noNominalPoint (solver status : String)
  | separationTimeLimit (solver limit : String)
  | separationUnbounded
  | separationFailed (solver status : String)
  | setupFailed (message : String)
  | separationStopped (message : String)
  | solverFailed (message : String)
  | iterationLimit (message : String)
  | notOptimal (condition message : String)
  | backendFailed (program message : String)
  | unknownSolver (description name available : String)
  -- options
  | option (message : String)
  | optionType (message : String)
  | optionAttribute (message : String)
  -- services
  | timerNotSupported (id : String)
  | timerNotActive (id active : String)
  | noTimer (path : String)
  | stopwatchStopped
  | interceptAmbiguous
  | interceptNested
  | tolerancesConflict
  | assertion (message : String)
  deriving Repr, Inhabited

namespace Error

/-- The kind of an error. -/
def kind : Error → ErrorKind
  | fault f => f.kind
  | reading e => e.fault.kind
  | described f _ => f.kind
  | bare kind => kind
  | foreignSymbols .. | notOwned .. => .ownership
  | nonlinearProduct .. | nonlinearQuotient .. | uncertainAdaptiveCoefficient .. => .nonlinear
  | quotientByZero .. => .zeroDivision
  | truthOfExpression .. | truthOfConstraint .. => .general
  | notAnExpression .. | boundNotNumeric .. | bodyNotExpression .. | notDeterministic ..
  | containsVariables .. | variableDomain .. | parameterDomain .. | onlyDeterministic ..
  | objectiveNotLinear .. | notAConstraint .. | optionType .. => .type
  | variableLower .. | variableUpper .. | parameterLower .. | parameterUpper .. | noPolicy ..
  | setBoundsLength .. | setBounds .. | matrixShape .. | pointSize .. | unknownSolver .. | option ..
  | timerNotSupported .. | timerNotActive .. | interceptAmbiguous | tolerancesConflict => .value
  | notAnOracle .. | oracleNotAllowed .. | defaultOracle .. | notRobust .. | policyKind ..
  | policyDependsOn .. | fixedDependsOn .. | notAdaptable .. | integerAdaptive .. => .typeMismatch
  | columnOutOfRange .. => .index
  | strayAuxiliary .. => .developer
  | integerDualization .. | emptySet | noNominalPoint .. | setupFailed .. => .setup
  | separationTimeLimit .. | separationStopped .. => .separationTimeLimit
  | separationUnbounded | separationFailed .. => .separation
  | solverFailed .. | notOptimal .. | backendFailed .. => .solver
  | iterationLimit .. => .iterationLimit
  | optionAttribute .. => .attribute
  | noTimer .. => .key
  | stopwatchStopped | interceptNested => .runtime
  | assertion .. => .assertion

/-- The wording of an internal inconsistency: the quoted text between a heading and a closing line. The first line
follows the qualified name of the kind. -/
def internal (text : String) : String :=
  match Message.layout (Text.quoted text) (some "Internal pyrobust implementation error:")
    (some "Please report this to the pyrobust developers.") 39 76 with
  | .ok message => message
  | .error _ => ""

/-- The wording of an error; none for a fault of a value. -/
def message : Error → Option String
  | fault _ | reading _ | described .. | bare _ => none
  | foreignSymbols a b =>
    s!"Cannot combine symbols owned by different models ('{a}' and '{b}')"
  | nonlinearProduct a b => s!"Cannot multiply '{a}' by '{b}': the product is not linear"
  | nonlinearQuotient a b => s!"Cannot divide '{a}' by the non-constant expression '{b}'"
  | quotientByZero a => s!"Division of '{a}' by zero"
  | truthOfExpression e => s!"Cannot convert non-constant expression '{e}' to bool."
  | truthOfConstraint c =>
    s!"Cannot convert relational expression '{c}' to bool.  This error "
      ++ "is usually caused by using a constraint in a boolean context "
      ++ "such as an if statement, or a chained inequality "
      ++ "(use inequality(lower, body, upper) for ranged constraints)."
  | notAnExpression t => s!"Cannot convert object of type '{t}' to an expression"
  | boundNotNumeric t => s!"inequality() bounds must be numeric constants, not {t}"
  | bodyNotExpression t =>
    s!"inequality() body must be a variable, uncertain parameter or expression, not {t}"
  | notDeterministic e => s!"Expression '{e}' is not deterministic"
  | containsVariables e => s!"Expression '{e}' contains variables"
  | variableDomain t => s!"Variable domain must be a RealDomain (e.g., Reals, Integers), not {t}"
  | parameterDomain t =>
    s!"Uncertain parameter domain must be a RealDomain (e.g., Reals, Integers), not {t}"
  | variableLower l n u =>
    s!"Lower bound ({l}) of variable '{n}' is greater than its upper bound ({u})"
  | variableUpper u n l =>
    s!"Upper bound ({u}) of variable '{n}' is less than its lower bound ({l})"
  | parameterLower l n u =>
    s!"Lower bound ({l}) of uncertain parameter '{n}' is greater than its upper bound ({u})"
  | parameterUpper u n l =>
    s!"Upper bound ({u}) of uncertain parameter '{n}' is less than its lower bound ({l})"
  | notOwned w o m => s!"{w} '{o}' does not belong to model '{m}'"
  | onlyDeterministic m t =>
    s!"Model '{m}' only accepts deterministic linear constraints (received {t}); use a RobustModel for "
      ++ "constraints involving uncertain parameters"
  | objectiveNotLinear m e =>
    s!"The objective of model '{m}' must be linear in the variables (received '{e}')"
  | notAConstraint m t => s!"Model '{m}' cannot add object of type {t} as a constraint"
  | notAnOracle c t => s!"Expected an Oracle for constraint '{c}' (received {t})"
  | oracleNotAllowed c =>
    "An oracle can only be given for constraints involving both variables and uncertain parameters "
      ++ s!"(received '{c}')"
  | defaultOracle t => s!"The default oracle must be an Oracle (received {t})"
  | notRobust t => s!"This functionality is only available for RobustModels (received {t})"
  | policyKind p => s!"Unrecognized adaptability type '{p}' (expected one of fixed, affine)"
  | policyDependsOn t => s!"Adaptive variables can only depend on uncertain parameters (received {t})"
  | fixedDependsOn ns => s!"A fixed policy cannot depend on uncertain parameters (received {ns})"
  | notAdaptable t => s!"Only variables can be made adaptive (received {t})"
  | integerAdaptive v => s!"Integer variable '{v}' cannot follow an affine policy"
  | noPolicy v => s!"Variable '{v}' does not have an affine policy"
  | columnOutOfRange c n => s!"Column index {c} out of range for a linear program with {n} columns"
  | setBoundsLength n m => s!"Uncertainty set bounds have different lengths ({n}, {m})"
  | setBounds l k u =>
    s!"Lower bound ({l}) of uncertain parameter {k} is greater than its upper bound ({u})"
  | matrixShape s n => s!"Uncertainty set matrix has shape {s}; expected (m, {n})"
  | pointSize s n => s!"Point has {s} entries; the uncertainty set has {n} parameters"
  | strayAuxiliary r v =>
    internal (s!"Auxiliary row '{r}' references auxiliary variable '{v}' that is not part of the "
      ++ "reformulation")
  | uncertainAdaptiveCoefficient v c =>
    s!"Adaptive variable '{v}' has an uncertain coefficient in constraint '{c}'; substituting its "
      ++ "affine policy would make the constraint quadratic in the uncertain parameters"
  | integerDualization ns =>
    "PolyhedralOracle cannot dualize an uncertainty set with integer uncertain parameters "
      ++ s!"({ns}); use a CuttingPlaneOracle or PolyhedralOracle(prefer_cuts=True)"
  | emptySet =>
    "The uncertainty set is empty: no realization of the uncertain parameters satisfies the uncertainty "
      ++ "set constraints and bounds"
  | noNominalPoint s t =>
    "Could not compute a nominal point of the uncertainty set "
      ++ s!"(separation solver '{s}' terminated with status {t})"
  | separationTimeLimit s l => s!"Separation solver '{s}' reached the time limit ({l} s)"
  | separationUnbounded =>
    "Separation problem is unbounded: the uncertainty set is unbounded in a direction that affects the "
      ++ "constraint"
  | separationFailed s t =>
    s!"Separation solver '{s}' failed to solve a separation problem (termination condition: {t})"
  | setupFailed m | separationStopped m | solverFailed m | iterationLimit m => m
  | notOptimal c m => s!"Robust solve terminated with condition '{c}': {m}"
  | backendFailed p m => s!"HiGHS failed to solve linear program '{p}': {m}"
  | unknownSolver d n a => s!"Unknown {d}: '{n}' (available: {a})"
  | option m | optionType m | optionAttribute m => m
  | timerNotSupported id => s!"Robust solver timing data object does not support timing ID: {id}."
  | timerNotActive id active =>
    s!"{id} is not the currently active timer.  The only timer that can currently be stopped is {active}"
  | noTimer p => s!"Timer '{p}' does not exist"
  | stopwatchStopped => "Stopping a TicTocTimer that was already stopped"
  | interceptAmbiguous => "LoggingIntercept: only one of 'module' and 'logger' is allowed"
  | interceptNested => "LoggingIntercept is not reentrant"
  | tolerancesConflict => "Cannot specify both places and abstol"
  | assertion m => m

/-- An error in words, as other messages quote it. -/
def explain (e : Error) : String :=
  match e with
  | reading r => r.explain
  | described _ text => text
  | e => e.message.getD ""

end Error

end RobustLP
