import RobustLP.Config.Enumeration
import RobustLP.Config.Words
import RobustLP.Value.Reading

/-!
# Domains of options

A domain says which values an option takes, and turns a candidate into the value that is stored. `OptionDomain.cast` is that
test; a candidate that is refused has an error, whose text other messages quote (`Error.explain`).

## Integers

An integer domain reads the candidate as integer and as double, and accepts it if both are the same number. An integer of any
size is thus tested against the double nearest to it.
-/

namespace RobustLP.Config

/-! ## Types -/

/-- Types of plain values. -/
inductive PlainType where
  | bool
  | int
  | float
  | str
  | list
  | dict
  | any
  deriving DecidableEq, Repr, Inhabited

namespace PlainType

/-- The name of a type. -/
def name : PlainType → String
  | bool => "bool"
  | int => "int"
  | float => "float"
  | str => "str"
  | list => "list"
  | dict => "dict"
  | any => "object"

/-- The type of a name. -/
def ofName? (s : String) : Option PlainType :=
  [bool, int, float, str, list, dict, any].find? fun t => t.name == s

/-- A value belongs to a type; truth values are integers, too. -/
def has (v : Value) : PlainType → Bool
  | bool => match v with
    | .bool _ => true
    | _ => false
  | int => match v with
    | .int _ | .bool _ => true
    | _ => false
  | float => match v with
    | .float _ => true
    | _ => false
  | str => match v with
    | .text _ => true
    | _ => false
  | list => match v with
    | .list _ => true
    | _ => false
  | dict => match v with
    | .dict _ => true
    | _ => false
  | any => true

/-- The elements of a value that can be run through: the keys of a dictionary, the characters of a text. -/
def elements? : Value → Option (List Value)
  | .list xs | .tuple xs => some xs
  | .dict es => some (es.map (·.1))
  | .text s => some (s.toList.map fun c => .text (String.singleton c))
  | .array xs => some (xs.map .float)
  | _ => none

/-- A value made into one of a type. -/
def convert (v : Value) : PlainType → Except Error Value
  | bool => .ok (.bool v.truth)
  | int => (v.toInt.mapError .reading).map .int
  | float => v.readFloat.map .float
  | str => .ok (.text v.display)
  | list => match elements? v with
    | some xs => .ok (.list xs)
    | none => .error (.described .badType ("'" ++ v.typeName ++ "' object is not iterable"))
  | dict => match v with
    | .dict es => .ok (.dict es)
    | v => .error (.described .badType ("'" ++ v.typeName ++ "' object is not iterable"))
  | any => .ok v

end PlainType

/-! ## Truth values and numbers -/

/-- A truth value, also as number or word. -/
def castBool (v : Value) : Except Error Value :=
  let refused : Except Error Value := .error (.option ("Expected Boolean, but received " ++ v.display))
  match v with
  | .bool b => .ok (.bool b)
  | .text s =>
    let word := Text.asciiUpper s
    if ["TRUE", "YES", "T", "Y", "1"].contains word then .ok (.bool true)
    else if ["FALSE", "NO", "F", "N", "0"].contains word then .ok (.bool false)
    else refused
  | v =>
    if v.same (.int 0) then .ok (.bool false)
    else if v.same (.int 1) then .ok (.bool true)
    else refused

/-- Ranges of numbers. -/
inductive Range where
  | positive
  | nonNegative
  deriving DecidableEq, Repr

/-- A range in words. -/
def Range.word : Range → String
  | positive => "positive"
  | nonNegative => "non-negative"

/-- An integer lies in a range. -/
def Range.hasInt (n : Int) : Range → Bool
  | positive => 0 < n
  | nonNegative => 0 ≤ n

/-- A double lies in a range. -/
def Range.hasFloat (x : Float) : Range → Bool
  | positive => 0 < x
  | nonNegative => 0 ≤ x

/-- An integer that some test accepts; the double of the candidate must be the same number. -/
def castInteger (accept : Int → Bool) (refusal : String) (v : Value) : Except Error Value := do
  let n ← v.toInt.mapError .reading
  let x ← v.readFloat
  if (Value.int n).same (.float x) && accept n then return .int n
  else throw (.option refusal)

/-- An integer in a range. -/
def castIntegerIn (r : Range) (v : Value) : Except Error Value :=
  castInteger (fun n => r.hasInt n) ("Expected " ++ r.word ++ " int, but received " ++ v.display) v

/-- A positive integer or minus one. -/
def castLimit (v : Value) : Except Error Value :=
  castInteger (fun n => 1 ≤ n || n == -1) ("Expected positive int or -1, but received value " ++ v.shown) v

/-- A double in a range. -/
def castFloatIn (r : Range) (v : Value) : Except Error Value := do
  let x ← v.readFloat
  if r.hasFloat x then return .float x
  else throw (.option ("Expected " ++ r.word ++ " float, but received " ++ v.display))

/-! ## Solvers and loggers -/

/-- The solvers that are known by name. -/
def solverNames : List String := ["highs"]

/-- A solver that is not known. -/
def unknownSolver (known : List String) (name : String) : Error :=
  .unknownSolver "solver" name (Text.joinWith ", " known)

/-- A solver, also by its name in any letter case. -/
def castSolver (description : String) (v : Value) : Except Error Value :=
  match v with
  | .text s =>
    let name := Text.lower s
    if solverNames.contains name then .ok (.solver name 0) else .error (unknownSolver solverNames name)
  | .solver .. => .ok v
  | v => .error (.optionType ("Cannot cast object " ++ "\x60" ++ v.shown ++ "\x60" ++ " to a solver for use as "
      ++ description ++ ", as the object is neither a str nor a solver type (got type " ++ v.typeName ++ ")."))

/-- A logger, also by its name; the empty name stands for the outermost one. -/
def castLogger (v : Value) : Except Error Value :=
  match v with
  | .logger _ => .ok v
  | .text s => .ok (.logger (if s.isEmpty then "root" else s))
  | v => if v.truth then .error (.described .badType "A logger name must be a string") else .ok (.logger "root")

/-! ## Containers -/

/-- What a membership test looks into. -/
inductive Container where
  | list (xs : List Value)
  /-- a text holds its parts -/
  | text (s : String)

/-- The container as value. -/
def Container.toValue : Container → Value
  | list xs => .list xs
  | text s => .text s

/-- A text is a part of another one. -/
def isPart (part whole : List Char) : Bool :=
  part.isPrefixOf whole || match whole with
    | [] => false
    | _ :: rest => isPart part rest

/-- A value is in a container. -/
def Container.holds (v : Value) : Container → Except Error Bool
  | list xs => .ok (xs.any fun x => x.same v)
  | text s => match v with
    | .text t => .ok (isPart t.toList s.toList)
    | v => .error (.described .badType ("'in <string>' requires string as left operand, not " ++ v.typeName))

/-- A candidate among the values of a container, converted first if a type is given. -/
def castIn (c : Container) (type : Option PlainType) (v : Value) : Except Error Value := do
  let candidate ← match type with
    | some t => t.convert v
    | none => pure v
  if ← c.holds candidate then return candidate
  else throw (.option ("value " ++ v.display ++ " not in domain " ++ c.toValue.display))

/-- A value of one of several types. -/
def castInstance (types : List PlainType) (v : Value) : Except Error Value :=
  if types.any fun t => t.has v then .ok v
  else
    let names := Text.joinWith ", " (types.map fun t => Text.quoted t.name)
    .error (.option ("Expected an instance of one of these types: " ++ names ++ ", but received value " ++ v.shown
      ++ " of type " ++ Text.quoted v.typeName))

/-! ## Domains -/

/-- A domain. -/
inductive OptionDomain where
  | bool
  | integer (r : Range)
  | real (r : Range)
  | limit
  | plain (t : PlainType)
  | oneOf (c : Container) (convert : Option PlainType)
  | enumeration (e : Enumeration)
  | instanceOf (types : List PlainType)
  /-- a list of items; a text is split into words unless told otherwise -/
  | listOf (item : PlainType) (domain : Option OptionDomain) (split : Bool)
  | solver (description : String)
  | logger

namespace OptionDomain

/-- The name of an integer or real domain. -/
def rangeName (r : Range) (type : String) : String :=
  match r with
  | .positive => "Positive" ++ type
  | .nonNegative => "NonNegative" ++ type

/-- The name by which lists know the domain of their items. -/
def itemName : OptionDomain → String
  | bool => "Bool"
  | integer r => rangeName r "Int"
  | real r => rangeName r "Float"
  | limit => "positive_int_or_minus_one"
  | plain t => t.name
  | listOf item domain _ =>
    "ListOf(" ++ (match domain with
      | some d => itemName d
      | none => item.name) ++ ")"
  | oneOf .. => "In"
  | enumeration _ => "InEnum"
  | instanceOf _ => "IsInstance"
  | solver _ => "SolverResolvable"
  | logger => "logger_domain"

/-- The name of a domain. -/
def name : OptionDomain → String
  | limit => "positive int or -1"
  | oneOf c _ => "In(" ++ c.toValue.display ++ ")"
  | enumeration e => "InEnum[" ++ e.name ++ "]"
  | instanceOf types => "IsInstance[" ++ Text.joinWith ", " (types.map (·.name)) ++ "]"
  | solver _ => "str or Solver"
  | logger => "None, str or logging.Logger"
  | d => d.itemName

/-- The items of a candidate for a list: a value that is no list is an item by itself. -/
def itemsOf (item : PlainType) (split : Bool) (v : Value) : Except Error (List Value) :=
  match v with
  | .text s => if split then (Words.words s).map fun ws => ws.map .text else .ok [v]
  | v => match PlainType.elements? v with
    | some xs => .ok (if item.has v then [v] else xs)
    | none => .ok [v]

/-- **The value that a candidate is stored as.** -/
def cast (v : Value) : OptionDomain → Except Error Value
  | bool => castBool v
  | integer r => castIntegerIn r v
  | real r => castFloatIn r v
  | limit => castLimit v
  | plain t => t.convert v
  | oneOf c convert => castIn c convert v
  | enumeration e => e.cast v
  | instanceOf types => castInstance types v
  | listOf item domain split => do
    let items ← itemsOf item split v
    return .list (← items.mapM fun x => match domain with
      | some d => cast x d
      | none => item.convert x)
  | solver description => castSolver description v
  | logger => castLogger v

end OptionDomain

end RobustLP.Config
