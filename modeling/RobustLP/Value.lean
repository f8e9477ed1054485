import RobustLP.Decimal.Shortest
import RobustLP.Text.Characters
import RobustLP.Text.Quoted

/-!
# Option values

Options and arguments arrive as values whose type is known only when they are used. `Value` is the type of such
values: plain data, members of enumerations, and handles of solvers, loggers and other objects.

## Texts

`Value.shown` writes a value such that its type can be told from the text (texts are quoted), `Value.display` writes
a text as it is. `Value.same` is equality across number types: a truth value, an integer and a double of the same
numerical value are the same.
-/

namespace RobustLP

/-- A value of an option or argument. -/
inductive Value where
  | none
  | bool (b : Bool)
  | int (n : Int)
  | float (x : Float)
  | text (s : String)
  | list (xs : List Value)
  | tuple (xs : List Value)
  | dict (entries : List (Value × Value))
  /-- an array of doubles -/
  | array (xs : List Float)
  /-- a member of an enumeration; `short` when its own text is its bare name -/
  | member (enumeration name : String) (value : Value) (short : Bool)
  /-- a solver, by its name and number -/
  | solver (name : String) (number : Nat)
  /-- a logger, by its name -/
  | logger (name : String)
  /-- any other object, by the name of its type and its text -/
  | object (type text : String)
  deriving Inhabited

namespace Value

/-- The name of the type of a value. -/
def typeName : Value → String
  | none => "NoneType"
  | bool _ => "bool"
  | int _ => "int"
  | float _ => "float"
  | text _ => "str"
  | list _ => "list"
  | tuple _ => "tuple"
  | dict _ => "dict"
  | array _ => "ndarray"
  | member e .. => e
  | solver .. => "Solver"
  | logger _ => "Logger"
  | object t _ => t

mutual

/-- The text of a value from which its type can be told. -/
def shown : Value → String
  | none => "None"
  | bool b => if b then "True" else "False"
  | int n => toString n
  | float x => Decimal.plain x
  | text s => Text.quoted s
  | list xs => "[" ++ Text.joinWith ", " (shownAll xs) ++ "]"
  | tuple xs =>
    match xs with
    | [x] => "(" ++ shown x ++ ",)"
    | xs => "(" ++ Text.joinWith ", " (shownAll xs) ++ ")"
  | dict entries => "\x7b" ++ Text.joinWith ", " (shownEntries entries) ++ "\x7d"
  | array xs => "array([" ++ Text.joinWith ", " (xs.map Decimal.plain) ++ "])"
  | member e n v _ => "<" ++ e ++ "." ++ n ++ ": " ++ shown v ++ ">"
  | solver n _ => "solver:" ++ n
  | logger n => "logger:" ++ n
  | object _ t => t

/-- The texts of several values. -/
def shownAll : List Value → List String
  | [] => []
  | x :: xs => shown x :: shownAll xs

/-- The texts of the entries of a dictionary. -/
def shownEntries : List (Value × Value) → List String
  | [] => []
  | (k, v) :: rest => (shown k ++ ": " ++ shown v) :: shownEntries rest

end

/-- The text of a value; a text stands for itself. -/
def display : Value → String
  | text s => s
  | member e n _ short => if short then n else e ++ "." ++ n
  | v => shown v

/-- The numerical value of a truth value, an integer or a finite double. -/
def rational? : Value → Option Rat
  | bool b => some (if b then 1 else 0)
  | int n => some n
  | float x => Decimal.toRat? x
  | _ => Option.none

mutual

/-- Equality of values; numbers are compared by their numerical value. -/
def same : Value → Value → Bool
  | none, none => true
  | text a, text b => a == b
  | list xs, list ys => sameAll xs ys
  | tuple xs, tuple ys => sameAll xs ys
  | dict xs, dict ys => xs.length == ys.length && sameEntries xs ys
  | member e n _ _, member f m _ _ => e == f && n == m
  | solver _ a, solver _ b => a == b
  | logger a, logger b => a == b
  | float x, float y => x == y
  | a, b =>
    match rational? a, rational? b with
    | some p, some q => p == q
    | _, _ => false

/-- Equality of sequences, entry by entry. -/
def sameAll : List Value → List Value → Bool
  | [], [] => true
  | x :: xs, y :: ys => same x y && sameAll xs ys
  | _, _ => false

/-- Every entry of the first dictionary is found in the second one. -/
def sameEntries : List (Value × Value) → List (Value × Value) → Bool
  | [], _ => true
  | (k, v) :: rest, ys => lookupSame k v ys && sameEntries rest ys

/-- A dictionary holds an entry. -/
def lookupSame (k v : Value) : List (Value × Value) → Bool
  | [] => false
  | (k', v') :: rest => if same k k' then same v v' else lookupSame k v rest

end

/-- The value stored under a text. -/
def valueAt? (key : String) : Value → Option Value
  | dict entries =>
    (entries.find? fun e => match e.1 with
      | text s => s == key
      | _ => false).map (·.2)
  | _ => Option.none

/-- The number a value is among: integers and doubles, but no truth values. -/
def isNumeric : Value → Bool
  | int _ => true
  | float _ => true
  | _ => false

end Value

end RobustLP
