import RobustLP.Value.Reading

/-!
# Data of scripts

A script is a tree of plain data: its steps are records, their arguments texts, numbers, lists and records. `Data` is the
type of these trees; integers and doubles are kept apart, and records keep the order of their fields.

Where an argument is a number, the words `inf`, `-inf` and `nan` stand for doubles (`Data.number`); anything else is
handed on as it is (`Data.raw`).
-/

namespace RobustLP.Script

/-- A tree of plain data. -/
inductive Data where
  | null
  | bool (b : Bool)
  | int (n : Int)
  | float (x : Float)
  | text (s : String)
  | list (xs : List Data)
  | record (fields : List (String × Data))
  deriving Inhabited

namespace Data

/-! ## Fields -/

/-- A field of a record. -/
def field? (d : Data) (key : String) : Option Data :=
  match d with
  | record fs => (fs.find? (·.1 == key)).map (·.2)
  | _ => none

/-- A field of a record; a missing one is null. -/
def field (d : Data) (key : String) : Data := (d.field? key).getD null

/-- A record has a field. -/
def has (d : Data) (key : String) : Bool := (d.field? key).isSome

/-- Null. -/
def isNull : Data → Bool
  | null => true
  | _ => false

/-- The elements of a list. -/
def items : Data → List Data
  | list xs => xs
  | _ => []

/-- A text. -/
def text? : Data → Option String
  | text s => some s
  | _ => none

/-- A text; anything else is empty. -/
def textD (d : Data) : String := d.text?.getD ""

/-- The text in a field. -/
def word (d : Data) (key : String) : String := (d.field key).textD

/-! ## Values -/

/-- The double that a word stands for. -/
def specialFloat? (s : String) : Option Float :=
  if s == "inf" then some Decimal.infinity
  else if s == "-inf" then some (-Decimal.infinity)
  else if s == "nan" then some Decimal.undefined
  else none

/-- A text as value; with `special`, the words for doubles are doubles. -/
def textValue (special : Bool) (s : String) : Value :=
  match if special then specialFloat? s else none with
  | some x => .float x
  | none => .text s

mutual

/-- Data as value; with `special`, the words for doubles are doubles wherever they stand. -/
def toValue (special : Bool) : Data → Value
  | null => .none
  | bool b => .bool b
  | int n => .int n
  | float x => .float x
  | text s => textValue special s
  | list xs => .list (toValues special xs)
  | record fs => .dict (toEntries special fs)

/-- Several data as values. -/
def toValues (special : Bool) : List Data → List Value
  | [] => []
  | x :: xs => toValue special x :: toValues special xs

/-- Fields as entries of a dictionary. -/
def toEntries (special : Bool) : List (String × Data) → List (Value × Value)
  | [] => []
  | (k, v) :: rest => (.text k, toValue special v) :: toEntries special rest

end

/-- Data as value. -/
def raw (d : Data) : Value := toValue false d

/-- Data where a number is expected. -/
def number (d : Data) : Value :=
  match d with
  | text s => textValue true s
  | d => d.raw

/-- Data in a truth context. -/
def truth (d : Data) : Bool := d.raw.truth

/-- A name: none for null, the text of anything else. -/
def name? (d : Data) : Option String :=
  match d with
  | null => none
  | d => some d.raw.display

/-! ## Numbers -/

/-- An entry of an array of doubles: null is undefined there, and a list does not fit. -/
def arrayEntry (v : Value) : Except Error Float :=
  match v with
  | .none => .ok Decimal.undefined
  | .list _ => .error (.fault .badValue)
  | v => v.readFloat

/-- An array of doubles. -/
def floats (d : Data) : Except Error (List Float) := d.items.mapM fun x => arrayEntry x.number

/-! ## Arrays -/

mutual

/-- The shape of an array: how many entries it has, and the shape of these, which must be the same for all. -/
def shape? : Data → Option (List Nat)
  | list xs => do
    match ← shapes? xs with
    | [] => return [0]
    | s :: rest => if rest.all (· == s) then return (rest.length + 1) :: s else none
  | _ => some []

/-- The shapes of several arrays. -/
def shapes? : List Data → Option (List (List Nat))
  | [] => some []
  | x :: xs => do return (← shape? x) :: (← shapes? xs)

end

mutual

/-- The entries of an array that are no arrays themselves. -/
def leaves : Data → List Data
  | list xs => allLeaves xs
  | d => [d]

/-- The leaves of several arrays. -/
def allLeaves : List Data → List Data
  | [] => []
  | x :: xs => leaves x ++ allLeaves xs

end

/-- The text of a shape. -/
def shapeText : List Nat → String
  | [n] => "(" ++ toString n ++ ",)"
  | ns => "(" ++ Text.joinWith ", " (ns.map toString) ++ ")"

/-- The shape of an array of doubles. -/
def arrayShape (d : Data) : Except Error (List Nat) := do
  discard (d.leaves.mapM fun x => arrayEntry x.number)
  match d.shape? with
  | some shape => return shape
  | none => throw (.fault .badValue)

/-- A row of doubles; what has no length is of no use. -/
def vector (d : Data) : Except Error (List Float) :=
  match d with
  | list _ => d.floats
  | _ => .error (.fault .badType)

/-- A matrix with `n` columns; null and an array without entries are the one without rows. -/
def matrix (d : Data) (n : Nat) : Except Error (List (List Float)) := do
  match d with
  | null | list [] => return []
  | list rows =>
    let shape ← d.arrayShape
    if shape != [rows.length, n] then throw (.matrixShape (shapeText shape) n)
    rows.mapM floats
  | _ => throw (.fault .badType)

/-- A number that may be missing. -/
def optionalFloat (d : Data) : Option (Except Error Float) :=
  if d.isNull then none else some d.number.readFloat

/-- An integer. -/
def integer (d : Data) : Except Error Int :=
  match d.raw with
  | .int n => .ok n
  | .bool b => .ok (if b then 1 else 0)
  | _ => .error (.fault .badType)

/-- A natural number. -/
def nat (d : Data) : Except Error Nat :=
  match d.raw with
  | .int n => .ok n.toNat
  | .bool b => .ok (if b then 1 else 0)
  | _ => .error (.fault .badType)

end Data

end RobustLP.Script
