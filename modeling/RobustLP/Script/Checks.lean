import RobustLP.Check.Close
import RobustLP.Text.Pattern
import RobustLP.Script.Data
import RobustLP.Script.Reply

/-!
# Checks on request

Two checks answer that they hold, or fail with what they found: two structures are close (`almost`), and an error is raised
whose text a pattern describes (`raises`).
-/

namespace RobustLP.Script.Checks

/-- A check that holds. -/
def holds : Reply := .record [("ok", .bool true)]

/-! ## Close structures -/

/-- The lengths of nested lists, outermost first; none if lists of one depth differ in length. -/
def shape? : Value → Option (List Nat)
  | .list [] => some [0]
  | .list (x :: xs) => do
    let inner ← shape? x
    if agree inner xs then some ((xs.length + 1) :: inner) else none
  | _ => some []
where
  /-- All values have one shape. -/
  agree (inner : List Nat) : List Value → Bool
    | [] => true
    | x :: xs => shape? x == some inner && agree inner xs

mutual

/-- Nested lists of doubles. -/
def readDoubles (d : Data) : Except Error Value :=
  match d with
  | .list xs => do return .list (← readAllDoubles xs)
  | d => do return .float (← Data.arrayEntry d.number)

/-- Several nested lists of doubles. -/
def readAllDoubles : List Data → Except Error (List Value)
  | [] => .ok []
  | x :: xs => do return (← readDoubles x) :: (← readAllDoubles xs)

end

/-- An array of doubles. -/
def readArray (d : Data) : Except Error Value := do
  let v ← readDoubles d
  if (shape? v).isSome then return v else throw (.fault .badValue)

mutual

/-- A structure; a record with the single field `array` stands for an array of doubles. -/
def readStructure (d : Data) : Except Error Value :=
  match d with
  | .record [(key, v)] =>
    if key == "array" then readArray v else do return .dict [(.text key, ← readStructure v)]
  | .list xs => do return .list (← readStructures xs)
  | .record fields => do return .dict (← readEntries fields)
  | d => .ok d.number

/-- Several structures. -/
def readStructures : List Data → Except Error (List Value)
  | [] => .ok []
  | x :: xs => do return (← readStructure x) :: (← readStructures xs)

/-- Structures under keys. -/
def readEntries : List (String × Data) → Except Error (List (Value × Value))
  | [] => .ok []
  | (k, v) :: rest => do return (.text k, ← readStructure v) :: (← readEntries rest)

end

/-- A limit that may be missing. -/
def limitIn (d : Data) (key : String) : Option Value :=
  if (d.field key).isNull then none else some (d.field key).number

/-- **Two structures are close.** -/
def almost (d : Data) : Except Error Reply := do
  let a ← readStructure (d.field "first")
  let b ← readStructure (d.field "second")
  let t ← Tolerance.ofArguments (limitIn d "places") (limitIn d "abstol") (limitIn d "reltol")
  t.check (d.field "msg").name? a b
  return holds

/-! ## Raised errors -/

/-- Each run of blanks as one blank. -/
def collapseBlanks : (afterBlank : Bool) → List Char → List Char
  | _, [] => []
  | afterBlank, c :: cs =>
    if Text.isBlank c then (if afterBlank then [] else [' ']) ++ collapseBlanks true cs
    else c :: collapseBlanks false cs

/-- The kind of a name, if it is not the awaited kind or part of it. -/
def strayKind? (name : String) : Option ErrorKind :=
  match name with
  | "TypeError" => some .type
  | "KeyError" => some .key
  | "IndexError" => some .index
  | "AttributeError" => some .attribute
  | "OverflowError" => some .overflow
  | "ZeroDivisionError" => some .zeroDivision
  | "RuntimeError" => some .runtime
  | "AssertionError" => some .assertion
  | _ => none

/-- **A faulty value is found, and its text is as a pattern says.** -/
def raises (d : Data) : Except Error Reply := do
  match d.field? "raise" with
  | none | some .null => throw (.assertion "ValueError not raised")
  | some given =>
    match strayKind? (d.word "type") with
    | some kind => throw (.bare kind)
    | none =>
      let text := given.raw.display
      let text := if (d.field "normalize").truth then String.ofList (collapseBlanks false text.toList) else text
      let written := d.word "pattern"
      match Text.Pattern.ofText? written with
      | none => throw (.fault .badValue)
      | some p =>
        if p.isFoundIn text then return holds
        else throw (.assertion s!"\"{written}\" does not match \"{text}\"")

end RobustLP.Script.Checks
