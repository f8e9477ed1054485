import RobustLP.Error

/-!
# Replies

A step of a script answers a `Reply`: a tree of plain data in which failures may occur, each with its cause. How a
failure is worded for a reader is left to whoever writes the reply down.
-/

namespace RobustLP.Script

/-- Why a step has no answer. -/
inductive Failure where
  | error (e : Error)
  /-- the step refers to something that no earlier step bound -/
  | unbound (id : String)

/-- The answer of a step. -/
inductive Reply where
  | null
  | bool (b : Bool)
  | int (n : Int)
  | float (x : Float)
  | text (s : String)
  | list (xs : List Reply)
  | record (fields : List (String × Reply))
  /-- a failure, with what is known besides -/
  | failed (f : Failure) (more : List (String × Reply))
  deriving Inhabited

namespace Reply

/-- A failure of an operation. -/
def error (e : Error) : Reply := failed (.error e) []

/-- A faulty value. -/
def fault (f : Fault) : Reply := error (.fault f)

/-- Several texts. -/
def texts (xs : List String) : Reply := list (xs.map text)

/-- Several doubles. -/
def floats (xs : List Float) : Reply := list (xs.map float)

/-- Several natural numbers. -/
def nats (xs : List Nat) : Reply := list (xs.map fun (n : Nat) => int n)

/-- The rows of a matrix. -/
def matrix (rows : List (List Float)) : Reply := list (rows.map floats)

/-- The lines of a text. -/
def lines (s : String) : Reply := texts (Text.lines s)

/-- A value that may be missing. -/
def optional {α : Type} (reply : α → Reply) : Option α → Reply
  | some a => reply a
  | none => null

/-- More fields of a record. -/
def withFields (r : Reply) (more : List (String × Reply)) : Reply :=
  match r with
  | record fields => record (fields ++ more)
  | failed f fields => failed f (fields ++ more)
  | r => r

/-- The answer of an operation that may fail. -/
def ofResult {α : Type} (reply : α → Reply) : Except Error α → Reply
  | .ok a => reply a
  | .error e => error e

/-- The answer of an operation that answers itself. -/
def ofExcept (r : Except Error Reply) : Reply := ofResult id r

end Reply

end RobustLP.Script
