import RobustLP.Text.Template

/-!
# Logs

A record has a level, a message and values for it. A logger drops the records below its level; an eager logger fills in the
values at once and marks the result as settled, any other one leaves that to the layout. A layout that cannot fill a message
drops the record, while an eager logger fails.

Settled messages are written as they are; the labelled layout puts the name of the level in front of all others.
-/

namespace RobustLP.Log

open Text

/-! ## Levels -/

/-- The level of a record or logger; higher ones are more severe. -/
abbrev Level := Int

/-- The named levels. -/
def namedLevels : List (Level × String) :=
  [(0, "NOTSET"), (10, "DEBUG"), (20, "INFO"), (30, "WARNING"), (40, "ERROR"), (50, "CRITICAL")]

/-- Nothing is said about a level. -/
def unset : Level := 0

/-- Details for finding mistakes. -/
def debug : Level := 10

/-- The progress of a computation. -/
def info : Level := 20

/-- The level of the outermost logger. -/
def warning : Level := 30

/-- The name of a level. -/
def levelName (level : Level) : String :=
  match namedLevels.find? (·.1 == level) with
  | some (_, name) => name
  | none => s!"Level {level}"

/-- The level of a name, or of one of its shorter or longer forms. -/
def levelOf? (name : String) : Option Level :=
  match name with
  | "WARN" => some 30
  | "FATAL" => some 50
  | name => (namedLevels.find? (·.2 == name)).map (·.1)

/-- The level that counts: that of the outermost logger where none is set. -/
def effective (level : Level) : Level := if level = unset then warning else level

/-- Details were asked for. -/
def isDebugSet (level : Level) : Bool := unset < effective level && effective level ≤ debug

/-! ## Records -/

/-- A message: one whose text is settled, or a template. -/
structure Message where
  text : Value
  settled : Bool
  deriving Inhabited

/-- A record. -/
structure Record where
  level : Level
  message : Message
  args : List Value := []

/-- The values of a record as arguments of its template: a single dictionary that is not empty gives values by name. -/
def argumentsOf (values : List Value) : Template.Arguments :=
  match values with
  | [.dict (e :: rest)] => { values, entries := some (e :: rest) }
  | values => { values }

/-- The text of a record. -/
def Record.text (r : Record) : Except Fault String :=
  if r.args.isEmpty then .ok r.message.text.display
  else Template.fill r.message.text.display (argumentsOf r.args)

/-! ## Layouts -/

/-- How records are written. -/
inductive Layout where
  | bare
  | labelled
  deriving DecidableEq, Repr

/-- **A record as it is written.** -/
def Layout.write : Layout → Record → Except Fault String
  | bare, r => r.text
  | labelled, r =>
    if r.message.settled then .ok r.message.text.display else do return levelName r.level ++ ": " ++ (← r.text)

/-! ## Loggers -/

/-- A logger. -/
structure Logger where
  level : Level
  eager : Bool

/-- The record that an eager logger makes of another one. -/
def settle (r : Record) : Except Fault Record := do
  if r.args.isEmpty then return { r with message := { r.message with settled := true } }
  match r.message with
  | ⟨.text t, false⟩ => return { r with message := ⟨.text (← Template.fill t { values := r.args }), true⟩, args := [] }
  | _ => throw .badType

/-- A logger takes a record of a level. -/
def Logger.accepts (l : Logger) (level : Level) : Bool := effective l.level ≤ level

/-- **What a logger writes for a record;** none if the record is dropped. -/
def Logger.write (l : Logger) (layout : Layout) (r : Record) : Except Fault (Option String) := do
  if !l.accepts r.level then return none
  let r ← if l.eager then settle r else pure r
  match layout.write r with
  | .ok text => return some text
  | .error _ => return none

/-- **The text of a log,** each record followed by a line break. -/
def Logger.writeAll (l : Logger) (layout : Layout) (records : List Record) : Except Fault String := do
  let written ← records.mapM (l.write layout)
  return String.join (written.filterMap fun t => t.map (· ++ "\n"))

end RobustLP.Log
