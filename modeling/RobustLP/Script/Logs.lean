import RobustLP.Log
import RobustLP.Script.Data
import RobustLP.Script.Reply

/-!
# Logs on request

A request for a log names a logger, its level and a layout, and lists records; the answer is what the logger writes while its
records are intercepted. During an interception the logger has the level of the interception, passes nothing on, and writes
to a single place.
-/

namespace RobustLP.Script.Logs

open Log

/-- The level in a field: a name or a number. -/
def levelIn (d : Data) (key : String) (standard : Level) : Except Error Level :=
  match d.field? key with
  | none => .ok standard
  | some (.text name) => match levelOf? name with
    | some level => .ok level
    | none => .error (.fault .noAttribute)
  | some d => match d.raw with
    | .int n => .ok n
    | .bool b => .ok (if b then 1 else 0)
    | _ => .error (.fault .badType)

/-- The level of an interception; null stands for the level of the logger. -/
def interceptionLevel (d : Data) (own : Level) : Except Error Level :=
  if d.has "level" && (d.field "level").isNull then .ok (effective own) else levelIn d "level" warning

/-- A message: settled ones are wrapped in a record. -/
def readMessage (d : Data) : Message :=
  match d.field? "raw" with
  | some text => ⟨text.raw, true⟩
  | none => ⟨d.raw, false⟩

/-- A record. -/
def readRecord (d : Data) : Except Error Record :=
  match d.items with
  | [level, message, args] => do
    let level ← levelIn (.record [("level", level)]) "level" unset
    return { level, message := readMessage message, args := args.items.map Data.raw }
  | _ => .error (.fault .badValue)

/-- A settled message in full. -/
def messageReply (m : Message) : Reply :=
  .texts [m.text.display, "Preformatted(" ++ m.text.shown ++ ")"]

/-- **What a logger writes while it is intercepted.** -/
def log (d : Data) : Except Error Reply := do
  let eager := d.word "logger" == "preformatted"
  let layout : Layout := if d.word "formatter" == "robust" then .labelled else .bare
  let level ← interceptionLevel d (← levelIn d "set_level" info)
  let records ← (d.field "records").items.mapM readRecord
  let text ← (({ level, eager : Logger }).writeAll layout records).mapError .fault
  let settled := (records.map (·.message)).filter (·.settled)
  return .record [("text", .lines text),
    ("debug", .list (settled.map messageReply ++ [.bool (isDebugSet level)])),
    ("restored", .bool true),
    ("logger_type", .text (if eager then "PreformattedLogger" else "Logger"))]

/-- **An interception, and two that are refused:** one within itself, and one of two loggers at once. -/
def intercept (d : Data) : Except Error Reply := do
  let own ← levelIn d "set_level" unset
  let level ← interceptionLevel d own
  let record : Record := { level := warning, message := ⟨.text "w %d", false⟩, args := [.int 1] }
  let text ← (({ level, eager := false : Logger }).writeAll .bare [record]).mapError .fault
  return .record [("inside", .list [.text (d.word "module"), .int level, .bool false, .int 1]),
    ("after", .list [.int own, .bool true, .int 0]),
    ("again", .error .interceptNested), ("both", .error .interceptAmbiguous), ("text", .text text)]

end RobustLP.Script.Logs
