import RobustLP.Script.Data
import RobustLP.Script.Reply
import RobustLP.Timer.Stage

/-!
# Scripts on timers

A script runs a stopwatch, nested timers or the timers of the stages of a solve, on a clock that starts at zero and moves only
when a step says so. A stopwatch announces its readings; one that is told to be quiet announces them to a log at most.
-/

namespace RobustLP.Script.Timers

/-- The timer of a script. -/
inductive Device where
  | none
  | stopwatch (loud : Bool) (w : Stopwatch Float)
  | nested (t : TimerTree Float)
  | stages (t : TimerTree Float)

/-- The clock and the timer of a script. -/
structure State where
  clock : Float := 0
  device : Device := .none

/-- A step of a script. -/
abbrev Step := ExceptT Error (StateM State)

/-- A timer does not have what is asked of it. -/
def noAttribute {α : Type} : Step α := throw (.fault .noAttribute)

/-- A computation as step. -/
def lift {α : Type} : Except Error α → Step α
  | .ok a => pure a
  | .error e => throw e

/-- The time. -/
def now : Step Float := do return (← get).clock

/-- Moves the clock by what a step says. -/
def advance (d : Data) : Step Unit := do
  let step ← lift (d.field "by").number.readFloat
  modify fun s => { s with clock := s.clock + step }

/-- Replaces the timer. -/
def put (v : Device) : Step Unit := modify fun s => { s with device := v }

/-! ## Stopwatches -/

/-- A line that announces something. -/
def line (heading message : String) : String := heading ++ message ++ "\n"

/-- What a reading announces: to the stream, and to the log if there is one. -/
def announce (loud logged : Bool) (text : Option String) : List Reply :=
  let shown := text.getD ""
  .text (if loud then shown else "") :: if logged then [.text shown] else []

/-- Whether a reading counts since the last one. -/
def deltaIn (d : Data) : Bool := ((d.field? "delta").map Data.truth).getD true

/-- Reads a stopwatch. -/
def readWatch (d : Data) (loud logged : Bool) (w : Stopwatch Float) : Step Reply := do
  let delta := deltaIn d
  let (elapsed, after) := w.read delta (← now)
  put (.stopwatch loud after)
  let text := (d.field "msg").name?.map (line (w.heading delta elapsed))
  return .list (.float elapsed :: announce loud logged text)

/-- What a stopwatch announces when it is reset and nothing else is said. -/
def resetMessage : String := "Resetting the tic/toc delta timer"

/-- Resets a stopwatch. -/
def resetWatch (d : Data) (loud : Bool) : Step Reply := do
  let w := Stopwatch.reset (← now)
  put (.stopwatch loud w)
  let message := match d.field? "msg" with
    | some m => m.name?
    | Option.none => some resetMessage
  let text := message.map (line (w.heading false (0 : Float)))
  return .text (if loud then text.getD "" else "")

/-- A step on a stopwatch. -/
def watchStep (d : Data) (loud : Bool) (w : Stopwatch Float) : Step Reply := do
  match d.word "do" with
  | "tic" => resetWatch d loud
  | "toc" => readWatch d loud false w
  | "toc_log" => readWatch d loud true w
  | "start" =>
    put (.stopwatch loud (w.start (← now)))
    return .null
  | "stop" =>
    let (interval, w) ← lift (w.stop (← now))
    put (.stopwatch loud w)
    return .float interval
  | "with" =>
    let w := w.start (← now)
    put (.stopwatch loud w)
    advance d
    let (_, w) ← lift (w.stop (← now))
    put (.stopwatch loud w)
    return .float (w.read true (← now)).1
  | _ => noAttribute

/-! ## Nested timers -/

/-- The name in a step. -/
def nameIn (d : Data) : String := (d.field "name").raw.display

/-- The lines of the report. -/
def reportReply (t : TimerTree Float) : Step Reply := do return .texts (← lift t.report)

/-- A step on nested timers. -/
def nestedStep (d : Data) (t : TimerTree Float) : Step Reply := do
  let name := nameIn d
  match d.word "do" with
  | "start" =>
    put (.nested (t.start (← now) name))
    return .null
  | "stop" =>
    put (.nested (← lift (t.stop (← now) name)))
    return .null
  | "total" => return .float (← lift (t.totalTime name))
  | "current" => return .float (← lift (t.currentTime (← now) name))
  | "calls" => return .int (← lift (t.callCount name))
  | "percent" => return .float ((← lift (t.share name)).getD Decimal.undefined)
  | "timers" => return .texts (t.timers.map fun e => TimerTree.pathText e.path)
  | "stack" => return .texts t.stack
  | "str" => reportReply t
  | "reset" =>
    put (.nested .empty)
    return .null
  | _ => noAttribute

/-! ## Stages -/

/-- Times a step of the clock as stage. -/
def timeStage (d : Data) (t : TimerTree Float) : Step Reply := do
  let stage ← lift (Stage.ofName (nameIn d))
  let t := t.startStage (← now) stage
  put (.stages t)
  advance d
  let t ← lift (t.stopStage (← now) stage)
  put (.stages t)
  return .float (← lift (t.totalTime (nameIn d)))

/-- A step on the timers of stages. -/
def stageStep (d : Data) (t : TimerTree Float) : Step Reply := do
  match d.word "do" with
  | "start" =>
    put (.stages (t.startStage (← now) (← lift (Stage.ofName (nameIn d)))))
    return .null
  | "stop" =>
    put (.stages (← lift (t.stopStage (← now) (← lift (Stage.ofName (nameIn d))))))
    return .null
  | "with" => timeStage d t
  | "total" => return .float (← lift (t.totalTime (nameIn d)))
  | "calls" => return .int (← lift (t.callCount (nameIn d)))
  | "elapsed" => return .float (← lift (t.elapsed (← now)))
  | "remaining" =>
    match ← lift ((d.field "limit").optionalFloat.mapM id) with
    | Option.none => return .null
    | limit => return Reply.optional .float (← lift (t.remaining (← now) limit))
  | "str" => reportReply t
  | _ => noAttribute

/-! ## Scripts -/

/-- Makes a timer. -/
def make (d : Data) : Step Reply := do
  let kind := d.word "kind"
  match kind with
  | "tictoc" =>
    let loud := ((d.field? "ostream").map Data.truth).getD true
    put (.stopwatch loud (.reset (← now)))
  | "hierarchical" => put (.nested .empty)
  | _ => put (.stages .empty)
  return .text kind

/-- A step. -/
def step (d : Data) : Step Reply := do
  match d.word "do" with
  | "new" => make d
  | "advance" =>
    advance d
    return .float (← now)
  | _ => match (← get).device with
    | .none => noAttribute
    | .stopwatch loud w => watchStep d loud w
    | .nested t => nestedStep d t
    | .stages t => stageStep d t

/-- Runs steps one after another. -/
def run : State → List Data → List Reply
  | _, [] => []
  | s, d :: rest => match (ExceptT.run (step d)).run s with
    | (.ok r, s) => r :: run s rest
    | (.error e, s) => .error e :: run s rest

/-- **Runs a script on timers.** -/
def runScript (d : Data) : Reply := .record [("results", .list (run {} (d.field "steps").items))]

end RobustLP.Script.Timers
