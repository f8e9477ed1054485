import RobustLP.Decimal.Fixed
import RobustLP.Error

/-!
# Stopwatches and nested timers

A stopwatch runs in one of two modes. Until it is first started it measures the time since its last reading, or since it
was reset; once it has been started it sums up the time between starts and stops. Times are readings of a clock, given
by the caller.

A timer that is started while another one runs becomes its child, so the same name may occur under several parents. Timers
are addressed by their paths; a `TimerTree` is a table of them in the order of their first start, and the path of the
timers that run.

## The report

The report is a table with a line for each timer, the children of a timer indented below it and followed by the time spent
outside of them. `report` descends at most as deep as the table is long, which is as deep as any path in it. A name with a dot
stands for a path, so that an outermost timer of such a name has no share of its own; the report fails unless there is a timer
at that path.
-/

namespace RobustLP

/-! ## Stopwatches -/

/-- A stopwatch. `last` is the last reading that counts; none while it is stopped. -/
structure Stopwatch (K : Type) where
  origin : K
  last : Option K
  /-- how often it was started -/
  runs : Nat := 0
  /-- the time between starts and stops -/
  accumulated : K
  deriving Repr

namespace Stopwatch

variable {K B : Type} [Scalar K B]

/-- A stopwatch that is reset at some time. -/
def reset (now : K) : Stopwatch K := { origin := now, last := some now, accumulated := Scalar.zero }

/-- Stops, and answers the time since the start. -/
def stop (now : K) (w : Stopwatch K) : Except Error (K × Stopwatch K) :=
  match w.last with
  | none => .error .stopwatchStopped
  | some t => .ok (now - t, { w with last := none, accumulated := w.accumulated + (now - t) })

/-- Starts; a stopwatch that runs already is stopped first. -/
def start (now : K) (w : Stopwatch K) : Stopwatch K :=
  let w := match w.stop now with
    | .ok (_, stopped) => if w.runs = 0 then w else stopped
    | .error _ => w
  { w with runs := w.runs + 1, last := some now }

/-- The accumulated time, with that of a running interval. -/
def total (now : K) (w : Stopwatch K) : K :=
  match w.last with
  | none => w.accumulated
  | some t => w.accumulated + (now - t)

/-- The stopwatch sums up times between starts and stops. -/
def accumulates (w : Stopwatch K) : Bool := w.runs != 0 || w.last.isNone

/-- A reading: the time, and the stopwatch it leaves. With `delta`, time is measured since the last reading. -/
def read (delta : Bool) (now : K) (w : Stopwatch K) : K × Stopwatch K :=
  if w.accumulates then (w.total now, w)
  else if delta then (now - w.last.getD w.origin, { w with last := some now })
  else (now - w.origin, w)

/-- How a reading is announced. -/
def heading [Written K] (delta : Bool) (elapsed : K) (w : Stopwatch K) : String :=
  let seconds := Written.fixed 2 elapsed
  if w.accumulates then "[" ++ Decimal.alignRight 8 seconds ++ "|" ++ Decimal.alignRight 4 (toString w.runs) ++ "] "
  else if delta then "[+" ++ Decimal.alignRight 7 seconds ++ "] "
  else "[" ++ Decimal.alignRight 8 seconds ++ "] "

end Stopwatch

/-! ## Timers -/

/-- One timer. -/
structure TimerEntry (K : Type) where
  path : List String
  watch : Stopwatch K
  /-- the time of its closed intervals -/
  total : K
  calls : Nat := 0
  deriving Repr

/-- Nested timers. -/
structure TimerTree (K : Type) where
  /-- the path of the running timers, outermost first -/
  stack : List String := []
  entries : List (TimerEntry K) := []
  deriving Repr

namespace TimerTree

variable {K B : Type} [Scalar K B]

/-- No timers. -/
def empty : TimerTree K := {}

/-! ## Starting and stopping -/

/-- The timer at a path. -/
def find? (t : TimerTree K) (path : List String) : Option (TimerEntry K) := t.entries.find? (·.path == path)

/-- Changes the timer at a path. -/
def update (path : List String) (f : TimerEntry K → TimerEntry K) (t : TimerTree K) : TimerTree K :=
  { t with entries := t.entries.map fun e => if e.path == path then f e else e }

/-- Enters a timer unless there is one. -/
def enter (now : K) (path : List String) (t : TimerTree K) : TimerTree K :=
  match t.find? path with
  | some _ => t
  | none => { t with entries := t.entries ++ [{ path, watch := .reset now, total := Scalar.zero }] }

/-- One more call. -/
def called (now : K) (e : TimerEntry K) : TimerEntry K :=
  { e with calls := e.calls + 1, watch := e.watch.start now }

/-- Starts a timer below the running ones. -/
def start (now : K) (name : String) (t : TimerTree K) : TimerTree K :=
  let path := t.stack ++ [name]
  { (t.enter now path).update path (called now) with stack := path }

/-- The path of timers as text. -/
def pathText (path : List String) : String := Text.joinWith "." path

/-- Stops the innermost running timer, which must have the given name. -/
def stop (now : K) (name : String) (t : TimerTree K) : Except Error (TimerTree K) := do
  if t.stack.getLast? = some name then
    match t.find? t.stack with
    | none => throw (.noTimer (pathText t.stack))
    | some e =>
      let (interval, watch) ← e.watch.stop now
      return { t.update t.stack (fun e => { e with watch, total := e.total + interval }) with stack := t.stack.dropLast }
  else throw (.timerNotActive name (pathText t.stack))

/-! ## Reading -/

/-- The path that a dotted name stands for. -/
def pathOf (name : String) : List String := (name.toList.splitOn '.').map String.ofList

/-- The timer of a dotted name. -/
def lookup (t : TimerTree K) (name : String) : Except Error (TimerEntry K) :=
  match t.find? (pathOf name) with
  | some e => .ok e
  | none => .error (.noTimer name)

/-- The time of the closed intervals of a timer. -/
def totalTime (t : TimerTree K) (name : String) : Except Error K := do return (← t.lookup name).total

/-- The time of a timer, with that of a running interval. -/
def currentTime (now : K) (t : TimerTree K) (name : String) : Except Error K := do
  return (← t.lookup name).watch.total now

/-- How often a timer was started. -/
def callCount (t : TimerTree K) (name : String) : Except Error Nat := do return (← t.lookup name).calls

/-- The children of a path, in the order of their first start. -/
def children (t : TimerTree K) (path : List String) : List (TimerEntry K) :=
  t.entries.filter fun e => e.path.dropLast == path && !e.path.isEmpty

/-- The share of a time in another one, in percent; none if that is not positive. -/
def percent (part whole : K) : Option K :=
  if Scalar.lt Scalar.zero whole then some (part / whole * Scalar.ofInt 100) else none

/-- The time of all outermost timers. -/
def outerTime (t : TimerTree K) : K := (t.children []).foldl (fun s e => s + e.total) Scalar.zero

/-- The share of a timer in the time of all outermost timers. -/
def share (t : TimerTree K) (name : String) : Except Error (Option K) := do
  return percent (← t.totalTime name) t.outerTime

/-- The timers below a path, each before its children. -/
def below (t : TimerTree K) : Nat → List String → List (TimerEntry K)
  | 0, _ => []
  | depth + 1, path => (t.children path).flatMap fun e => e :: below t depth e.path

/-- All timers, each before its children. -/
def timers (t : TimerTree K) : List (TimerEntry K) := t.below (t.entries.length + 1) []

/-! ## The report -/

section Report

open Decimal

/-- The last part of a path. -/
def TimerEntry.name (e : TimerEntry K) : String := e.path.getLast?.getD ""

/-- The name for the time outside of children. -/
def otherName : String := "other"

/-- The widest name at each depth. -/
def widths (t : TimerTree K) : List Nat :=
  let deepest := t.entries.foldl (fun n e => max n e.path.length) 0
  (List.range deepest).map fun d =>
    ((t.entries.filter fun e => e.path.length == d + 1).map fun e => (TimerEntry.name e).length).foldl max
      otherName.length

/-- A line of the report. -/
def reportLine (width : Nat) (cells : List String) : String :=
  match cells with
  | [name, calls, total, each, share] =>
    alignLeft width name ++ alignRight 9 calls ++ " " ++ alignRight 9 total ++ " " ++ alignRight 9 each ++ " "
      ++ alignRight 6 share
  | _ => ""

variable [Written K]

/-- A share as text. -/
def shareText : Option K → String
  | some p => Written.fixed 1 p
  | none => "nan"

/-- The line of a timer. -/
def timerLine (width : Nat) (share : Option K) (e : TimerEntry K) : String :=
  reportLine width [TimerEntry.name e, toString e.calls, Written.fixed 3 e.total,
    Written.fixed 3 (e.total / Scalar.ofInt e.calls), shareText share]

/-- The width of the figures behind a name. -/
def figureWidth : Nat := 36

/-- Timers in the order of their names. -/
def byName (es : List (TimerEntry K)) : List (TimerEntry K) :=
  es.mergeSort fun a b => TimerEntry.name a ≤ TimerEntry.name b

/-- The lines of the children of a timer. -/
def childLines (t : TimerTree K) : Nat → (indent : Nat) → (widths : List Nat) → (width : Nat) → TimerEntry K →
    List String
  | 0, _, _, _, _ => []
  | depth + 1, indent, widths, width, parent =>
    match byName (t.children parent.path) with
    | [] => []
    | cs =>
      let margin := Text.blanks indent
      let room := width - indent
      let rows := cs.flatMap fun c =>
        (margin ++ timerLine room (percent c.total parent.total) c)
          :: childLines t depth (indent + widths.headD 0) widths.tail width c
      let other := cs.foldl (fun rest c => rest - c.total) parent.total
      (margin ++ Text.rule '-' (room + figureWidth)) :: rows
        ++ [margin ++ reportLine room [otherName, "n/a", Written.fixed 3 other, "n/a",
              shareText (percent other parent.total)],
            margin ++ Text.rule '=' (room + figureWidth)]

/-- The lines of an outermost timer and all below it. Its share is that of the timer its name stands for. -/
def outerLines (t : TimerTree K) (widths : List Nat) (width : Nat) (e : TimerEntry K) : Except Error (List String) := do
  return timerLine width (← t.share (TimerEntry.name e)) e
    :: t.childLines (t.entries.length + 1) (widths.headD 0) widths.tail width e

/-- **The report.** -/
def report (t : TimerTree K) : Except Error (List String) := do
  let ws := t.widths
  let title := "Identifier"
  let width := max (ws.foldr (· + ·) 0) title.length
  let rows ← (byName (t.children [])).mapM (t.outerLines ws width)
  return [reportLine width [title, "ncalls", "cumtime", "percall", "%"], Text.rule '-' (width + figureWidth)]
    ++ rows.flatten ++ [Text.rule '=' (width + figureWidth), ""]

end Report

end TimerTree

end RobustLP
