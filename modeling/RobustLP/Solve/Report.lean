import RobustLP.Solve.Outcome
import RobustLP.Value.Reading

/-!
# Reports of a robust solve

The iteration log is a table of six columns with a line for each solve; a missing value is shown as `-`. The summary
gives one labelled line for each of five figures.
-/

namespace RobustLP.Report

open Decimal

/-! ## Cells -/

/-- The text of an integer or truth value. -/
def countCell (v : Value) : Except Fault String :=
  match v with
  | .int n => .ok (toString n)
  | .bool b => .ok (if b then "1" else "0")
  | .float _ | .text _ => .error .badValue
  | _ => .error .badType

/-- The text of a number in a layout of doubles. -/
def numberCell (layout : Float → String) (v : Value) : Except Fault String :=
  match v with
  | .float x => .ok (layout x)
  | .int n => match ofInt? n with
    | some x => .ok (layout x)
    | none => .error .overflow
  | .bool b => .ok (layout (if b then 1 else 0))
  | .text _ => .error .badValue
  | _ => .error .badType

/-- A missing value is shown as a dash. -/
def optionalCell (cell : Value → Except Fault String) (v : Value) : Except Fault String :=
  match v with
  | .none => .ok "-"
  | v => cell v

/-! ## The iteration log -/

/-- The titles and widths of the columns. -/
def columns : List (String × Nat) :=
  [("Itn", 5), ("Objective", 13), ("#Cuts", 8), ("#CViol", 8), ("Max Viol", 13), ("Wall Time (s)", 13)]

/-- The width of the log. -/
def width : Nat := 78

/-- One line of the log. -/
def row (cells : List String) : String :=
  String.join (List.zipWith (fun cell c => alignLeft c.2 cell) cells columns)

/-- The titles. -/
def titles : String := row (columns.map (·.1))

/-- The titles between rules, or without them. -/
def header (withRules : Bool) : List String :=
  let line := Text.rule '-' width
  if withRules then [line, titles, line] else [titles]

/-- A line of the log from six values of any type. -/
def rowOfValues (vs : List Value) : Except Fault String := do
  let layouts := [countCell, numberCell (scientificSpaced 4), countCell, countCell,
    numberCell (scientific 4), numberCell (fixed 3)]
  return row (← (List.zip layouts vs).mapM fun (cell, v) => optionalCell cell v)

/-- The figures of one solve. -/
structure Iteration (K B : Type) where
  number : Nat
  objective : Option K := none
  cuts : Option Nat := none
  violated : Option Nat := none
  violation : Option B := none
  time : K

/-- The line of the log for one solve. -/
def Iteration.text {K B : Type} [Written K] [Written B] (i : Iteration K B) : String :=
  let optional {α : Type} (show' : α → String) (a : Option α) : String := (a.map show').getD "-"
  let spaced (x : K) : String :=
    let t := Written.scientific 4 x
    if t.startsWith "-" then t else " " ++ t
  row [toString i.number, optional spaced i.objective, optional toString i.cuts, optional toString i.violated,
    optional (Written.scientific 4) i.violation, Written.fixed 3 i.time]

/-! ## The summary -/

/-- The labels of the figures. -/
def labels : List String :=
  ["Iterations", "Solve time (wall s)", "Final objective value", "Reformulation path", "Termination condition"]

/-- The summary of five texts. -/
def summary (texts : List String) : List String :=
  "Termination stats:"
    :: List.zipWith (fun label text => " " ++ alignLeft 21 label ++ " : " ++ text) labels texts

/-- A figure of any type; a missing one is shown by the word for it. -/
def figure (layout : Value → Except Fault String) (v : Value) : Except Fault String :=
  match v with
  | .none => .ok "None"
  | v => layout v

/-- The summary of five values of any type. -/
def summaryOfValues (iterations time objective path condition : Value) : Except Fault (List String) := do
  let text (v : Value) : Except Fault String := .ok v.display
  let texts := [figure text iterations, figure (numberCell (fixed 3)) time,
    figure (numberCell (scientific 4)) objective, figure text path, figure text condition]
  return summary (← texts.mapM id)

end RobustLP.Report
