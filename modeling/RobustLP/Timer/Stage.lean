import RobustLP.Timer.Tree

/-!
# Stages of a solve

A robust solve times six stages. Each is addressed by a dotted name; the timer of a stage is started under the last part of
that name, below whatever runs.
-/

namespace RobustLP

/-- The timed stages of a robust solve. -/
inductive Stage where
  | main
  | expansion
  | setup
  | reformulation
  | solve
  | separation
  deriving DecidableEq, Repr

namespace Stage

/-- The name of the timer of a stage. -/
def leaf : Stage → String
  | main => "main"
  | expansion => "expansion"
  | setup => "setup"
  | reformulation => "reformulation"
  | solve => "solve"
  | separation => "separation"

/-- The dotted name of a stage. -/
def name : Stage → String
  | main => "main"
  | s => "main." ++ s.leaf

/-- All stages. -/
def all : List Stage := [main, expansion, setup, reformulation, solve, separation]

/-- The stage of a dotted name. -/
def ofName (s : String) : Except Error Stage :=
  match all.find? fun t => t.name == s with
  | some t => .ok t
  | none => .error (.timerNotSupported s)

end Stage

namespace TimerTree

variable {K B : Type} [Scalar K B]

/-- Starts the timer of a stage. -/
def startStage (now : K) (s : Stage) (t : TimerTree K) : TimerTree K := t.start now s.leaf

/-- Stops the timer of a stage. -/
def stopStage (now : K) (s : Stage) (t : TimerTree K) : Except Error (TimerTree K) := t.stop now s.leaf

/-- The time since the main stage began. -/
def elapsed (now : K) (t : TimerTree K) : Except Error K := t.currentTime now Stage.main.name

/-- The time left before a limit on the main stage, never negative; none without limit. -/
def remaining (now : K) (limit : Option K) (t : TimerTree K) : Except Error (Option K) := do
  match limit with
  | none => return none
  | some l => return some (Scalar.max (l - (← t.elapsed now)) Scalar.zero)

end TimerTree

end RobustLP
