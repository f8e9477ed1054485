import RobustLP.Error
import RobustLP.Sense
import RobustLP.Solve.Outcome
import RobustLP.Text.Characters

/-!
# Enumerations as option values

A member of an enumeration can be given as itself, by its value, or by its name. The exact name counts first; then a name that
differs in letter case only, of several such names the last one. Members with the same value are one member, known by the first
of their names.
-/

namespace RobustLP.Config

/-- An enumeration: its name, and its members with their values in order. `short` if the text of a member is its bare name. -/
structure Enumeration where
  name : String
  members : List (String × Value)
  short : Bool

namespace Enumeration

/-- The member of a name and value. -/
def entry (e : Enumeration) (m : String × Value) : Value := .member e.name m.1 m.2 e.short

/-- The member with a value. -/
def ofValue? (e : Enumeration) (v : Value) : Option Value :=
  match v with
  | .member sort .. => if sort == e.name then some v else none
  | v => (e.members.find? fun m => m.2.same v).map e.entry

/-- The member that is known by a name. -/
def known (e : Enumeration) (m : String × Value) : Value := (e.ofValue? m.2).getD (e.entry m)

/-- The member with a name, up to letter case if none has that name exactly. -/
def ofName? (e : Enumeration) (name : String) : Option Value :=
  match e.members.find? (·.1 == name) with
  | some m => some (e.known m)
  | none => (e.members.reverse.find? fun m => Text.lower m.1 == Text.lower name).map e.known

/-- **The member that a value stands for.** -/
def cast (e : Enumeration) (v : Value) : Except Error Value :=
  let named := match v with
    | .text s => e.ofName? s
    | _ => none
  match (e.ofValue? v).or named with
  | some m => .ok m
  | none => .error (.option (v.shown ++ " is not a valid " ++ e.name))

/-! ## The enumerations of the library -/

/-- The senses of objectives. -/
def senses : Enumeration :=
  { name := "ObjectiveSense", short := true
    members := [Sense.minimize, .maximize].map fun s => (s.name, .int s.sign) }

/-- Why solvers stop. -/
def terminations : Enumeration :=
  { name := "TerminationCondition", short := true
    members := Termination.all.map fun t => (t.name, .int t.code) }

/-- What kinds of points solvers have. -/
def pointStatuses : Enumeration :=
  { name := "SolutionStatus", short := true, members := PointStatus.all.map fun s => (s.name, .int s.code) }

/-- How robust solves end. -/
def outcomes : Enumeration :=
  { name := "robustTerminationCondition", short := true, members := Outcome.all.map fun o => (o.name, .int o.code) }

/-- How uncertain constraints are handled. -/
def paths : Enumeration :=
  { name := "ReformulationPath", short := true, members := SolvePath.all.map fun p => (p.name, .int p.code) }

/-- The kinds of decision rules. -/
def policies : Enumeration :=
  { name := "AdaptivePolicy", short := true, members := ["fixed", "affine"].map fun n => (n, .text n) }

/-- Whether a solver can be used. -/
def availabilities : Enumeration :=
  { name := "Availability", short := true
    members := [("FullLicense", .int 2), ("LimitedLicense", .int 1), ("NotFound", .int 0), ("BadVersion", .int (-1))] }

/-- All of them. -/
def standard : List Enumeration := [senses, terminations, pointStatuses, outcomes, paths, policies, availabilities]

end Enumeration

end RobustLP.Config
