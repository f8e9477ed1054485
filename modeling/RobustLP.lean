import RobustLP.Backend
import RobustLP.Check.Close
import RobustLP.Config
import RobustLP.Config.Domain
import RobustLP.Config.Enumeration
import RobustLP.Config.Standard
import RobustLP.Config.Words
import RobustLP.Constraint
import RobustLP.Decimal.Binary
import RobustLP.Decimal.ExactSum
import RobustLP.Decimal.Fixed
import RobustLP.Decimal.Shortest
import RobustLP.Environment
import RobustLP.Error
import RobustLP.Expr
import RobustLP.Expr.Algebra
import RobustLP.Expr.Equal
import RobustLP.Expr.Normal
import RobustLP.Expr.Operand
import RobustLP.Expr.Print
import RobustLP.Forest
import RobustLP.Gather
import RobustLP.Log
import RobustLP.Model
import RobustLP.Model.Domain
import RobustLP.Model.Edit
import RobustLP.Model.Print
import RobustLP.Oracle
import RobustLP.Oracle.Dual
import RobustLP.Oracle.Protocol
import RobustLP.Policy
import RobustLP.Program
import RobustLP.Program.Shelf
import RobustLP.Proofs.Algebra.Canonical
import RobustLP.Proofs.Algebra.Comparisons
import RobustLP.Proofs.Algebra.Equality
import RobustLP.Proofs.Algebra.Formulas
import RobustLP.Proofs.Algebra.Kinds
import RobustLP.Proofs.Algebra.Normal
import RobustLP.Proofs.Algebra.Operators
import RobustLP.Proofs.Algebra.Owners
import RobustLP.Proofs.Algebra.Parameterless
import RobustLP.Proofs.Algebra.Simplest
import RobustLP.Proofs.Algebra.Straight
import RobustLP.Proofs.Algebra.Totals
import RobustLP.Proofs.Backend.Answer
import RobustLP.Proofs.Backend.Request
import RobustLP.Proofs.Check.Closeness
import RobustLP.Proofs.Check.Structures
import RobustLP.Proofs.Config.Copy
import RobustLP.Proofs.Config.Integers
import RobustLP.Proofs.Config.Lists
import RobustLP.Proofs.Config.Regular
import RobustLP.Proofs.Config.Repair
import RobustLP.Proofs.Config.Rollback
import RobustLP.Proofs.Config.Setting
import RobustLP.Proofs.Config.Strings
import RobustLP.Proofs.Dual.Exactness
import RobustLP.Proofs.Dual.Facets
import RobustLP.Proofs.Dual.Slope
import RobustLP.Proofs.Entries
import RobustLP.Proofs.Expand.Goal
import RobustLP.Proofs.Expand.Lift
import RobustLP.Proofs.Expand.Meaning
import RobustLP.Proofs.Expand.Origins
import RobustLP.Proofs.Expand.Rule
import RobustLP.Proofs.Expand.Sources
import RobustLP.Proofs.Expand.Substitute
import RobustLP.Proofs.Expressions
import RobustLP.Proofs.Failure
import RobustLP.Proofs.Fixing
import RobustLP.Proofs.Forest
import RobustLP.Proofs.Gathered
import RobustLP.Proofs.Growth
import RobustLP.Proofs.Injection
import RobustLP.Proofs.Model.Atomic
import RobustLP.Proofs.Model.Built
import RobustLP.Proofs.Model.Certain
import RobustLP.Proofs.Model.Editing
import RobustLP.Proofs.Model.Faithful
import RobustLP.Proofs.Model.Grows
import RobustLP.Proofs.Model.Ownership
import RobustLP.Proofs.Model.Realizations
import RobustLP.Proofs.Model.Rows
import RobustLP.Proofs.Model.Rules
import RobustLP.Proofs.Model.Sound
import RobustLP.Proofs.Model.Translation
import RobustLP.Proofs.Multipliers
import RobustLP.Proofs.Narrow
import RobustLP.Proofs.Outcome
import RobustLP.Proofs.Print.Faithful
import RobustLP.Proofs.Print.Forms
import RobustLP.Proofs.Print.Numerals
import RobustLP.Proofs.Print.Phrases
import RobustLP.Proofs.Program
import RobustLP.Proofs.Program.Calls
import RobustLP.Proofs.Program.Sharing
import RobustLP.Proofs.Program.Views
import RobustLP.Proofs.Reformulation
import RobustLP.Proofs.Rounding.Addition
import RobustLP.Proofs.Rounding.Differences
import RobustLP.Proofs.Rounding.Doubles
import RobustLP.Proofs.Rounding.Equality
import RobustLP.Proofs.Rounding.Laws
import RobustLP.Proofs.Rounding.Nearest
import RobustLP.Proofs.Rounding.Order
import RobustLP.Proofs.Rounding.Readings
import RobustLP.Proofs.Rounding.Reduction
import RobustLP.Proofs.Rounding.Zero
import RobustLP.Proofs.Set.Components
import RobustLP.Proofs.Set.Decomposition
import RobustLP.Proofs.Set.Points
import RobustLP.Proofs.Set.Program
import RobustLP.Proofs.Set.Snapshot
import RobustLP.Proofs.Set.Views
import RobustLP.Proofs.Solve.Accounts
import RobustLP.Proofs.Solve.Attribution
import RobustLP.Proofs.Solve.Calls
import RobustLP.Proofs.Solve.Decisions
import RobustLP.Proofs.Solve.Definite
import RobustLP.Proofs.Solve.Distinct
import RobustLP.Proofs.Solve.Exact
import RobustLP.Proofs.Solve.Feasible
import RobustLP.Proofs.Solve.Handed
import RobustLP.Proofs.Solve.Oracles
import RobustLP.Proofs.Solve.Plain
import RobustLP.Proofs.Solve.Preparation
import RobustLP.Proofs.Solve.Protocol
import RobustLP.Proofs.Solve.Questions
import RobustLP.Proofs.Solve.Relax
import RobustLP.Proofs.Solve.Rounds
import RobustLP.Proofs.Solve.Separate
import RobustLP.Proofs.Solve.Stages
import RobustLP.Proofs.Solve.Tally
import RobustLP.Proofs.Solve.Trail
import RobustLP.Proofs.Solve.Unbounded
import RobustLP.Proofs.Timer
import RobustLP.Proofs.Timer.Accounts
import RobustLP.Proofs.Timer.Nesting
import RobustLP.Proofs.Value
import RobustLP.Proofs.Working
import RobustLP.Repn
import RobustLP.Scalar
import RobustLP.Scalar.Double
import RobustLP.Scalar.Exact
import RobustLP.Script.Backends
import RobustLP.Script.Checks
import RobustLP.Script.Constraints
import RobustLP.Script.Data
import RobustLP.Script.Expressions
import RobustLP.Script.Forms
import RobustLP.Script.Formula
import RobustLP.Script.Logs
import RobustLP.Script.Models
import RobustLP.Script.Options
import RobustLP.Script.Oracles
import RobustLP.Script.Programs
import RobustLP.Script.Registry
import RobustLP.Script.Render
import RobustLP.Script.Reply
import RobustLP.Script.Run
import RobustLP.Script.Services
import RobustLP.Script.Session
import RobustLP.Script.Sets
import RobustLP.Script.Solves
import RobustLP.Script.Timers
import RobustLP.Script.Workings
import RobustLP.Sense
import RobustLP.Simplex.Branch
import RobustLP.Simplex.Optimum
import RobustLP.Simplex.Tableau
import RobustLP.Solve.Loop
import RobustLP.Solve.Outcome
import RobustLP.Solve.Report
import RobustLP.Solve.Results
import RobustLP.Solve.Robust
import RobustLP.Solver
import RobustLP.Solver.BuiltIn
import RobustLP.Solver.Results
import RobustLP.Text.Characters
import RobustLP.Text.Pattern
import RobustLP.Text.Quoted
import RobustLP.Text.Template
import RobustLP.Text.Wrap
import RobustLP.Timer.Stage
import RobustLP.Timer.Tree
import RobustLP.UncertaintySet
import RobustLP.Value
import RobustLP.Value.Reading
import RobustLP.Working
import RobustLP.Working.Expand
import RobustLP.Proofs.Solve.Underway
