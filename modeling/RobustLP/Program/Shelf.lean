import RobustLP.Program

/-!
# Programs that share their tables

Several programs may share one table of columns and one table of rows: a program with another objective does. Adding a
row or column then shows in all of them, while removing rows gives the program a table of rows of its own. A `Shelf`
keeps the tables and says which program uses which.

## Order of the steps

Rows are removed from the columns of their table one by one, and a column is the program's own once this is done. A removal
that fails half-way leaves the other columns shared; a program therefore says for each column of its rows where it is
(`RowPlaces`).
-/

namespace RobustLP

/-- The tables that the columns of a table of rows are in. -/
structure RowPlaces where
  coefs : Nat
  lower : Nat
  upper : Nat
  names : Nat

/-- Which tables a program uses. -/
structure ShelfEntry (K : Type) where
  name : Option String
  columns : Nat
  rows : RowPlaces
  objective : Objective K

/-- Programs with their tables. -/
structure Shelf (K B : Type) where
  columns : List (List (Column B)) := []
  rows : List (RowTable K B) := []
  entries : List (ShelfEntry K) := []

namespace RowPlaces

variable {K B : Type}

/-- All columns are in one table. -/
def whole (k : Nat) : RowPlaces := ⟨k, k, k, k⟩

/-- The first columns are in another table. -/
def renew (r : RowPlaces) (k count : Nat) : RowPlaces where
  coefs := if 0 < count then k else r.coefs
  lower := if 1 < count then k else r.lower
  upper := if 2 < count then k else r.upper
  names := if 3 < count then k else r.names

/-- The rows, column by column. -/
def read (r : RowPlaces) (tables : List (RowTable K B)) : Option (RowTable K B) := do
  return { coefs := (← tables[r.coefs]?).coefs, lower := (← tables[r.lower]?).lower
           upper := (← tables[r.upper]?).upper, names := (← tables[r.names]?).names }

/-- Stores rows, column by column. -/
def write (r : RowPlaces) (t : RowTable K B) (tables : List (RowTable K B)) : List (RowTable K B) :=
  (((tables.modify r.coefs fun s => { s with coefs := t.coefs }).modify r.lower fun s =>
    { s with lower := t.lower }).modify r.upper fun s => { s with upper := t.upper }).modify r.names fun s =>
    { s with names := t.names }

end RowPlaces

/-- How many columns of a table have an entry at each of some positions, before the first one that lacks one. -/
def RowTable.reach {K B : Type} (t : RowTable K B) (positions : List Nat) : Nat :=
  ([t.coefs.length, t.lower.length, t.upper.length, t.names.length].takeWhile fun n => positions.all (· < n)).length

namespace Shelf

variable {K B : Type} [Bound B] [Scalar K B]

/-- The program at a place. -/
def program? (s : Shelf K B) (i : Nat) : Option (LinearProgram K B) := do
  let e ← s.entries[i]?
  return { name := e.name, columns := ← s.columns[e.columns]?, rows := ← e.rows.read s.rows, objective := e.objective }

/-- Puts a program with tables of its own on the shelf and answers its place. -/
def insert (s : Shelf K B) (p : LinearProgram K B) : Shelf K B × Nat :=
  ({ columns := s.columns ++ [p.columns]
     rows := s.rows ++ [p.rows]
     entries := s.entries ++ [{ name := p.name, columns := s.columns.length, rows := .whole s.rows.length
                                objective := p.objective }] },
   s.entries.length)

/-- Stores an edited program, in the tables it uses. -/
def store (s : Shelf K B) (i : Nat) (p : LinearProgram K B) : Shelf K B :=
  match s.entries[i]? with
  | none => s
  | some e =>
    { columns := s.columns.set e.columns p.columns
      rows := e.rows.write p.rows s.rows
      entries := s.entries.set i { e with objective := p.objective } }

/-- Edits the program at a place; the outcome and the shelf it leaves. -/
def edit {α : Type} (s : Shelf K B) (i : Nat) (e : Edit (LinearProgram K B) α) : Except Error α × Shelf K B :=
  match s.program? i with
  | none => (.error (.fault .noIndex), s)
  | some p =>
    let (r, q) := e.run p
    (r, s.store i q)

/-- Removes rows of the program at a place; the columns of its rows that this went through are its own from then on. -/
def removeRows (s : Shelf K B) (i : Nat) (drop : List Int) : Except Error Unit × Shelf K B :=
  match s.program? i, s.entries[i]? with
  | some p, some e =>
    let (r, q) := (LinearProgram.removeRows drop).run p
    let rows := e.rows.renew s.rows.length (p.rows.reach (LinearProgram.kept p.numRows drop))
    (r, { s with rows := s.rows ++ [q.rows], entries := s.entries.set i { e with rows } })
  | _, _ => (.error (.fault .noIndex), s)

/-- Puts a program with another objective on the shelf; it shares the tables of the first one. -/
def withObjective (s : Shelf K B) (i : Nat) (terms : List (GivenTerm K)) (constant : Except Error K)
    (sense : Option Sense) : Except Error (Shelf K B × Nat) :=
  match s.program? i, s.entries[i]? with
  | some p, some e =>
    match (LinearProgram.setObjective terms constant sense).run p with
    | (.ok _, q) =>
      .ok ({ s with entries := s.entries ++ [{ e with objective := q.objective }] }, s.entries.length)
    | (.error err, _) => .error err
  | _, _ => .error (.fault .noIndex)

end Shelf

end RobustLP
