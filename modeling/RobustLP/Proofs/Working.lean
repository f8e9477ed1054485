import RobustLP.Proofs.Program

/-!
# Points of a working model

Numbers `x` of the columns and `u` of the parameters satisfy a working model when `x` satisfies its program and every mixed
row lies at `(x, u)` between its bounds (`WorkingModel.Holds`). With separating oracles this is only so up to a slack, which
may depend on the oracle of a row (`WorkingModel.HoldsWithin`). A working model is well-formed when its tables fit together
and its forms only refer to columns that exist.
-/

namespace RobustLP

open ExtRat

/-- A mixed row lies between its bounds, up to a slack. -/
def MixedRow.HoldsWithin (slack : Rat) (x u : Nat → Rat) (r : MixedRow Rat ExtRat) : Prop :=
  Within slack r.lower r.upper (r.form.value x u)

/-- A form without repetition in the first `n` columns. -/
structure MixedForm.Fits (n : Nat) (f : MixedForm Rat) : Prop where
  tabular : f.Tabular
  columns : ∀ t ∈ f.linear, t.1 < n

theorem MixedForm.Fits.mono {m n : Nat} (hmn : m ≤ n) {f : MixedForm Rat} (h : f.Fits m) : f.Fits n :=
  ⟨h.tabular, fun t ht => (h.columns t ht).trans_le hmn⟩

namespace WorkingModel

/-- A working model as it is made. -/
structure WellFormed (wm : WorkingModel Rat ExtRat) : Prop where
  aligned : wm.program.rows.Aligned
  coefs : ∀ row ∈ wm.program.rows.coefs, (keys row).Nodup ∧ ∀ t ∈ row, t.1 < wm.program.numColumns
  rows : ∀ r ∈ wm.rows, r.form.Fits wm.program.numColumns
  objective : wm.objective.Fits wm.program.numColumns

/-- A point of a working model, up to a slack for the mixed rows of each oracle, and `d` for the program. -/
structure HoldsWithin (slack : Option OracleId → Rat) (d : List Nat → Rat) (x u : Nat → Rat)
    (wm : WorkingModel Rat ExtRat) : Prop where
  program : wm.program.Satisfies d x
  rows : ∀ r ∈ wm.rows, r.HoldsWithin (slack r.oracle) x u

/-- **A point of a working model:** all columns, rows and mixed rows lie between their bounds. -/
structure Holds (x u : Nat → Rat) (wm : WorkingModel Rat ExtRat) : Prop where
  columns : ∀ j c, wm.program.columns[j]? = some c → Between c.lower c.upper (x j)
  tables : ∀ q ∈ wm.program.rows.entries, Between q.2.1 q.2.2 (lhs x q.1)
  rows : ∀ r ∈ wm.rows, Between r.lower r.upper (r.form.value x u)

theorem holds_iff_holdsWithin {wm : WorkingModel Rat ExtRat} {x u : Nat → Rat} :
    wm.Holds x u ↔ wm.HoldsWithin (fun _ => 0) (fun _ => 0) x u := by
  constructor
  · rintro ⟨hcolumns, htables, hrows⟩
    exact ⟨⟨fun q hq => within_zero.mpr (htables q hq), fun j c hc => within_zero.mpr (hcolumns j c hc)⟩,
      fun r hr => within_zero.mpr (hrows r hr)⟩
  · rintro ⟨⟨htables, hcolumns⟩, hrows⟩
    exact ⟨fun j c hc => within_zero.mp (hcolumns j c hc), fun q hq => within_zero.mp (htables q hq),
      fun r hr => within_zero.mp (hrows r hr)⟩

theorem run_editProgram {K B α : Type} {ed : Edit (LinearProgram K B) α} {wm : WorkingModel K B} {a : α} {p : LinearProgram K B}
    (h : ed.run wm.program = (.ok a, p)) :
    (editProgram ed).run wm = (.ok a, { wm with program := p }) := by
  unfold editProgram
  rw [Edit.run_bind_of_ok (Edit.run_get wm), h]
  rfl

end WorkingModel

end RobustLP
