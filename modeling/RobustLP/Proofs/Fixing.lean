import RobustLP.Proofs.Model.Translation
import RobustLP.Proofs.Program.Views
import RobustLP.Proofs.Solve.Exact

/-!
# Fixing columns and fixing parameters

A mixed form becomes a number when its columns and its parameters are fixed, in whatever order: the columns first, which leaves a
form in the parameters, the parameters first, which leaves a form in the columns without the coefficients that became zero, or
both at once. The three sums are organised differently, and come to the same number (`MixedForm.fixesTo`).

A mixed row at a point of the parameters is a row of a program, its constant moved into the bounds. It is satisfied by just those
columns by which the mixed row is not violated there (`MixedRow.fixings_agree`).
-/

namespace RobustLP

open ExtRat UncertaintySet LinearProgram

namespace MixedForm

variable {f : MixedForm Rat} {X U : Lookup Rat}

/-- **A mixed form comes to a number** when it is evaluated, when its columns are fixed first, and when its parameters are. -/
structure FixesTo (X U : Lookup Rat) (f : MixedForm Rat) (q : Rat) : Prop where
  evaluate : f.evaluate X U = .ok q
  columns : ∃ g, f.uncertainPart X = .ok g ∧ g.evaluate U = .ok q
  parameters : ∃ g, f.specialize U = .ok g ∧ g.evaluate X = .ok q

/-- Where all columns and parameters have numbers, a mixed form comes to its value. -/
theorem fixesTo (hX : ∀ t ∈ f.linear, ∃ a, X t.1 = .ok a) (hU : f.Defined U) : f.FixesTo X U (f.value X.number U.number) := by
  have hevaluate := evaluate_eq_ok hX hU
  refine ⟨hevaluate, ⟨f.fixedColumns X.number, uncertainPart_eq_ok_iff.mpr ⟨hX, rfl⟩, ?_⟩, ?_⟩
  · refine Form.evaluate_eq_ok_iff.mpr ⟨fun t ht => hU _ (Run.mem_parameters_of_fixedColumns ht), ?_⟩
    rw [value_fixedColumns]
  · -- evaluating fixes the parameters first
    exact bind_eq_ok.mp hevaluate

/-- **Scaling a form** scales what it comes to, in each order. -/
theorem fixesTo_scaled (hX : ∀ t ∈ f.linear, ∃ a, X t.1 = .ok a) (hU : f.Defined U) (c : Rat) :
    (f.scaled c).FixesTo X U (c * f.value X.number U.number) := by
  rw [← value_scaled]
  refine fixesTo (fun t ht => ?_) fun k hk => hU k (parameters_scaled f c ▸ hk)
  obtain ⟨t₀, ht₀, rfl⟩ := List.mem_map.mp ht
  exact hX t₀ ht₀

/-- Fixing the parameters leaves no columns but those of the form. -/
theorem exists_mem_of_mem_fixed {u : Nat → Rat} {t : Nat × Rat} (ht : t ∈ (f.fixed u).linear) :
    ∃ s ∈ f.linear, s.1 = t.1 := by
  obtain ⟨s, hs, rfl⟩ := List.mem_map.mp (List.mem_filter.mp ht).1
  exact ⟨s, hs, rfl⟩

end MixedForm

namespace MixedRow

variable {row : MixedRow Rat ExtRat} {U : Lookup Rat} {p : LinearProgram Rat ExtRat}

/-- **A mixed row at a point** can be added to a program that has its columns. -/
theorem exists_run_addCutTo (hU : row.form.Defined U) (hcolumns : ∀ t ∈ row.form.linear, t.1 < p.numColumns)
    (name : Option String) : ∃ i t, (WorkingModel.addCutTo row U name).run p = (.ok i, p.grow [] [t])
      ∧ t.coefs = collect (row.form.fixed U.number).linear ∧ t.lower = row.lower.shift (row.form.constant.value U.number)
      ∧ t.upper = row.upper.shift (row.form.constant.value U.number) := by
  have hin : ∀ t ∈ (row.form.fixed U.number).linear, t.1 < p.numColumns := fun t ht => by
    obtain ⟨s, hs, hst⟩ := MixedForm.exists_mem_of_mem_fixed ht
    exact hst ▸ hcolumns s hs
  exact ⟨_, _, run_addCutTo (specialize_eq_ok_iff.mpr ⟨hU, rfl⟩) hin name, rfl, rfl, rfl⟩

/-- A row is not violated by a value if and only if this lies between its bounds. -/
theorem IsViolation.eq_zero_iff {q : Rat} {w : ExtRat} (h : row.IsViolation q w) :
    w = finite 0 ↔ Between row.lower row.upper q := by
  have hnonneg : le (finite 0) w = true := ((h w).mp (ExtRat.le_refl w)).2
  have hzero : w = finite 0 ↔ le w (finite 0) = true :=
    ⟨fun hw => hw ▸ ExtRat.le_refl _, fun hle => ExtRat.le_antisymm hle hnonneg⟩
  rw [hzero, h, and_iff_left (ExtRat.le_refl _), forall_excess_le_iff, within_zero]

/-- **Fixing columns and fixing parameters commute, and a cut means what is violated.** The form of a mixed row comes to one number in
each order, and scaled to the multiple of it; the row that is added to a program for a point of the parameters is satisfied by the
columns if and only if they do not violate the mixed row there. -/
theorem fixings_agree (row : MixedRow Rat ExtRat) {U : Lookup Rat} (hU : row.form.Defined U) :
    (∀ X : Lookup Rat, (∀ t ∈ row.form.linear, ∃ a, X t.1 = .ok a) →
      row.form.FixesTo X U (row.form.value X.number U.number) ∧
        ∀ c, (row.form.scaled c).FixesTo X U (c * row.form.value X.number U.number)) ∧
    ∀ (wm : WorkingModel Rat ExtRat) (name : Option String), (∀ t ∈ row.form.linear, t.1 < wm.program.numColumns) → ∃ i t,
      (WorkingModel.editProgram (WorkingModel.addCutTo row U name)).run wm
        = (.ok i, { wm with program := wm.program.grow [] [t] }) ∧
      ∀ x : List Rat, x.length = wm.program.numColumns → ∃ a, rowActivity x t.coefs = .ok a ∧
        (Between t.lower t.upper a ↔ row.violation (Lookup.ofList x) U = .ok (finite 0)) := by
  refine ⟨fun X hX => ⟨MixedForm.fixesTo hX hU, MixedForm.fixesTo_scaled hX hU⟩, fun wm name hcolumns => ?_⟩
  obtain ⟨i, t, hrun, hcoefs, hlower, hupper⟩ := exists_run_addCutTo hU hcolumns name
  refine ⟨i, t, ?_, fun x hx => ?_⟩
  · unfold WorkingModel.editProgram
    rw [Edit.run_bind_of_ok (Edit.run_get wm), hrun]
    rfl
  · have hin : ∀ s ∈ t.coefs, s.1 < x.length := by
      intro s hs
      rw [hcoefs] at hs
      obtain ⟨r, hr, hrs⟩ := List.mem_map.mp (mem_keys_of_mem_collect hs)
      obtain ⟨r₀, hr₀, hr₀r⟩ := MixedForm.exists_mem_of_mem_fixed hr
      rw [hx, ← hrs, ← hr₀r]
      exact hcolumns r₀ hr₀
    have hvalue : lhs (entries x) t.coefs + row.form.constant.value U.number = row.form.value (entries x) U.number := by
      rw [hcoefs, lhs_collect, ← MixedForm.value_fixed]
      rfl
    have hX : ∀ s ∈ row.form.linear, ∃ a, Lookup.ofList x s.1 = .ok a :=
      fun s hs => ⟨_, Lookup.ofList_of_lt (hx.symm ▸ hcolumns s hs)⟩
    obtain ⟨w, hw, hviolation⟩ := exists_violation hX hU
    rw [number_ofList] at hviolation
    refine ⟨lhs (entries x) t.coefs, rowActivity_eq hin, ?_⟩
    rw [hlower, hupper, between_shift, hvalue, hw, Except.ok.injEq, hviolation.eq_zero_iff]

/-- A row with two bounds, of which the coefficient of the second column is zero where the second parameter is one. -/
def ranged : MixedRow Rat ExtRat where
  form := { linear := [(0, { linear := [(0, 1)], constant := 1 }), (1, { linear := [(1, 2)], constant := -2 })]
            constant := { linear := [(0, -1)], constant := 3 } }
  lower := .finite 0
  upper := .finite 5

theorem fixings_agree_ranged : ∃ wm : WorkingModel Rat ExtRat, wm.program.numColumns = 2
    ∧ ranged.form.FixesTo (.ofList [2, 3]) (.total fun _ => 1) 6
    ∧ (∀ c, (ranged.form.scaled c).FixesTo (.ofList [2, 3]) (.total fun _ => 1) (c * 6))
    ∧ ∃ i t a, (WorkingModel.editProgram (WorkingModel.addCutTo ranged (.total fun _ => 1) none)).run wm
        = (.ok i, { wm with program := wm.program.grow [] [t] }) ∧ rowActivity [2, 3] t.coefs = .ok a
      ∧ (Between t.lower t.upper a ↔ ranged.violation (.ofList [2, 3]) (.total fun _ => 1) = .ok (finite 0)) := by
  have hU : ranged.form.Defined (.total fun _ => 1) := fun k _ => ⟨1, rfl⟩
  have hcolumns : ∀ t ∈ ranged.form.linear, t.1 < 2 := by simp [ranged]
  have hvalue : ranged.form.value (Lookup.ofList [2, 3]).number (Lookup.total fun _ => 1).number = 6 := by
    norm_num [ranged, MixedForm.value, Form.value, Lookup.number_ofList]
  obtain ⟨hforms, hrows⟩ := fixings_agree ranged hU
  obtain ⟨hfixes, hscaled⟩ := hforms (.ofList [2, 3]) fun t ht => ⟨_, Lookup.ofList_of_lt (hcolumns t ht)⟩
  rw [hvalue] at hfixes hscaled
  let p : LinearProgram Rat ExtRat :=
    ((empty none).withColumn .negInf .posInf false none).withColumn .negInf .posInf false none
  let wm : WorkingModel Rat ExtRat := { program := p, objective := ranged.form, userColumns := 2 }
  obtain ⟨i, t, hrun, hrow⟩ := hrows wm none hcolumns
  obtain ⟨a, ha, hiff⟩ := hrow [2, 3] rfl
  exact ⟨wm, rfl, hfixes, hscaled, i, t, a, hrun, ha, hiff⟩

end MixedRow

end RobustLP
