import RobustLP.Proofs.Algebra.Owners
import RobustLP.Proofs.Growth
import RobustLP.Proofs.Program
import RobustLP.Proofs.Working
import RobustLP.Working.Expand

/-!
# Translating models

A model is translated into a linear program, or into the working model with which a robust solve begins. Both translations enter
columns and rows step by step, and stop where a step fails. For a model whose expressions are over its own variables they come down
to what is made of its parts: a row of each constraint over the variables (`Constraint.tableRow`), a mixed row of each uncertain one
(`WorkingModel.mixedRowOf`), and a form of the objective (`LinearProgram.ofModel_eq`, `WorkingModel.ofModel_eq`). As long as no
variable follows a policy and the objective has no parameters, substituting decision rules then hands over the objective and does no
more (`Expander.apply_of_certain`).
-/

namespace RobustLP

variable {K B : Type} [Bound B] [Scalar K B]

/-! ## Rows -/

omit [Bound B] [Scalar K B] in
theorem RowTable.Aligned.append {t : RowTable K B} (h : t.Aligned) (rows : List (TableRow K B)) : (t.append rows).Aligned := by
  constructor <;> simp [RowTable.append, h.lower, h.upper, h.names]

namespace LinearProgram

variable {p : LinearProgram K B} {terms : List (Nat × K)} {lower upper : B}

omit [Bound B] [Scalar K B] in
/-- More rows need no more columns. -/
theorem numColumns_growRows (p : LinearProgram K B) (rows : List (TableRow K B)) : (p.grow [] rows).numColumns = p.numColumns :=
  congrArg List.length (List.append_nil p.columns)

/-- A row that is pushed is the last one. -/
theorem run_pushRow (h : ∀ t ∈ terms, t.1 < p.numColumns) (name : Option String) : (pushRow terms lower upper name).run p
    = (.ok p.rows.names.length,
      p.grow [] [⟨collect terms, lower, upper, name.getD s!"_row{p.rows.names.length}"⟩]) := by
  unfold pushRow addRow
  rw [Edit.run_bind_of_ok (Edit.run_get p), readTerms_given h]
  refine congrArg (Prod.mk _) ?_
  simp only [grow, RowTable.append, List.map_cons, List.map_nil, List.append_nil]

/-- A mixed row at a point of the parameters is pushed like any other one. -/
theorem run_addCutTo {row : MixedRow K B} {point : Lookup K} (hrow : row.specialize point = .ok (terms, lower, upper))
    (h : ∀ t ∈ terms, t.1 < p.numColumns) (name : Option String) : (WorkingModel.addCutTo row point name).run p
      = (.ok p.rows.names.length,
        p.grow [] [⟨collect terms, lower, upper, name.getD s!"_row{p.rows.names.length}"⟩]) := by
  unfold WorkingModel.addCutTo
  rw [hrow, Edit.run_bind_of_ok (Edit.run_liftFault_ok _ p)]
  exact run_pushRow h name

end LinearProgram

section

variable [Written K] [Written B]

/-- The row of a constraint over the variables. -/
def Constraint.tableRow (naming : Naming) (c : Constraint K B) : Except Error (TableRow K B) := do
  let form ← Quantity.linearForm naming (.expr c.body)
  let name ← (c.text naming).mapError .fault
  return { coefs := collect form.linear, lower := Scalar.shift c.lower form.constant
           upper := Scalar.shift c.upper form.constant, name }

/-- Adds the row of a constraint. -/
def rowOf (naming : Naming) (c : Constraint K B) : Edit (LinearProgram K B) Unit := do
  let form ← Edit.lift (Quantity.linearForm naming (.expr c.body))
  let text ← Edit.liftFault (c.text naming)
  discard (LinearProgram.pushRow form.linear (Scalar.shift c.lower form.constant)
    (Scalar.shift c.upper form.constant) (some text))

/-- The mixed row that is made of an uncertain constraint. -/
def WorkingModel.mixedRowOf (naming : Naming) (m : Model K B) (c : Constraint K B × Option OracleId) (i : Nat) :
    Except Error (MixedRow K B) := do
  let form ← c.1.body.mixedForm.mapError .fault
  let name ← (c.1.text naming).mapError .fault
  return { form, lower := c.1.lower, upper := c.1.upper, name := some name
           oracle := some (c.2.getD m.defaultOracle), source := .index i }

end

/-! ## Expressions over columns -/

omit [Bound B] [Scalar K B] in
/-- The variables of an expression are among the first `n` ones. -/
def Expr.OverColumns (n : Nat) (e : Expr K) : Prop := ∀ v ∈ e.allVariables, v.index < n

section

variable [Written K] {naming : Naming} {n : Nat} {e : Expr K}

omit [Bound B] in
/-- The columns of a form are those of variables that occur. -/
theorem Expr.OverColumns.of_linearForm {f : Form K} (he : e.OverColumns n) (h : Quantity.linearForm naming (.expr e) = .ok f) :
    ∀ t ∈ f.linear, t.1 < n := by
  obtain ⟨d, hd, h⟩ := bind_eq_ok.mp h
  obtain ⟨e, d, rfl, rfl, hn⟩ | ⟨e, d, rfl, rfl, -⟩ | ⟨e, d, rfl, rfl, -⟩ := Expr.normalized_cases (mapError_eq_ok.mp hd)
  · cases h
    refine List.forall_mem_map.mpr fun t ht => ?_
    obtain ⟨c, hc⟩ := Affine.exists_mem_of_mem_normalized hn ht
    exact he t.1 (List.mem_map.mpr ⟨(t.1, c), hc, rfl⟩)
  · dsimp only at h
    split at h
    next =>
      cases h
      exact List.forall_mem_nil _
    next => cases h
  · cases h

omit [Bound B] [Written K] in
theorem Expr.OverColumns.of_mixedForm {f : MixedForm K} (he : e.OverColumns n) (h : e.mixedForm = .ok f) :
    ∀ t ∈ f.linear, t.1 < n := by
  obtain ⟨d, hd, h⟩ := bind_eq_ok.mp h
  obtain ⟨e, d, rfl, rfl, hn⟩ | ⟨e, d, rfl, rfl, -⟩ | ⟨e, d, rfl, rfl, hn⟩ := Expr.normalized_cases hd
  · cases h
    refine List.forall_mem_map.mpr fun t ht => ?_
    obtain ⟨c, hc⟩ := Affine.exists_mem_of_mem_normalized hn ht
    exact he t.1 (List.mem_map.mpr ⟨(t.1, c), hc, rfl⟩)
  · cases h
    exact List.forall_mem_nil _
  · cases h
    refine List.forall_mem_map.mpr fun t ht => ?_
    obtain ⟨g, hg⟩ := Full.exists_mem_of_mem_normalized hn ht
    exact he t.1 (List.mem_map.mpr ⟨(t.1, g), hg, rfl⟩)

end

/-! ## Rows of constraints -/

namespace LinearProgram

variable [Written K] [Written B] {naming : Naming} {p : LinearProgram K B} {c : Constraint K B} {cs : List (Constraint K B)}

theorem run_rowOf_of_ok (hc : c.body.OverColumns p.numColumns) {row : TableRow K B} (h : c.tableRow naming = .ok row) :
    (rowOf naming c).run p = (.ok ⟨⟩, p.grow [] [row]) := by
  obtain ⟨form, hform, h⟩ := bind_eq_ok.mp h
  obtain ⟨text, htext, h⟩ := bind_eq_ok.mp h
  cases h
  unfold rowOf
  rw [hform, Edit.run_bind_of_ok (Edit.run_lift_ok form p), mapError_eq_ok.mp htext,
    Edit.run_bind_of_ok (Edit.run_liftFault_ok text p)]
  exact Edit.run_bind_of_ok (run_pushRow (hc.of_linearForm hform) (some text))

theorem run_rowOf_of_error {err : Error} (h : c.tableRow naming = .error err) : (rowOf naming c).run p = (.error err, p) := by
  unfold rowOf
  rcases bind_eq_error.mp h with hform | ⟨form, hform, h⟩
  · rw [hform]
    exact Edit.run_bind_of_error (Edit.run_lift_error err p)
  · rw [hform, Edit.run_bind_of_ok (Edit.run_lift_ok form p)]
    rcases bind_eq_error.mp h with htext | ⟨text, -, h⟩
    · obtain ⟨f, hf, rfl⟩ := mapError_eq_error.mp htext
      rw [hf]
      exact Edit.run_bind_of_error (Edit.run_throw (.fault f) p)
    · cases h

/-- **The rows of constraints** are put behind each other, if each of them can be made. -/
theorem run_rowsOf_of_ok : ∀ {cs : List (Constraint K B)} {p : LinearProgram K B} {rows : List (TableRow K B)},
    (∀ c ∈ cs, c.body.OverColumns p.numColumns) → cs.mapM (Constraint.tableRow naming) = .ok rows →
      (cs.forM (rowOf naming)).run p = (.ok ⟨⟩, p.grow [] rows)
  | [], p, rows, _, h => by
    obtain rfl : [] = rows := Except.ok.inj h
    rw [grow_nil]
    rfl
  | c :: cs, p, rows, hcs, h => by
    rw [List.mapM_cons] at h
    obtain ⟨row, hrow, h⟩ := bind_eq_ok.mp h
    obtain ⟨rest, hrest, h⟩ := bind_eq_ok.mp h
    cases h
    have hsteps : ((c :: cs).forM (rowOf naming)).run p = (rowOf naming c >>= fun _ => cs.forM (rowOf naming)).run p := rfl
    rw [hsteps, Edit.run_bind_of_ok (run_rowOf_of_ok (hcs c List.mem_cons_self) hrow),
      run_rowsOf_of_ok (fun d hd => numColumns_growRows p [row] ▸ hcs d (List.mem_cons_of_mem _ hd)) hrest, grow_grow]
    rfl

/-- The first row that cannot be made ends the translation. -/
theorem run_rowsOf_of_error {err : Error} : ∀ {cs : List (Constraint K B)} {p : LinearProgram K B},
    (∀ c ∈ cs, c.body.OverColumns p.numColumns) → cs.mapM (Constraint.tableRow naming) = .error err →
      ∃ p', (cs.forM (rowOf naming)).run p = (.error err, p')
  | [], p, _, h => nomatch h
  | c :: cs, p, hcs, h => by
    rw [List.mapM_cons] at h
    have hsteps : ((c :: cs).forM (rowOf naming)).run p = (rowOf naming c >>= fun _ => cs.forM (rowOf naming)).run p := rfl
    rw [hsteps]
    rcases bind_eq_error.mp h with hrow | ⟨row, hrow, h⟩
    · exact ⟨p, Edit.run_bind_of_error (run_rowOf_of_error hrow)⟩
    · rw [Edit.run_bind_of_ok (run_rowOf_of_ok (hcs c List.mem_cons_self) hrow)]
      rcases bind_eq_error.mp h with hrest | ⟨rest, -, h⟩
      · exact run_rowsOf_of_error (fun d hd => numColumns_growRows p [row] ▸ hcs d (List.mem_cons_of_mem _ hd)) hrest
      · cases h

end LinearProgram

/-! ## Whole models -/

omit [Bound B] [Scalar K B] in
theorem LinearProgram.numColumns_addModelColumns (m : Model K B) (p : LinearProgram K B) :
    (addModelColumns m p).numColumns = p.numColumns + m.decisions.length := by
  rw [← List.length_zipIdx (l := m.decisions) (i := 0), addModelColumns]
  generalize m.decisions.zipIdx = ds
  induction ds generalizing p with
  | nil => rfl
  | cons d ds ih =>
    have hcolumn : ∀ lower upper integer name, (p.withColumn lower upper integer name).numColumns = p.numColumns + 1 :=
      fun _ _ _ _ => List.length_append
    rw [List.foldl_cons, ih, hcolumn, List.length_cons, Nat.add_assoc, Nat.add_comm 1]

omit [Bound B] [Scalar K B] in
theorem LinearProgram.rows_addModelColumns (m : Model K B) (p : LinearProgram K B) : (addModelColumns m p).rows = p.rows := by
  unfold addModelColumns
  generalize m.decisions.zipIdx = ds
  induction ds generalizing p with
  | nil => rfl
  | cons d ds ih => exact (List.foldl_cons ..).symm ▸ ih _

namespace Model

/-- The program of a model before there are rows and an objective. -/
def columnsOnly (m : Model K B) : LinearProgram K B := LinearProgram.addModelColumns m (LinearProgram.empty (some m.name))

omit [Bound B] in
theorem numColumns_columnsOnly (m : Model K B) : m.columnsOnly.numColumns = m.decisions.length :=
  (LinearProgram.numColumns_addModelColumns m _).trans (Nat.zero_add _)

omit [Bound B] in
theorem aligned_grow (m : Model K B) (rows : List (TableRow K B)) : (m.columnsOnly.grow [] rows).rows.Aligned :=
  have hrows : m.columnsOnly.rows = {} := LinearProgram.rows_addModelColumns m _
  RowTable.Aligned.append (hrows ▸ ⟨rfl, rfl, rfl⟩) rows

omit [Bound B] in
theorem numColumns_grow (m : Model K B) (rows : List (TableRow K B)) : (m.columnsOnly.grow [] rows).numColumns = m.decisions.length :=
  (LinearProgram.numColumns_growRows _ rows).trans m.numColumns_columnsOnly

/-- The program of a model with some rows and an objective. -/
def assemble (m : Model K B) (rows : List (TableRow K B)) (objective : Form K) : LinearProgram K B :=
  { m.columnsOnly.grow [] rows with
    objective := { terms := collect objective.linear, constant := objective.constant, sense := m.sense } }

omit [Bound B] in
theorem assemble_append (m : Model K B) (rows more : List (TableRow K B)) (objective : Form K) :
    m.assemble (rows ++ more) objective = (m.assemble rows objective).grow [] more := by
  simp [assemble, LinearProgram.grow, RowTable.append]

/-- The constraints over the variables, and the objective, are over columns of the model. -/
structure OverColumns (m : Model K B) : Prop where
  constraints : ∀ c ∈ m.constraints, c.body.OverColumns m.decisions.length
  objective : m.objective.OverColumns m.decisions.length

end Model

section

variable [Written K] [Written B] {naming : Naming} {m : Model K B}

/-- **The program of a model:** its columns, the rows of its constraints, and its objective. -/
theorem LinearProgram.ofModel_eq (hm : m.OverColumns) : LinearProgram.ofModel naming m = (do
    let rows ← m.constraints.mapM (Constraint.tableRow naming)
    let form ← Quantity.linearForm naming (.expr m.objective)
    return m.assemble rows form) := by
  have hconstraints : ∀ c ∈ m.constraints, c.body.OverColumns m.columnsOnly.numColumns :=
    m.numColumns_columnsOnly.symm ▸ hm.constraints
  unfold LinearProgram.ofModel
  dsimp only
  cases hrows : m.constraints.mapM (Constraint.tableRow naming) with
  | error err =>
    obtain ⟨p', hrun⟩ := run_rowsOf_of_error hconstraints hrows
    have hrun : (addModelRows naming m).run (addModelColumns m (empty (some m.name))) = _ := hrun
    rw [Edit.run_bind_of_ok (Edit.run_modify _ _), Edit.run_bind_of_error hrun]
    rfl
  | ok rows =>
    have hrun : (addModelRows naming m).run (addModelColumns m (empty (some m.name)))
        = (.ok ⟨⟩, m.columnsOnly.grow [] rows) := run_rowsOf_of_ok hconstraints hrows
    rw [Edit.run_bind_of_ok (Edit.run_modify _ _), Edit.run_bind_of_ok hrun]
    cases hform : Quantity.linearForm naming (.expr m.objective) with
    | error err => rfl
    | ok form =>
      have hobjective : ∀ t ∈ form.linear, t.1 < (m.columnsOnly.grow [] rows).numColumns :=
        m.numColumns_grow rows ▸ hm.objective.of_linearForm hform
      rw [Edit.run_bind_of_ok (Edit.run_lift_ok form _), run_setObjective hobjective]
      rfl

/-- **The working model of a model:** the same columns and rows, and a mixed row of each uncertain constraint. -/
theorem WorkingModel.ofModel_eq (hm : m.OverColumns) : WorkingModel.ofModel naming m = (do
    let fixed ← m.constraints.mapM (Constraint.tableRow naming)
    let rows ← m.uncertain.zipIdx.mapM fun e => mixedRowOf naming m e.1 e.2
    let objective ← m.objective.mixedForm.mapError .fault
    let program := m.columnsOnly.grow [] fixed
    return { program := { program with objective := { program.objective with sense := m.sense } }
             rows, objective, userColumns := m.decisions.length }) := by
  have hconstraints : ∀ c ∈ m.constraints, c.body.OverColumns m.columnsOnly.numColumns :=
    m.numColumns_columnsOnly.symm ▸ hm.constraints
  unfold WorkingModel.ofModel
  dsimp only
  cases hfixed : m.constraints.mapM (Constraint.tableRow naming) with
  | error err =>
    obtain ⟨p', hrun⟩ := LinearProgram.run_rowsOf_of_error hconstraints hfixed
    have hrun : (LinearProgram.addModelRows naming m).run
        (LinearProgram.addModelColumns m (LinearProgram.empty (some m.name))) = _ := hrun
    rw [Edit.run_bind_of_ok (Edit.run_modify _ _), Edit.run_bind_of_error hrun]
    rfl
  | ok fixed =>
    have hrun : (LinearProgram.addModelRows naming m).run
        (LinearProgram.addModelColumns m (LinearProgram.empty (some m.name))) = (.ok ⟨⟩, m.columnsOnly.grow [] fixed) :=
      LinearProgram.run_rowsOf_of_ok hconstraints hfixed
    rw [Edit.run_bind_of_ok (Edit.run_modify _ _), Edit.run_bind_of_ok hrun, ← m.numColumns_grow fixed]
    rfl

end

/-! ## Without policies -/

namespace Expander

variable {e : Expander} {wm : WorkingModel K B}

theorem isAdaptive_of_nil (he : e.policies = []) (j : Nat) : e.isAdaptive j = false := by rw [isAdaptive, he, List.any_nil]

theorem substitute_of_nil (he : e.policies = []) (rowName : Option String) (f : MixedForm K) :
    (e.substitute rowName f : Edit (WorkingModel K B) (MixedForm K)) = pure f := by
  unfold substitute
  rw [List.filter_eq_nil_iff.mpr fun j _ => Bool.eq_false_iff.mp (isAdaptive_of_nil he j)]
  rfl

/-- Without policies there is nothing to be substituted. -/
theorem run_substituteRows_of_nil (he : e.policies = []) : e.substituteRows.run wm = (.ok ⟨⟩, wm) := by
  unfold substituteRows
  rw [Edit.run_bind_of_ok (Edit.run_get wm)]
  simp only [substitute_of_nil he, pure_bind, List.mapM_pure, List.map_id']
  rfl

/-- An objective without parameters, and without variables that follow a policy, is handed to the program. -/
theorem run_liftObjective_of_certain (he : e.policies = []) (hcertain : wm.objective.isDeterministic = true)
    (hcolumns : ∀ t ∈ wm.objective.linear, t.1 < wm.program.numColumns) :
    e.liftObjective.run wm = (.ok ⟨⟩, { wm with program := { wm.program with
      objective := { terms := collect (wm.objective.linear.map fun t => (t.1, t.2.constant))
                     constant := wm.objective.constant.constant, sense := wm.program.objective.sense } } }) := by
  have hfixed : wm.objective.linear.any (fun t => e.isAdaptive t.1) = false :=
    List.any_eq_false.mpr fun t _ => Bool.eq_false_iff.mp (isAdaptive_of_nil he t.1)
  have hin : ∀ t ∈ wm.objective.linear.map (fun t => (t.1, t.2.constant)), t.1 < wm.program.numColumns :=
    List.forall_mem_map.mpr hcolumns
  unfold liftObjective
  rw [Edit.run_bind_of_ok (Edit.run_get wm), Edit.run_bind_of_ok (Edit.run_get wm)]
  dsimp only
  rw [if_pos (by rw [hcertain, hfixed]; rfl)]
  exact WorkingModel.run_editProgram (LinearProgram.run_setObjective hin _ _)

/-- **Without policies,** substituting decision rules hands over an objective without parameters, and does no more. -/
theorem apply_of_certain (he : e.policies = []) (hcertain : wm.objective.isDeterministic = true)
    (hcolumns : ∀ t ∈ wm.objective.linear, t.1 < wm.program.numColumns) :
    e.apply wm = .ok { wm with program := { wm.program with
      objective := { terms := collect (wm.objective.linear.map fun t => (t.1, t.2.constant))
                     constant := wm.objective.constant.constant, sense := wm.program.objective.sense } } } := by
  have hempty : (!e.policies.isEmpty) = false := by rw [he]; rfl
  unfold apply
  dsimp only
  rw [if_neg (Bool.eq_false_iff.mp hempty), Edit.run_bind_of_ok (run_liftObjective_of_certain he hcertain hcolumns),
    run_substituteRows_of_nil he]

end Expander

end RobustLP
