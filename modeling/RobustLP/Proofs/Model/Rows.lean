import RobustLP.Proofs.Model.Realizations
import RobustLP.Proofs.Model.Translation
import RobustLP.Proofs.Narrow

/-!
# The working model of a model

A model is well-formed when its expressions and policies only mention variables and parameters that it declares
(`Model.WellFormed`). Its working model has a column for each variable, a row for each deterministic constraint and a mixed
row for each uncertain one; they say of the numbers of the columns what the constraints say of the decisions
(`WorkingModel.Mirrors`).
-/

namespace RobustLP

open ExtRat UncertaintySet

namespace Model

/-- An expression over the tables of a model. -/
structure Declares (m : Model Rat ExtRat) (e : Expr Rat) : Prop where
  columns : ∀ j ∈ e.columns, j < m.decisions.length
  positions : ∀ k ∈ e.positions, k < m.parameters.length

/-- **A model as it is built:** symbols are declared, no variable has two policies, and no integer variable has one. -/
structure WellFormed (m : Model Rat ExtRat) : Prop where
  constraints : ∀ c ∈ m.constraints, m.Declares c.body
  setConstraints : ∀ c ∈ m.setConstraints, m.Declares c.body
  /-- the constraints of the uncertainty set mention no variable -/
  setColumns : ∀ c ∈ m.setConstraints, c.body.columns = []
  uncertain : ∀ c ∈ m.uncertain, m.Declares c.1.body
  objective : m.Declares m.objective
  distinct : (m.affine.map (·.1)).Nodup
  adaptive : ∀ p ∈ m.affine, p.1 < m.decisions.length ∧ ∀ k ∈ p.2, k < m.parameters.length
  continuous : ∀ p ∈ m.affine, ∀ d, m.decisions[p.1]? = some d → d.domain.isInteger = false

namespace WellFormed

variable [Written Rat] [Written ExtRat] {naming : Naming} {m : Model Rat ExtRat} {s : UncertaintySet Rat ExtRat}

/-- The set of a model as it is built. -/
theorem narrowed (hm : m.WellFormed) (hs : UncertaintySet.ofModel naming m = .ok s) :
    (ofBounds m).Narrowed s fun v => ∀ c ∈ m.setConstraints, ∀ x, Between c.lower c.upper (c.body.value x v) :=
  narrowed_ofModel (fun c hc => (hm.setConstraints c hc).positions) hs

theorem admits (hm : m.WellFormed) (hs : UncertaintySet.ofModel naming m = .ok s) {u : List Rat} (hu : m.Realizes u) :
    s.Admits u :=
  admits_of_realizes (fun c hc => (hm.setConstraints c hc).positions) hs hu

theorem realizes (hm : m.WellFormed) (hs : UncertaintySet.ofModel naming m = .ok s) {u : List Rat} (hu : s.Admits u) :
    m.Realizes u :=
  realizes_of_admits (fun c hc => (hm.setConstraints c hc).positions) hm.setColumns hs hu

end WellFormed

/-- The columns of the variables. -/
def columnTable (m : Model Rat ExtRat) : List (Column ExtRat) :=
  m.decisions.zipIdx.map fun (d, i) =>
    { lower := d.lower.value, upper := d.upper.value, integer := d.domain.isInteger, name := m.variableName i }

theorem length_columnTable (m : Model Rat ExtRat) : m.columnTable.length = m.decisions.length := by
  rw [columnTable, List.length_map, List.length_zipIdx]

/-- A column is that of a variable. -/
theorem mem_columnTable {m : Model Rat ExtRat} {j : Nat} {c : Column ExtRat} : m.columnTable[j]? = some c ↔
    ∃ d, m.decisions[j]? = some d ∧ c = { lower := d.lower.value, upper := d.upper.value, integer := d.domain.isInteger
                                          name := m.variableName j } := by
  rw [columnTable, List.getElem?_map, List.getElem?_zipIdx, Option.map_map, Option.map_eq_some_iff]
  simp only [Function.comp_apply, Nat.zero_add, eq_comm]

theorem addModelColumns_eq (m : Model Rat ExtRat) (p : LinearProgram Rat ExtRat) :
    LinearProgram.addModelColumns m p = { p with columns := p.columns ++ m.columnTable } := by
  unfold LinearProgram.addModelColumns columnTable
  generalize m.decisions.zipIdx = ds
  induction ds generalizing p with
  | nil => rw [List.map_nil, List.append_nil]; rfl
  | cons d ds ih =>
    rw [List.foldl_cons, ih, List.map_cons]
    dsimp only [LinearProgram.withColumn]
    rw [List.append_assoc]
    rfl

end Model

/-! ## Deterministic constraints -/

/-- More columns give more slack. -/
def Widens (d : List Nat → Rat) : Prop := ∀ js js', js ⊆ js' → d js ≤ d js'

/-- A program with the columns of a model and rows for some constraints. -/
structure LinearProgram.Tables (m : Model Rat ExtRat) (cs : List (Constraint Rat ExtRat)) (p : LinearProgram Rat ExtRat) :
    Prop where
  columns : p.columns = m.columnTable
  aligned : p.rows.Aligned
  coefs : ∀ row ∈ p.rows.coefs, (keys row).Nodup ∧ ∀ t ∈ row, t.1 < p.numColumns
  rows : ∀ d, Widens d → ∀ x u, p.Satisfies d x →
    ∀ c ∈ cs, Within (d c.body.columns) c.lower c.upper (c.body.value x u)
  /-- there are no other rows -/
  complete : ∀ x u, (∀ c ∈ cs, Between c.lower c.upper (c.body.value x u)) → p.rows.Holds (fun _ => 0) x

/-- **The row of a constraint** says what the constraint says. -/
theorem LinearProgram.tables_rowOf [Written Rat] [Written ExtRat] {naming : Naming} {m : Model Rat ExtRat}
    {cs : List (Constraint Rat ExtRat)} {c : Constraint Rat ExtRat} (hc : m.Declares c.body)
    {p p' : LinearProgram Rat ExtRat} (h : p.Tables m cs) (hrun : (rowOf naming c).run p = (.ok ⟨⟩, p')) :
    p'.Tables m (cs ++ [c]) := by
  obtain ⟨form, p₁, hlift, hrest⟩ := Edit.run_bind_eq_ok.mp hrun
  obtain ⟨hform, rfl⟩ := Edit.run_lift_eq_ok.mp hlift
  obtain ⟨text, p₂, hlift', hpush⟩ := Edit.run_bind_eq_ok.mp hrest
  obtain ⟨-, rfl⟩ := Edit.run_liftFault_eq_ok.mp hlift'
  obtain ⟨i, p₃, hadd, hpure⟩ := Edit.run_bind_eq_ok.mp hpush
  obtain rfl : p₃ = p' := (Prod.mk.inj hpure).2
  obtain ⟨coefs, hread, rfl⟩ := eq_of_run_addRow hadd
  obtain rfl := eq_of_readTerms_given hread
  obtain ⟨-, hcolumns, hvalue⟩ := Expr.linearForm_spec hform
  have hkeys : ∀ t ∈ collect form.linear, t.1 ∈ c.body.columns := by
    intro t ht
    obtain ⟨t', ht', heq⟩ := List.mem_map.mp (mem_keys_of_mem_collect ht)
    exact heq ▸ hcolumns t' ht'
  have hnum : p₂.numColumns = m.decisions.length := by rw [numColumns, h.columns, m.length_columnTable]
  have hrow : ∀ d x u, Within d (Scalar.shift c.lower form.constant) (Scalar.shift c.upper form.constant)
      (lhs x (collect form.linear)) ↔ Within d c.lower c.upper (c.body.value x u) := by
    intro d x u
    have hform : lhs x form.linear + form.constant = form.value x := rfl
    rw [exact_shift, exact_shift, within_shift, lhs_collect, hform, hvalue x u]
  refine ⟨h.columns, h.aligned.push .., fun row hrow => ?_, fun d hd x u hsat => ?_, fun x u hall => ?_⟩
  · rcases List.mem_append.mp hrow with hrow | hrow
    · exact h.coefs row hrow
    · rw [List.mem_singleton.mp hrow]
      exact ⟨nodup_keys_collect _, fun t ht => (hc.columns _ (hkeys t ht)).trans_eq hnum.symm⟩
  · obtain ⟨hold, hnew⟩ := (satisfies_push h.aligned).mp hsat
    refine List.forall_mem_append.mpr ⟨h.rows d hd x u hold, List.forall_mem_singleton.mpr ?_⟩
    refine ((hrow _ x u).mp hnew).mono (hd _ _ fun j hj => ?_)
    obtain ⟨t, ht, rfl⟩ := List.mem_map.mp hj
    exact hkeys t ht
  · rw [List.forall_mem_append, List.forall_mem_singleton] at hall
    refine (RowTable.holds_push h.aligned).mpr ⟨h.complete x u hall.1, ?_⟩
    exact (hrow 0 x u).mpr (within_zero.mpr hall.2)

/-- The rows of some constraints. -/
theorem LinearProgram.tables_addModelRows [Written Rat] [Written ExtRat] {naming : Naming} {m : Model Rat ExtRat} :
    ∀ {cs done : List (Constraint Rat ExtRat)} {p p' : LinearProgram Rat ExtRat}, (∀ c ∈ cs, m.Declares c.body) →
      p.Tables m done → (cs.forM (rowOf naming)).run p = (.ok ⟨⟩, p') → p'.Tables m (done ++ cs)
  | [], done, p, p', _, h, hrun => by
    cases hrun
    exact (List.append_nil done).symm ▸ h
  | c :: cs, done, p, p', hcs, h, hrun => by
    have hsteps : (rowOf naming c >>= fun _ => cs.forM (rowOf naming)).run p = (.ok ⟨⟩, p') := hrun
    obtain ⟨⟨⟩, p₁, hfirst, hrest⟩ := Edit.run_bind_eq_ok.mp hsteps
    have hnext := tables_rowOf (hcs c List.mem_cons_self) h hfirst
    rw [List.append_cons]
    exact tables_addModelRows (fun c hc => hcs c (List.mem_cons_of_mem _ hc)) hnext hrest

/-! ## The whole model -/

namespace WorkingModel

/-- **A working model that says what a model says.** -/
structure Mirrors (m : Model Rat ExtRat) (wm : WorkingModel Rat ExtRat) : Prop where
  wellFormed : wm.WellFormed
  columns : wm.program.columns = m.columnTable
  sense : wm.program.objective.sense = m.sense
  userColumns : wm.userColumns = m.decisions.length
  auxColumns : wm.auxColumns = []
  epigraphColumn : wm.epigraphColumn = none
  /-- the rows of the program are those of the deterministic constraints -/
  constraints : ∀ d, Widens d → ∀ x u, wm.program.Satisfies d x →
    ∀ c ∈ m.constraints, Within (d c.body.columns) c.lower c.upper (c.body.value x u)
  /-- the mixed rows are those of the uncertain constraints -/
  uncertain : ∀ c ∈ m.uncertain, ∃ r ∈ wm.rows, r.oracle = some (c.2.getD m.defaultOracle) ∧ r.lower = c.1.lower
    ∧ r.upper = c.1.upper ∧ ∀ x u, r.form.value x u = c.1.body.value x u
  origin : ∀ r ∈ wm.rows, ∃ c ∈ m.uncertain, r.oracle = some (c.2.getD m.defaultOracle)
    ∧ ∀ k ∈ r.form.parameters, k ∈ c.1.body.positions
  /-- the constraints and bounds say no less than the rows -/
  complete : ∀ x u, (∀ j d, m.decisions[j]? = some d → Between d.lower.value d.upper.value (x j)) →
    (∀ c ∈ m.constraints, Between c.lower c.upper (c.body.value x u)) →
    (∀ c ∈ m.uncertain, Between c.1.lower c.1.upper (c.1.body.value x u)) → wm.Holds x u
  objective : m.objective.HasForm wm.objective

theorem Mirrors.numColumns {m : Model Rat ExtRat} {wm : WorkingModel Rat ExtRat} (h : wm.Mirrors m) :
    wm.program.numColumns = m.decisions.length := by
  rw [LinearProgram.numColumns, h.columns, m.length_columnTable]

/-- The mixed row of an uncertain constraint. -/
structure RowFor (m : Model Rat ExtRat) (c : Constraint Rat ExtRat × Option OracleId) (r : MixedRow Rat ExtRat) : Prop where
  form : c.1.body.HasForm r.form
  lower : r.lower = c.1.lower
  upper : r.upper = c.1.upper
  oracle : r.oracle = some (c.2.getD m.defaultOracle)

theorem hasForm_of_mapError {e : Expr Rat} {f : MixedForm Rat} (h : e.mixedForm.mapError Error.fault = .ok f) :
    e.HasForm f := by
  obtain ⟨f', hf', hform⟩ := e.exists_mixedForm
  rw [hf'] at h
  cases h
  exact hform

theorem rowFor_mixedRowOf [Written Rat] [Written ExtRat] {naming : Naming} {m : Model Rat ExtRat}
    {c : Constraint Rat ExtRat × Option OracleId} {i : Nat} {r : MixedRow Rat ExtRat}
    (h : mixedRowOf naming m c i = .ok r) : RowFor m c r := by
  obtain ⟨form, hform, hrest⟩ := bind_eq_ok.mp h
  obtain ⟨name, -, hpure⟩ := bind_eq_ok.mp hrest
  cases hpure
  exact ⟨hasForm_of_mapError hform, rfl, rfl, rfl⟩

/-- Each uncertain constraint has its mixed row, and each mixed row its constraint. -/
theorem rowFor_of_mapM [Written Rat] [Written ExtRat] {naming : Naming} {m : Model Rat ExtRat}
    {rows : List (MixedRow Rat ExtRat)}
    (h : m.uncertain.zipIdx.mapM (fun e => mixedRowOf naming m e.1 e.2) = .ok rows) :
    (∀ c ∈ m.uncertain, ∃ r ∈ rows, RowFor m c r) ∧ ∀ r ∈ rows, ∃ c ∈ m.uncertain, RowFor m c r := by
  have hall := mapM_eq_ok_iff.mp h
  constructor
  · intro c hc
    obtain ⟨i, hi⟩ := List.mem_iff_getElem?.mp hc
    obtain ⟨r, hr, hrow⟩ := exists_right_of_forall₂ hall (List.mk_mem_zipIdx_iff_getElem?.mpr hi)
    exact ⟨r, hr, rowFor_mixedRowOf hrow⟩
  · intro r hr
    obtain ⟨⟨c, i⟩, hc, hrow⟩ := exists_left_of_forall₂ hall hr
    exact ⟨c, List.mem_of_getElem? (List.mk_mem_zipIdx_iff_getElem?.mp hc), rowFor_mixedRowOf hrow⟩

theorem tables_empty (m : Model Rat ExtRat) (name : Option String) :
    (LinearProgram.addModelColumns m (LinearProgram.empty name)).Tables m [] := by
  rw [m.addModelColumns_eq]
  exact ⟨List.nil_append _, ⟨rfl, rfl, rfl⟩, fun row hrow => absurd hrow List.not_mem_nil,
    fun d _ x u _ c hc => absurd hc List.not_mem_nil, fun x u _ q hq => absurd hq List.not_mem_nil⟩

/-- **The working model of a model.** -/
theorem mirrors_ofModel [Written Rat] [Written ExtRat] {naming : Naming} {m : Model Rat ExtRat} (hm : m.WellFormed)
    {wm : WorkingModel Rat ExtRat} (h : WorkingModel.ofModel naming m = .ok wm) : wm.Mirrors m := by
  unfold WorkingModel.ofModel at h
  dsimp only at h
  split at h
  next => cases h
  next program hbuild =>
    obtain ⟨⟨⟩, p₁, hcolumns, hrest⟩ := Edit.run_bind_eq_ok.mp hbuild
    obtain ⟨⟨⟩, p₂, hrows, hsense⟩ := Edit.run_bind_eq_ok.mp hrest
    obtain ⟨rows, hmixed, hrest'⟩ := bind_eq_ok.mp h
    obtain ⟨objective, hobjective, hpure⟩ := bind_eq_ok.mp hrest'
    cases hpure
    cases hcolumns
    cases hsense
    have htables : p₂.Tables m m.constraints :=
      LinearProgram.tables_addModelRows hm.constraints (tables_empty m _) hrows
    have hnum : p₂.numColumns = m.decisions.length := by
      rw [LinearProgram.numColumns, htables.columns, m.length_columnTable]
    obtain ⟨hfrom, hto⟩ := rowFor_of_mapM hmixed
    have hgoal := hasForm_of_mapError hobjective
    have hfits : ∀ {e : Expr Rat} {f : MixedForm Rat}, m.Declares e → e.HasForm f → f.Fits p₂.numColumns :=
      fun he hf => ⟨hf.tabular, fun t ht => (he.columns _ (hf.columns t ht)).trans_eq hnum.symm⟩
    refine ⟨⟨htables.aligned, htables.coefs, fun r hr => ?_, hfits hm.objective hgoal⟩, htables.columns, rfl, hnum, rfl,
      rfl, fun d hd x u hsat => htables.rows d hd x u ⟨hsat.rows, hsat.columns⟩, fun c hc => ?_, fun r hr => ?_,
      fun x u hbounds hcertain huncertain => ⟨fun j c hc => ?_,
        fun q hq => within_zero.mp (htables.complete x u hcertain q hq), fun r hr => ?_⟩, hgoal⟩
    · obtain ⟨c, hc, hrow⟩ := hto r hr
      exact hfits (hm.uncertain c hc) hrow.form
    · obtain ⟨r, hr, hrow⟩ := hfrom c hc
      exact ⟨r, hr, hrow.oracle, hrow.lower, hrow.upper, hrow.form.value⟩
    · obtain ⟨c, hc, hrow⟩ := hto r hr
      exact ⟨c, hc, hrow.oracle, hrow.form.positions⟩
    · have hc : p₂.columns[j]? = some c := hc
      rw [htables.columns] at hc
      obtain ⟨d, hd, rfl⟩ := Model.mem_columnTable.mp hc
      exact hbounds j d hd
    · obtain ⟨c, hc, hrow⟩ := hto r hr
      rw [hrow.lower, hrow.upper, hrow.form.value]
      exact huncertain c hc

end WorkingModel

end RobustLP
