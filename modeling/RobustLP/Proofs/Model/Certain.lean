import RobustLP.Proofs.Algebra.Parameterless
import RobustLP.Proofs.Model.Translation
import RobustLP.Proofs.Set.Snapshot

/-!
# Models whose parameters cancel

The uncertain constraints of a model may mention parameters that cancel. The model then says the same as one in which they are
written without parameters and stand behind the other constraints (`Model.withoutParameters`). For such a model, with an objective
over the variables and without policies, the working model of a robust solve has the program of the model, and each of its mixed
rows is a row of the program of the other model under the name of the constraint (`Model.Sound.calculates_expanded`).

The working model is made from expressions with parameters, so a sum may fail there; nothing else can go wrong (`Calculates`).
-/

namespace RobustLP

variable {K B α β : Type} [Scalar K B]

/-! ## Sums that are too large -/

/-- **Nothing but a sum can fail:** there is an answer with a property, unless a sum of coefficients fails. -/
def Calculates (K : Type) {B α : Type} [Scalar K B] (r : Except Error α) (P : α → Prop) : Prop :=
  (∃ a, r = .ok a ∧ P a) ∨ ∃ f, r = .error (.fault f) ∧ SumFails K f

namespace Calculates

variable {r : Except Error α} {g : α → Except Error β} {P : α → Prop} {Q : β → Prop}

theorem ok {a : α} (h : P a) : Calculates K (.ok a) P := .inl ⟨a, rfl, h⟩

theorem of_ok {a : α} (h : Calculates K (.ok a) P) : P a := by
  obtain ⟨a', ha, h⟩ | ⟨f, hf, -⟩ := h
  · exact Except.ok.inj ha ▸ h
  · cases hf

theorem of_error {e : Error} (h : Calculates K (.error e) P) : Calculates K (.error e) Q := by
  obtain ⟨a, ha, -⟩ | ⟨f, hf, hsum⟩ := h
  · cases ha
  · exact .inr ⟨f, congrArg Except.error (Except.error.inj hf), hsum⟩

theorem mono {P' : α → Prop} (h : Calculates K r P) (hP : ∀ a, P a → P' a) : Calculates K r P' :=
  h.imp_left fun ⟨a, ha, h⟩ => ⟨a, ha, hP a h⟩

theorem bind (h : Calculates K r P) (hg : ∀ a, P a → Calculates K (g a) Q) : Calculates K (r >>= g) Q := by
  rcases h with ⟨a, rfl, ha⟩ | ⟨f, rfl, hf⟩
  · exact hg a ha
  · exact .inr ⟨f, rfl, hf⟩

theorem mapM {R : α → β → Prop} : ∀ {l : List α}, (∀ a ∈ l, Calculates K (g a) (R a)) →
    Calculates K (l.mapM g) (List.Forall₂ R l)
  | [], _ => ok .nil
  | a :: l, h => by
    rw [List.mapM_cons]
    refine bind (h a List.mem_cons_self) fun b hb => ?_
    exact bind (mapM fun a' ha' => h a' (List.mem_cons_of_mem _ ha')) fun bs hbs => ok (.cons hb hbs)

end Calculates

/-- What corresponds to the entries of a list with their positions corresponds to the entries. -/
theorem forall₂_of_zipIdx {R : α → β → Prop} {as : List α} {bs : List β} (h : List.Forall₂ (fun a => R a.1) as.zipIdx bs) :
    List.Forall₂ R as bs := by
  have hfirst := List.forall₂_map_left_iff.mpr h
  rwa [List.zipIdx_map_fst] at hfirst

/-! ## Normal forms -/

/-- Normalising a full form fails only where a sum of coefficients does. -/
theorem Full.sumFails_of_normalized {e : Full K} {f : Fault} (h : e.normalized = .error f) : SumFails K f := by
  rcases bind_eq_error.mp h with hsums | ⟨sums, -, h⟩
  · obtain ⟨p, -, hp⟩ := exists_mem_of_mapM_eq_error hsums
    rcases bind_eq_error.mp hp with hform | ⟨g, -, hp⟩
    · exact Affine.sumFails_of_normalized hform
    · cases hp
  · rcases bind_eq_error.mp h with hconstant | ⟨c, -, h⟩
    · exact Affine.sumFails_of_normalized hconstant
    · cases h

omit [Scalar K B] in
theorem Expr.exists_of_kind_linear {e : Expr K} (h : e.kind = .linear) : ∃ f, e = .linear f := by
  cases e with
  | linear f => exact ⟨f, rfl⟩
  | uncertain f => cases h
  | full f => cases h

omit [Scalar K B] in
theorem Expr.exists_of_kind_full {e : Expr K} (h : e.kind = .full) : ∃ f, e = .full f := by
  cases e with
  | linear f => cases h
  | uncertain f => cases h
  | full f => exact ⟨f, rfl⟩

variable [Written K]

theorem Quantity.linearForm_linear (naming : Naming) {e n : Affine Variable K} (h : e.normalized = .ok n) :
    linearForm naming (.expr (.linear e)) = .ok n.form := by
  unfold linearForm Expr.normalized
  dsimp only
  rw [h]
  rfl

omit [Written K] in
theorem Expr.mixedForm_linear {e n : Affine Variable K} (h : e.normalized = .ok n) : (Expr.linear e).mixedForm
    = .ok { linear := n.terms.map fun t => (t.1.index, .ofConstant t.2), constant := .ofConstant n.constant } := by
  unfold mixedForm normalized
  dsimp only
  rw [h]
  rfl

theorem Quantity.linearForm_linear_of_error (naming : Naming) {e : Affine Variable K} {f : Fault} (h : e.normalized = .error f) :
    linearForm naming (.expr (.linear e)) = .error (.fault f) := by
  unfold linearForm Expr.normalized
  dsimp only
  rw [h]
  rfl

variable [Bound B] [Written B]

namespace Constraint

variable {c : Constraint K B}

/-- **The row of a constraint over the variables,** whose normal form is known. -/
theorem tableRow_linear (naming : Naming) {e n : Affine Variable K} (hc : c.body = .linear e) (h : e.normalized = .ok n) : ∃ name,
    c.tableRow naming = .ok { coefs := collect n.form.linear, lower := Scalar.shift c.lower n.constant
                              upper := Scalar.shift c.upper n.constant, name } := by
  unfold tableRow text Print.expr
  rw [hc]
  dsimp only
  rw [Quantity.linearForm_linear naming h, h]
  exact ⟨_, rfl⟩

theorem calculates_tableRow (naming : Naming) (hc : c.kind = .linear) : Calculates K (c.tableRow naming) fun _ => True := by
  obtain ⟨e, he⟩ := Expr.exists_of_kind_linear hc
  cases hn : e.normalized with
  | ok n =>
    obtain ⟨name, hrow⟩ := tableRow_linear naming he hn
    exact .inl ⟨_, hrow, trivial⟩
  | error f =>
    refine .inr ⟨f, bind_eq_error.mpr (.inl ?_), Affine.sumFails_of_normalized hn⟩
    rw [he]
    exact Quantity.linearForm_linear_of_error naming hn

end Constraint

/-! ## Uncertain constraints without uncertainty -/

/-- A constraint without its parameters. -/
def Constraint.withoutParameters (c : Constraint K B) : Constraint K B := { c with body := c.body.withoutParameters }

/-- Rows with the same coefficients and bounds; only their names may differ, and the signs of bounds that are zero. -/
structure TableRow.Same (t s : TableRow K B) : Prop where
  coefs : t.coefs = s.coefs
  lower : Bound.Same t.lower s.lower
  upper : Bound.Same t.upper s.upper

/-- A mixed row without parameters, and the row of the first `n` columns that it is at every point. -/
structure MixedRow.Becomes (n : Nat) (r : MixedRow K B) (t : TableRow K B) : Prop where
  certain : r.form.isDeterministic = true
  name : r.name = some t.name
  row : ∃ terms, (∀ point, r.specialize point = .ok (terms, t.lower, t.upper)) ∧ t.coefs = collect terms ∧ ∀ x ∈ terms, x.1 < n

/-- A mixed row that renders a constraint: it becomes the row `t` under its name, and without parameters the constraint gives the row
`s`. -/
structure MixedRow.Renders (naming : Naming) (n : Nat) (c : Constraint K B) (r : MixedRow K B) (t s : TableRow K B) : Prop where
  becomes : r.Becomes n t
  name : c.text naming = .ok t.name
  struck : c.withoutParameters.tableRow naming = .ok s
  same : t.Same s

omit [Written K] in
theorem Expr.OverColumns.withoutParameters {n : Nat} {e : Expr K} (h : e.OverColumns n) : e.withoutParameters.OverColumns n :=
  fun v hv => h v (Expr.mem_of_mem_withoutParameters hv)

variable [Scalar.Neutral K]

/-- **The mixed row of a constraint whose parameters cancel** becomes the row of the constraint without parameters, under its name. -/
theorem WorkingModel.calculates_mixedRowOf (naming : Naming) (m : Model K B) {n : Nat} {c : Constraint K B × Option OracleId} (i : Nat)
    (hkind : c.1.kind = .full) (hnumbered : c.1.body.Numbered) (hcancel : c.1.body.ParametersCancel)
    (hcolumns : c.1.body.OverColumns n) :
    Calculates K (mixedRowOf naming m c i) fun r => ∃ t s, r.Renders naming n c.1 t s := by
  obtain ⟨e, he⟩ := Expr.exists_of_kind_full hkind
  have hstruck := hcolumns.withoutParameters
  rw [he] at hnumbered hcancel hstruck
  cases hd : e.normalized with
  | error f =>
    refine .inr ⟨f, bind_eq_error.mpr (.inl (mapError_eq_error.mpr ⟨f, ?_, rfl⟩)), Full.sumFails_of_normalized hd⟩
    rw [he]
    exact bind_eq_error.mpr (.inl (bind_eq_error.mpr (.inl hd)))
  | ok d =>
    have hnumeric : d.Numeric := Full.numeric_iff.mpr (hcancel (.full d) (bind_eq_ok.mpr ⟨d, hd, rfl⟩))
    obtain ⟨form, hform, hcertain, hpoint⟩ := Full.exists_mixedForm hd hnumeric
    have hplain := Full.normalized_withoutParameters hnumbered hd hnumeric
    obtain ⟨name, hrow⟩ := Constraint.tableRow_linear (c := c.1.withoutParameters) naming (e := e.withoutParameters)
      (congrArg Expr.withoutParameters he) hplain
    obtain ⟨text, htext⟩ : ∃ text, c.1.text naming = .ok text := by
      unfold Constraint.text Print.expr
      rw [he]
      dsimp only
      rw [hd]
      exact ⟨_, rfl⟩
    let t : TableRow K B := {
      coefs := collect d.numbers.form.linear
      lower := Scalar.shift c.1.lower (Scalar.zero + d.numbers.constant)
      upper := Scalar.shift c.1.upper (Scalar.zero + d.numbers.constant)
      name := text }
    have hmixed : c.1.body.mixedForm = .ok form := by rw [he, hform]
    refine .inl ⟨_, bind_eq_ok.mpr ⟨form, mapError_eq_ok.mpr hmixed, bind_eq_ok.mpr ⟨text, mapError_eq_ok.mpr htext, rfl⟩⟩,
      t, _, ⟨hcertain, rfl, _, fun point => ?_, rfl, ?_⟩, htext, hrow, ⟨rfl, ?_, ?_⟩⟩
    · exact bind_eq_ok.mpr ⟨_, hpoint point, rfl⟩
    · exact hstruck.of_linearForm (Quantity.linearForm_linear naming hplain)
    · exact Scalar.Neutral.shift_zero_add _ _
    · exact Scalar.Neutral.shift_zero_add _ _

/-! ## Models -/

namespace Model

variable {self : ModelId} {m m' : Model K B} {naming : Naming}

/-- **The model without the parameters in its uncertain constraints,** which stand behind the other ones. -/
def withoutParameters (m : Model K B) : Model K B :=
  { m with constraints := m.constraints ++ m.uncertain.map fun c => c.1.withoutParameters, uncertain := [] }

omit [Bound B] [Written K] [Written B] [Scalar.Neutral K] in
theorem numbered_objective {q : Quantity K} (h : q.Formed) : (Quantity.objective q).Numbered := by
  cases q with
  | number x => exact Affine.numbered_of_parts rfl
  | expr e => exact h.numbered

omit [Scalar.Neutral K] in
/-- There is a number in every part of a constraint that a model holds. -/
theorem Worked.numbered {us : List Parameter} (h : m.Worked self us) : ∀ c ∈ m.uncertain, c.1.body.Numbered := by
  induction h with
  | start name robust oracle => exact List.forall_mem_nil _
  | @call m us naming c hm hc ih =>
    have hmentions : c.Mentions Expr.Numbered self m := by
      unfold Call.Mentions
      split
      next c oracle => exact fun _ => hc.1.numbered
      next q sense => exact fun _ => numbered_objective hc.1
      next =>
        refine ⟨hc.1, fun k hk => ?_⟩
        -- a handle that was answered is that of a position of the table
        have hus : ∀ u ∈ us, u.index < m.parameters.length := fun u hu => by
          obtain ⟨k, hk, rfl⟩ := List.mem_map.mp (hm.handles_eq ▸ hu)
          exact List.mem_range.mp hk
        exact hus _ (hc.2 k hk)
      next => trivial
    exact fun c hc => ((Call.grows naming hmentions).uncertain c hc).elim (ih c) And.left

omit [Scalar K B] [Written K] [Written B] [Scalar.Neutral K] in
theorem Sound.overColumns (hm : m.Sound self) : m.OverColumns where
  constraints c hc v hv := ((hm.constraints c hc).1.decisions v hv).2
  objective v hv := (hm.objective.decisions v hv).2

omit [Scalar K B] [Written K] [Written B] [Scalar.Neutral K] in
theorem Sound.overColumns_withoutParameters (hm : m.Sound self) : m.withoutParameters.OverColumns where
  constraints := by
    refine List.forall_mem_append.mpr ⟨hm.overColumns.constraints, List.forall_mem_map.mpr fun c hc => ?_⟩
    have hbody : c.1.body.OverColumns m.decisions.length := fun v hv => ((hm.uncertain c hc).1.decisions v hv).2
    exact hbody.withoutParameters
  objective := hm.overColumns.objective

/-- **A working model that says of a model what programs can say:** its program is that of the model, and its mixed rows become rows
like those of the model without parameters, under the names of the uncertain constraints. -/
structure Plain (naming : Naming) (m : Model K B) (wm : WorkingModel K B) (p : LinearProgram K B) (rows plain : List (TableRow K B)) :
    Prop where
  program : LinearProgram.ofModel naming m = .ok p
  struck : LinearProgram.ofModel naming m.withoutParameters = .ok (p.grow [] plain)
  working : wm.program = p
  aligned : p.rows.Aligned
  becomes : List.Forall₂ (MixedRow.Becomes p.numColumns) wm.rows rows
  names : List.Forall₂ (fun c t => c.1.text naming = .ok t.name) m.uncertain rows
  same : List.Forall₂ TableRow.Same rows plain

omit [Scalar K B] [Written K] [Bound B] [Written B] [Scalar.Neutral K] in
/-- Without parameters to depend on there is nothing to be substituted. -/
theorem policies_of_forall_nil (h : ∀ p ∈ m.affine, p.2 = []) : (Expander.ofModel m).policies = [] := by
  refine List.filter_eq_nil_iff.mpr fun p hp => ?_
  rw [h p hp]
  exact Bool.false_ne_true

section

variable {e d : Affine Variable K} {fixed : List (TableRow K B)}

omit [Scalar.Neutral K] in
/-- The program of the model without parameters has their rows behind those of the program of the model. -/
theorem ofModel_withoutParameters (hm : m.withoutParameters.OverColumns) {plain : List (TableRow K B)} {form : Form K}
    (hform : Quantity.linearForm naming (.expr m.objective) = .ok form)
    (hfixed : m.constraints.mapM (Constraint.tableRow naming) = .ok fixed)
    (hplain : List.Forall₂ (fun c s => c.1.withoutParameters.tableRow naming = .ok s) m.uncertain plain) :
    LinearProgram.ofModel naming m.withoutParameters = .ok ((m.assemble fixed form).grow [] plain) := by
  have hrows : m.withoutParameters.constraints.mapM (Constraint.tableRow naming) = .ok (fixed ++ plain) := by
    rw [mapM_eq_ok_iff]
    refine List.rel_append (mapM_eq_ok_iff.mp hfixed) ?_
    rw [List.forall₂_map_left_iff]
    exact hplain
  rw [LinearProgram.ofModel_eq hm, ← m.assemble_append]
  exact bind_eq_ok.mpr ⟨_, hrows, bind_eq_ok.mpr ⟨form, hform, rfl⟩⟩

omit [Scalar.Neutral K] in
/-- **The expanded working model** of a model without policies has the program of the model, if the objective is linear. -/
theorem expanded_of_linear (hm : m.OverColumns) (haffine : ∀ p ∈ m.affine, p.2 = []) (he : m.objective = .linear e)
    (hd : e.normalized = .ok d) (hfixed : m.constraints.mapM (Constraint.tableRow naming) = .ok fixed) {mixed : List (MixedRow K B)}
    (hmixed : m.uncertain.zipIdx.mapM (fun c => WorkingModel.mixedRowOf naming m c.1 c.2) = .ok mixed) :
    ∃ wm : WorkingModel K B, (WorkingModel.ofModel naming m >>= (Expander.ofModel m).apply) = .ok wm
      ∧ wm.program = m.assemble fixed d.form ∧ wm.rows = mixed := by
  let objective : MixedForm K :=
    { linear := d.terms.map fun t => (t.1.index, .ofConstant t.2), constant := .ofConstant d.constant }
  let program := m.columnsOnly.grow [] fixed
  let wm : WorkingModel K B :=
    { program := { program with objective := { program.objective with sense := m.sense } }
      rows := mixed, objective, userColumns := m.decisions.length }
  have hform : m.objective.mixedForm = .ok objective := by
    rw [he]
    exact Expr.mixedForm_linear hd
  have hwm : WorkingModel.ofModel naming m = .ok wm := by
    rw [WorkingModel.ofModel_eq hm]
    exact bind_eq_ok.mpr ⟨_, hfixed, bind_eq_ok.mpr ⟨_, hmixed, bind_eq_ok.mpr ⟨_, mapError_eq_ok.mpr hform, rfl⟩⟩⟩
  have hcertain : objective.isDeterministic = true :=
    Bool.and_eq_true_iff.mpr ⟨rfl, List.all_eq_true.mpr (List.forall_mem_map.mpr fun _ _ => rfl)⟩
  have hcolumns : ∀ t ∈ objective.linear, t.1 < wm.program.numColumns := by
    have hnum : wm.program.numColumns = m.decisions.length := m.numColumns_grow fixed
    rw [hnum]
    exact hm.objective.of_mixedForm hform
  have hterms : objective.linear.map (fun t => (t.1, t.2.constant)) = d.form.linear := List.map_map
  refine ⟨_, bind_eq_ok.mpr ⟨wm, hwm, Expander.apply_of_certain (policies_of_forall_nil haffine) hcertain hcolumns⟩, ?_, rfl⟩
  dsimp only [wm]
  rw [hterms]
  rfl

end

omit [Scalar.Neutral K] in
/-- A working model with the program of a model says what programs can say, if this is so for each of its mixed rows. -/
theorem Sound.exists_plain (hm : m.Sound self) {fixed : List (TableRow K B)} {form : Form K} {wm : WorkingModel K B}
    (hform : Quantity.linearForm naming (.expr m.objective) = .ok form)
    (hfixed : m.constraints.mapM (Constraint.tableRow naming) = .ok fixed) (hprogram : wm.program = m.assemble fixed form)
    (hrows : List.Forall₂ (fun c r => ∃ t s, r.Renders naming m.decisions.length c.1.1 t s) m.uncertain.zipIdx wm.rows) :
    ∃ p rows plain, m.Plain naming wm p rows plain := by
  -- each mixed row stands between its constraint and a pair of rows
  obtain ⟨pairs, hnames, hbecomes⟩ := exists_forall₂ (γ := TableRow K B × TableRow K B)
    (S := fun c q => c.1.1.text naming = .ok q.1.name ∧ c.1.1.withoutParameters.tableRow naming = .ok q.2 ∧ q.1.Same q.2)
    (T := fun r q => r.Becomes m.decisions.length q.1) hrows
    fun c r ⟨t, s, h⟩ => ⟨(t, s), ⟨h.name, h.struck, h.same⟩, h.becomes⟩
  have hnum : (m.assemble fixed form).numColumns = m.decisions.length := m.numColumns_grow fixed
  refine ⟨m.assemble fixed form, pairs.map (·.1), pairs.map (·.2), ?_⟩
  exact {
    program := by
      rw [LinearProgram.ofModel_eq hm.overColumns]
      exact bind_eq_ok.mpr ⟨fixed, hfixed, bind_eq_ok.mpr ⟨form, hform, rfl⟩⟩
    struck := ofModel_withoutParameters hm.overColumns_withoutParameters hform hfixed
      (forall₂_of_zipIdx (List.forall₂_map_right_iff.mpr (hnames.imp fun _ _ h => h.2.1)))
    working := hprogram
    aligned := m.aligned_grow fixed
    becomes := by
      rw [hnum, List.forall₂_map_right_iff]
      exact hbecomes
    names := forall₂_of_zipIdx (List.forall₂_map_right_iff.mpr (hnames.imp fun _ _ h => h.1))
    same := by
      rw [List.forall₂_map_left_iff, List.forall₂_map_right_iff, List.forall₂_same]
      intro q hq
      obtain ⟨c, -, -, -, hsame⟩ := exists_left_of_forall₂ hnames hq
      exact hsame }

/-- **The expanded working model of a model whose parameters cancel** says no more than programs can say, unless a sum fails. -/
theorem Sound.calculates_expanded (hm : m.Sound self) (naming : Naming) (hobjective : m.objective.kind = .linear)
    (haffine : ∀ p ∈ m.affine, p.2 = []) (hnumbered : ∀ c ∈ m.uncertain, c.1.body.Numbered)
    (hcancel : ∀ c ∈ m.uncertain, c.1.body.ParametersCancel) :
    Calculates K (WorkingModel.ofModel naming m >>= (Expander.ofModel m).apply) fun wm => ∃ p rows plain,
      m.Plain naming wm p rows plain := by
  have hover := hm.overColumns
  obtain ⟨e, he⟩ := Expr.exists_of_kind_linear hobjective
  have hfixed : Calculates K (m.constraints.mapM (Constraint.tableRow naming)) (List.Forall₂ (fun _ _ => True) m.constraints) :=
    .mapM fun c hc => Constraint.calculates_tableRow naming (hm.constraints c hc).2
  have hmixed : Calculates K (m.uncertain.zipIdx.mapM fun c => WorkingModel.mixedRowOf naming m c.1 c.2)
      (List.Forall₂ (fun c r => ∃ t s, r.Renders naming m.decisions.length c.1.1 t s) m.uncertain.zipIdx) := by
    refine .mapM fun c hc => ?_
    have hc := List.fst_mem_of_mem_zipIdx hc
    exact WorkingModel.calculates_mixedRowOf naming m c.2 (hm.uncertain _ hc).2 (hnumbered _ hc) (hcancel _ hc)
      fun v hv => ((hm.uncertain _ hc).1.decisions v hv).2
  -- the parts that are made first decide which sum fails
  rcases hfixed with ⟨fixed, hfixed, -⟩ | ⟨f, hf, hsum⟩
  case inr => exact .inr ⟨f, by rw [WorkingModel.ofModel_eq hover, hf]; rfl, hsum⟩
  rcases hmixed with ⟨mixed, hmixed, hrows⟩ | ⟨f, hf, hsum⟩
  case inr => exact .inr ⟨f, by rw [WorkingModel.ofModel_eq hover, hfixed, hf]; rfl, hsum⟩
  cases hd : e.normalized with
  | error f =>
    have hform : m.objective.mixedForm = .error f := by
      rw [he]
      exact bind_eq_error.mpr (.inl (bind_eq_error.mpr (.inl hd)))
    exact .inr ⟨f, by rw [WorkingModel.ofModel_eq hover, hfixed, hmixed, hform]; rfl, Affine.sumFails_of_normalized hd⟩
  | ok d =>
    have hlinear : Quantity.linearForm naming (.expr m.objective) = .ok d.form := by
      rw [he]
      exact Quantity.linearForm_linear naming hd
    obtain ⟨wm, hwm, hprogram, rfl⟩ := expanded_of_linear hover haffine he hd hfixed hmixed
    exact .inl ⟨wm, hwm, hm.exists_plain hlinear hfixed hprogram hrows⟩

end Model

end RobustLP
