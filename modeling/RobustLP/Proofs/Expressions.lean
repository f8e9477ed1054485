import RobustLP.Expr.Algebra
import RobustLP.Proofs.Working

/-!
# Values of expressions

An expression has a value for each choice of numbers for its variables and parameters (`Expr.value`). Evaluating computes it
(`Expr.evaluate_eq_ok_iff`), and the forms over positions have the same value (`Expr.mixedForm_spec`, `linearForm_spec`,
`uncertainForm_spec`): in exact arithmetic no sum fails, and normalising loses nothing.

Symbols are read by their positions in the tables of one model.
-/

namespace RobustLP

/-! ## Affine expressions -/

namespace Affine

variable {S : Type} [Symbol S]

/-- The positions of the symbols. -/
def positions (e : Affine S Rat) : List Nat := e.terms.map fun t => Symbol.index t.1

/-- The value for given numbers of the symbols. -/
def value (v : Nat → Rat) (e : Affine S Rat) : Rat :=
  (e.terms.map fun t => t.2 * v (Symbol.index t.1)).sum + e.constantParts.sum

omit [Symbol S] in
theorem exactConstant_eq (e : Affine S Rat) : e.exactConstant = .ok e.constantParts.sum := by
  unfold exactConstant constantParts
  cases e.parts with
  | none => exact congrArg Except.ok List.sum_singleton.symm
  | some parts => rfl

/-- The value depends on the symbols that occur only. -/
theorem value_congr {e : Affine S Rat} {v w : Nat → Rat} (h : ∀ k ∈ e.positions, v k = w k) : e.value v = e.value w := by
  unfold value
  rw [List.map_congr_left fun t ht => by rw [h _ (List.mem_map_of_mem ht)]]

/-- **Evaluating answers the value,** provided that every symbol has a number. -/
theorem evaluate_eq_ok_iff {U : Lookup Rat} {e : Affine S Rat} {q : Rat} :
    e.evaluate (fun s => U (Symbol.index s)) = .ok q ↔ (∀ k ∈ e.positions, ∃ a, U k = .ok a) ∧ q = e.value U.number := by
  have key : ∀ t : S × Rat, ∀ a, U (Symbol.index t.1) = .ok a →
      (do return t.2 * (← U (Symbol.index t.1)) : Except Fault Rat) = .ok (t.2 * U.number (Symbol.index t.1)) := by
    intro t a ha
    rw [Lookup.number_eq_of_ok ha, ha]
    rfl
  have hsum : ∀ products : List Rat, Scalar.sum (products ++ e.constantParts)
      = .ok (products.sum + e.constantParts.sum) := fun products => congrArg Except.ok List.sum_append
  unfold evaluate
  constructor
  · intro h
    obtain ⟨products, hp, h⟩ := bind_eq_ok.mp h
    have hall : ∀ t ∈ e.terms, ∃ a, U (Symbol.index t.1) = .ok a := by
      intro t ht
      obtain ⟨b, hb⟩ := exists_mapM_ok_iff.mp ⟨products, hp⟩ t ht
      obtain ⟨a, ha, -⟩ := bind_eq_ok.mp hb
      exact ⟨a, ha⟩
    refine ⟨List.forall_mem_map.mpr hall, ?_⟩
    rw [mapM_ok_map fun t ht => key t _ (hall t ht).choose_spec] at hp
    cases hp
    exact (Except.ok.inj ((hsum _).symm.trans h)).symm
  · rintro ⟨hall, rfl⟩
    rw [mapM_ok_map fun t ht => key t _ (List.forall_mem_map.mp hall t ht).choose_spec]
    exact hsum _

/-! ### Normal forms -/

/-- The terms of a normal form: one for each symbol, without those that are zero. -/
def collapsed (terms : List (S × Rat)) : List (S × Rat) :=
  ((gather Symbol.index terms).map fun p => (p.1, p.2.sum)).filter fun t => !Scalar.isZero t.2

theorem collapse_eq (terms : List (S × Rat)) : collapse terms = .ok (collapsed terms) := by
  have hcoefs : ∀ cs : List Rat, sumCoefs cs = .ok cs.sum := by
    intro cs
    unfold sumCoefs
    split
    next c => exact congrArg Except.ok List.sum_singleton.symm
    next => rfl
  unfold collapse
  rw [mapM_ok_map (g := fun p => (p.1, p.2.sum)) fun p _ => ?_]
  · rfl
  · show (do return (p.1, ← sumCoefs p.2)) = _
    rw [hcoefs]
    rfl

/-- What an affine expression is normalised to. -/
def normalForm (e : Affine S Rat) : Affine S Rat :=
  { terms := collapsed e.terms, constant := e.constantParts.sum, owner := e.owner }

theorem normalized_eq (e : Affine S Rat) : e.normalized = .ok e.normalForm := by
  unfold normalized
  rw [collapse_eq, exactConstant_eq]
  rfl

theorem sum_collapsed (v : Nat → Rat) (terms : List (S × Rat)) :
    ((collapsed terms).map fun t => t.2 * v (Symbol.index t.1)).sum
      = (terms.map fun t => t.2 * v (Symbol.index t.1)).sum := by
  have hgather := sum_gather Symbol.index (id : Rat → Rat) (fun s : S => v (Symbol.index s)) (fun _ _ => congrArg v) terms
  simp only [List.map_id, id] at hgather
  rw [collapsed, MixedForm.sum_filter_isZero fun s : S => v (Symbol.index s), List.map_map, ← hgather]
  rfl

theorem value_normalForm (v : Nat → Rat) (e : Affine S Rat) : e.normalForm.value v = e.value v := by
  have hconstant : e.normalForm.constantParts.sum = e.constantParts.sum := List.sum_singleton
  rw [value, hconstant, normalForm, sum_collapsed]
  rfl

/-- A symbol of the normal form occurs in the expression. -/
theorem mem_positions_normalForm {e : Affine S Rat} {k : Nat} (h : k ∈ e.normalForm.positions) : k ∈ e.positions := by
  obtain ⟨t, ht, rfl⟩ := List.mem_map.mp h
  obtain ⟨p, hp, rfl⟩ := List.mem_map.mp (List.mem_filter.mp ht).1
  obtain ⟨c, hc⟩ := exists_mem_of_mem_gather Symbol.index hp
  exact List.mem_map.mpr ⟨(p.1, c), hc, rfl⟩

theorem nodup_positions_normalForm (e : Affine S Rat) : e.normalForm.positions.Nodup := by
  have hsums : ((gather Symbol.index e.terms).map fun p => (p.1, p.2.sum)).Pairwise
      fun s t => Symbol.index s.1 ≠ Symbol.index t.1 := List.pairwise_map.mpr (pairwise_gather Symbol.index e.terms)
  rw [positions, List.Nodup, List.pairwise_map]
  exact hsums.filter _

/-- An expression whose normal form has no symbols has the same value everywhere. -/
theorem value_eq_constant {e : Affine S Rat} (h : e.normalForm.terms.isEmpty = true) (v : Nat → Rat) :
    e.value v = e.normalForm.constant := by
  have hparts : e.normalForm.constantParts.sum = e.normalForm.constant := List.sum_singleton
  rw [← value_normalForm, value, hparts, List.isEmpty_iff.mp h]
  exact zero_add _

/-! ### Forms -/

theorem value_form_normalForm (v : Nat → Rat) (e : Affine S Rat) : e.normalForm.form.value v = e.value v := by
  have hconstant : e.normalForm.constant = e.normalForm.constantParts.sum := List.sum_singleton.symm
  rw [← value_normalForm, Form.value, form, hconstant, List.map_map]
  rfl

theorem keys_form (e : Affine S Rat) : keys e.form.linear = e.positions := by
  rw [keys, form, List.map_map]
  rfl

theorem tabular_form_normalForm (e : Affine S Rat) : e.normalForm.form.Tabular := by
  have hkeys := keys_form e.normalForm
  rw [keys] at hkeys
  rw [Form.Tabular, hkeys]
  exact nodup_positions_normalForm e

theorem mem_form_normalForm {e : Affine S Rat} {t : Nat × Rat} (ht : t ∈ e.normalForm.form.linear) : t.1 ∈ e.positions :=
  mem_positions_normalForm (keys_form e.normalForm ▸ mem_keys ht)

end Affine

/-! ## Full expressions -/

namespace Full

/-- The positions of the variables. -/
def columns (e : Full Rat) : List Nat := e.terms.map fun t => t.1.index

/-- The positions of the parameters. -/
def positions (e : Full Rat) : List Nat := e.constant.positions ++ e.terms.flatMap fun t => t.2.positions

theorem mem_positions {e : Full Rat} {k : Nat} :
    k ∈ e.positions ↔ k ∈ e.constant.positions ∨ ∃ t ∈ e.terms, k ∈ t.2.positions := by
  rw [positions, List.mem_append, List.mem_flatMap]

/-- The value for given numbers of the variables and parameters. -/
def value (x u : Nat → Rat) (e : Full Rat) : Rat :=
  (e.terms.map fun t => t.2.value u * x t.1.index).sum + e.constant.value u

/-- The expression in the variables when the parameters have given numbers. -/
def fixed (u : Nat → Rat) (e : Full Rat) : Affine Variable Rat :=
  { terms := e.terms.map fun t => (t.1, t.2.value u), constant := e.constant.value u, owner := e.owner }

theorem value_fixed (x u : Nat → Rat) (e : Full Rat) : (e.fixed u).value x = e.value x u := by
  have hconstant : (e.fixed u).constantParts.sum = e.constant.value u := List.sum_singleton
  rw [Affine.value, hconstant, fixed, List.map_map]
  rfl

theorem specialize_eq_ok_iff {U : Lookup Rat} {e : Full Rat} {g : Affine Variable Rat} :
    e.specialize (fun k => U k.index) = .ok g ↔ (∀ k ∈ e.positions, ∃ a, U k = .ok a) ∧ g = e.fixed U.number := by
  have key : (∀ k ∈ e.positions, ∃ a, U k = .ok a) → e.specialize (fun k => U k.index) = .ok (e.fixed U.number) := by
    intro hall
    have hconstant : e.constant.evaluate (fun k => U k.index) = .ok (e.constant.value U.number) :=
      Affine.evaluate_eq_ok_iff.mpr ⟨fun k hk => hall k (mem_positions.mpr (.inl hk)), rfl⟩
    have hterms : e.terms.mapM (fun t => (do return (t.1, ← t.2.evaluate fun k => U k.index) : Except Fault _))
        = .ok (e.terms.map fun t => (t.1, t.2.value U.number)) := by
      refine mapM_ok_map fun t ht => ?_
      have hcoef : t.2.evaluate (fun k => U k.index) = .ok (t.2.value U.number) :=
        Affine.evaluate_eq_ok_iff.mpr ⟨fun k hk => hall k (mem_positions.mpr (.inr ⟨t, ht, hk⟩)), rfl⟩
      rw [hcoef]
      rfl
    unfold specialize
    rw [hterms, hconstant]
    rfl
  constructor
  · intro h
    have hall : ∀ k ∈ e.positions, ∃ a, U k = .ok a := by
      obtain ⟨terms, hterms, h⟩ := bind_eq_ok.mp h
      obtain ⟨c, hc, -⟩ := bind_eq_ok.mp h
      intro k hk
      rcases mem_positions.mp hk with hk | ⟨t, ht, hk⟩
      · exact (Affine.evaluate_eq_ok_iff.mp hc).1 k hk
      · obtain ⟨b, hb⟩ := exists_mapM_ok_iff.mp ⟨terms, hterms⟩ t ht
        obtain ⟨a, ha, -⟩ := bind_eq_ok.mp hb
        exact (Affine.evaluate_eq_ok_iff.mp ha).1 k hk
    rw [key hall] at h
    cases h
    exact ⟨hall, rfl⟩
  · rintro ⟨hall, rfl⟩
    exact key hall

/-- **Evaluating answers the value,** provided that every variable and every parameter has a number. -/
theorem evaluate_eq_ok_iff {U X : Lookup Rat} {e : Full Rat} {q : Rat} :
    e.evaluate (fun k => U k.index) (fun v => X v.index) = .ok q ↔ ((∀ j ∈ e.columns, ∃ a, X j = .ok a)
      ∧ ∀ k ∈ e.positions, ∃ a, U k = .ok a) ∧ q = e.value X.number U.number := by
  have hcolumns : (e.fixed U.number).positions = e.columns := by
    rw [Affine.positions, fixed, List.map_map]
    rfl
  unfold evaluate
  rw [bind_eq_ok]
  constructor
  · rintro ⟨g, hg, hq⟩
    obtain ⟨hparameters, rfl⟩ := specialize_eq_ok_iff.mp hg
    obtain ⟨hall, rfl⟩ := Affine.evaluate_eq_ok_iff.mp hq
    exact ⟨⟨hcolumns ▸ hall, hparameters⟩, value_fixed _ _ _⟩
  · rintro ⟨⟨hall, hparameters⟩, rfl⟩
    exact ⟨_, specialize_eq_ok_iff.mpr ⟨hparameters, rfl⟩,
      Affine.evaluate_eq_ok_iff.mpr ⟨hcolumns.symm ▸ hall, (value_fixed _ _ _).symm⟩⟩

/-! ### Normal forms -/

/-- The sum of several coefficients, normalised. -/
def formSum (owner : Option ModelId) (forms : List (Affine Parameter Rat)) : Affine Parameter Rat :=
  Affine.normalForm
    { terms := forms.flatMap (·.terms), constant := 0, parts := some (forms.flatMap (·.constantParts)), owner }

theorem value_formSum (u : Nat → Rat) (owner : Option ModelId) (forms : List (Affine Parameter Rat)) :
    (formSum owner forms).value u = (forms.map fun f => f.value u).sum := by
  have hvalue : (formSum owner forms).value u = ((forms.flatMap (·.terms)).map fun t => t.2 * u (Symbol.index t.1)).sum
      + (forms.flatMap (·.constantParts)).sum := Affine.value_normalForm u _
  rw [hvalue]
  clear hvalue
  induction forms with
  | nil => exact add_zero 0
  | cons f forms ih =>
    rw [List.flatMap_cons, List.flatMap_cons, List.map_append, List.sum_append, List.sum_append, List.map_cons,
      List.sum_cons, ← ih, Affine.value]
    ring

/-- The coefficients of a normal form. -/
def sums (e : Full Rat) : List (Variable × Affine Parameter Rat) :=
  (gather Variable.index e.terms).map fun p => (p.1, formSum e.owner p.2)

/-- What a full expression is normalised to. -/
def normalForm (e : Full Rat) : Full Rat :=
  { terms := e.sums.filter fun t => !isZeroForm t.2, constant := e.constant.normalForm, owner := e.owner }

theorem normalized_eq (e : Full Rat) : e.normalized = .ok e.normalForm := by
  unfold normalized
  rw [mapM_ok_map (g := fun p => (p.1, formSum e.owner p.2)) fun p _ => ?_, Affine.normalized_eq]
  · rfl
  · show (do return (p.1, ← sumForms e.owner p.2)) = _
    rw [sumForms, Affine.normalized_eq]
    rfl

/-- A coefficient of a normal form that is zero has no value. -/
theorem value_of_isZeroForm {f : Affine Parameter Rat} (h : isZeroForm f.normalForm = true) (u : Nat → Rat) :
    f.normalForm.value u = 0 := by
  obtain ⟨hterms, hconstant⟩ := Bool.and_eq_true_iff.mp h
  rw [Affine.value_normalForm, Affine.value_eq_constant hterms, isZero_iff.mp hconstant]

theorem value_normalForm (x u : Nat → Rat) (e : Full Rat) : e.normalForm.value x u = e.value x u := by
  have hzero : ∀ t ∈ e.sums, (!isZeroForm t.2) = false → t.2.value u * x t.1.index = 0 := by
    intro t ht hz
    obtain ⟨p, -, rfl⟩ := List.mem_map.mp ht
    have hvalue : (formSum e.owner p.2).value u = 0 := value_of_isZeroForm ((Bool.not_eq_false' _).mp hz) u
    rw [hvalue, zero_mul]
  have hgather := sum_gather Variable.index (fun f : Affine Parameter Rat => f.value u) (fun v => x v.index)
    (fun _ _ => congrArg x) e.terms
  rw [value, normalForm, sum_map_filter hzero, Affine.value_normalForm, sums, List.map_map, value, ← hgather]
  simp only [Function.comp_def, value_formSum]

theorem mem_columns_normalForm {e : Full Rat} {j : Nat} (h : j ∈ e.normalForm.columns) : j ∈ e.columns := by
  obtain ⟨t, ht, rfl⟩ := List.mem_map.mp h
  obtain ⟨p, hp, rfl⟩ := List.mem_map.mp (List.mem_filter.mp ht).1
  obtain ⟨c, hc⟩ := exists_mem_of_mem_gather Variable.index hp
  exact List.mem_map.mpr ⟨(p.1, c), hc, rfl⟩

theorem nodup_columns_normalForm (e : Full Rat) : e.normalForm.columns.Nodup := by
  have hsums : e.sums.Pairwise fun s t => s.1.index ≠ t.1.index :=
    List.pairwise_map.mpr (pairwise_gather Variable.index e.terms)
  rw [columns, List.Nodup, List.pairwise_map]
  exact hsums.filter _

theorem mem_positions_normalForm {e : Full Rat} {k : Nat} (h : k ∈ e.normalForm.positions) : k ∈ e.positions := by
  rcases mem_positions.mp h with hk | ⟨t, ht, hk⟩
  · exact mem_positions.mpr (.inl (Affine.mem_positions_normalForm hk))
  · obtain ⟨p, hp, rfl⟩ := List.mem_map.mp (List.mem_filter.mp ht).1
    obtain ⟨t, ht, rfl⟩ := List.mem_map.mp (Affine.mem_positions_normalForm hk)
    obtain ⟨f, hf, ht⟩ := List.mem_flatMap.mp ht
    obtain ⟨v, hv⟩ := exists_mem_of_mem_gathered Variable.index hf hp
    exact mem_positions.mpr (.inr ⟨(v, f), hv, List.mem_map_of_mem ht⟩)

/-- The coefficients of a normal form are normal forms. -/
theorem exists_normalForm_of_mem {e : Full Rat} {t : Variable × Affine Parameter Rat} (ht : t ∈ e.normalForm.terms) :
    ∃ f : Affine Parameter Rat, t.2 = f.normalForm := by
  obtain ⟨p, -, rfl⟩ := List.mem_map.mp (List.mem_filter.mp ht).1
  exact ⟨_, rfl⟩

end Full

/-! ## Expressions of any kind -/

namespace Expr

/-- The positions of the variables. -/
def columns : Expr Rat → List Nat
  | linear e => e.positions
  | uncertain _ => []
  | full e => e.columns

/-- The positions of the parameters. -/
def positions : Expr Rat → List Nat
  | linear _ => []
  | uncertain e => e.positions
  | full e => e.positions

/-- The value for given numbers of the variables and parameters. -/
def value (x u : Nat → Rat) : Expr Rat → Rat
  | linear e => e.value x
  | uncertain e => e.value u
  | full e => e.value x u

/-- The value depends on the variables that occur only. -/
theorem value_congr {e : Expr Rat} {x y : Nat → Rat} (h : ∀ j ∈ e.columns, x j = y j) (u : Nat → Rat) :
    e.value x u = e.value y u := by
  cases e with
  | linear e => exact Affine.value_congr h
  | uncertain e => rfl
  | full e =>
    have hterms : ∀ t ∈ e.terms, t.2.value u * x t.1.index = t.2.value u * y t.1.index :=
      fun t ht => congrArg _ (h _ (List.mem_map_of_mem ht))
    rw [value, value, Full.value, Full.value, List.map_congr_left hterms]

/-- **Evaluating answers the value,** provided that every symbol has a number. -/
theorem evaluate_eq_ok_iff {U X : Lookup Rat} {e : Expr Rat} {q : Rat} :
    e.evaluate (fun k => U k.index) (fun v => X v.index) = .ok q ↔ ((∀ j ∈ e.columns, ∃ a, X j = .ok a)
      ∧ ∀ k ∈ e.positions, ∃ a, U k = .ok a) ∧ q = e.value X.number U.number := by
  have hnone : ∀ {V : Lookup Rat}, ∀ k ∈ ([] : List Nat), ∃ a, V k = .ok a := fun k hk => absurd hk List.not_mem_nil
  cases e with
  | linear e =>
    refine (Affine.evaluate_eq_ok_iff (U := X)).trans (and_congr_left fun _ => ?_)
    exact ⟨fun h => ⟨h, hnone⟩, fun h => h.1⟩
  | uncertain e =>
    refine (Affine.evaluate_eq_ok_iff (U := U)).trans (and_congr_left fun _ => ?_)
    exact ⟨fun h => ⟨hnone, h⟩, fun h => h.2⟩
  | full e => exact Full.evaluate_eq_ok_iff

/-! ### Forms -/

/-- A mixed form that says the same as an expression. -/
structure HasForm (e : Expr Rat) (f : MixedForm Rat) : Prop where
  tabular : f.Tabular
  columns : ∀ t ∈ f.linear, t.1 ∈ e.columns
  positions : ∀ k ∈ f.parameters, k ∈ e.positions
  value : ∀ x u, f.value x u = e.value x u

/-- A normal form of full kind, as mixed form. -/
def fullForm (n : Full Rat) : MixedForm Rat :=
  { linear := n.terms.map fun t => (t.1.index, t.2.form), constant := n.constant.form }

theorem hasForm_full (e : Full Rat) : (full e).HasForm (fullForm e.normalForm) where
  tabular := by
    refine ⟨?_, fun t ht => ?_, e.constant.tabular_form_normalForm⟩
    · rw [fullForm, List.map_map]
      exact e.nodup_columns_normalForm
    · obtain ⟨t, hmem, rfl⟩ := List.mem_map.mp ht
      obtain ⟨f, hf⟩ := Full.exists_normalForm_of_mem hmem
      rw [hf]
      exact f.tabular_form_normalForm
  columns t ht := by
    obtain ⟨t, hmem, rfl⟩ := List.mem_map.mp ht
    exact Full.mem_columns_normalForm (List.mem_map_of_mem hmem)
  positions k hk := by
    refine Full.mem_positions_normalForm (Full.mem_positions.mpr ?_)
    rcases MixedForm.mem_parameters.mp hk with ⟨t, ht, rfl⟩ | ⟨c, hc, t, ht, rfl⟩
    · exact .inl (Affine.keys_form e.normalForm.constant ▸ mem_keys ht)
    · obtain ⟨c, hmem, rfl⟩ := List.mem_map.mp hc
      exact .inr ⟨c, hmem, Affine.keys_form c.2 ▸ mem_keys ht⟩
  value x u := by
    have hterms : ∀ t ∈ e.normalForm.terms, t.2.form.value u * x t.1.index = t.2.value u * x t.1.index := by
      intro t ht
      obtain ⟨f, hf⟩ := Full.exists_normalForm_of_mem ht
      rw [hf, Affine.value_form_normalForm, Affine.value_normalForm]
    have hconstant : (fullForm e.normalForm).constant.value u = e.normalForm.constant.value u := by
      rw [fullForm]
      exact (Affine.value_form_normalForm u e.constant).trans (Affine.value_normalForm u e.constant).symm
    rw [Expr.value, ← Full.value_normalForm, MixedForm.value, hconstant, fullForm, List.map_map, Full.value]
    congr 2
    exact List.map_congr_left hterms

/-- A form in the variables, as mixed form. -/
def certainForm (f : Form Rat) : MixedForm Rat :=
  { linear := f.linear.map fun t => (t.1, .ofConstant t.2), constant := .ofConstant f.constant }

theorem hasForm_linear (e : Affine Variable Rat) : (linear e).HasForm (certainForm e.normalForm.form) where
  tabular := by
    refine ⟨?_, fun t ht => ?_, Form.tabular_ofConstant _⟩
    · rw [certainForm, List.map_map]
      exact e.tabular_form_normalForm
    · obtain ⟨t, -, rfl⟩ := List.mem_map.mp ht
      exact Form.tabular_ofConstant _
  columns t ht := by
    obtain ⟨t, hmem, rfl⟩ := List.mem_map.mp ht
    exact Affine.mem_form_normalForm hmem
  positions k hk := by
    rcases MixedForm.mem_parameters.mp hk with ⟨t, ht, -⟩ | ⟨c, hc, t, ht, -⟩
    · cases ht
    · obtain ⟨c, -, rfl⟩ := List.mem_map.mp hc
      cases ht
  value x u := by
    rw [Expr.value, ← Affine.value_form_normalForm, MixedForm.value, certainForm, List.map_map, Form.value_ofConstant]
    simp only [Function.comp_def, Form.value_ofConstant]
    rfl

theorem hasForm_uncertain (e : Affine Parameter Rat) : (uncertain e).HasForm { constant := e.normalForm.form } where
  tabular := ⟨List.nodup_nil, fun t ht => absurd ht List.not_mem_nil, e.tabular_form_normalForm⟩
  columns t ht := absurd ht List.not_mem_nil
  positions k hk := by
    rcases MixedForm.mem_parameters.mp hk with ⟨t, ht, rfl⟩ | ⟨c, hc, -⟩
    · exact Affine.mem_form_normalForm ht
    · cases hc
  value x u := by
    rw [Expr.value, ← Affine.value_form_normalForm]
    exact zero_add _

/-- What an expression is normalised to. -/
def normalForm : Expr Rat → Expr Rat
  | linear e => linear e.normalForm
  | uncertain e => uncertain e.normalForm
  | full e => full e.normalForm

theorem normalized_eq (e : Expr Rat) : e.normalized = .ok e.normalForm := by
  unfold normalized
  cases e with
  | linear e =>
    dsimp only
    rw [Affine.normalized_eq]
    rfl
  | uncertain e =>
    dsimp only
    rw [Affine.normalized_eq]
    rfl
  | full e =>
    dsimp only
    rw [Full.normalized_eq]
    rfl

/-- **The mixed form of an expression** says the same as the expression. -/
theorem exists_mixedForm (e : Expr Rat) : ∃ f, e.mixedForm = .ok f ∧ e.HasForm f := by
  unfold mixedForm
  rw [normalized_eq]
  cases e with
  | linear e =>
    refine ⟨_, ?_, hasForm_linear e⟩
    rw [certainForm, Affine.form, List.map_map]
    rfl
  | uncertain e => exact ⟨_, rfl, hasForm_uncertain e⟩
  | full e => exact ⟨_, rfl, hasForm_full e⟩

/-- **The form in the variables** says the same as an expression that has one. -/
theorem linearForm_spec [Written Rat] {naming : Naming} {e : Expr Rat} {f : Form Rat}
    (h : Quantity.linearForm naming (.expr e) = .ok f) :
    f.Tabular ∧ (∀ t ∈ f.linear, t.1 ∈ e.columns) ∧ ∀ x u, f.value x = e.value x u := by
  unfold Quantity.linearForm at h
  dsimp only at h
  rw [normalized_eq] at h
  cases e with
  | linear e =>
    cases h
    exact ⟨e.tabular_form_normalForm, fun t ht => Affine.mem_form_normalForm ht, fun x u => e.value_form_normalForm x⟩
  | uncertain e =>
    dsimp only [normalForm, Except.mapError, bind, Except.bind] at h
    split at h
    next hempty =>
      cases h
      refine ⟨Form.tabular_ofConstant _, fun t ht => absurd ht List.not_mem_nil, fun x u => ?_⟩
      rw [Expr.value, Affine.value_eq_constant hempty, Form.value_ofConstant]
    next => cases h
  | full e => cases h

/-- **The form in the parameters** says the same as an expression that has one. -/
theorem uncertainForm_spec [Written Rat] {naming : Naming} {e : Expr Rat} {f : Form Rat}
    (h : Quantity.uncertainForm naming (.expr e) = .ok f) :
    f.Tabular ∧ (∀ t ∈ f.linear, t.1 ∈ e.positions) ∧ ∀ x u, f.value u = e.value x u := by
  unfold Quantity.uncertainForm at h
  dsimp only at h
  rw [normalized_eq] at h
  cases e with
  | uncertain e =>
    cases h
    exact ⟨e.tabular_form_normalForm, fun t ht => Affine.mem_form_normalForm ht, fun x u => e.value_form_normalForm u⟩
  | linear e =>
    dsimp only [normalForm, Except.mapError, bind, Except.bind] at h
    split at h
    next hempty =>
      cases h
      refine ⟨Form.tabular_ofConstant _, fun t ht => absurd ht List.not_mem_nil, fun x u => ?_⟩
      rw [Expr.value, Affine.value_eq_constant hempty, Form.value_ofConstant]
    next =>
      unfold describeError at h
      cases h
  | full e => cases h

end Expr

end RobustLP
