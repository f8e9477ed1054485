import RobustLP.Proofs.Expand.Rule

/-!
# Substituting in forms

Substituting the rules in a form gives a form whose value is that of the old one at the rules (`run_substitute`). The proof
follows the three loops: one product is added (`value_addProduct`), then all products of a column (`run_addProducts`), then
those of all adaptive columns of the form (`run_substituteVariables`). What carries the induction is that an added product
only touches columns behind the first `n`, so that the coefficients of the others are still those of the form that was given.

An adaptive column with an uncertain coefficient ends the substitution with an error, and nothing else does.
-/

namespace RobustLP

open ExtRat

/-! ## Computations that may be refused -/

/-- A computation succeeds, with a result as described, when a condition holds, and is refused as nonlinear when it does
not. -/
def Ends {σ α : Type} (P : Prop) (m : Edit σ α) (s : σ) (Q : α → σ → Prop) : Prop :=
  (P ∧ ∃ a s', m.run s = (.ok a, s') ∧ Q a s') ∨ (¬P ∧ ∃ err s', m.run s = (.error err, s') ∧ err.kind = .nonlinear)

section

variable {σ α β : Type} {P P' : Prop} {m : Edit σ α} {s s' : σ} {a : α} {Q : α → σ → Prop}

theorem Ends.of_ok (hP : P) (h : m.run s = (.ok a, s')) (hQ : Q a s') : Ends P m s Q := .inl ⟨hP, a, s', h, hQ⟩

/-- **A computation of two steps** succeeds when the conditions of both hold. -/
theorem Ends.bind {k : α → Edit σ β} {R : β → σ → Prop} (h : Ends P m s Q) (hk : ∀ a s', Q a s' → Ends P' (k a) s' R) :
    Ends (P ∧ P') (m >>= k) s R := by
  rcases h with ⟨hP, a, s', hrun, hQ⟩ | ⟨hP, err, s', hrun, hkind⟩
  · rcases hk a s' hQ with ⟨hP', b, s'', hrun', hR⟩ | ⟨hP', err, s'', hrun', hkind⟩
    · exact .inl ⟨⟨hP, hP'⟩, b, s'', by rw [Edit.run_bind_of_ok hrun, hrun'], hR⟩
    · exact .inr ⟨fun hboth => hP' hboth.2, err, s'', by rw [Edit.run_bind_of_ok hrun, hrun'], hkind⟩
  · exact .inr ⟨fun hboth => hP hboth.1, err, s', Edit.run_bind_of_error hrun, hkind⟩

/-- Changing the answer changes nothing else. -/
theorem Ends.map (g : α → β) (h : Ends P m s Q) :
    Ends P (m >>= fun a => pure (g a)) s fun b s' => ∃ a, b = g a ∧ Q a s' := by
  rcases h with ⟨hP, a, s', hrun, hQ⟩ | ⟨hP, err, s', hrun, hkind⟩
  · exact .inl ⟨hP, g a, s', Edit.run_bind_of_ok hrun, a, rfl, hQ⟩
  · exact .inr ⟨hP, err, s', Edit.run_bind_of_error hrun, hkind⟩

theorem Ends.mono {R : α → σ → Prop} (h : Ends P m s Q) (hR : P → ∀ a s', Q a s' → R a s') : Ends P m s R := by
  rcases h with ⟨hP, a, s', hrun, hQ⟩ | herror
  · exact .inl ⟨hP, a, s', hrun, hR hP a s' hQ⟩
  · exact .inr herror

theorem Ends.congr (h : Ends P m s Q) (hP : P ↔ P') : Ends P' m s Q := by
  rwa [← propext hP]

end

/-! ## Sums of products -/

namespace Form

theorem tabular_addTo {f : Form Rat} (h : f.Tabular) (k : Nat) (c : Rat) : (f.addTo k c).Tabular := by
  rw [Tabular, addTo_linear]
  exact nodup_upsert h

theorem value_addTo {f : Form Rat} (h : f.Tabular) (k : Nat) (c : Rat) (u : Nat → Rat) :
    (f.addTo k c).value u = f.value u + c * u k := by
  rw [value, value, addTo_linear, addTo_constant, sum_upsert _ h]
  cases lookup? k f.linear with
  | none =>
    simp only [Option.map_none, Option.getD_none, exact_zero]
    ring
  | some a =>
    simp only [Option.map_some, Option.getD_some]
    ring

end Form

namespace Expander

variable {e : Expander} {n : Nat}

/-- The coefficient of a column in a form, zero if there is none. -/
def entryAt (col : Nat) (f : MixedForm Rat) : Form Rat := (lookup? col f.linear).getD (.ofConstant 0)

theorem linear_addProduct (col k : Nat) (c : Rat) (f : MixedForm Rat) :
    (addProduct col k c f).linear = upsert col (fun _ => (entryAt col f).addTo k c) f.linear := by
  unfold addProduct entryAt lookup?
  cases f.linear.find? (·.1 == col) <;> rfl

theorem constant_addProduct (col k : Nat) (c : Rat) (f : MixedForm Rat) : (addProduct col k c f).constant = f.constant :=
  rfl

theorem tabular_entryAt {f : MixedForm Rat} (h : f.Tabular) (col : Nat) : (entryAt col f).Tabular := by
  unfold entryAt
  cases hlookup : lookup? col f.linear with
  | none => exact Form.tabular_ofConstant 0
  | some g => exact h.coefs _ (mem_of_lookup? hlookup)

/-- **What adding a product adds to the value.** -/
theorem value_addProduct {f : MixedForm Rat} (h : f.Tabular) (col k : Nat) (c : Rat) (x u : Nat → Rat) :
    (addProduct col k c f).value x u = f.value x u + c * (x col * u k) := by
  rw [MixedForm.value, linear_addProduct, constant_addProduct, sum_upsert _ h.columns,
    Form.value_addTo (tabular_entryAt h col), MixedForm.value, entryAt]
  cases lookup? col f.linear with
  | none =>
    simp only [Option.map_none, Option.getD_none, Form.value_ofConstant]
    ring
  | some g =>
    simp only [Option.map_some, Option.getD_some]
    ring

theorem tabular_addProduct {f : MixedForm Rat} (h : f.Tabular) (col k : Nat) (c : Rat) :
    (addProduct col k c f).Tabular where
  columns := by
    rw [linear_addProduct]
    exact nodup_upsert h.columns
  coefs := by
    rw [linear_addProduct]
    exact forall_mem_upsert h.columns h.coefs (Form.tabular_addTo (tabular_entryAt h col) k c)
  constant := h.constant

/-- An added product mentions its own parameter only. -/
theorem mem_parameters_addProduct {f : MixedForm Rat} (h : f.Tabular) {col k : Nat} {c : Rat} {i : Nat}
    (hi : i ∈ (addProduct col k c f).parameters) : i ∈ f.parameters ∨ i = k := by
  have hold : ∀ t ∈ f.linear, ∀ a ∈ t.2.linear, a.1 ∈ f.parameters ∨ a.1 = k :=
    fun t ht a ha => .inl (MixedForm.mem_parameters_of_mem_coef ht ha)
  have hnew : ∀ a ∈ ((entryAt col f).addTo k c).linear, a.1 ∈ f.parameters ∨ a.1 = k := by
    intro a ha
    rw [Form.addTo_linear] at ha
    rcases mem_keys_upsert.mp (mem_keys ha) with hk | hmem
    · exact .inr hk
    · unfold entryAt at hmem
      cases hlookup : lookup? col f.linear with
      | none =>
        rw [hlookup] at hmem
        cases hmem
      | some g =>
        rw [hlookup] at hmem
        obtain ⟨b, hb, hab⟩ := List.mem_map.mp hmem
        exact .inl (hab ▸ MixedForm.mem_parameters_of_mem_coef (mem_of_lookup? hlookup) hb)
  rcases MixedForm.mem_parameters.mp hi with ⟨a, ha, rfl⟩ | ⟨t, ht, a, ha, rfl⟩
  · exact .inl (MixedForm.mem_parameters_of_mem_constant ha)
  · rw [linear_addProduct] at ht
    exact forall_mem_upsert h.columns hold hnew t ht a ha

/-- A form into which products with auxiliary columns were added. -/
structure Extended (e : Expander) (n : Nat) (f f' : MixedForm Rat) (s' : WorkingModel Rat ExtRat) : Prop where
  fits : f'.Fits s'.program.numColumns
  old : ∀ i < n, lookup? i f'.linear = lookup? i f.linear
  parameters : ∀ k ∈ f'.parameters, k ∈ f.parameters ∨ e.Depends k

theorem Extended.refl {f : MixedForm Rat} {s : WorkingModel Rat ExtRat} (h : f.Fits s.program.numColumns) :
    e.Extended n f f s := ⟨h, fun _ _ => rfl, fun _ hk => .inl hk⟩

theorem Extended.addProduct {f f' : MixedForm Rat} {s s' : WorkingModel Rat ExtRat} (h : e.Extended n f f' s)
    (hgrows : Grows s s') {col : Nat} (hcol : n ≤ col ∧ col < s'.program.numColumns) {k : Nat} (hk : e.Depends k) (c : Rat) :
    e.Extended n f (addProduct col k c f') s' where
  fits := by
    refine ⟨tabular_addProduct h.fits.tabular col k c, ?_⟩
    rw [linear_addProduct]
    exact forall_mem_upsert h.fits.tabular.columns (h.fits.mono hgrows.numColumns_le).columns hcol.2
  old i hi := by
    rw [linear_addProduct]
    exact (lookup?_upsert_ne (hi.trans_le hcol.1).ne).trans (h.old i hi)
  parameters i hi := by
    rcases mem_parameters_addProduct h.fits.tabular hi with hi | rfl
    · exact h.parameters i hi
    · exact .inr hk

/-! ## One column -/

/-- **Adding the products of a column** for some of its parameters. -/
theorem run_addProducts (he : e.Fits n) {j : Nat} (had : e.isAdaptive j = true) (c : Rat) (f : MixedForm Rat) :
    ∀ {ks : List Nat} {f₁ : MixedForm Rat} {s : WorkingModel Rat ExtRat}, (∀ k ∈ ks, k ∈ e.dependsOn j) → e.AuxTable n s →
      e.Extended n f f₁ s → ∃ f₂ s', (ks.foldlM (fun f k => do return addProduct (← e.auxColumn j k) k c f) f₁).run s
          = (.ok f₂, s') ∧ Grows s s' ∧ e.AuxTable n s' ∧ e.Extended n f f₂ s'
        ∧ (∀ k ∈ ks, ∃ q ∈ s'.auxColumns, q.1 = (j, k))
        ∧ ∀ s'', Grows s' s'' → ∀ x u, f₂.value x u
          = f₁.value x u + c * (ks.map fun k => auxValue s''.auxColumns x j k * u k).sum
  | [], f₁, s, _, hs, hf => ⟨f₁, s, rfl, .refl s, hs, hf, fun k hk => absurd hk List.not_mem_nil, fun _ _ _ _ => by simp⟩
  | k :: ks, f₁, s, hks, hs, hf => by
    obtain ⟨col, s₁, hrun, hgrows, hs₁, hfind⟩ := run_auxColumn he hs had (hks k List.mem_cons_self)
    have hcol := hs₁.range _ (List.mem_of_find?_eq_some hfind)
    obtain ⟨p, hp, -, hkp⟩ := exists_policy (hks k List.mem_cons_self)
    obtain ⟨f₂, s₂, hrest, hgrows₂, hs₂, hf₂, hpairs, hvalue⟩ := run_addProducts he had c f
      (fun i hi => hks i (List.mem_cons_of_mem _ hi)) hs₁ (hf.addProduct hgrows hcol ⟨p, hp, hkp⟩ c)
    obtain ⟨more, hmore⟩ := hgrows₂.auxColumns
    refine ⟨f₂, s₂, ?_, hgrows.trans hgrows₂, hs₂, hf₂, List.forall_mem_cons.mpr ⟨⟨((j, k), col), ?_, rfl⟩, hpairs⟩,
      fun s'' hs'' x u => ?_⟩
    · have hfirst : (do return addProduct (← e.auxColumn j k) k c f₁ : Edit (WorkingModel Rat ExtRat) _).run s
          = (.ok (addProduct col k c f₁), s₁) := by
        rw [Edit.run_bind_of_ok hrun]
        rfl
      rw [List.foldlM_cons, Edit.run_bind_of_ok hfirst, hrest]
    · exact hmore ▸ List.mem_append_left _ (List.mem_of_find?_eq_some hfind)
    · rw [hvalue s'' hs'' x u, value_addProduct hf.fits.tabular, List.map_cons, List.sum_cons,
        (hgrows₂.trans hs'').auxValue_eq hfind]
      ring

/-- What a substitution that has come from `f₁` to `f₂` has added: the corrections of some entries. -/
structure Added (e : Expander) (n : Nat) (f f₁ : MixedForm Rat) (s : WorkingModel Rat ExtRat)
    (entries : List (Nat × Form Rat)) (f₂ : MixedForm Rat) (s' : WorkingModel Rat ExtRat) : Prop where
  grows : Grows s s'
  table : e.AuxTable n s'
  extended : e.Extended n f f₂ s'
  pairs : ∀ t ∈ entries, e.HasPairs s'.auxColumns t.1
  value : ∀ s'', Grows s' s'' → ∀ x u, f₂.value x u
    = f₁.value x u + (entries.map fun t => t.2.constant * e.correction s''.auxColumns x u t.1).sum

/-- **Substituting one column** adds its correction, unless its coefficient is uncertain. -/
theorem substituteVariable_ends (he : e.Fits n) (rowName : Option String) {f f₁ : MixedForm Rat} (hf : f.Fits n)
    {s : WorkingModel Rat ExtRat} (hs : e.AuxTable n s) (hf₁ : e.Extended n f f₁ s) {t : Nat × Form Rat} (ht : t ∈ f.linear)
    (had : e.isAdaptive t.1 = true) :
    Ends (t.2.isConstant = true) (e.substituteVariable rowName f₁ t.1) s (e.Added n f f₁ s [t]) := by
  have hlookup : lookup? t.1 f₁.linear = some t.2 :=
    (hf₁.old t.1 (hf.columns t ht)).trans (lookup?_of_mem hf.tabular.columns ht)
  obtain ⟨q, hfind, hq⟩ := Option.map_eq_some_iff.mp hlookup
  unfold substituteVariable
  rw [hfind]
  dsimp only
  rw [hq]
  cases hconstant : t.2.isConstant with
  | true =>
    obtain ⟨f₂, s', hrun, hgrows, hs', hf₂, hpairs, hvalue⟩ :=
      run_addProducts he had t.2.constant f (fun k hk => hk) hs hf₁
    refine .of_ok rfl hrun ⟨hgrows, hs', hf₂, List.forall_mem_singleton.mpr hpairs, fun s'' hs'' x u => ?_⟩
    rw [hvalue s'' hs'' x u, List.map_singleton, List.sum_singleton]
    rfl
  | false =>
    have hj : t.1 < s.program.columns.length := (hf.columns t ht).trans_le hs.behind
    have hcolumn : columnName s t.1 = .ok s.program.columns[t.1].name := by
      rw [columnName, List.getElem?_eq_getElem hj]
    refine .inr ⟨Bool.false_ne_true, .uncertainAdaptiveCoefficient s.program.columns[t.1].name (rowName.getD "None"), s, ?_,
      rfl⟩
    rw [Bool.not_false, if_pos rfl, Edit.run_bind_of_ok (Edit.run_get s),
      Edit.run_bind_of_ok (Edit.run_liftFault_eq_ok.mpr ⟨hcolumn, rfl⟩)]
    rfl

/-! ## All columns -/

/-- **Substituting several columns** adds their corrections, unless one of them has an uncertain coefficient. -/
theorem substituteVariables_ends (he : e.Fits n) (rowName : Option String) {f : MixedForm Rat} (hf : f.Fits n) :
    ∀ {entries : List (Nat × Form Rat)} {f₁ : MixedForm Rat} {s : WorkingModel Rat ExtRat},
      (∀ t ∈ entries, t ∈ f.linear ∧ e.isAdaptive t.1 = true) → e.AuxTable n s → e.Extended n f f₁ s →
      Ends (∀ t ∈ entries, t.2.isConstant = true) ((entries.map (·.1)).foldlM (e.substituteVariable rowName) f₁) s
        (e.Added n f f₁ s entries)
  | [], f₁, s, _, hs, hf₁ => by
    refine .of_ok (fun t ht => absurd ht List.not_mem_nil) rfl ⟨.refl s, hs, hf₁, fun t ht => absurd ht List.not_mem_nil,
      fun s'' _ x u => ?_⟩
    rw [List.map_nil, List.sum_nil, add_zero]
  | t :: entries, f₁, s, hentries, hs, hf₁ => by
    obtain ⟨ht, had⟩ := hentries t List.mem_cons_self
    rw [List.map_cons, List.foldlM_cons]
    have hall : (t.2.isConstant = true ∧ ∀ i ∈ entries, i.2.isConstant = true)
        ↔ ∀ i ∈ t :: entries, i.2.isConstant = true := by rw [List.forall_mem_cons]
    refine Ends.congr (Ends.bind (substituteVariable_ends he rowName hf hs hf₁ ht had)
      fun f₂ s₂ (h₂ : e.Added n f f₁ s [t] f₂ s₂) => ?_) hall
    have hrest := substituteVariables_ends he rowName hf (fun i hi => hentries i (List.mem_cons_of_mem _ hi)) h₂.table
      h₂.extended
    refine hrest.mono fun _ f₃ s₃ h₃ => ⟨h₂.grows.trans h₃.grows, h₃.table, h₃.extended,
      List.forall_mem_cons.mpr ⟨h₃.grows.hasPairs (h₂.pairs t List.mem_cons_self), h₃.pairs⟩, fun s'' hs'' x u => ?_⟩
    rw [h₃.value s'' hs'' x u, h₂.value s'' (h₃.grows.trans hs'') x u, List.map_singleton, List.sum_singleton, List.map_cons,
      List.sum_cons, add_assoc]

/-- The value at the rules is the value plus the corrections of the adaptive columns. -/
theorem value_rule {f : MixedForm Rat} (hcertain : e.Certain f) (aux : List ((Nat × Nat) × Nat)) (x u : Nat → Rat) :
    f.value (e.rule aux x u) u = f.value x u
      + ((f.linear.filter fun t => e.isAdaptive t.1).map fun t => t.2.constant * e.correction aux x u t.1).sum := by
  have hsum : ∀ ts : List (Nat × Form Rat), (∀ t ∈ ts, e.isAdaptive t.1 = true → t.2.isConstant = true) →
      (ts.map fun t => t.2.value u * e.rule aux x u t.1).sum = (ts.map fun t => t.2.value u * x t.1).sum
        + ((ts.filter fun t => e.isAdaptive t.1).map fun t => t.2.constant * e.correction aux x u t.1).sum := by
    intro ts
    induction ts with
    | nil => intro _; simp
    | cons t ts ih =>
      intro hts
      have ih := ih fun s hs => hts s (List.mem_cons_of_mem _ hs)
      rw [List.map_cons, List.map_cons, List.sum_cons, List.sum_cons, ih, List.filter_cons]
      cases had : e.isAdaptive t.1 with
      | true =>
        rw [if_pos rfl, List.map_cons, List.sum_cons, Form.value_of_isConstant (hts t List.mem_cons_self had), rule]
        ring
      | false =>
        rw [if_neg Bool.false_ne_true, rule_of_not_adaptive aux x u had]
        ring
  rw [MixedForm.value, hsum f.linear hcertain, MixedForm.value]
  ring

/-- **Substituting in a form** gives a form with the value at the rules, unless an adaptive column has an uncertain
coefficient. -/
theorem substitute_ends (he : e.Fits n) (rowName : Option String) {f : MixedForm Rat} (hf : f.Fits n)
    {s : WorkingModel Rat ExtRat} (hs : e.AuxTable n s) :
    Ends (e.Certain f) (e.substitute rowName f) s fun f' s' => Grows s s' ∧ e.AuxTable n s' ∧ e.Extended n f f' s'
      ∧ (∀ t ∈ f.linear, e.HasPairs s'.auxColumns t.1)
      ∧ ∀ s'', Grows s' s'' → ∀ x u, f'.value x u = f.value (e.rule s''.auxColumns x u) u := by
  have hadaptive : (f.linear.map (·.1)).filter e.isAdaptive = (f.linear.filter fun t => e.isAdaptive t.1).map (·.1) :=
    List.filter_map
  have hcertain : (∀ t ∈ f.linear.filter fun t => e.isAdaptive t.1, t.2.isConstant = true) ↔ e.Certain f := by
    simp only [List.mem_filter, and_imp]
    exact Iff.rfl
  unfold substitute
  rw [hadaptive]
  refine ((substituteVariables_ends he rowName hf (fun t ht => List.mem_filter.mp ht) hs
    (.refl (hf.mono hs.behind))).congr hcertain).mono fun hf' f' s' h => ?_
  refine ⟨h.grows, h.table, h.extended, fun t ht => ?_, fun s'' hs'' x u => ?_⟩
  · cases had : e.isAdaptive t.1 with
    | true => exact h.pairs t (List.mem_filter.mpr ⟨ht, had⟩)
    | false => exact hasPairs_of_not_adaptive had
  · rw [h.value s'' hs'' x u, value_rule hf']

/-! ## All rows -/

/-- **Substituting in all rows** gives rows that hold where the old ones hold at the rules, unless one of them has an
adaptive column with an uncertain coefficient. -/
theorem substituteRows_ends (he : e.Fits n) : ∀ {rows : List (MixedRow Rat ExtRat)} {s : WorkingModel Rat ExtRat},
    (∀ r ∈ rows, r.form.Fits n) → e.AuxTable n s →
    Ends (∀ r ∈ rows, e.Certain r.form)
      (rows.mapM fun r => do return { r with form := ← e.substitute r.name r.form } :
        Edit (WorkingModel Rat ExtRat) (List (MixedRow Rat ExtRat))) s
      fun rows' s' => Grows s s' ∧ e.AuxTable n s' ∧ (∀ r ∈ rows', r.form.Fits s'.program.numColumns
          ∧ ∃ r₀ ∈ rows, r.oracle = r₀.oracle ∧ ∀ k ∈ r.form.parameters, k ∈ r₀.form.parameters ∨ e.Depends k)
        ∧ (∀ r ∈ rows, ∀ t ∈ r.form.linear, e.HasPairs s'.auxColumns t.1)
        ∧ ∀ s'', Grows s' s'' → ∀ (slack : Option OracleId → Rat) x u, (∀ r ∈ rows', r.HoldsWithin (slack r.oracle) x u)
          ↔ ∀ r ∈ rows, r.HoldsWithin (slack r.oracle) (e.rule s''.auxColumns x u) u
  | [], s, _, hs => .of_ok (by simp) rfl ⟨.refl s, hs, by simp, by simp, by simp⟩
  | r :: rows, s, hrows, hs => by
    have hall : (e.Certain r.form ∧ ∀ i ∈ rows, e.Certain i.form) ↔ ∀ i ∈ r :: rows, e.Certain i.form := by
      rw [List.forall_mem_cons]
    rw [List.mapM_cons]
    refine (Ends.bind ((substitute_ends he r.name (hrows r List.mem_cons_self) hs).map _) ?_).congr hall
    rintro r' s₁ ⟨f', rfl, hgrows, hs₁, hextended, hpairs, hvalue⟩
    have hrest := substituteRows_ends he (fun i hi => hrows i (List.mem_cons_of_mem _ hi)) hs₁
    refine (hrest.map _).mono fun _ rows' s₂ h₂ => ?_
    obtain ⟨rest, rfl, hgrows₂, hs₂, hfits₂, hpairs₂, hholds⟩ := h₂
    refine ⟨hgrows.trans hgrows₂, hs₂, ?_, List.forall_mem_cons.mpr ⟨fun t ht => hgrows₂.hasPairs (hpairs t ht), hpairs₂⟩,
      fun s'' hs'' slack x u => ?_⟩
    · refine List.forall_mem_cons.mpr ⟨⟨hextended.fits.mono hgrows₂.numColumns_le, r, List.mem_cons_self, rfl,
        hextended.parameters⟩, fun r' hr' => ?_⟩
      obtain ⟨hfits, r₀, hr₀, horigin⟩ := hfits₂ r' hr'
      exact ⟨hfits, r₀, List.mem_cons_of_mem _ hr₀, horigin⟩
    · rw [List.forall_mem_cons, List.forall_mem_cons, hholds s'' hs'' slack x u, MixedRow.HoldsWithin,
        MixedRow.HoldsWithin, hvalue s'' (hgrows₂.trans hs'') x u]

end Expander

end RobustLP
