import RobustLP.Proofs.Growth
import RobustLP.Proofs.Program
import RobustLP.Proofs.Reformulation

/-!
# Adding rows and columns

While a program is prepared and solved, rows and columns are added to it, and nothing is taken away: each program narrows the
earlier ones (`LinearProgram.Narrows`). What was added can be read off the points of the later program: a mixed row at a point of
the parameters holds there (`adds_addCutTo`), and so does a reformulation, the values of its auxiliary columns being those
of the columns behind the earlier ones (`adds_injectInto`). As long as no columns are added, nothing else is said
(`LinearProgram.Adds`).
-/

namespace RobustLP

open ExtRat

namespace LinearProgram

/-- **A point of a program:** every column and every row lies between its bounds. -/
abbrev Feasible (x : Nat → Rat) (p : LinearProgram Rat ExtRat) : Prop := p.Satisfies (fun _ => 0) x

/-- Integer columns have integers as numbers. -/
def Integral (x : Nat → Rat) (p : LinearProgram Rat ExtRat) : Prop :=
  ∀ j c, p.columns[j]? = some c → c.integer = true → ∃ z : Int, x j = z

/-- A program with more rows and columns than another one. -/
structure Narrows (p p' : LinearProgram Rat ExtRat) : Prop where
  objective : p'.objective = p.objective
  columns : p.columns <+: p'.columns
  aligned : p'.rows.Aligned
  feasible : ∀ x, p'.Feasible x → p.Feasible x

variable {p p' p'' : LinearProgram Rat ExtRat}

theorem Narrows.refl (h : p.rows.Aligned) : p.Narrows p := ⟨rfl, List.prefix_rfl, h, fun _ hx => hx⟩

theorem Narrows.trans (h : p.Narrows p') (h' : p'.Narrows p'') : p.Narrows p'' where
  objective := h'.objective.trans h.objective
  columns := h.columns.trans h'.columns
  aligned := h'.aligned
  feasible x hx := h.feasible x (h'.feasible x hx)

theorem Narrows.numColumns_le (h : p.Narrows p') : p.numColumns ≤ p'.numColumns := h.columns.length_le

theorem Narrows.integral (h : p.Narrows p') {x : Nat → Rat} (hx : p'.Integral x) : p.Integral x := by
  obtain ⟨extra, hextra⟩ := h.columns
  intro j c hc hinteger
  refine hx j c ?_ hinteger
  rw [← hextra, List.getElem?_append_left (List.getElem?_eq_some_iff.mp hc).1]
  exact hc

/-- **A program with more rows and columns, which say `S`** of its points. If they are `plain` there are no more columns, and the
rows say nothing else. -/
structure Adds (plain : Prop) (S : (Nat → Rat) → Prop) (p p' : LinearProgram Rat ExtRat) : Prop extends p.Narrows p' where
  sound : ∀ x, p'.Feasible x → S x
  same : plain → p'.columns = p.columns
  complete : plain → ∀ x, p.Feasible x → S x → p'.Feasible x

section

variable {plain plain' : Prop} {S T : (Nat → Rat) → Prop}

theorem Adds.refl (h : p.rows.Aligned) (hS : ∀ x, S x) : p.Adds plain S p :=
  ⟨.refl h, fun x _ => hS x, fun _ => rfl, fun _ _ hx _ => hx⟩

theorem Adds.trans (h : p.Adds plain S p') (h' : p'.Adds plain' T p'') :
    p.Adds (plain ∧ plain') (fun x => S x ∧ T x) p'' where
  toNarrows := h.toNarrows.trans h'.toNarrows
  sound x hx := ⟨h.sound x (h'.feasible x hx), h'.sound x hx⟩
  same hplain := (h'.same hplain.2).trans (h.same hplain.1)
  complete hplain x hx hall := h'.complete hplain.2 x (h.complete hplain.1 x hx hall.1) hall.2

theorem Adds.congr (h : p.Adds plain S p') (hplain : plain' → plain) (hsound : ∀ x, S x → T x)
    (hcomplete : plain' → ∀ x, T x → S x) : p.Adds plain' T p' where
  toNarrows := h.toNarrows
  sound x hx := hsound x (h.sound x hx)
  same hp := h.same (hplain hp)
  complete hp x hx hT := h.complete (hplain hp) x hx (hcomplete hp x hT)

theorem Adds.feasible_iff (h : p.Adds True S p') {x : Nat → Rat} : p'.Feasible x ↔ p.Feasible x ∧ S x :=
  ⟨fun hx => ⟨h.feasible x hx, h.sound x hx⟩, fun hx => h.complete trivial x hx.1 hx.2⟩

/-- **Adding one after the other** adds all of it. -/
theorem adds_forM {α : Type} {f : α → Edit (LinearProgram Rat ExtRat) PUnit} {S : α → (Nat → Rat) → Prop} :
    ∀ {l : List α} {p p' : LinearProgram Rat ExtRat}, (∀ a ∈ l, ∀ q q' : LinearProgram Rat ExtRat, q.rows.Aligned →
      (f a).run q = (.ok ⟨⟩, q') → q.Adds True (S a) q') → p.rows.Aligned → (l.forM f).run p = (.ok ⟨⟩, p') →
      p.Adds True (fun x => ∀ a ∈ l, S a x) p'
  | [], p, p', _, h, hrun => by
    cases hrun
    exact .refl h fun x a ha => absurd ha List.not_mem_nil
  | a :: l, p, p', hf, h, hrun => by
    have hsteps : (f a >>= fun _ => l.forM f).run p = (.ok ⟨⟩, p') := hrun
    obtain ⟨⟨⟩, q, hfirst, hrest⟩ := Edit.run_bind_eq_ok.mp hsteps
    have hhead := hf a List.mem_cons_self p q h hfirst
    have htail := adds_forM (fun b hb => hf b (List.mem_cons_of_mem _ hb)) hhead.aligned hrest
    exact (hhead.trans htail).congr (fun _ => ⟨trivial, trivial⟩) (fun _ hx => List.forall_mem_cons.mpr hx)
      fun _ _ hx => List.forall_mem_cons.mp hx

end

/-! ## Rows -/

/-- **Adding a row:** its coefficients are read, and it becomes the last one. -/
theorem run_addRow (terms : List (GivenTerm Rat)) (lower upper : ExtRat) (name : Option String) :
    (addRow terms (some (.ok lower)) (some (.ok upper)) name).run p = match readTerms p.numColumns terms with
      | .ok coefs => (.ok p.rows.names.length, { p with rows := p.rows.push (collect coefs) lower upper name })
      | .error err => (.error err, p) := by
  unfold addRow
  rw [Edit.run_bind_of_ok (Edit.run_get p)]
  cases hread : readTerms p.numColumns terms with
  | error err => rw [Edit.run_bind_of_error (Edit.run_lift_error err p)]
  | ok coefs => rfl

/-- A row that was added. -/
theorem eq_of_run_addRow {terms : List (GivenTerm Rat)} {lower upper : ExtRat} {name : Option String} {i : Nat}
    (hrun : (addRow terms (some (.ok lower)) (some (.ok upper)) name).run p = (.ok i, p')) : ∃ coefs,
      readTerms p.numColumns terms = .ok coefs ∧ p' = { p with rows := p.rows.push (collect coefs) lower upper name } := by
  rw [run_addRow] at hrun
  cases hread : readTerms p.numColumns terms with
  | error err =>
    rw [hread] at hrun
    cases hrun
  | ok coefs =>
    rw [hread] at hrun
    cases hrun
    exact ⟨coefs, rfl, rfl⟩

/-- A program with one more row. -/
theorem adds_addRow (h : p.rows.Aligned) {terms : List (GivenTerm Rat)} {lower upper : ExtRat} {name : Option String}
    {i : Nat} (hrun : (addRow terms (some (.ok lower)) (some (.ok upper)) name).run p = (.ok i, p')) :
    ∃ coefs, readTerms p.numColumns terms = .ok coefs ∧ p.Adds True (fun x => Between lower upper (lhs x coefs)) p' := by
  obtain ⟨coefs, hread, rfl⟩ := eq_of_run_addRow hrun
  have hfeasible : ∀ x, ({ p with rows := p.rows.push (collect coefs) lower upper name } :
      LinearProgram Rat ExtRat).Feasible x ↔ p.Feasible x ∧ Between lower upper (lhs x coefs) := by
    intro x
    rw [Feasible, satisfies_push h, within_zero, lhs_collect]
  exact ⟨coefs, hread, ⟨rfl, List.prefix_rfl, h.push .., fun x hx => ((hfeasible x).mp hx).1⟩,
    fun x hx => ((hfeasible x).mp hx).2, fun _ => rfl, fun _ x hx hrow => (hfeasible x).mpr ⟨hx, hrow⟩⟩

/-- **A mixed row at a point of the parameters** that was added holds there. -/
theorem adds_addCutTo (h : p.rows.Aligned) {row : MixedRow Rat ExtRat} {U : Lookup Rat} {name : Option String} {i : Nat}
    (hrun : (WorkingModel.addCutTo row U name).run p = (.ok i, p')) : row.form.Defined U
      ∧ p.Adds True (fun x => Between row.lower row.upper (row.form.value x U.number)) p' := by
  obtain ⟨a, s, hlift, hpush⟩ := Edit.run_bind_eq_ok.mp hrun
  obtain ⟨hspecialize, hs⟩ := Edit.run_liftFault_eq_ok.mp hlift
  obtain ⟨hdefined, ha⟩ := MixedRow.specialize_eq_ok_iff.mp hspecialize
  rw [hs, ha] at hpush
  obtain ⟨coefs, hread, hadds⟩ := adds_addRow h hpush
  obtain rfl := eq_of_readTerms_given hread
  have hrow : ∀ x, Between (row.lower.shift (row.form.constant.value U.number))
      (row.upper.shift (row.form.constant.value U.number)) (lhs x (row.form.fixed U.number).linear)
        ↔ Between row.lower row.upper (row.form.value x U.number) := by
    intro x
    rw [between_shift, ← MixedForm.value_fixed x U.number row.form]
    exact Iff.rfl
  exact ⟨hdefined, hadds.congr id (fun x => (hrow x).mp) fun _ x => (hrow x).mpr⟩

/-! ## Reformulations -/

/-- A program with the auxiliary columns of a reformulation. -/
def withAuxiliaries (p : LinearProgram Rat ExtRat) (vs : List (AuxVariable ExtRat)) : LinearProgram Rat ExtRat :=
  vs.foldl (fun p v => p.withColumn v.lower v.upper false v.name) p

theorem withAuxiliaries_eq_grow : ∀ (vs : List (AuxVariable ExtRat)) (p : LinearProgram Rat ExtRat),
    p.withAuxiliaries vs = p.grow (auxiliaryColumns p.numColumns vs) []
  | [], p => p.grow_nil.symm
  | v :: vs, p => by
    have hfirst := p.withColumn_eq_grow v.lower v.upper false v.name
    rw [withAuxiliaries, List.foldl_cons, ← withAuxiliaries, withAuxiliaries_eq_grow vs, hfirst, numColumns_grow, grow_grow]
    rfl

theorem run_injectVariables (vs : List (AuxVariable ExtRat)) (p : LinearProgram Rat ExtRat) :
    (WorkingModel.injectVariables vs).run p
      = (.ok (List.range' p.numColumns vs.length), p.withAuxiliaries vs) := by
  rw [WorkingModel.run_injectVariables_eq_grow, withAuxiliaries_eq_grow]

theorem withAuxiliaries_rows (vs : List (AuxVariable ExtRat)) (p : LinearProgram Rat ExtRat) :
    (p.withAuxiliaries vs).rows = p.rows ∧ (p.withAuxiliaries vs).objective = p.objective
      ∧ p.columns <+: (p.withAuxiliaries vs).columns := by
  rw [withAuxiliaries_eq_grow]
  refine ⟨?_, rfl, List.prefix_append _ _⟩
  simp only [grow, RowTable.append, List.map_nil, List.append_nil]

theorem feasible_withColumn {lower upper : ExtRat} {name : Option String} {x : Nat → Rat} :
    (p.withColumn lower upper false name).Feasible x ↔ p.Feasible x ∧ Between lower upper (x p.numColumns) := by
  rw [Feasible, satisfies_withColumn, within_zero]

/-- The auxiliary columns lie within their bounds. -/
theorem feasible_withAuxiliaries {x : Nat → Rat} (n : Nat) : ∀ {vs : List (AuxVariable ExtRat)} {start : Nat}
    {p : LinearProgram Rat ExtRat}, p.numColumns = n + start →
      ((p.withAuxiliaries vs).Feasible x ↔ p.Feasible x ∧ InBounds (fun i => x (n + i)) start vs)
  | [], _, _, _ => by simp [withAuxiliaries, InBounds]
  | v :: vs, start, p, hp => by
    have hnext : (p.withColumn v.lower v.upper false v.name).numColumns = n + (start + 1) := by
      rw [numColumns_withColumn, hp, Nat.add_assoc]
    have hbounds : InBounds (fun i => x (n + i)) start (v :: vs)
        ↔ Between v.lower v.upper (x (n + start)) ∧ InBounds (fun i => x (n + i)) (start + 1) vs := by
      simp only [InBounds, List.zipIdx_cons, List.forall_mem_cons]
    rw [withAuxiliaries, List.foldl_cons, ← withAuxiliaries, feasible_withAuxiliaries n hnext, hbounds, feasible_withColumn,
      hp, and_assoc]

/-- The columns of an auxiliary row are found in the program, with the values that they have for the reformulation. -/
theorem value_resolveColumn {x : Nat → Rat} {n count : Nat} {rowName : Option String} {c : AuxColumn} {j : Int}
    (h : WorkingModel.resolveColumn (List.range' n count) rowName c = .ok j) :
    x j.toNat = c.value x fun i => x (n + i) := by
  cases c with
  | existing i =>
    cases h
    rfl
  | stray name => cases h
  | auxiliary i =>
    unfold WorkingModel.resolveColumn at h
    dsimp only at h
    split at h
    next k hk =>
      cases h
      obtain ⟨hi, hget⟩ := List.getElem?_eq_some_iff.mp hk
      rw [List.getElem_range', Nat.one_mul] at hget
      rw [← hget]
      rfl
    next => cases h

/-- The value of a row whose coefficients were given by other terms. -/
theorem lhs_eq_termsValue {x y : Nat → Rat} {terms : List (AuxColumn × Rat)} {coefs : List (Nat × Rat)}
    (h : List.Forall₂ (fun t c => c.2 * x c.1 = t.2 * t.1.value x y) terms coefs) : lhs x coefs = termsValue x y terms := by
  unfold lhs termsValue
  induction h with
  | nil => rfl
  | cons hc _ ih => rw [List.map_cons, List.map_cons, List.sum_cons, List.sum_cons, hc, ih]

/-- **An auxiliary row** that was added holds. -/
theorem adds_injectRow (h : p.rows.Aligned) {n count : Nat} {r : AuxRow Rat ExtRat}
    (hrun : (WorkingModel.injectRow (List.range' n count) r).run p = (.ok ⟨⟩, p')) :
    p.Adds True (fun x => r.Holds x fun i => x (n + i)) p' := by
  obtain ⟨terms, s, hterms, hrun⟩ := Edit.run_bind_eq_ok.mp hrun
  obtain ⟨hs, hresolved⟩ := Edit.forall₂_of_run_mapM (R := fun t g => ∃ j : Int,
    WorkingModel.resolveColumn (List.range' n count) r.name t.1 = .ok j ∧ g = (.ok j, .ok t.2)) (by
      intro t g s s' hstep
      obtain ⟨j, s₁, hlift, hpure⟩ := Edit.run_bind_eq_ok.mp hstep
      obtain ⟨hj, rfl⟩ := Edit.run_lift_eq_ok.mp hlift
      cases hpure
      exact ⟨rfl, j, hj, rfl⟩) hterms
  rw [hs] at hrun
  obtain ⟨i, s₁, hadd, hrun⟩ := Edit.run_bind_eq_ok.mp hrun
  cases hrun
  obtain ⟨coefs, hread, hadds⟩ := adds_addRow h hadd
  have hvalue : ∀ x, lhs x coefs = termsValue x (fun i => x (n + i)) r.terms := by
    intro x
    refine lhs_eq_termsValue (forall₂_comp hresolved (mapM_eq_ok_iff.mp hread) ?_)
    rintro t g c ⟨j, hj, rfl⟩ hc
    simp only [bind, Except.bind] at hc
    split at hc
    next =>
      cases hc
      exact congrArg (t.2 * ·) (value_resolveColumn hj)
    next => cases hc
  exact hadds.congr id (fun x hx => by rwa [hvalue] at hx) fun _ x hx => by rwa [hvalue]

/-- Auxiliary columns that were added lie within their bounds. -/
theorem adds_withAuxiliaries (h : p.rows.Aligned) (vs : List (AuxVariable ExtRat)) :
    p.Adds (vs = []) (fun x => InBounds (fun i => x (p.numColumns + i)) 0 vs) (p.withAuxiliaries vs) := by
  obtain ⟨hrows, hobjective, hcolumns⟩ := withAuxiliaries_rows vs p
  have hfeasible : ∀ x, (p.withAuxiliaries vs).Feasible x
      ↔ p.Feasible x ∧ InBounds (fun i => x (p.numColumns + i)) 0 vs :=
    fun x => feasible_withAuxiliaries p.numColumns (Nat.add_zero _).symm
  refine ⟨⟨hobjective, hcolumns, hrows.symm ▸ h, fun x hx => ((hfeasible x).mp hx).1⟩,
    fun x hx => ((hfeasible x).mp hx).2, fun hvs => ?_, fun _ x hx hbounds => (hfeasible x).mpr ⟨hx, hbounds⟩⟩
  rw [hvs]
  rfl

/-- **A reformulation** that was added holds. -/
theorem adds_injectInto (h : p.rows.Aligned) {f : Reformulation Rat ExtRat} {cols : List Nat}
    (hrun : (WorkingModel.injectInto f).run p = (.ok cols, p')) :
    p.Adds (f.auxiliaries = []) (fun x => f.Holds x fun i => x (p.numColumns + i)) p' := by
  unfold WorkingModel.injectInto at hrun
  rw [Edit.run_bind_of_ok (run_injectVariables f.auxiliaries p)] at hrun
  obtain ⟨⟨⟩, q, hrows, hpure⟩ := Edit.run_bind_eq_ok.mp hrun
  obtain rfl : q = p' := (Prod.mk.inj hpure).2
  have hcolumns := adds_withAuxiliaries h f.auxiliaries
  have hall := adds_forM (fun r _ q q' haligned hstep => adds_injectRow haligned hstep) hcolumns.aligned hrows
  exact (hcolumns.trans hall).congr (fun hplain => ⟨hplain, trivial⟩) (fun x hx => ⟨hx.1, hx.2⟩)
    fun _ x hx => ⟨hx.bounds, hx.rows⟩

end LinearProgram

end RobustLP
