import RobustLP.Proofs.Algebra.Totals

/-!
# Normal forms are canonical

In exact arithmetic a normal form is found from the values alone, up to the order of its terms (`Affine.IsNormal.reorders`,
`Full.IsNormal.reorders`): what a symbol contributes shows when it is one and all others are zero. So there is one normal form
for all expressions of the same values, and it lists the totals of each of them (`Expr.normalized_canonical`).

Which model an expression notes as its owner does not show in its values; the notes are left aside when normal forms of
different expressions are compared (`Expr.unowned`). Expressions of different kinds have normal forms of different kinds, and
are compared as full forms.
-/

namespace RobustLP

/-- Evaluating answers the same, whatever numbers the variables and parameters have. -/
def Quantity.SameValues (p q : Quantity Rat) : Prop :=
  ∀ x u : Nat → Rat, p.evaluate (fun k => .ok (u k.index)) (fun v => .ok (x v.index))
    = q.evaluate (fun k => .ok (u k.index)) fun v => .ok (x v.index)

theorem Quantity.sameValues_iff {p q : Quantity Rat} : p.SameValues q ↔ ∀ x u, p.value x u = q.value x u := by
  refine forall_congr' fun x => forall_congr' fun u => ?_
  rw [evaluate_eq, evaluate_eq, Except.ok.injEq]

/-! ## Values of normal forms -/

section

variable {S : Type} [Symbol S] {n : Affine S Rat} {m : ModelId}

namespace Affine.IsNormal

theorem constantParts (hn : n.IsNormal) : n.constantParts = [n.constant] := by
  rw [Affine.constantParts, hn.parts]

theorem value_zero (hn : n.IsNormal) : n.value 0 = n.constant := by
  rw [Affine.value_zero, hn.constantParts, List.sum_singleton]

theorem ne_zero (hn : n.IsNormal) {t : S × Rat} (ht : t ∈ n.terms) : t.2 ≠ 0 := isZero_eq_false_iff.mp (hn.nonzero t ht)

/-- **The coefficient of a symbol** is what its unit adds to the value. -/
theorem mem_terms_iff [LawfulSymbol S] (hn : n.IsNormal) (hm : n.Within m) {t : S × Rat} :
    t ∈ n.terms ↔ Symbol.model t.1 = m ∧ t.2 ≠ 0 ∧ t.2 = n.value (Pi.single (Symbol.index t.1) 1) - n.value 0 := by
  have hcoef : ∀ s ∈ n.terms, s.2 = n.value (Pi.single (Symbol.index s.1) 1) - n.value 0 := by
    intro s hs
    rw [value_single hn.nodup hs, Affine.value_zero, add_sub_cancel_right]
  constructor
  · exact fun ht => ⟨hm t ht, hn.ne_zero ht, hcoef t ht⟩
  · rintro ⟨hmodel, hne, ht⟩
    -- a symbol that does not occur would add nothing
    have hoccurs : Symbol.index t.1 ∈ n.positions := by
      by_contra hnot
      have hsame : n.value (Pi.single (Symbol.index t.1) 1) = n.value 0 :=
        value_congr fun k hk => Pi.single_eq_of_ne (ne_of_mem_of_not_mem hk hnot) 1
      rw [hsame, sub_self] at ht
      exact hne ht
    obtain ⟨s, hs, hindex⟩ := List.mem_map.mp hoccurs
    have hsymbol : s.1 = t.1 := LawfulSymbol.eq_of_index ((hm s hs).trans hmodel.symm) hindex
    have hst : s = t := by
      refine Prod.ext hsymbol ?_
      rw [hcoef s hs, hsymbol, ← ht]
    exact hst ▸ hs

/-- A normal form that is not the number zero has a value that is not zero. -/
theorem exists_value_ne_zero {n : Affine Parameter Rat} (hn : n.IsNormal) (h : Full.isZeroForm n = false) :
    ∃ u, n.value u ≠ 0 := by
  rcases Bool.and_eq_false_iff.mp h with hterms | hconstant
  · obtain ⟨t, ht⟩ := List.exists_mem_of_ne_nil _ (List.isEmpty_eq_false_iff.mp hterms)
    have hne := value_ne_of_mem hn.nodup ht (hn.ne_zero ht)
    by_contra hall
    push Not at hall
    exact hne ((hall _).trans (hall 0).symm)
  · exact ⟨0, hn.value_zero.trans_ne (isZero_eq_false_iff.mp hconstant)⟩

end Affine.IsNormal

end

theorem Affine.isNormal_normalForm {S : Type} [Symbol S] (e : Affine S Rat) : e.normalForm.IsNormal :=
  isNormal_of_normalized e.normalized_eq

theorem Affine.normalForm_of_isNormal {S : Type} [Symbol S] {n : Affine S Rat} (hn : n.IsNormal) : n.normalForm = n :=
  Except.ok.inj (n.normalized_eq.symm.trans hn.normalized_eq_self)

namespace Full

variable {n : Full Rat} {m : ModelId}

theorem isNormal_normalForm (e : Full Rat) : e.normalForm.IsNormal := isNormal_of_normalized e.normalized_eq

/-- The variables are those on which the value depends. -/
theorem IsNormal.mem_decisions_iff (hn : n.IsNormal) (hm : n.Within m) {v : Variable} :
    v ∈ n.terms.map (·.1) ↔ v.model = m ∧ ∃ u, n.value (Pi.single v.index 1) u ≠ n.value 0 u := by
  constructor
  · intro hv
    obtain ⟨t, ht, rfl⟩ := List.mem_map.mp hv
    obtain ⟨u, hu⟩ := (hn.terms t ht).exists_value_ne_zero (hn.nonzero t ht)
    refine ⟨hm.decisions t ht, u, ?_⟩
    rw [value_single hn.nodup ht, value_zero]
    exact fun h => hu (add_eq_right.mp h)
  · rintro ⟨hmodel, u, hne⟩
    have hoccurs : v.index ∈ n.columns := by
      by_contra hnot
      exact hne (Expr.value_congr (e := .full n) (fun k hk => Pi.single_eq_of_ne (ne_of_mem_of_not_mem hk hnot) 1) u)
    obtain ⟨t, ht, hindex⟩ := List.mem_map.mp hoccurs
    have hv : t.1 = v := LawfulSymbol.eq_of_index ((hm.decisions t ht).trans hmodel.symm) hindex
    exact hv ▸ List.mem_map_of_mem ht

/-- A full normal form whose coefficients note its owner is its own normal form. -/
theorem normalForm_of_isNormal (hn : n.IsNormal) (howner : ∀ t ∈ n.terms, t.2.owner = n.owner) : n.normalForm = n := by
  have hsum : ∀ t ∈ n.terms, formSum n.owner [t.2] = t.2 := by
    intro t ht
    have hterms := Affine.normalForm_of_isNormal (hn.terms t ht)
    have hform : formSum n.owner [t.2] = { t.2.normalForm with owner := n.owner } := by
      rw [formSum, List.flatMap_singleton, List.flatMap_singleton]
      rfl
    rw [hform, hterms, ← howner t ht]
  have hterms : n.sums.filter (fun t => !isZeroForm t.2) = n.terms := by
    rw [sums, gather_of_nodup Variable.index hn.nodup, List.map_map]
    have hsame : n.terms.map (fun t => (t.1, formSum n.owner [t.2])) = n.terms :=
      (List.map_congr_left fun t ht => by rw [hsum t ht]; rfl).trans (List.map_id _)
    refine (congrArg (List.filter _) hsame).trans (List.filter_eq_self.mpr fun t ht => ?_)
    rw [hn.nonzero t ht]
    rfl
  rw [normalForm, hterms, Affine.normalForm_of_isNormal hn.constant]

theorem owner_of_mem_normalForm {e : Full Rat} {t : Variable × Affine Parameter Rat} (ht : t ∈ e.normalForm.terms) :
    t.2.owner = e.owner := by
  obtain ⟨p, -, rfl⟩ := List.mem_map.mp (List.mem_filter.mp ht).1
  rfl

end Full

/-! ## One normal form for each value -/

section

variable {S K : Type}

/-- A form without the note of its owner. -/
def Affine.unowned (e : Affine S K) : Affine S K := { e with owner := none }

/-- A full form without the notes of its owner. -/
def Full.unowned (e : Full K) : Full K :=
  { terms := e.terms.map fun t => (t.1, t.2.unowned), constant := e.constant.unowned }

/-- An expression without the notes of its owner. -/
def Expr.unowned : Expr K → Expr K
  | linear e => linear e.unowned
  | uncertain e => uncertain e.unowned
  | full e => full e.unowned

end

/-- **Affine normal forms with the same values** differ in the order of their terms only. -/
theorem Affine.IsNormal.reorders {S : Type} [Symbol S] [LawfulSymbol S] {m : ModelId} {n n' : Affine S Rat} (hn : n.IsNormal)
    (hn' : n'.IsNormal) (hm : n.Within m) (hm' : n'.Within m) (h : ∀ v, n.value v = n'.value v) :
    n.unowned.Reorders n'.unowned where
  terms := by
    refine (List.perm_ext_iff_of_nodup (.of_map _ hn.nodup) (.of_map _ hn'.nodup)).mpr fun t => ?_
    rw [hn.mem_terms_iff hm, hn'.mem_terms_iff hm', h, h]
  rest := by
    have hconstant : n.constant = n'.constant := by rw [← hn.value_zero, ← hn'.value_zero, h]
    rw [unowned, unowned, hconstant, hn.parts, hn'.parts]

/-- Lists with the same keys, in any order, are matched key by key. -/
theorem exists_perm_forall₂_of_map {α β γ : Type} {f : α → γ} {g : β → γ} {as : List α} {bs : List β}
    (h : (as.map f).Perm (bs.map g)) : ∃ l, as.Perm l ∧ List.Forall₂ (fun a b => f a = g b) l bs := by
  have hkeys : List.Forall₂ (fun k a => k = f a) (as.map f) as := by
    rw [List.forall₂_map_left_iff, List.forall₂_same]
    exact fun _ _ => rfl
  obtain ⟨l, hl, hperm⟩ := List.perm_comp_forall₂ h.symm hkeys
  rw [List.forall₂_map_left_iff] at hl
  exact ⟨l, hperm.symm, hl.flip.imp fun a b hab => hab.symm⟩

theorem forall₂_and_mem {α β : Type} {R : α → β → Prop} {as : List α} {bs : List β} (h : List.Forall₂ R as bs) :
    List.Forall₂ (fun a b => R a b ∧ a ∈ as ∧ b ∈ bs) as bs := by
  induction h with
  | nil => exact .nil
  | cons hab _ ih =>
    exact .cons ⟨hab, List.mem_cons_self, List.mem_cons_self⟩
      (ih.imp fun a b h => ⟨h.1, List.mem_cons_of_mem _ h.2.1, List.mem_cons_of_mem _ h.2.2⟩)

/-- **Full normal forms with the same values** differ in the order of their terms, and of those of their coefficients, only. -/
theorem Full.IsNormal.reorders {m : ModelId} {n n' : Full Rat} (hn : n.IsNormal) (hn' : n'.IsNormal) (hm : n.Within m)
    (hm' : n'.Within m) (h : ∀ x u, n.value x u = n'.value x u) : n.unowned.Reorders n'.unowned := by
  have hvariables : (n.terms.map (·.1)).Perm (n'.terms.map (·.1)) := by
    have hnodup : ∀ {n : Full Rat}, n.IsNormal → (n.terms.map (·.1)).Nodup := fun {n} hn =>
      List.Nodup.of_map Variable.index (by rw [List.map_map]; exact hn.nodup)
    refine (List.perm_ext_iff_of_nodup (hnodup hn) (hnodup hn')).mpr fun v => ?_
    rw [hn.mem_decisions_iff hm, hn'.mem_decisions_iff hm']
    simp only [h]
  have hconstant : ∀ u, n.constant.value u = n'.constant.value u := by
    intro u
    rw [← value_zero, ← value_zero, h]
  obtain ⟨l, hperm, hl⟩ := exists_perm_forall₂_of_map hvariables
  have hterms : n.unowned.terms.Perm (l.map fun t => (t.1, t.2.unowned)) := hperm.map _
  refine ⟨⟨_, hterms, ?_⟩, hn.constant.reorders hn'.constant hm.constant hm'.constant hconstant, rfl⟩
  rw [unowned, List.forall₂_map_left_iff, List.forall₂_map_right_iff]
  refine (forall₂_and_mem hl).imp ?_
  rintro s t ⟨hv, hs, ht⟩
  have hs : s ∈ n.terms := hperm.mem_iff.mpr hs
  refine ⟨hv, (hn.terms s hs).reorders (hn'.terms t ht) (hm.parameters s hs) (hm'.parameters t ht) fun u => ?_⟩
  -- with one for their variable, both coefficients show
  have hvalue := h (Pi.single s.1.index 1) u
  rw [value_single hn.nodup hs, hv, value_single hn'.nodup ht, hconstant] at hvalue
  exact add_right_cancel hvalue

/-! ## Expressions -/

namespace Expr

variable {m : ModelId}

theorem value_normalForm (x u : Nat → Rat) (e : Expr Rat) : e.normalForm.value x u = e.value x u := by
  cases e with
  | linear e => exact e.value_normalForm x
  | uncertain e => exact e.value_normalForm u
  | full e => exact e.value_normalForm x u

theorem Within.normalForm {e : Expr Rat} (h : e.Within m) : e.normalForm.Within m := by
  cases e with
  | linear e => exact Affine.Within.normalized h e.normalized_eq
  | uncertain e => exact Affine.Within.normalized h e.normalized_eq
  | full e => exact Full.Within.normalized h e.normalized_eq

theorem normalForm_normalForm (e : Expr Rat) : e.normalForm.normalForm = e.normalForm := by
  cases e with
  | linear e => exact congrArg linear (Affine.normalForm_of_isNormal e.isNormal_normalForm)
  | uncertain e => exact congrArg uncertain (Affine.normalForm_of_isNormal e.isNormal_normalForm)
  | full e =>
    exact congrArg full (Full.normalForm_of_isNormal e.isNormal_normalForm fun t => Full.owner_of_mem_normalForm (e := e))

theorem owner_normalForm (e : Expr Rat) : e.normalForm.owner = e.owner := by
  cases e <;> rfl

/-- A normal form of any kind, as full form, is a normal form. -/
theorem isNormal_toFull (e : Expr Rat) : e.normalForm.toFull.IsNormal := by
  cases e with
  | linear e =>
    have hn := e.isNormal_normalForm
    refine ⟨?_, List.forall_mem_map.mpr fun t _ => ⟨rfl, .nil, fun s hs => absurd hs List.not_mem_nil⟩,
      List.forall_mem_map.mpr fun t ht => ?_, ⟨rfl, .nil, fun s hs => absurd hs List.not_mem_nil⟩⟩
    · rw [normalForm, toFull, List.map_map]
      exact hn.nodup
    · exact hn.nonzero t ht
  | uncertain e =>
    exact ⟨.nil, fun t ht => absurd ht List.not_mem_nil, fun t ht => absurd ht List.not_mem_nil, e.isNormal_normalForm⟩
  | full e => exact e.isNormal_normalForm

/-- Normal forms of expressions of one kind with the same values. -/
theorem reorders_normalForm {e f : Expr Rat} (he : e.Within m) (hf : f.Within m) (hkind : e.kind = f.kind)
    (h : ∀ x u, e.value x u = f.value x u) : e.normalForm.unowned.Reorders f.normalForm.unowned := by
  have hvalue : ∀ x u, e.normalForm.value x u = f.normalForm.value x u := by
    intro x u
    rw [value_normalForm, value_normalForm, h]
  have he := he.normalForm
  have hf := hf.normalForm
  cases e with
  | linear e =>
    cases f with
    | linear f => exact .linear (e.isNormal_normalForm.reorders f.isNormal_normalForm he hf fun x => hvalue x 0)
    | uncertain f => cases hkind
    | full f => cases hkind
  | uncertain e =>
    cases f with
    | linear f => cases hkind
    | uncertain f => exact .uncertain (e.isNormal_normalForm.reorders f.isNormal_normalForm he hf fun u => hvalue 0 u)
    | full f => cases hkind
  | full e =>
    cases f with
    | linear f => cases hkind
    | uncertain f => cases hkind
    | full f => exact .full (e.isNormal_normalForm.reorders f.isNormal_normalForm he hf hvalue)

/-- **Normalising answers a canonical form.** The normal form of an expression over one model has the same kind, owner and values,
and is its own normal form; it lists the totals of the expression that are not zero, each symbol at its first appearance. Two
expressions with the same values have the same normal form up to the order of the terms, and of the terms of the coefficients; if
their kinds differ, this holds for the full forms. -/
theorem normalized_canonical (m : ModelId) :
    (∀ e : Expr Rat, e.Within m → ∃ n, e.normalized = .ok n ∧ (Quantity.expr n).SameValues (.expr e) ∧ e.Totals n
      ∧ n.owner = e.owner ∧ n.normalized = .ok n) ∧
    ∀ e f : Expr Rat, e.Within m → f.Within m → (Quantity.expr e).SameValues (.expr f) →
      ∃ n n', e.normalized = .ok n ∧ f.normalized = .ok n' ∧ (e.kind = f.kind → n.unowned.Reorders n'.unowned)
        ∧ n.toFull.unowned.Reorders n'.toFull.unowned := by
  constructor
  · intro e he
    refine ⟨e.normalForm, e.normalized_eq, ?_, totals_normalForm he, e.owner_normalForm, ?_⟩
    · exact Quantity.sameValues_iff.mpr fun x u => e.value_normalForm x u
    · rw [normalized_eq, normalForm_normalForm]
  · intro e f he hf h
    have hvalue : ∀ x u, e.value x u = f.value x u := Quantity.sameValues_iff.mp h
    refine ⟨e.normalForm, f.normalForm, e.normalized_eq, f.normalized_eq, fun hkind => reorders_normalForm he hf hkind hvalue, ?_⟩
    refine e.isNormal_toFull.reorders f.isNormal_toFull he.normalForm.toFull hf.normalForm.toFull fun x u => ?_
    rw [value_toFull, value_toFull, value_normalForm, value_normalForm, hvalue]

/-- A variable, another one twice, and three times the first one. -/
def sampleRepeated : Expr Rat :=
  .linear { terms := [(⟨0, 0⟩, 1), (⟨0, 1⟩, 2), (⟨0, 0⟩, 3)], constant := 5, owner := some 0 }

/-- The same in another order and as full form, with a parameter that cancels. -/
def sampleSwapped : Expr Rat :=
  .full
    { terms := [(⟨0, 1⟩, { terms := [(⟨0, 0⟩, 7), (⟨0, 0⟩, -7)], constant := 2, owner := some 0 }), (⟨0, 0⟩, .ofConstant 4)]
      constant := .ofConstant 5
      owner := some 0 }

/-- The repeated variable is listed once, with its total, and the two normal forms differ in order. -/
theorem normalized_canonical_sample :
    (∃ n, sampleRepeated.normalized = .ok n ∧ sampleRepeated.Totals n ∧ n.normalized = .ok n) ∧
    ∃ n n', sampleRepeated.normalized = .ok n ∧ sampleSwapped.normalized = .ok n'
      ∧ n.toFull.unowned.Reorders n'.toFull.unowned := by
  have hrepeated : sampleRepeated.Within 0 := by
    intro t ht
    fin_cases ht <;> rfl
  have hswapped : sampleSwapped.Within 0 := by
    refine ⟨fun t ht => ?_, fun t ht s hs => ?_, fun s hs => absurd hs List.not_mem_nil⟩
    · fin_cases ht <;> rfl
    · fin_cases ht
      · fin_cases hs <;> rfl
      · exact absurd hs List.not_mem_nil
  have hsame : (Quantity.expr sampleRepeated).SameValues (.expr sampleSwapped) := by
    refine Quantity.sameValues_iff.mpr fun x u => ?_
    simp [Quantity.value, sampleRepeated, sampleSwapped, value, Full.value, Affine.value, Affine.constantParts,
      Affine.ofConstant, Symbol.index]
    ring
  obtain ⟨hcanonical, hunique⟩ := normalized_canonical 0
  obtain ⟨n, hn, -, htotals, -, hself⟩ := hcanonical _ hrepeated
  obtain ⟨n₁, n₂, hn₁, hn₂, -, hreorders⟩ := hunique _ _ hrepeated hswapped hsame
  exact ⟨⟨n, hn, htotals, hself⟩, n₁, n₂, hn₁, hn₂, hreorders⟩

end Expr

end RobustLP
