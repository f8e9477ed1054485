import RobustLP.Proofs.Algebra.Owners
import RobustLP.Proofs.Rounding.Zero
import RobustLP.Repn

/-!
# Expressions whose parameters cancel

An expression that mentions parameters may still say nothing about them: their coefficients cancel in its normal form
(`Expr.ParametersCancel`). It can then be written without parameters, every number staying where it stands
(`Expr.withoutParameters`), and this says the same: the normal form has the same coefficients and the same constant
(`Full.normalized_withoutParameters`).

The order in which variables first appear is kept because there is a number in every coefficient, as in everything that the
operations form (`Quantity.Formed.numbered`).
-/

namespace RobustLP

variable {S K B : Type} [Scalar K B]

/-! ## Numbers in forms -/

namespace Affine

variable {e a b n : Affine S K}

/-- The constant is the sum of one number at least. -/
def Numbered (e : Affine S K) : Prop := e.constantParts ≠ []

omit [Scalar K B] in
theorem numbered_of_parts (h : e.parts = none) : e.Numbered := by
  rw [Numbered, constantParts, h]
  exact List.cons_ne_nil _ _

omit [Scalar K B] in
theorem numbered_of_parts_eq_some {ps : List K} (h : e.parts = some ps) : e.Numbered ↔ ps ≠ [] := by
  rw [Numbered, constantParts, h]

theorem Numbered.concat (ha : a.Numbered) (owner : Option ModelId) : (a.concat b owner).Numbered :=
  (numbered_of_parts_eq_some rfl).mpr (List.append_ne_nil_of_left_ne_nil ha _)

theorem Numbered.addConstant (h : e.Numbered) (c : K) : (e.addConstant c).Numbered := by
  unfold Affine.addConstant
  split
  next => exact h
  next => exact (numbered_of_parts_eq_some rfl).mpr (List.append_ne_nil_of_left_ne_nil h _)

theorem Numbered.scale (h : e.Numbered) (c : K) : (e.scale c).Numbered := by
  cases hparts : e.parts with
  | none => exact numbered_of_parts (congrArg (Option.map _) hparts)
  | some ps =>
    rw [numbered_of_parts_eq_some hparts] at h
    have hscaled : (e.scale c).parts = some (ps.map (· * c)) := congrArg (Option.map _) hparts
    exact (numbered_of_parts_eq_some hscaled).mpr (mt List.map_eq_nil_iff.mp h)

theorem numbered_normalized [Symbol S] (h : e.normalized = .ok n) : n.Numbered := by
  obtain ⟨terms, -, h⟩ := bind_eq_ok.mp h
  obtain ⟨c, -, h⟩ := bind_eq_ok.mp h
  cases h
  exact numbered_of_parts rfl

theorem numbered_ofTerms [Symbol S] {c : K} {terms : List (S × K)} (h : ofTerms c terms = .ok e) : e.Numbered := by
  obtain ⟨owner, -, h⟩ := bind_eq_ok.mp h
  cases h
  exact numbered_of_parts rfl

end Affine

namespace Full

variable {e a b n s : Full K}

/-- There is a number in every coefficient, and in the constant. -/
structure Numbered (e : Full K) : Prop where
  coefficients : ∀ t ∈ e.terms, t.2.Numbered
  constant : e.constant.Numbered

theorem Numbered.concat (ha : a.Numbered) (hb : b.Numbered) {owner : Option ModelId} (h : a.concat b owner = .ok s) :
    s.Numbered := by
  obtain ⟨inner, -, h⟩ := bind_eq_ok.mp h
  cases h
  exact ⟨List.forall_mem_append.mpr ⟨ha.coefficients, hb.coefficients⟩, ha.constant.concat inner⟩

theorem Numbered.scale (h : e.Numbered) (c : K) : (e.scale c).Numbered :=
  ⟨List.forall_mem_map.mpr fun t ht => (h.coefficients t ht).scale c, h.constant.scale c⟩

theorem numbered_normalized (h : e.normalized = .ok n) : n.Numbered := by
  obtain ⟨sums, hsums, h⟩ := bind_eq_ok.mp h
  obtain ⟨constant, hconstant, h⟩ := bind_eq_ok.mp h
  cases h
  refine ⟨fun t ht => ?_, Affine.numbered_normalized hconstant⟩
  obtain ⟨p, -, hpt⟩ := exists_left_of_forall₂ (mapM_eq_ok_iff.mp hsums) (List.mem_filter.mp ht).1
  obtain ⟨f, hf, hpt⟩ := bind_eq_ok.mp hpt
  cases hpt
  exact Affine.numbered_normalized hf

end Full

namespace Expr

variable {e a b n s : Expr K}

/-- There is a number in every part. -/
def Numbered : Expr K → Prop
  | linear e => e.Numbered
  | uncertain e => e.Numbered
  | full e => e.Numbered

theorem Numbered.toFull (h : e.Numbered) : e.toFull.Numbered := by
  cases e with
  | linear e => exact ⟨List.forall_mem_map.mpr fun t _ => Affine.numbered_of_parts rfl, h⟩
  | uncertain e => exact ⟨List.forall_mem_nil _, h⟩
  | full e => exact h

theorem Numbered.addConstant (h : e.Numbered) (c : K) : (e.addConstant c).Numbered := by
  cases e with
  | linear e => exact Affine.Numbered.addConstant h c
  | uncertain e => exact Affine.Numbered.addConstant h c
  | full e =>
    have h : e.Numbered := h
    exact Full.Numbered.mk h.coefficients (h.constant.addConstant c)

theorem Numbered.scale (h : e.Numbered) (c : K) : (e.scale c).Numbered := by
  cases e with
  | linear e => exact Affine.Numbered.scale h c
  | uncertain e => exact Affine.Numbered.scale h c
  | full e => exact Full.Numbered.scale h c

theorem Numbered.add (ha : a.Numbered) (hb : b.Numbered) (h : a.add b = .ok s) : s.Numbered := by
  obtain ⟨owner, -, ⟨a, b, rfl, rfl, rfl⟩ | ⟨a, b, rfl, rfl, rfl⟩ | ⟨-, f, hf, rfl⟩⟩ := add_cases h
  · exact Affine.Numbered.concat ha owner
  · exact Affine.Numbered.concat ha owner
  · exact ha.toFull.concat hb.toFull hf

theorem numbered_normalized (h : e.normalized = .ok n) : n.Numbered := by
  obtain ⟨f, g, rfl, rfl, hg⟩ | ⟨f, g, rfl, rfl, hg⟩ | ⟨f, g, rfl, rfl, hg⟩ := normalized_cases h
  · exact Affine.numbered_normalized hg
  · exact Affine.numbered_normalized hg
  · exact Full.numbered_normalized hg

theorem Numbered.splitConstant {c : K} (he : e.Numbered) (h : e.splitConstant = .ok (b, c)) : b.Numbered := by
  cases e with
  | linear e =>
    obtain ⟨⟨f, d⟩, hf, h⟩ := bind_eq_ok.mp h
    cases h
    rw [Affine.splitConstant_eq hf]
    exact Affine.numbered_of_parts rfl
  | uncertain e =>
    obtain ⟨⟨f, d⟩, hf, h⟩ := bind_eq_ok.mp h
    cases h
    rw [Affine.splitConstant_eq hf]
    exact Affine.numbered_of_parts rfl
  | full e =>
    have he : e.Numbered := he
    obtain ⟨⟨f, d⟩, hf, h⟩ := bind_eq_ok.mp h
    cases h
    rw [Full.splitConstant_eq hf]
    exact Full.Numbered.mk he.coefficients (Affine.numbered_of_parts rfl)

end Expr

namespace Quantity

variable {a b q s : Quantity K}

/-- There is a number in every part. -/
def Numbered : Quantity K → Prop
  | number _ => True
  | expr e => e.Numbered

theorem Numbered.scale (h : q.Numbered) (c : K) : (q.scale c).Numbered := by
  cases q with
  | number d => trivial
  | expr e => exact Expr.Numbered.scale h c

theorem Numbered.add (ha : a.Numbered) (hb : b.Numbered) (h : a.add b = .ok s) : s.Numbered := by
  cases a with
  | number c =>
    cases b with
    | number d =>
      cases h
      trivial
    | expr f =>
      cases h
      exact Expr.Numbered.addConstant hb c
  | expr e =>
    cases b with
    | number d =>
      cases h
      exact Expr.Numbered.addConstant ha d
    | expr f =>
      obtain ⟨g, hg, h⟩ := bind_eq_ok.mp h
      cases h
      exact Expr.Numbered.add ha hb hg

/-- The simplest kind of a normal form is made of its numbers. -/
theorem numbered_simplest {n : Full K} (h : n.Numbered) : n.simplest.Numbered := by
  rcases n.simplest_cases with heq | ⟨-, heq⟩ | ⟨-, -, heq⟩ | heq <;> rw [heq]
  · trivial
  · exact h.constant
  · exact Affine.numbered_of_parts rfl
  · exact h

theorem numbered_reduce {e : Expr K} (h : e.reduce = .ok q) : q.Numbered := by
  obtain ⟨e, n, rfl, hn, rfl⟩ | ⟨e, n, rfl, hn, rfl⟩ | ⟨e, n, rfl, hn, rfl⟩ := Expr.reduce_cases h
  · split
    next => trivial
    next => exact Affine.numbered_normalized hn
  · split
    next => trivial
    next => exact Affine.numbered_normalized hn
  · exact numbered_simplest (Full.numbered_normalized hn)

theorem numbered_cross {u : Affine Parameter K} {l : Affine Variable K} {o : Option ModelId} (hu : u.Numbered) :
    (cross u l o).Numbered where
  coefficients := List.forall_mem_map.mpr fun t _ => hu.scale t.2
  constant := hu.scale l.constant

theorem numbered_mulExpr {a b : Expr K} (ha : a.Numbered) (hb : b.Numbered) (h : mulExpr a b = .ok s) : s.Numbered := by
  obtain ⟨ra, hra, h⟩ := bind_eq_ok.mp h
  have hra : ra.Numbered := numbered_reduce (liftFault_eq_ok.mp hra)
  rcases ra with x | ra
  · cases h
    exact hb.scale x
  · obtain ⟨rb, hrb, h⟩ := bind_eq_ok.mp h
    have hrb : rb.Numbered := numbered_reduce (liftFault_eq_ok.mp hrb)
    rcases rb with y | rb
    · cases h
      exact ha.scale y
    · obtain ⟨owner, -, h⟩ := bind_eq_ok.mp h
      split at h
      next u l =>
        cases h
        exact numbered_cross hra
      next l u =>
        cases h
        exact numbered_cross hrb
      next => cases h

theorem Numbered.mul (ha : a.Numbered) (hb : b.Numbered) (h : a.mul b = .ok s) : s.Numbered := by
  cases a with
  | number c =>
    cases b with
    | number d =>
      cases h
      trivial
    | expr f =>
      cases h
      exact Expr.Numbered.scale hb c
  | expr e =>
    cases b with
    | number d =>
      cases h
      exact Expr.Numbered.scale ha d
    | expr f => exact numbered_mulExpr ha hb h

theorem Numbered.div (ha : a.Numbered) (h : a.div b = .ok s) : s.Numbered := by
  obtain ⟨r, -, h⟩ := bind_eq_ok.mp h
  cases r with
  | expr e => cases h
  | number y =>
    dsimp only at h
    split at h
    next => cases h
    next =>
      cases a with
      | number x =>
        cases h
        trivial
      | expr e =>
        cases h
        exact Expr.Numbered.scale ha _

/-- **There is a number in every part** of what the operations form. -/
theorem Formed.numbered (h : q.Formed) : q.Numbered := by
  induction h with
  | number c => trivial
  | ofVariable v => exact Affine.numbered_of_parts rfl
  | ofParameter u => exact Affine.numbered_of_parts rfl
  | linear h => exact Affine.numbered_ofTerms h
  | uncertain h => exact Affine.numbered_ofTerms h
  | full _ _ h ihterms ihconstant =>
    obtain ⟨owner, -, h⟩ := bind_eq_ok.mp h
    cases h
    exact Full.Numbered.mk ihterms ihconstant
  | add _ _ h iha ihb => exact iha.add ihb h
  | scale c _ ih => exact ih.scale c
  | mul _ _ h iha ihb => exact iha.mul ihb h
  | div _ _ h iha _ => exact iha.div h
  | normalized _ h _ => exact Expr.numbered_normalized h
  | splitConstant _ h ih => exact Expr.Numbered.splitConstant ih h
  | specialize _ h _ =>
    obtain ⟨terms, -, h⟩ := bind_eq_ok.mp h
    obtain ⟨constant, -, h⟩ := bind_eq_ok.mp h
    cases h
    exact Affine.numbered_of_parts rfl
  | coefficient _ ht ih => exact Full.Numbered.coefficients ih _ ht
  | constant _ ih => exact Full.Numbered.constant ih

end Quantity

/-! ## Striking out parameters -/

/-- **The expression without parameters:** every number stays where it stands. -/
def Full.withoutParameters (e : Full K) : Affine Variable K :=
  { terms := spread Affine.constantParts e.terms, constant := e.constant.constant, parts := e.constant.parts, owner := e.owner }

/-- The linear expression that is left of any one when its parameters are struck out. -/
def Expr.withoutParameters (e : Expr K) : Expr K := .linear e.toFull.withoutParameters

omit [Scalar K B] in
/-- No other variables occur than before. -/
theorem Expr.mem_of_mem_withoutParameters {e : Expr K} {v : Variable} (h : v ∈ e.withoutParameters.allVariables) :
    v ∈ e.allVariables := by
  obtain ⟨t, ht, rfl⟩ := List.mem_map.mp h
  obtain ⟨s, hs, ht⟩ := List.mem_flatMap.mp ht
  obtain ⟨c, -, rfl⟩ := List.mem_map.mp ht
  cases e with
  | linear e =>
    obtain ⟨u, hu, rfl⟩ := List.mem_map.mp hs
    exact List.mem_map.mpr ⟨u, hu, rfl⟩
  | uncertain e => cases hs
  | full e => exact List.mem_map_of_mem hs

/-- **Every coefficient of a parameter is zero** after normalisation. -/
def Expr.ParametersCancel (e : Expr K) : Prop := ∀ n, e.normalized = .ok n → n.allParameters = []

namespace Full

variable {e n : Full K}

/-- A normal form in which the coefficients, and the constant, are numbers. -/
structure Numeric (n : Full K) : Prop where
  coefficients : ∀ t ∈ n.terms, t.2.terms = []
  constant : n.constant.terms = []

omit [Scalar K B] in
theorem numeric_iff : n.Numeric ↔ (Expr.full n).allParameters = [] := by
  rw [Expr.allParameters, List.flatMap_eq_nil_iff]
  simp only [List.map_eq_nil_iff, List.forall_mem_cons, List.forall_mem_map]
  exact ⟨fun h => ⟨h.constant, h.coefficients⟩, fun h => ⟨h.2, h.1⟩⟩

/-- The form in the variables that a normal form with numbers as coefficients is. -/
def numbers (n : Full K) : Affine Variable K :=
  { terms := n.terms.map fun t => (t.1, t.2.constant), constant := n.constant.constant, owner := n.owner }

end Full

section

variable [Bound B] [Scalar.Neutral K]

/-- A single number is a sum, too, but for the sign of a zero. -/
theorem exists_sumCoefs {cs : List K} {s : K} (h : Scalar.sum cs = .ok s) :
    ∃ c, sumCoefs cs = .ok c ∧ Scalar.isZero s = Scalar.isZero c ∧ (Scalar.isZero c = false → s = c) := by
  unfold sumCoefs
  split
  next c =>
    obtain ⟨s', hs', hzero, hsame⟩ := Scalar.Neutral.sum_singleton (B := B) c
    obtain rfl := Except.ok.inj (h.symm.trans hs')
    exact ⟨c, rfl, hzero, hsame⟩
  next => exact ⟨s, h, rfl, fun _ => rfl⟩

namespace Full

variable {e n : Full K}

/-- The number that takes the place of a coefficient form. -/
structure Struck (t : Variable × Affine Parameter K) (t' : Variable × K) : Prop where
  symbol : t'.1 = t.1
  zero : Scalar.isZero t.2.constant = Scalar.isZero t'.2
  number : Scalar.isZero t'.2 = false → t.2.constant = t'.2

/-- The numbers of coefficient forms are added up beside the forms. -/
theorem exists_struck {o : Option ModelId} {p : Variable × List (Affine Parameter K)} {t : Variable × Affine Parameter K}
    (h : (do return (p.1, ← sumForms o p.2) : Except Fault _) = .ok t) :
    ∃ t', (do return (p.1, ← sumCoefs (p.2.flatMap Affine.constantParts)) : Except Fault _) = .ok t' ∧ Struck t t' := by
  obtain ⟨f, hf, h⟩ := bind_eq_ok.mp h
  cases h
  obtain ⟨terms, -, hf⟩ := bind_eq_ok.mp hf
  obtain ⟨constant, hconstant, hf⟩ := bind_eq_ok.mp hf
  cases hf
  obtain ⟨c, hc, hzero, hnumber⟩ := exists_sumCoefs (B := B) hconstant
  exact ⟨(p.1, c), bind_eq_ok.mpr ⟨c, hc, rfl⟩, rfl, hzero, hnumber⟩

omit [Bound B] [Scalar.Neutral K] in
/-- The terms that are kept are the same, as long as those of the forms are numbers. -/
theorem filter_of_struck {ts : List (Variable × Affine Parameter K)} {ts' : List (Variable × K)} (h : List.Forall₂ Struck ts ts')
    (hnumeric : ∀ t ∈ ts, isZeroForm t.2 = false → t.2.terms = []) :
    ts'.filter (fun t => !Scalar.isZero t.2) = (ts.filter fun t => !isZeroForm t.2).map fun t => (t.1, t.2.constant) := by
  induction h with
  | nil => rfl
  | @cons t t' ts ts' ht _ ih =>
    have hrest := ih fun s hs => hnumeric s (List.mem_cons_of_mem _ hs)
    cases hform : isZeroForm t.2 with
    | true =>
      have hzero : Scalar.isZero t'.2 = true := by
        rw [← ht.zero]
        exact (Bool.and_eq_true_iff.mp hform).2
      rw [List.filter_cons_of_neg (by rw [hzero]; exact Bool.false_ne_true),
        List.filter_cons_of_neg (by rw [hform]; exact Bool.false_ne_true), hrest]
    | false =>
      have hterms := hnumeric t List.mem_cons_self hform
      have hzero : Scalar.isZero t'.2 = false := by
        rwa [isZeroForm, hterms, List.isEmpty_nil, Bool.true_and, ht.zero] at hform
      rw [List.filter_cons_of_pos (by rw [hzero]; rfl), List.filter_cons_of_pos (by rw [hform]; rfl), hrest, List.map_cons,
        ht.number hzero, ← ht.symbol]

/-- **Parameters that cancel may be struck out** before terms are brought together, or afterwards. -/
theorem normalized_withoutParameters (he : e.Numbered) (h : e.normalized = .ok n) (hn : n.Numeric) :
    e.withoutParameters.normalized = .ok n.numbers := by
  obtain ⟨sums, hsums, h⟩ := bind_eq_ok.mp h
  obtain ⟨constant, hconstant, h⟩ := bind_eq_ok.mp h
  cases h
  obtain ⟨totals, htotals, hstruck⟩ := exists_forall₂ (mapM_eq_ok_iff.mp hsums) fun p t => exists_struck
  have hnumeric : ∀ t ∈ sums, isZeroForm t.2 = false → t.2.terms = [] := fun t ht hform =>
    hn.coefficients t (List.mem_filter.mpr ⟨ht, by rw [hform]; rfl⟩)
  have hgather : gather Symbol.index (spread Affine.constantParts e.terms)
      = (gather Variable.index e.terms).map fun p => (p.1, p.2.flatMap Affine.constantParts) :=
    gather_spread Variable.index he.coefficients
  have hcollapse : collapse e.withoutParameters.terms = .ok (totals.filter fun t => !Scalar.isZero t.2) := by
    refine bind_eq_ok.mpr ⟨totals, ?_, rfl⟩
    rw [withoutParameters, hgather, mapM_eq_ok_iff, List.forall₂_map_left_iff]
    exact htotals
  obtain ⟨terms, -, hconstant⟩ := bind_eq_ok.mp hconstant
  obtain ⟨c, hc, hconstant⟩ := bind_eq_ok.mp hconstant
  cases hconstant
  refine bind_eq_ok.mpr ⟨_, hcollapse, bind_eq_ok.mpr ⟨c, hc, congrArg Except.ok ?_⟩⟩
  rw [filter_of_struck hstruck hnumeric]
  rfl

/-! ## Forms over positions -/

/-- A form without positions has the same value everywhere: its constant, to which nothing is added. -/
theorem evaluate_form {f : Affine Parameter K} (hf : f.terms = []) (point : Lookup K) :
    f.form.evaluate point = .ok (Scalar.zero + f.constant) := by
  have hproducts : f.form.linear.mapM (fun t => do return t.2 * (← point t.1)) = (.ok [] : Except Fault (List K)) := by
    rw [Affine.form, hf]
    rfl
  exact bind_eq_ok.mpr ⟨[], hproducts, bind_eq_ok.mpr ⟨Scalar.zero, Scalar.Neutral.sum_nil, rfl⟩⟩

omit [Bound B] [Scalar.Neutral K] in
theorem mixedForm_full (h : e.normalized = .ok n) : (Expr.full e).mixedForm
    = .ok { linear := n.terms.map fun t => (t.1.index, t.2.form), constant := n.constant.form } := by
  unfold Expr.mixedForm Expr.normalized
  dsimp only
  rw [h]
  rfl

/-- **The mixed form of an expression whose parameters cancel** involves no parameters, and at every point it has the coefficients
and, with nothing added, the constant that are left without parameters. -/
theorem exists_mixedForm (h : e.normalized = .ok n) (hn : n.Numeric) : ∃ f, (Expr.full e).mixedForm = .ok f
    ∧ f.isDeterministic = true ∧ ∀ point, f.specialize point
      = .ok { linear := n.numbers.form.linear, constant := Scalar.zero + n.numbers.constant } := by
  refine ⟨_, mixedForm_full h, ?_, fun point => ?_⟩
  · have hcoefficients : ∀ t ∈ n.terms.map (fun t => (t.1.index, t.2.form)), t.2.isConstant = true :=
      List.forall_mem_map.mpr fun t ht => by rw [Form.isConstant, Affine.form, hn.coefficients t ht]; rfl
    have hconstant : n.constant.form.isConstant = true := by rw [Form.isConstant, Affine.form, hn.constant]; rfl
    rw [MixedForm.isDeterministic, hconstant, Bool.true_and]
    exact List.all_eq_true.mpr hcoefficients
  · have hnumber : ∀ t ∈ n.terms, Scalar.isZero t.2.constant = false := by
      intro t ht
      have hform := (isNormal_of_normalized h).nonzero t ht
      rwa [isZeroForm, hn.coefficients t ht, List.isEmpty_nil, Bool.true_and] at hform
    have hvalues : (n.terms.map fun t => (t.1.index, t.2.form)).mapM
        (fun t => do return (t.1, ← t.2.evaluate point)) = (.ok n.numbers.form.linear : Except Fault (List (Nat × K))) := by
      rw [numbers, Affine.form, List.map_map, mapM_eq_ok_iff, List.forall₂_map_left_iff, List.forall₂_map_right_iff,
        List.forall₂_same]
      intro t ht
      refine bind_eq_ok.mpr ⟨_, evaluate_form (hn.coefficients t ht) point, ?_⟩
      rw [Scalar.Neutral.zero_add (hnumber t ht)]
      rfl
    have hkept : n.numbers.form.linear.filter (fun t => !Scalar.isZero t.2) = n.numbers.form.linear := by
      refine List.filter_eq_self.mpr ?_
      rw [numbers, Affine.form, List.map_map]
      refine List.forall_mem_map.mpr fun t ht => ?_
      rw [Bool.not_eq_true']
      exact hnumber t ht
    refine bind_eq_ok.mpr ⟨_, hvalues, bind_eq_ok.mpr ⟨_, evaluate_form hn.constant point, congrArg Except.ok ?_⟩⟩
    rw [hkept]
    rfl

end Full

end

end RobustLP
