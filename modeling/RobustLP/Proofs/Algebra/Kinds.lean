import RobustLP.Proofs.Algebra.Normal
import RobustLP.Proofs.Algebra.Operators
import RobustLP.Proofs.Algebra.Straight

/-!
# The simplest kind of an expression

In exact arithmetic every expression reduces to a quantity of the same value (`Expr.exists_reduce`) whose kind says what the
value depends on (`Quantity.Simplest`): a number on nothing, a linear expression on the variables, an uncertain one on the
parameters, and a full one on both. No term that cancels, and no coefficient that is a number in the guise of a form, is left
to hide a simpler kind.
-/

namespace RobustLP

/-! ## Values at the units -/

namespace Affine

variable {S : Type} [Symbol S]

theorem value_zero (e : Affine S Rat) : e.value 0 = e.constantParts.sum := by
  have hterms : ∀ t ∈ e.terms, t.2 * (0 : Nat → Rat) (Symbol.index t.1) = 0 := fun t _ => mul_zero _
  rw [value, List.map_congr_left hterms, List.map_const', List.sum_replicate, nsmul_zero, zero_add]

/-- With one for a symbol and zero for all others, its coefficient is added. -/
theorem value_single {e : Affine S Rat} (hnodup : e.positions.Nodup) {t : S × Rat} (ht : t ∈ e.terms) :
    e.value (Pi.single (Symbol.index t.1) 1) = t.2 + e.constantParts.sum := by
  obtain ⟨before, after, hsplit⟩ := List.append_of_mem ht
  have hothers : ∀ s ∈ before ++ after, Symbol.index s.1 ≠ Symbol.index t.1 := by
    rw [positions, hsplit, List.map_append, List.map_cons, List.nodup_middle, ← List.map_append] at hnodup
    intro s hs heq
    exact (List.nodup_cons.mp hnodup).1 (heq ▸ List.mem_map_of_mem hs)
  have hzero : ∀ s ∈ before ++ after, s.2 * (Pi.single (Symbol.index t.1) 1 : Nat → Rat) (Symbol.index s.1) = 0 := by
    intro s hs
    rw [Pi.single_eq_of_ne (hothers s hs), mul_zero]
  rw [value, hsplit, List.map_append, List.map_cons, List.sum_append, List.sum_cons,
    List.map_congr_left fun s hs => hzero s (List.mem_append_left _ hs),
    List.map_congr_left fun s hs => hzero s (List.mem_append_right _ hs), Pi.single_eq_same]
  simp

theorem straight_value (e : Affine S Rat) : Straight fun v => e.value v :=
  (Straight.sum fun _ _ => (Straight.entry _).const_mul _).add (.const _)

/-- A term of a normal form makes the value depend on its symbol. -/
theorem value_ne_of_mem {e : Affine S Rat} (hnodup : e.positions.Nodup) {t : S × Rat} (ht : t ∈ e.terms) (hc : t.2 ≠ 0) :
    e.value (Pi.single (Symbol.index t.1) 1) ≠ e.value 0 := by
  rw [value_single hnodup ht, value_zero]
  exact fun h => hc (add_eq_right.mp h)

theorem ne_zero_of_mem_normalForm {e : Affine S Rat} {t : S × Rat} (ht : t ∈ e.normalForm.terms) : t.2 ≠ 0 := by
  have hz := (List.mem_filter.mp ht).2
  rw [Bool.not_eq_true'] at hz
  exact isZero_eq_false_iff.mp hz

/-- An expression whose normal form has symbols does not have the same value everywhere. -/
theorem exists_value_ne {e : Affine S Rat} (h : e.normalForm.terms.isEmpty = false) : ∃ v w, e.value v ≠ e.value w := by
  obtain ⟨t, ht⟩ := List.exists_mem_of_ne_nil _ (List.isEmpty_eq_false_iff.mp h)
  have hne := value_ne_of_mem (nodup_positions_normalForm e) ht (ne_zero_of_mem_normalForm ht)
  rw [value_normalForm, value_normalForm] at hne
  exact ⟨_, _, hne⟩

end Affine

namespace Full

/-- A coefficient of a normal form is not zero for all numbers of the parameters. -/
theorem exists_value_ne_zero {e : Full Rat} {t : Variable × Affine Parameter Rat} (ht : t ∈ e.normalForm.terms) :
    ∃ u, t.2.value u ≠ 0 := by
  obtain ⟨f, hf⟩ := exists_normalForm_of_mem ht
  have hz := (List.mem_filter.mp ht).2
  rw [Bool.not_eq_true', hf, isZeroForm] at hz
  simp only [hf, Affine.value_normalForm]
  cases hempty : f.normalForm.terms.isEmpty with
  | true =>
    rw [hempty, Bool.true_and] at hz
    exact ⟨0, (Affine.value_eq_constant hempty 0).trans_ne (isZero_eq_false_iff.mp hz)⟩
  | false =>
    obtain ⟨v, w, hne⟩ := Affine.exists_value_ne hempty
    by_contra hall
    push Not at hall
    exact hne ((hall v).trans (hall w).symm)

theorem value_zero (e : Full Rat) (u : Nat → Rat) : e.value 0 u = e.constant.value u := by
  rw [← value_fixed, Affine.value_zero]
  exact List.sum_singleton

/-- With one for a variable and zero for all others, its coefficient is added. -/
theorem value_single {e : Full Rat} (hnodup : e.columns.Nodup) {t : Variable × Affine Parameter Rat} (ht : t ∈ e.terms)
    (u : Nat → Rat) : e.value (Pi.single t.1.index 1) u = t.2.value u + e.constant.value u := by
  have hpositions : (e.fixed u).positions.Nodup := by
    rw [Affine.positions, fixed, List.map_map]
    exact hnodup
  have hmem : (t.1, t.2.value u) ∈ (e.fixed u).terms := List.mem_map_of_mem ht
  have hconstant : (e.fixed u).constantParts.sum = e.constant.value u := List.sum_singleton
  rw [← value_fixed, ← hconstant]
  exact Affine.value_single hpositions hmem

end Full

/-! ## Kinds -/

namespace Quantity

/-- The value depends on the variables. -/
def ReadsVariables (q : Quantity Rat) : Prop := ∃ u x y, q.value x u ≠ q.value y u

/-- The value depends on the parameters. -/
def ReadsParameters (q : Quantity Rat) : Prop := ∃ x u v, q.value x u ≠ q.value x v

/-- **A kind that cannot be simpler:** the value depends on all that the kind allows. -/
inductive Simplest : Quantity Rat → Prop
  | number (c : Rat) : Simplest (.number c)
  | linear {e : Affine Variable Rat} (hparts : e.parts = none) (hreads : (Quantity.expr (.linear e)).ReadsVariables) :
    Simplest (.expr (.linear e))
  | uncertain {e : Affine Parameter Rat} (hreads : (Quantity.expr (.uncertain e)).ReadsParameters) :
    Simplest (.expr (.uncertain e))
  | full {e : Full Rat} (hvariables : (Quantity.expr (.full e)).ReadsVariables)
    (hparameters : (Quantity.expr (.full e)).ReadsParameters) : Simplest (.expr (.full e))

/-- The outcome of a reduction: of the same value, over the same model, and of the simplest kind. -/
structure Reduces (e : Expr Rat) (q : Quantity Rat) : Prop where
  simplest : q.Simplest
  value : ∀ x u, q.value x u = e.value x u
  owned : ∀ m, e.Over m → q.Over m

end Quantity

namespace Expr

open Quantity

theorem exists_reduce_linear (e : Affine Variable Rat) : ∃ q, reduceAffine .linear e = .ok q ∧ Reduces (.linear e) q := by
  unfold reduceAffine
  rw [Affine.normalized_eq]
  refine ⟨_, rfl, ?_⟩
  split
  next hempty => exact ⟨.number _, fun x u => (Affine.value_eq_constant hempty x).symm, fun m _ => trivial⟩
  next hempty =>
    have hvalue := fun x => Affine.value_normalForm x e
    obtain ⟨x, y, hne⟩ := Affine.exists_value_ne (Bool.not_eq_true _ ▸ hempty)
    have hreads : (Quantity.expr (.linear e.normalForm)).ReadsVariables :=
      ⟨0, x, y, (hvalue x).trans_ne (hne.trans_eq (hvalue y).symm)⟩
    exact ⟨.linear rfl hreads, fun x u => hvalue x, fun m hm => hm⟩

theorem exists_reduce_uncertain (e : Affine Parameter Rat) :
    ∃ q, reduceAffine .uncertain e = .ok q ∧ Reduces (.uncertain e) q := by
  unfold reduceAffine
  rw [Affine.normalized_eq]
  refine ⟨_, rfl, ?_⟩
  split
  next hempty => exact ⟨.number _, fun x u => (Affine.value_eq_constant hempty u).symm, fun m _ => trivial⟩
  next hempty =>
    have hvalue := fun u => Affine.value_normalForm u e
    obtain ⟨u, v, hne⟩ := Affine.exists_value_ne (Bool.not_eq_true _ ▸ hempty)
    have hreads : (Quantity.expr (.uncertain e.normalForm)).ReadsParameters :=
      ⟨0, u, v, (hvalue u).trans_ne (hne.trans_eq (hvalue v).symm)⟩
    exact ⟨.uncertain hreads, fun x u => hvalue u, fun m hm => hm⟩

/-- The coefficients of a full normal form depend on the variables. -/
theorem readsVariables_normalForm {e : Full Rat} (h : e.normalForm.terms.isEmpty = false) :
    (Quantity.expr (.full e.normalForm)).ReadsVariables := by
  obtain ⟨t, ht⟩ := List.exists_mem_of_ne_nil _ (List.isEmpty_eq_false_iff.mp h)
  obtain ⟨u, hu⟩ := Full.exists_value_ne_zero ht
  -- from zero to one in its variable, the value changes by the coefficient
  refine ⟨u, Pi.single t.1.index 1, 0, ?_⟩
  rw [Quantity.value, Expr.value, Full.value_single e.nodup_columns_normalForm ht, Quantity.value, Expr.value, Full.value_zero]
  exact fun heq => hu (add_eq_right.mp heq)

theorem readsParameters_of_constant {e : Full Rat} (h : e.normalForm.constant.terms.isEmpty = false) :
    (Quantity.expr (.full e.normalForm)).ReadsParameters := by
  obtain ⟨u, v, hne⟩ := Affine.exists_value_ne (e := e.constant) h
  refine ⟨0, u, v, ?_⟩
  rw [Quantity.value, Expr.value, Full.value_zero, Quantity.value, Expr.value, Full.value_zero]
  rwa [← Affine.value_normalForm u, ← Affine.value_normalForm v] at hne

/-- A coefficient with parameters makes the value depend on them, unless it is the constant that does. -/
theorem readsParameters_of_mem {e : Full Rat} {t : Variable × Affine Parameter Rat} (ht : t ∈ e.normalForm.terms)
    (h : t.2.terms.isEmpty = false) (hconstant : e.normalForm.constant.terms.isEmpty = true) :
    (Quantity.expr (.full e.normalForm)).ReadsParameters := by
  obtain ⟨f, hf⟩ := Full.exists_normalForm_of_mem ht
  obtain ⟨u, v, hne⟩ := Affine.exists_value_ne (hf ▸ h)
  have hvalue := fun w => Full.value_single e.nodup_columns_normalForm ht w
  have hfixed : ∀ w, e.normalForm.constant.value w = e.constant.normalForm.constant :=
    fun w => (Affine.value_normalForm w e.constant).trans (Affine.value_eq_constant hconstant w)
  -- with one for its variable the coefficient shows, and the constant is a number
  refine ⟨Pi.single t.1.index 1, u, v, ?_⟩
  rw [Quantity.value, Expr.value, hvalue, Quantity.value, Expr.value, hvalue, hfixed, hfixed, hf, Affine.value_normalForm,
    Affine.value_normalForm]
  exact fun heq => hne (add_right_cancel heq)

/-- A full normal form all of whose coefficients are numbers has the value of a linear expression. -/
theorem value_of_numeric {e : Full Rat} (hterms : ∀ t ∈ e.normalForm.terms, t.2.terms.isEmpty = true)
    (hconstant : e.normalForm.constant.terms.isEmpty = true) (x u : Nat → Rat) :
    Affine.value x { terms := e.normalForm.terms.map fun t => (t.1, t.2.constant)
                     constant := e.normalForm.constant.constant, owner := e.normalForm.owner } = e.value x u := by
  have hcoef : ∀ t ∈ e.normalForm.terms, t.2.value u = t.2.constant := by
    intro t ht
    obtain ⟨f, hf⟩ := Full.exists_normalForm_of_mem ht
    have hempty := hterms t ht
    rw [hf] at hempty ⊢
    rw [Affine.value_normalForm, Affine.value_eq_constant hempty]
  have hfixed : e.normalForm.constant.value u = e.normalForm.constant.constant :=
    (Affine.value_normalForm u e.constant).trans (Affine.value_eq_constant hconstant u)
  rw [Affine.value_eq_of_parts_none x rfl, ← Full.value_normalForm, Full.value, hfixed, List.map_map]
  congr 2
  refine List.map_congr_left fun t ht => ?_
  rw [hcoef t ht]
  rfl

/-- **Every expression reduces to its simplest kind.** -/
theorem exists_reduce (e : Expr Rat) : ∃ q, e.reduce = .ok q ∧ Reduces e q := by
  cases e with
  | linear e => exact exists_reduce_linear e
  | uncertain e => exact exists_reduce_uncertain e
  | full e =>
    have hfull : ∀ {q}, q.Simplest → q = .expr (.full e.normalForm) → Reduces (.full e) q := by
      rintro _ hq rfl
      exact ⟨hq, fun x u => e.value_normalForm x u, fun m hm => hm⟩
    unfold reduce
    dsimp only
    rw [Full.normalized_eq]
    dsimp only [bind, Except.bind]
    cases hempty : e.normalForm.terms.isEmpty with
    | true =>
      obtain ⟨q, hq, hred⟩ := exists_reduce_uncertain e.normalForm.constant
      refine ⟨q, hq, hred.simplest, fun x u => ?_, fun m hm => hred.owned m hm.2⟩
      rw [hred.value, value, value, ← Full.value_normalForm, Full.value, List.isEmpty_iff.mp hempty]
      exact (zero_add _).symm
    | false =>
      have hvariables := readsVariables_normalForm hempty
      cases hconstant : e.normalForm.constant.terms.isEmpty with
      | false =>
        exact ⟨_, rfl, hfull (.full hvariables (readsParameters_of_constant hconstant)) rfl⟩
      | true =>
        by_cases hnumeric : ∀ t ∈ e.normalForm.terms, t.2.terms.isEmpty = true
        · rw [numericTerms_eq_some hnumeric]
          obtain ⟨q, hq, hred⟩ := exists_reduce_linear { terms := e.normalForm.terms.map fun t => (t.1, t.2.constant)
                                                         constant := e.normalForm.constant.constant
                                                         owner := e.normalForm.owner }
          exact ⟨q, hq, hred.simplest, fun x u => (hred.value x u).trans (value_of_numeric hnumeric hconstant x u),
            fun m hm => hred.owned m hm.1⟩
        · push Not at hnumeric
          obtain ⟨t, ht, hne⟩ := hnumeric
          have hne := Bool.eq_false_iff.mpr hne
          rw [numericTerms_eq_none ht hne]
          exact ⟨_, rfl, hfull (.full hvariables (readsParameters_of_mem ht hne hconstant)) rfl⟩

end Expr

/-- **Every quantity reduces to its simplest kind.** -/
theorem Quantity.exists_reduce (q : Quantity Rat) : ∃ r, q.reduce = .ok r ∧ r.Simplest ∧ ∀ x u, r.value x u = q.value x u := by
  cases q with
  | number c => exact ⟨_, rfl, .number c, fun x u => rfl⟩
  | expr e =>
    obtain ⟨r, hr, hred⟩ := e.exists_reduce
    exact ⟨r, hr, hred.simplest, hred.value⟩

end RobustLP
