import RobustLP.Proofs.Algebra.Equality
import RobustLP.Proofs.Algebra.Parameterless
import RobustLP.Proofs.Rounding.Reduction

/-!
# Structural equality of normal forms

Quantities are compared after each has been reduced to its simplest kind. The kinds need not be told apart: normal forms reduce to
what agrees exactly when they agree term by term as full forms (`Full.agrees_simplest`), and so structural equality compares the
full normal forms (`Expr.equal_eq_agrees`).
-/

namespace RobustLP

variable {K B : Type} [Scalar K B]

/-! ## Kinds -/

theorem Affine.isEmpty_eq_of_agrees {S : Type} [BEq S] {a b : Affine S K} (h : a.agrees b = true) :
    a.terms.isEmpty = b.terms.isEmpty := by
  have hlength := length_eq_of_allAgree (Bool.and_eq_true_iff.mp h).2
  rw [Bool.eq_iff_iff, List.isEmpty_iff_length_eq_zero, List.isEmpty_iff_length_eq_zero, hlength]

namespace Full

variable {a b n : Full K}

/-- Two full forms agree term by term. -/
def agrees (a b : Full K) : Bool :=
  coefAgrees a.constant b.constant && allAgree (fun s t => s.1 == t.1 && coefAgrees s.2 t.2) a.terms b.terms

/-- **The kind of a normal form** depends on whether it has variables, and parameters. -/
theorem simplest_kinds (n : Full K) :
    (n.terms = [] ∧ n.simplest = if n.constant.terms.isEmpty then .number n.constant.constant else .expr (.uncertain n.constant))
      ∨ (n.terms ≠ [] ∧ n.Numeric ∧ n.simplest = .expr (.linear n.numbers))
      ∨ (n.terms ≠ [] ∧ ¬n.Numeric ∧ n.simplest = .expr (.full n)) := by
  unfold simplest
  by_cases hterms : n.terms = []
  · exact .inl ⟨hterms, if_pos (List.isEmpty_iff.mpr hterms)⟩
  rw [if_neg (mt List.isEmpty_iff.mp hterms)]
  by_cases hconstant : n.constant.terms = []
  · rw [if_pos (List.isEmpty_iff.mpr hconstant)]
    by_cases hnumeric : ∀ t ∈ n.terms, t.2.terms.isEmpty = true
    · rw [numericTerms_eq_some hnumeric]
      exact .inr (.inl ⟨hterms, ⟨fun t ht => List.isEmpty_iff.mp (hnumeric t ht), hconstant⟩, rfl⟩)
    · push Not at hnumeric
      obtain ⟨t, ht, hne⟩ := hnumeric
      rw [numericTerms_eq_none ht (Bool.eq_false_iff.mpr hne)]
      exact .inr (.inr ⟨hterms, fun h => hne (List.isEmpty_iff.mpr (h.coefficients t ht)), rfl⟩)
  · rw [if_neg (mt List.isEmpty_iff.mp hconstant)]
    exact .inr (.inr ⟨hterms, fun h => hconstant h.constant, rfl⟩)

/-- Full forms that agree are of the same kind. -/
theorem kind_of_agrees (h : a.agrees b = true) : (a.terms = [] ↔ b.terms = []) ∧ (a.Numeric ↔ b.Numeric) := by
  obtain ⟨hconstant, hterms⟩ := Bool.and_eq_true_iff.mp h
  have hlength := length_eq_of_allAgree hterms
  have hagree := allAgree_iff.mp hterms
  have hempty : ∀ {f g : Affine Parameter K}, coefAgrees f g = true → (f.terms = [] ↔ g.terms = []) := by
    intro f g h
    rw [← List.isEmpty_iff, ← List.isEmpty_iff, Affine.isEmpty_eq_of_agrees h]
  refine ⟨by rw [← List.length_eq_zero_iff, ← List.length_eq_zero_iff, hlength], ?_, ?_⟩
  · intro ha
    refine ⟨fun t ht => ?_, (hempty hconstant).mp ha.constant⟩
    obtain ⟨s, hs, hst⟩ := exists_left_of_forall₂ hagree ht
    exact (hempty (Bool.and_eq_true_iff.mp hst).2).mp (ha.coefficients s hs)
  · intro hb
    refine ⟨fun s hs => ?_, (hempty hconstant).mpr hb.constant⟩
    obtain ⟨t, ht, hst⟩ := exists_right_of_forall₂ hagree hs
    exact (hempty (Bool.and_eq_true_iff.mp hst).2).mpr (hb.coefficients t ht)

/-- Coefficients that are numbers agree when the numbers are equal. -/
theorem coefAgrees_of_nil {f g : Affine Parameter K} (hf : f.terms = []) (hg : g.terms = []) :
    coefAgrees f g = Scalar.beq f.constant g.constant := by
  rw [coefAgrees, Affine.agrees, hf, hg, allAgree, Bool.and_true]

theorem agrees_numbers (ha : a.Numeric) (hb : b.Numeric) : a.numbers.agrees b.numbers = a.agrees b := by
  have hterms : allAgree (fun s t : Variable × K => s.1 == t.1 && Scalar.beq s.2 t.2) (a.terms.map fun t => (t.1, t.2.constant))
      (b.terms.map fun t => (t.1, t.2.constant))
      = allAgree (fun s t => s.1 == t.1 && coefAgrees s.2 t.2) a.terms b.terms :=
    allAgree_map fun s hs t ht => by rw [coefAgrees_of_nil (ha.coefficients s hs) (hb.coefficients t ht)]
  rw [agrees, coefAgrees_of_nil ha.constant hb.constant, ← hterms]
  rfl

/-- Forms in the parameters agree as what they reduce to. -/
theorem agrees_uncertain (f g : Affine Parameter K) :
    (if f.terms.isEmpty then Quantity.number f.constant else .expr (.uncertain f)).agrees
      (if g.terms.isEmpty then .number g.constant else .expr (.uncertain g)) = f.agrees g := by
  have hkind : f.terms.isEmpty ≠ g.terms.isEmpty → f.agrees g = false := fun h =>
    Bool.eq_false_iff.mpr fun hagrees => h (Affine.isEmpty_eq_of_agrees hagrees)
  cases hf : f.terms.isEmpty with
  | true =>
    cases hg : g.terms.isEmpty with
    | true => exact (coefAgrees_of_nil (List.isEmpty_iff.mp hf) (List.isEmpty_iff.mp hg)).symm
    | false => exact (hkind (by rw [hf, hg]; decide)).symm
  | false =>
    cases hg : g.terms.isEmpty with
    | true => exact (hkind (by rw [hf, hg]; decide)).symm
    | false => rfl

/-- **Reducing to the simplest kind** changes nothing for a comparison. -/
theorem agrees_simplest (a b : Full K) : a.simplest.agrees b.simplest = a.agrees b := by
  have hkind : ¬((a.terms = [] ↔ b.terms = []) ∧ (a.Numeric ↔ b.Numeric)) → a.agrees b = false := fun h =>
    Bool.eq_false_iff.mpr fun hagrees => h (kind_of_agrees hagrees)
  obtain ⟨ha, hsimplest⟩ | ⟨ha, hnumeric, hsimplest⟩ | ⟨ha, hnumeric, hsimplest⟩ := a.simplest_kinds <;>
    obtain ⟨hb, hsimplest'⟩ | ⟨hb, hnumeric', hsimplest'⟩ | ⟨hb, hnumeric', hsimplest'⟩ := b.simplest_kinds <;>
      rw [hsimplest, hsimplest']
  case inl.inl =>
    rw [agrees_uncertain, agrees, ha, hb, allAgree, Bool.and_true]
    rfl
  case inr.inl.inr.inl => exact agrees_numbers hnumeric hnumeric'
  case inr.inr.inr.inr => rfl
  case inr.inl.inr.inr => exact (hkind fun h => hnumeric' (h.2.mp hnumeric)).symm
  case inr.inr.inr.inl => exact (hkind fun h => hnumeric (h.2.mpr hnumeric')).symm
  case inl.inr.inl => rw [hkind fun h => hb (h.1.mp ha)]; split <;> rfl
  case inl.inr.inr => rw [hkind fun h => hb (h.1.mp ha)]; split <;> rfl
  case inr.inl.inl => rw [hkind fun h => ha (h.1.mpr hb)]; split <;> rfl
  case inr.inr.inl => rw [hkind fun h => ha (h.1.mpr hb)]; split <;> rfl

end Full

/-! ## Expressions -/

namespace Expr

/-- **What an expression reduces to** is the simplest kind of its normal form. -/
theorem reduce_eq_simplest {e n : Expr K} (h : e.normalized = .ok n) : e.reduce = .ok n.toFull.simplest := by
  obtain ⟨f, g, rfl, rfl, hg⟩ | ⟨f, g, rfl, rfl, hg⟩ | ⟨f, g, rfl, rfl, hg⟩ := normalized_cases h
  · rw [reduce_linear hg, Full.simplest_toFull_linear (Affine.isNormal_of_normalized hg).parts]
  · exact reduce_uncertain hg
  · exact reduce_full hg

/-- **Structural equality compares the full normal forms.** -/
theorem equal_eq_agrees {a b n n' : Expr K} (ha : a.normalized = .ok n) (hb : b.normalized = .ok n') :
    (Quantity.expr a).equal (.expr b) = .ok (n.toFull.agrees n'.toFull) := by
  rw [← Full.agrees_simplest]
  exact Quantity.equal_eq_ok_iff.mpr ⟨_, _, reduce_eq_simplest ha, reduce_eq_simplest hb, rfl⟩

end Expr

end RobustLP
