import RobustLP.Proofs.Algebra.Kinds
import RobustLP.Proofs.Algebra.Owners
import RobustLP.Proofs.Rounding.Order

/-!
# The totals in a normal form

The total of a symbol is the exact sum of all coefficients that it has in a form (`Affine.total`); that of a variable of a full
form is a form itself, the coefficients of the variable one after the other (`Full.coefficient`). Normalising lists the totals
that are not zero, in the order in which the symbols first appear (`Affine.totals_normalForm`, `Full.totals_normalForm`).

Symbols are gathered by their positions, so all of this is about the symbols of one model (`Expr.Within`), which their positions
tell apart (`distinguished_of_model`).
-/

namespace RobustLP

/-! ## Symbols of one model -/

section

variable {S K B : Type} [Symbol S] [Scalar K B] {m : ModelId}

theorem Affine.Within.normalized {e n : Affine S K} (he : e.Within m) (h : e.normalized = .ok n) : n.Within m := by
  intro t ht
  obtain ⟨c, hc⟩ := exists_mem_of_mem_normalized h ht
  exact he (t.1, c) hc

/-- The symbols of several coefficients, one after the other. -/
theorem Affine.within_flatMap {forms : List (Affine Parameter K)} (h : ∀ f ∈ forms, f.Within m) {c : K} {parts : Option (List K)}
    {owner : Option ModelId} : Affine.Within m { terms := forms.flatMap (·.terms), constant := c, parts, owner } := by
  intro t ht
  obtain ⟨f, hf, ht⟩ := List.mem_flatMap.mp ht
  exact h f hf t ht

/-- **The symbols of a normal form** belong to the same model. -/
theorem Full.Within.normalized {e n : Full K} (he : e.Within m) (h : e.normalized = .ok n) : n.Within m := by
  obtain ⟨sums, hsums, h⟩ := bind_eq_ok.mp h
  obtain ⟨constant, hconstant, h⟩ := bind_eq_ok.mp h
  cases h
  have hterm : ∀ t ∈ sums, t.1.model = m ∧ t.2.Within m := by
    intro t ht
    obtain ⟨p, hp, hpt⟩ := exists_left_of_forall₂ (mapM_eq_ok_iff.mp hsums) ht
    obtain ⟨f, hf, hpt⟩ := bind_eq_ok.mp hpt
    cases hpt
    obtain ⟨g, hg⟩ := exists_mem_of_mem_gather Variable.index hp
    have hforms : ∀ g ∈ p.2, g.Within m := by
      intro g hg
      obtain ⟨v, hv⟩ := exists_mem_of_mem_gathered Variable.index hg hp
      exact he.parameters (v, g) hv
    exact ⟨he.decisions (p.1, g) hg, (Affine.within_flatMap hforms).normalized hf⟩
  exact {
    decisions := fun t ht => (hterm t (List.mem_filter.mp ht).1).1
    parameters := fun t ht => (hterm t (List.mem_filter.mp ht).1).2
    constant := he.constant.normalized hconstant }

end

/-! ## First appearances -/

section

variable {S α β : Type} [DecidableEq S]

/-- All that is paired with a symbol. -/
def coefsOf (s : S) (ts : List (S × α)) : List α := (ts.filter fun t => t.1 = s).map (·.2)

theorem coefsOf_eq_nil {s : S} {ts : List (S × α)} (h : s ∉ ts.map (·.1)) : coefsOf s ts = [] := by
  have hnone : ts.filter (fun t => t.1 = s) = [] :=
    List.filter_eq_nil_iff.mpr fun t ht heq => h (of_decide_eq_true heq ▸ List.mem_map_of_mem ht)
  rw [coefsOf, hnone]
  rfl

variable {key : S → Nat} {ts : List (S × α)}

omit [DecidableEq S] in
theorem Distinguished.sublist {us : List (S × α)} (h : Distinguished key ts) (hs : us.Sublist ts) : Distinguished key us :=
  fun s hs' t ht => h s (hs.subset hs') t (hs.subset ht)

theorem valuesOf_eq_coefsOf (h : Distinguished key ts) {s : S} (hs : s ∈ ts.map (·.1)) : valuesOf key s ts = coefsOf s ts := by
  obtain ⟨p, hp, rfl⟩ := List.mem_map.mp hs
  rw [valuesOf, pairsOf, coefsOf]
  congr 1
  refine List.filter_congr fun t ht => ?_
  rw [Bool.eq_iff_iff, beq_iff_eq, decide_eq_true_iff]
  exact ⟨h t ht p hp, fun heq => congrArg key heq⟩

/-- **Gathering lists the symbols at their first appearance.** -/
theorem firsts_eq_eraseDups : ∀ {ts : List (S × α)}, Distinguished key ts → firsts key ts = (ts.map (·.1)).eraseDups
  | [], _ => by rw [firsts, gather_nil]; rfl
  | (s, c) :: rest, h => by
    have hbeside : (pairsBeside key s rest).map (·.1) = (rest.map (·.1)).filter fun t => !t == s := by
      rw [pairsBeside, List.filter_map]
      congr 1
      refine List.filter_congr fun t ht => congrArg (!·) ?_
      rw [Bool.eq_iff_iff, beq_iff_eq, beq_iff_eq]
      exact ⟨h t (List.mem_cons_of_mem _ ht) (s, c) List.mem_cons_self, fun heq => congrArg key heq⟩
    have hrest : Distinguished key (pairsBeside key s rest) :=
      h.sublist (List.filter_sublist.trans (List.sublist_cons_self _ _))
    rw [firsts_cons, firsts_eq_eraseDups hrest, hbeside, List.map_cons, List.eraseDups_cons]
termination_by ts => ts.length
decreasing_by exact Nat.lt_succ_of_le (length_pairsBeside_le _ _ _)

theorem gather_eq_coefsOf (h : Distinguished key ts) :
    gather key ts = (ts.map (·.1)).eraseDups.map fun s => (s, coefsOf s ts) := by
  rw [gather_eq_map, firsts_eq_eraseDups h]
  refine List.map_congr_left fun s hs => ?_
  rw [valuesOf_eq_coefsOf h (List.mem_eraseDups.mp hs)]

/-- **A list of the totals that are kept:** one for each symbol, in the order of first appearance. -/
structure Lists (total : S → β) (keep : β → Prop) (ts : List (S × α)) (sums : List (S × β)) : Prop where
  order : (sums.map (·.1)).Sublist (ts.map (·.1)).eraseDups
  nodup : (sums.map (·.1)).Nodup
  entry : ∀ t ∈ sums, t.2 = total t.1 ∧ keep t.2
  absent : ∀ s, s ∉ sums.map (·.1) ↔ ¬keep (total s)

/-- What is summed for each symbol lists the totals, if nothing is kept of symbols that do not occur. -/
theorem lists_filter (total : S → β) (keep : β → Bool) (h : Distinguished key ts)
    (hnone : ∀ s, s ∉ ts.map (·.1) → keep (total s) = false) :
    Lists total (fun b => keep b = true) ts (((firsts key ts).map fun s => (s, total s)).filter fun t => keep t.2) := by
  have hfst : ((firsts key ts).map fun s => (s, total s)).map (·.1) = firsts key ts := by
    rw [List.map_map]
    exact List.map_id _
  have hsublist : ((((firsts key ts).map fun s => (s, total s)).filter fun t => keep t.2).map (·.1)).Sublist (firsts key ts) := by
    refine (List.filter_sublist.map _).trans ?_
    rw [hfst]
  refine ⟨firsts_eq_eraseDups h ▸ hsublist, (nodup_firsts key ts).sublist hsublist, fun t ht => ?_, fun s => ?_⟩
  · obtain ⟨hmem, hkeep⟩ := List.mem_filter.mp ht
    obtain ⟨s, -, rfl⟩ := List.mem_map.mp hmem
    exact ⟨rfl, hkeep⟩
  · rw [not_iff_not]
    constructor
    · intro hs
      obtain ⟨t, ht, rfl⟩ := List.mem_map.mp hs
      obtain ⟨hmem, hkeep⟩ := List.mem_filter.mp ht
      obtain ⟨s, -, rfl⟩ := List.mem_map.mp hmem
      exact hkeep
    · intro hkeep
      have hs : s ∈ firsts key ts := by
        rw [firsts_eq_eraseDups h, List.mem_eraseDups]
        by_contra hs
        exact Bool.false_ne_true ((hnone s hs).symm.trans hkeep)
      have hmem : (s, total s) ∈ ((firsts key ts).map fun s => (s, total s)).filter fun t => keep t.2 :=
        List.mem_filter.mpr ⟨List.mem_map_of_mem hs, hkeep⟩
      exact List.mem_map_of_mem hmem

end

/-! ## Affine forms -/

namespace Affine

section

variable {S : Type} [DecidableEq S]

/-- The exact sum of the coefficients of a symbol. -/
def total (e : Affine S Rat) (s : S) : Rat := (coefsOf s e.terms).sum

/-- A form that lists the totals of another one that are not zero, and has its constant. -/
structure Totals (e n : Affine S Rat) : Prop where
  terms : Lists e.total (· ≠ 0) e.terms n.terms
  constant : n.constantParts = [e.constantParts.sum]

end

variable {S : Type} [Symbol S] [LawfulSymbol S] [DecidableEq S] {m : ModelId}

/-- **A normal form lists the totals.** -/
theorem totals_normalForm {e : Affine S Rat} (h : e.Within m) : e.Totals e.normalForm := by
  have hkeys : Distinguished Symbol.index e.terms := distinguished_of_model h
  have hgather : e.normalForm.terms
      = ((firsts Symbol.index e.terms).map fun s => (s, e.total s)).filter fun t => !Scalar.isZero t.2 := by
    rw [normalForm, collapsed, gather_eq_coefsOf hkeys, firsts_eq_eraseDups hkeys, List.map_map]
    rfl
  have hlists := lists_filter e.total (fun b => !Scalar.isZero b) hkeys fun s hs => by
    rw [total, coefsOf_eq_nil hs]
    rfl
  rw [← hgather] at hlists
  refine ⟨⟨hlists.order, hlists.nodup, fun t ht => ?_, fun s => ?_⟩, rfl⟩
  · obtain ⟨htotal, hkeep⟩ := hlists.entry t ht
    exact ⟨htotal, isZero_eq_false_iff.mp ((Bool.not_eq_true' _).mp hkeep)⟩
  · rw [hlists.absent, Bool.not_eq_true', isZero_eq_false_iff]

end Affine

/-! ## Full forms -/

namespace Full

section

variable {K B : Type} [Scalar K B] {m : ModelId}

/-- The coefficients of a variable, one after the other. -/
def coefficient (e : Full K) (v : Variable) : Affine Parameter K :=
  { terms := (coefsOf v e.terms).flatMap (·.terms)
    constant := Scalar.zero
    parts := some ((coefsOf v e.terms).flatMap (·.constantParts))
    owner := e.owner }

theorem within_coefficient {e : Full K} (h : e.Within m) (v : Variable) : (e.coefficient v).Within m := by
  refine Affine.within_flatMap fun f hf => ?_
  obtain ⟨t, ht, rfl⟩ := List.mem_map.mp hf
  exact h.parameters t (List.mem_filter.mp ht).1

end

variable {m : ModelId}

/-- A full form whose coefficients list the totals of those of another one. -/
structure Totals (e n : Full Rat) : Prop where
  order : (n.terms.map (·.1)).Sublist (e.terms.map (·.1)).eraseDups
  nodup : (n.terms.map (·.1)).Nodup
  coefficient : ∀ t ∈ n.terms, (e.coefficient t.1).Totals t.2 ∧ (t.2.terms ≠ [] ∨ t.2.constant ≠ 0)
  absent : ∀ v, v ∉ n.terms.map (·.1)
    ↔ (∀ k, (e.coefficient v).total k = 0) ∧ (e.coefficient v).constantParts.sum = 0
  constant : e.constant.Totals n.constant

/-- A form whose normal form is zero has no totals but zero. -/
theorem isZeroForm_normalForm_iff {f : Affine Parameter Rat} (h : f.Within m) :
    isZeroForm f.normalForm = true ↔ (∀ k, f.total k = 0) ∧ f.constantParts.sum = 0 := by
  have htotals := Affine.totals_normalForm h
  rw [isZeroForm, Bool.and_eq_true, List.isEmpty_iff, isZero_iff]
  refine and_congr_left fun _ => ⟨fun hnil k => ?_, fun hzero => ?_⟩
  · have habsent := htotals.terms.absent k
    rw [hnil] at habsent
    exact not_not.mp (habsent.mp List.not_mem_nil)
  · refine List.eq_nil_iff_forall_not_mem.mpr fun t ht => ?_
    obtain ⟨htotal, hne⟩ := htotals.terms.entry t ht
    exact hne (htotal.trans (hzero t.1))

/-- **A full normal form lists the totals,** each of them normalised. -/
theorem totals_normalForm {e : Full Rat} (h : e.Within m) : e.Totals e.normalForm := by
  have hkeys : Distinguished Variable.index e.terms := distinguished_of_model h.decisions
  have hgather : e.normalForm.terms = ((firsts Variable.index e.terms).map fun v => (v, (e.coefficient v).normalForm)).filter
      fun t => !isZeroForm t.2 := by
    rw [normalForm, sums, gather_eq_coefsOf hkeys, firsts_eq_eraseDups hkeys, List.map_map]
    rfl
  have hlists := lists_filter (fun v => (e.coefficient v).normalForm) (fun f => !isZeroForm f) hkeys
    fun v hv => by
      have hnone : coefsOf v e.terms = [] := coefsOf_eq_nil hv
      rw [Bool.not_eq_false', isZeroForm_normalForm_iff (within_coefficient h v), coefficient, hnone]
      exact ⟨fun k => rfl, rfl⟩
  rw [← hgather] at hlists
  refine ⟨hlists.order, hlists.nodup, fun t ht => ?_, fun v => ?_, Affine.totals_normalForm h.constant⟩
  · obtain ⟨htotal, hkeep⟩ := hlists.entry t ht
    refine ⟨htotal ▸ Affine.totals_normalForm (within_coefficient h t.1), ?_⟩
    rw [Bool.not_eq_true', isZeroForm, Bool.and_eq_false_iff, List.isEmpty_eq_false_iff, isZero_eq_false_iff] at hkeep
    exact hkeep
  · rw [hlists.absent, Bool.not_eq_true', Bool.not_eq_false, isZeroForm_normalForm_iff (within_coefficient h v)]

end Full

/-! ## Expressions -/

/-- An expression of the same kind that lists the totals of another one. -/
inductive Expr.Totals : Expr Rat → Expr Rat → Prop
  | linear {e n : Affine Variable Rat} (h : e.Totals n) : Totals (.linear e) (.linear n)
  | uncertain {e n : Affine Parameter Rat} (h : e.Totals n) : Totals (.uncertain e) (.uncertain n)
  | full {e n : Full Rat} (h : e.Totals n) : Totals (.full e) (.full n)

theorem Expr.totals_normalForm {m : ModelId} {e : Expr Rat} (h : e.Within m) : e.Totals e.normalForm := by
  cases e with
  | linear e => exact .linear (Affine.totals_normalForm h)
  | uncertain e => exact .uncertain (Affine.totals_normalForm h)
  | full e => exact .full (Full.totals_normalForm h)

end RobustLP
