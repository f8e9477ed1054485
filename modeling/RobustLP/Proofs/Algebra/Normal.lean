import RobustLP.Expr.Normal
import RobustLP.Proofs.Gathered

/-!
# Normal forms are left as they are

A form is normal when its symbols differ, no coefficient is zero, and its constant is a single number. What normalising
answers is normal (`Affine.isNormal_of_normalized`, `Full.isNormal_of_normalized`), and a normal form is its own normal form
(`Affine.IsNormal.normalized_eq_self`). So reducing an expression comes down to choosing the kind of its normal form
(`Full.simplest_cases`, `Expr.reduce_cases`).
-/

namespace RobustLP

variable {S K B : Type} [Scalar K B]

/-- The pairs of symbols that differ are gathered one by one. -/
theorem gather_of_nodup {α : Type} (key : S → Nat) : ∀ {ts : List (S × α)}, (ts.map fun t => key t.1).Nodup →
    gather key ts = ts.map fun t => (t.1, [t.2])
  | [], _ => gather_nil key
  | (s, c) :: rest, h => by
    rw [List.map_cons, List.nodup_cons] at h
    have hne : ∀ t ∈ rest, (key t.1 == key s) = false := by
      intro t ht
      exact beq_eq_false_iff_ne.mpr fun heq => h.1 (heq ▸ List.mem_map_of_mem ht)
    have hpairs : pairsOf key s rest = [] := List.filter_eq_nil_iff.mpr fun t ht => Bool.eq_false_iff.mp (hne t ht)
    have hbeside : pairsBeside key s rest = rest := List.filter_eq_self.mpr fun t ht => by rw [hne t ht]; rfl
    rw [gather_cons, hpairs, hbeside, gather_of_nodup key h.2]
    rfl

variable [Symbol S]

namespace Affine

/-- A normal form. -/
structure IsNormal (n : Affine S K) : Prop where
  parts : n.parts = none
  nodup : (n.terms.map fun t => Symbol.index t.1).Nodup
  nonzero : ∀ t ∈ n.terms, Scalar.isZero t.2 = false

theorem isNormal_of_normalized {e n : Affine S K} (h : e.normalized = .ok n) : n.IsNormal := by
  obtain ⟨terms, hterms, h⟩ := bind_eq_ok.mp h
  obtain ⟨c, -, h⟩ := bind_eq_ok.mp h
  cases h
  obtain ⟨sums, hsums, hterms⟩ := bind_eq_ok.mp hterms
  cases hterms
  refine ⟨rfl, ?_, fun t ht => (Bool.not_eq_true' _).mp (List.mem_filter.mp ht).2⟩
  have hfst : List.Forall₂ (fun p t => Symbol.index p.1 = Symbol.index t.1) (gather Symbol.index e.terms) sums := by
    refine (mapM_eq_ok_iff.mp hsums).imp fun p t ht => ?_
    obtain ⟨c, -, ht⟩ := bind_eq_ok.mp ht
    cases ht
    rfl
  have hkeys : sums.map (fun t => Symbol.index t.1) = (gather Symbol.index e.terms).map fun p => Symbol.index p.1 :=
    (map_eq_map_of_forall₂ hfst).symm
  have hnodup : (sums.map fun t => Symbol.index t.1).Nodup := by
    rw [hkeys, List.Nodup, List.pairwise_map]
    exact pairwise_gather Symbol.index e.terms
  exact hnodup.sublist (List.filter_sublist.map _)

theorem IsNormal.collapse_eq {n : Affine S K} (h : n.IsNormal) : collapse n.terms = .ok n.terms := by
  have hsums : (gather Symbol.index n.terms).mapM (fun p => (do return (p.1, ← sumCoefs p.2) : Except Fault (S × K)))
      = .ok n.terms := by
    rw [gather_of_nodup Symbol.index h.nodup, mapM_eq_ok_iff, List.forall₂_map_left_iff, List.forall₂_same]
    exact fun t _ => rfl
  have hfilter : n.terms.filter (fun t => !Scalar.isZero t.2) = n.terms := by
    refine List.filter_eq_self.mpr fun t ht => ?_
    rw [h.nonzero t ht]
    rfl
  exact bind_eq_ok.mpr ⟨n.terms, hsums, congrArg Except.ok hfilter⟩

/-- **A normal form is its own normal form.** -/
theorem IsNormal.normalized_eq_self {n : Affine S K} (h : n.IsNormal) : n.normalized = .ok n := by
  have hparts := h.parts
  have hcollapse := h.collapse_eq
  unfold normalized exactConstant
  rw [hcollapse, hparts]
  obtain ⟨terms, constant, parts, owner⟩ := n
  cases hparts
  rfl

end Affine

namespace Full

/-- A normal form of full kind. -/
structure IsNormal (n : Full K) : Prop where
  nodup : (n.terms.map fun t => t.1.index).Nodup
  terms : ∀ t ∈ n.terms, t.2.IsNormal
  nonzero : ∀ t ∈ n.terms, isZeroForm t.2 = false
  constant : n.constant.IsNormal

theorem isNormal_of_normalized {e n : Full K} (h : e.normalized = .ok n) : n.IsNormal := by
  obtain ⟨sums, hsums, h⟩ := bind_eq_ok.mp h
  obtain ⟨c, hc, h⟩ := bind_eq_ok.mp h
  cases h
  have hfst : List.Forall₂ (fun p t => p.1.index = t.1.index ∧ t.2.IsNormal) (gather Variable.index e.terms) sums := by
    refine (mapM_eq_ok_iff.mp hsums).imp fun p t ht => ?_
    obtain ⟨f, hf, ht⟩ := bind_eq_ok.mp ht
    cases ht
    exact ⟨rfl, Affine.isNormal_of_normalized hf⟩
  have hkeys : sums.map (fun t => t.1.index) = (gather Variable.index e.terms).map fun p => p.1.index :=
    (map_eq_map_of_forall₂ (hfst.imp fun _ _ h => h.1)).symm
  have hnodup : (sums.map fun t => t.1.index).Nodup := by
    rw [hkeys, List.Nodup, List.pairwise_map]
    exact pairwise_gather Variable.index e.terms
  refine ⟨hnodup.sublist (List.filter_sublist.map _), fun t ht => ?_, fun t ht => ?_, Affine.isNormal_of_normalized hc⟩
  · obtain ⟨p, -, hp⟩ := exists_left_of_forall₂ hfst (List.mem_filter.mp ht).1
    exact hp.2
  · exact (Bool.not_eq_true' _).mp (List.mem_filter.mp ht).2

/-- The simplest kind of a normal form. -/
def simplest (n : Full K) : Quantity K :=
  if n.terms.isEmpty then
    if n.constant.terms.isEmpty then .number n.constant.constant else .expr (.uncertain n.constant)
  else if n.constant.terms.isEmpty then
    match numericTerms n.terms with
    | some terms => .expr (.linear { terms, constant := n.constant.constant, owner := n.owner })
    | none => .expr (.full n)
  else .expr (.full n)

end Full

/-! ## Kinds of normal forms -/

theorem numericTerms_eq_some {ts : List (Variable × Affine Parameter K)} (h : ∀ t ∈ ts, t.2.terms.isEmpty = true) :
    numericTerms ts = some (ts.map fun t => (t.1, t.2.constant)) := by
  unfold numericTerms
  induction ts with
  | nil => rfl
  | cons t ts ih =>
    rw [List.mapM_cons, if_pos (h t List.mem_cons_self), ih fun s hs => h s (List.mem_cons_of_mem t hs)]
    rfl

theorem numericTerms_eq_none {ts : List (Variable × Affine Parameter K)} {t : Variable × Affine Parameter K}
    (ht : t ∈ ts) (h : t.2.terms.isEmpty = false) : numericTerms ts = none := by
  unfold numericTerms
  induction ts with
  | nil => cases ht
  | cons s ts ih =>
    rw [List.mapM_cons]
    rcases List.mem_cons.mp ht with rfl | ht
    · rw [h]
      rfl
    · rw [ih ht]
      split <;> rfl

/-- A full normal form with numbers as coefficients is linear in the variables. -/
theorem Full.IsNormal.linear {n : Full K} (hn : n.IsNormal) (hnumeric : ∀ t ∈ n.terms, t.2.terms.isEmpty = true) :
    Affine.IsNormal { terms := n.terms.map fun t => (t.1, t.2.constant), constant := n.constant.constant, owner := n.owner } := by
  refine ⟨rfl, ?_, List.forall_mem_map.mpr fun t ht => ?_⟩
  · rw [List.map_map]
    exact hn.nodup
  · have hzero := hn.nonzero t ht
    rwa [isZeroForm, hnumeric t ht, Bool.true_and] at hzero

/-- **The simplest kinds of a full normal form:** a number, a form in the parameters, one in the variables with the constants of the
coefficients, or the full form itself. -/
theorem Full.simplest_cases (n : Full K) : n.simplest = .number n.constant.constant
    ∨ n.constant.terms.isEmpty = false ∧ n.simplest = .expr (.uncertain n.constant)
    ∨ n.terms.isEmpty = false ∧ (∀ t ∈ n.terms, t.2.terms.isEmpty = true)
      ∧ n.simplest = .expr (.linear { terms := n.terms.map fun t => (t.1, t.2.constant)
                                      constant := n.constant.constant, owner := n.owner })
    ∨ n.simplest = .expr (.full n) := by
  unfold simplest
  cases hterms : n.terms.isEmpty with
  | true =>
    cases hconstant : n.constant.terms.isEmpty with
    | true => exact .inl rfl
    | false => exact .inr (.inl ⟨rfl, rfl⟩)
  | false =>
    cases hconstant : n.constant.terms.isEmpty with
    | false => exact .inr (.inr (.inr rfl))
    | true =>
      by_cases hnumeric : ∀ t ∈ n.terms, t.2.terms.isEmpty = true
      · rw [numericTerms_eq_some hnumeric]
        exact .inr (.inr (.inl ⟨rfl, hnumeric, rfl⟩))
      · push Not at hnumeric
        obtain ⟨t, ht, hne⟩ := hnumeric
        rw [numericTerms_eq_none ht (Bool.eq_false_iff.mpr hne)]
        exact .inr (.inr (.inr rfl))

namespace Expr

/-- **A normal form** is that of a form of the same kind. -/
theorem normalized_cases {e n : Expr K} (h : e.normalized = .ok n) :
    (∃ f g, e = linear f ∧ n = linear g ∧ f.normalized = .ok g)
      ∨ (∃ f g, e = uncertain f ∧ n = uncertain g ∧ f.normalized = .ok g)
      ∨ ∃ f g, e = full f ∧ n = full g ∧ f.normalized = .ok g := by
  cases e with
  | linear f =>
    obtain ⟨g, hg, h⟩ := bind_eq_ok.mp h
    cases h
    exact .inl ⟨f, g, rfl, rfl, hg⟩
  | uncertain f =>
    obtain ⟨g, hg, h⟩ := bind_eq_ok.mp h
    cases h
    exact .inr (.inl ⟨f, g, rfl, rfl, hg⟩)
  | full f =>
    obtain ⟨g, hg, h⟩ := bind_eq_ok.mp h
    cases h
    exact .inr (.inr ⟨f, g, rfl, rfl, hg⟩)

theorem reduceAffine_eq (wrap : Affine S K → Expr K) {e n : Affine S K} (h : e.normalized = .ok n) :
    reduceAffine wrap e = .ok (if n.terms.isEmpty then .number n.constant else .expr (wrap n)) := by
  unfold reduceAffine
  rw [h]
  rfl

theorem reduce_linear {e n : Affine Variable K} (h : e.normalized = .ok n) :
    (linear e).reduce = .ok (if n.terms.isEmpty then .number n.constant else .expr (.linear n)) := reduceAffine_eq .linear h

theorem reduce_uncertain {e n : Affine Parameter K} (h : e.normalized = .ok n) :
    (uncertain e).reduce = .ok (if n.terms.isEmpty then .number n.constant else .expr (.uncertain n)) :=
  reduceAffine_eq .uncertain h

/-- **Reducing a full form** chooses the kind of its normal form. -/
theorem reduce_full {e n : Full K} (h : e.normalized = .ok n) : (full e).reduce = .ok n.simplest := by
  have hn := Full.isNormal_of_normalized h
  unfold reduce Full.simplest
  dsimp only
  rw [h]
  dsimp only [bind, Except.bind]
  cases hempty : n.terms.isEmpty with
  | true =>
    exact reduceAffine_eq .uncertain hn.constant.normalized_eq_self
  | false =>
    cases hconstant : n.constant.terms.isEmpty with
    | false => rfl
    | true =>
      by_cases hnumeric : ∀ t ∈ n.terms, t.2.terms.isEmpty = true
      · rw [numericTerms_eq_some hnumeric]
        have hne : (n.terms.map fun t => (t.1, t.2.constant)).isEmpty = false := by rw [List.isEmpty_map, hempty]
        refine (reduceAffine_eq .linear (hn.linear hnumeric).normalized_eq_self).trans ?_
        rw [hne]
        rfl
      · push Not at hnumeric
        obtain ⟨t, ht, hne⟩ := hnumeric
        rw [numericTerms_eq_none ht (Bool.eq_false_iff.mpr hne)]
        rfl

/-- **What an expression reduces to** is found from the normal form. -/
theorem reduce_cases {e : Expr K} {q : Quantity K} (h : e.reduce = .ok q) :
    (∃ f n, e = linear f ∧ f.normalized = .ok n ∧ q = if n.terms.isEmpty then .number n.constant else .expr (.linear n))
      ∨ (∃ f n, e = uncertain f ∧ f.normalized = .ok n ∧ q = if n.terms.isEmpty then .number n.constant else .expr (.uncertain n))
      ∨ ∃ f n, e = full f ∧ f.normalized = .ok n ∧ q = n.simplest := by
  cases e with
  | linear f =>
    obtain ⟨n, hn, -⟩ := bind_eq_ok.mp h
    exact .inl ⟨f, n, rfl, hn, Except.ok.inj (h.symm.trans (reduce_linear hn))⟩
  | uncertain f =>
    obtain ⟨n, hn, -⟩ := bind_eq_ok.mp h
    exact .inr (.inl ⟨f, n, rfl, hn, Except.ok.inj (h.symm.trans (reduce_uncertain hn))⟩)
  | full f =>
    obtain ⟨n, hn, -⟩ := bind_eq_ok.mp h
    exact .inr (.inr ⟨f, n, rfl, hn, Except.ok.inj (h.symm.trans (reduce_full hn))⟩)

end Expr

end RobustLP
