import RobustLP.Proofs.Algebra.Equality
import RobustLP.Proofs.Rounding.Addition

/-!
# Structural equality of doubles

Doubles are compared by a partial equivalence (`Decimal.partialEquiv_summing`): the undefined number is not equal to itself, and
everything else is. So structural equality is symmetric and transitive, whatever sums answer. It is reflexive, and an expression
equals its full form and the number that it reduces to, as soon as its numbers are finite and sums of them are rounded once
(`Rounding.equal_self`, `Rounding.equal_toFull`, `Rounding.equal_number`). Rational numbers are not rounded at all
(`Rounding.exact`) and no sum of them fails, so each quantity equals whatever it reduces to (`Quantity.equal_of_reduce`).

`equalities_agree` collects what is known of the two equalities, for doubles and in exact arithmetic.
-/

namespace RobustLP

/-! ## Comparisons of doubles -/

namespace Decimal

open Float.Model Float.Model.UnpackedFloat

/-- What a comparison for equality looks at; nothing if the number is undefined. -/
def comparisonKey : UnpackedFloat → Option (Sign ⊕ Option (Sign × Nat × Int))
  | .notANumber => none
  | .infinity s => some (.inl s)
  | .zero _ => some (.inr none)
  | .finite s m e _ => some (.inr (some (s, m, e)))

theorem unpacked_beq_iff {a b : UnpackedFloat} :
    UnpackedFloat.beq a b = true ↔ comparisonKey a = comparisonKey b ∧ comparisonKey a ≠ none := by
  rcases a with s | _ | s | ⟨s, m, e, hm⟩ <;> rcases b with t | _ | t | ⟨t, n, f, hn⟩ <;>
    (try cases s) <;> (try cases t) <;>
    first
    | exact iff_of_true rfl ⟨rfl, Option.some_ne_none _⟩
    | simp [UnpackedFloat.beq, UnpackedFloat.compare, comparisonKey, Ordering.then_eq_eq, and_comm]

/-- **Doubles are equal** when they are the same but for the sign of a zero, and not undefined. -/
theorem float_beq_iff {x y : Float} : (x == y) = true
    ↔ comparisonKey x.toModel.unpack = comparisonKey y.toModel.unpack ∧ comparisonKey x.toModel.unpack ≠ none :=
  unpacked_beq_iff

theorem partialEquiv_summing (sum : List Float → Except Fault Float) :
    letI := Scalar.summing sum
    Scalar.PartialEquiv Float :=
  letI := Scalar.summing sum
  { symm := fun h => by
      obtain ⟨hkey, hne⟩ := float_beq_iff.mp h
      exact float_beq_iff.mpr ⟨hkey.symm, hkey ▸ hne⟩
    trans := fun h h' => by
      obtain ⟨hkey, hne⟩ := float_beq_iff.mp h
      obtain ⟨hkey', -⟩ := float_beq_iff.mp h'
      exact float_beq_iff.mpr ⟨hkey.trans hkey', hne⟩ }

end Decimal

instance : Scalar.PartialEquiv Rat where
  symm h := beq_iff_eq.mpr (beq_iff_eq.mp h).symm
  trans h h' := beq_iff_eq.mpr ((beq_iff_eq.mp h).trans (beq_iff_eq.mp h'))

/-! ## Reflexivity -/

namespace Rounding

section

variable {K B : Type} [Scalar K B] {R : Rounding K}

/-- Expressions of the same exact content are equal, or cannot be compared. -/
theorem equal_or_overflows {a b : Expr K} (ha : a.All R.Finite) (hb : b.All R.Finite) (h : R.content a = R.content b) :
    (Quantity.expr a).equal (.expr b) = .ok true ∨ (Quantity.expr a).equal (.expr b) = .error .overflow := by
  by_cases hne : (Quantity.expr a).equal (.expr b) = .error .overflow
  · exact .inr hne
  · exact .inl (equal_of_round_eq ha hb (congrArg R.roundFull h) hne)

theorem equal_self {q : Quantity K} (hq : q.All R.Finite) : q.equal q = .ok true ∨ q.equal q = .error .overflow := by
  cases q with
  | number c => exact .inl (congrArg Except.ok ((R.beq_iff hq hq).mpr rfl))
  | expr e => exact equal_or_overflows hq hq rfl

/-- **An expression equals its full form.** -/
theorem equal_toFull {e : Expr K} (he : e.All R.Finite) : (Quantity.expr e).equal (.expr (.full e.toFull)) = .ok true
    ∨ (Quantity.expr e).equal (.expr (.full e.toFull)) = .error .overflow :=
  equal_or_overflows he he.toFull rfl

/-- **An expression equals the number that it reduces to.** -/
theorem equal_number {e : Expr K} {c : K} (he : e.All R.Finite) (h : e.reduce = .ok (.number c)) :
    (Quantity.expr e).equal (.number c) = .ok true := by
  have hc : R.Finite c := (reduces_of_reduce he h).finite
  exact Quantity.equal_eq_ok_iff.mpr ⟨_, _, h, rfl, (R.beq_iff hc hc).mpr rfl⟩

end

/-- Rational numbers, none of which is rounded. -/
def exact : Rounding Rat where
  Finite _ := True
  value := id
  nearest := some
  finite_zero := trivial
  value_zero := rfl
  beq_iff _ _ := beq_iff_eq
  finite_opposite _ := trivial
  value_opposite {x} _ := mul_neg_one x
  finite_nearest _ := trivial
  nearest_value {x} _ := ⟨x, rfl, rfl⟩
  sum_correct {xs} _ := .inr ⟨xs.sum, rfl, congrArg some (congrArg List.sum (List.map_id xs))⟩

end Rounding

/-! ## Exact arithmetic -/

namespace Quantity

theorem all_true {q : Quantity Rat} : q.All Rounding.exact.Finite := by
  rcases q with c | (e | e | e)
  · trivial
  · exact ⟨fun _ _ => trivial, fun _ _ => trivial⟩
  · exact ⟨fun _ _ => trivial, fun _ _ => trivial⟩
  · exact ⟨fun _ _ => ⟨fun _ _ => trivial, fun _ _ => trivial⟩, fun _ _ => trivial, fun _ _ => trivial⟩

/-- Rational quantities can always be compared. -/
theorem exists_equal (a b : Quantity Rat) : ∃ r, a.equal b = .ok r := by
  obtain ⟨p, hp, -⟩ := a.exists_reduce
  obtain ⟨q, hq, -⟩ := b.exists_reduce
  exact ⟨_, equal_eq_ok_iff.mpr ⟨p, q, hp, hq, rfl⟩⟩

theorem equal_ne_overflow (a b : Quantity Rat) : a.equal b ≠ .error .overflow := by
  obtain ⟨r, hr⟩ := exists_equal a b
  rw [hr]
  exact fun h => nomatch h

/-- What a rational quantity reduces to is reduced. -/
theorem reduce_of_reduce {q p : Quantity Rat} (h : q.reduce = .ok p) : p.reduce = .ok p := by
  cases q with
  | number x =>
    cases h
    rfl
  | expr e =>
    obtain ⟨e, n, rfl, hn, rfl⟩ | ⟨e, n, rfl, hn, rfl⟩ | ⟨e, n, rfl, hn, rfl⟩ := Expr.reduce_cases h
    · have hnormal := Affine.isNormal_of_normalized hn
      split
      next => rfl
      next hne => exact (Expr.reduce_linear hnormal.normalized_eq_self).trans (congrArg Except.ok (if_neg hne))
    · have hnormal := Affine.isNormal_of_normalized hn
      split
      next => rfl
      next hne => exact (Expr.reduce_uncertain hnormal.normalized_eq_self).trans (congrArg Except.ok (if_neg hne))
    · have hnormal := Full.isNormal_of_normalized hn
      rcases n.simplest_cases with heq | ⟨hne, heq⟩ | ⟨hne, hnumeric, heq⟩ | heq <;> rw [heq]
      · rfl
      · refine (Expr.reduce_uncertain hnormal.constant.normalized_eq_self).trans (congrArg Except.ok (if_neg ?_))
        exact Bool.eq_false_iff.mp hne
      · refine (Expr.reduce_linear (hnormal.linear hnumeric).normalized_eq_self).trans (congrArg Except.ok (if_neg ?_))
        exact Bool.eq_false_iff.mp (List.isEmpty_map.trans hne)
      · -- the coefficients of a normal form note its owner, so it is its own normal form
        obtain rfl := Except.ok.inj (e.normalized_eq.symm.trans hn)
        have hself := Full.normalForm_of_isNormal hnormal fun t => Full.owner_of_mem_normalForm (e := e)
        have hagain : e.normalForm.normalized = .ok e.normalForm := by rw [Full.normalized_eq, hself]
        exact (Expr.reduce_full hagain).trans (congrArg Except.ok heq)

/-- **A rational quantity equals what it reduces to,** whatever their kinds. -/
theorem equal_of_reduce {q p : Quantity Rat} (h : q.reduce = .ok p) : q.equal p = .ok true := by
  have hp := reduce_of_reduce h
  obtain ⟨r, s, hr, hs, hrs⟩ := equal_eq_ok_iff.mp ((Rounding.equal_self all_true).resolve_right (equal_ne_overflow p p))
  obtain rfl := Except.ok.inj (hp.symm.trans hr)
  obtain rfl := Except.ok.inj (hp.symm.trans hs)
  exact equal_eq_ok_iff.mpr ⟨_, _, h, hp, hrs⟩

/-- **Structural equality is an equivalence relation.** -/
theorem equivalence_equal : Equivalence fun a b : Quantity Rat => a.equal b = .ok true where
  refl q := (Rounding.equal_self all_true).resolve_right (equal_ne_overflow q q)
  symm := equal_symm
  trans := equal_trans

end Quantity

/-! ## Both equalities -/

/-- **The two structural equalities agree,** for quantities over one model. For doubles they fail together, and where a sum may
overflow but is rounded once otherwise, equality is an equivalence relation across all kinds: an expression equals its full form
and the number that it reduces to. In exact arithmetic nothing fails: equality is an equivalence relation, every quantity equals
what it reduces to and every expression its full form, and equal quantities have the same values. -/
theorem equalities_agree (sum : List Float → Except Fault Float) (m : ModelId) (naming : Naming) :
    letI := Scalar.summing sum
    ((∀ a b : Quantity Float, a.Within m → b.Within m →
        a.equal b = do return (← Canonical.ofQuantity naming a).agrees (← Canonical.ofQuantity naming b))
      ∧ (∀ a b : Quantity Float, a.equal b = .ok true → b.equal a = .ok true)
      ∧ (∀ a b c : Quantity Float, a.equal b = .ok true → b.equal c = .ok true → a.equal c = .ok true)
      ∧ (RoundsCorrectly sum →
        (∀ a : Quantity Float, a.FiniteOver m → a.equal a = .ok true ∨ a.equal a = .error .overflow)
        ∧ ∀ e : Expr Float, e.FiniteOver m →
          ((Quantity.expr e).equal (.expr (.full e.toFull)) = .ok true
            ∨ (Quantity.expr e).equal (.expr (.full e.toFull)) = .error .overflow)
          ∧ ∀ c, e.reduce = .ok (.number c) → (Quantity.expr e).equal (.number c) = .ok true))
    ∧ (∀ a b : Quantity Rat, a.Within m → b.Within m →
      a.equal b = (do return (← Canonical.ofQuantity naming a).agrees (← Canonical.ofQuantity naming b))
      ∧ (a.equal b = .ok true → a.SameValues b))
    ∧ (Equivalence fun a b : Quantity Rat => a.equal b = .ok true)
    ∧ (∀ q : Quantity Rat, ∃ p, q.reduce = .ok p ∧ q.equal p = .ok true)
    ∧ ∀ e : Expr Rat, (Quantity.expr e).equal (.expr (.full e.toFull)) = .ok true := by
  let S := Scalar.summing sum
  have hequiv := Decimal.partialEquiv_summing sum
  refine ⟨⟨fun a b ha hb => Canonical.equal_eq_agrees ha hb, fun a b => Quantity.equal_symm, fun a b c => Quantity.equal_trans,
    fun hsum => ?_⟩, fun a b ha hb => ⟨Canonical.equal_eq_agrees ha hb, Quantity.sameValues_of_equal ha hb⟩,
    Quantity.equivalence_equal, fun q => ?_, fun e => ?_⟩
  · let R := Rounding.doubles hsum
    exact ⟨fun a ha => Rounding.equal_self (R := R) ha.finite, fun e he => ⟨Rounding.equal_toFull (R := R) he.finite,
      fun c => Rounding.equal_number (R := R) he.finite⟩⟩
  · exact q.exists_reduce.imp fun p hp => ⟨hp.1, Quantity.equal_of_reduce hp.1⟩
  · exact (Rounding.equal_toFull (Quantity.all_true (q := .expr e))).resolve_right (Quantity.equal_ne_overflow _ _)

theorem reduce_ofConstant {K B : Type} [Scalar K B] (c : K) : (Expr.linear (.ofConstant c)).reduce = .ok (.number c) := by
  have hnormal : (Affine.ofConstant c : Affine Variable K).IsNormal :=
    ⟨rfl, List.nodup_nil, fun _ ht => absurd ht List.not_mem_nil⟩
  exact Expr.reduce_linear hnormal.normalized_eq_self

/-- An expression and itself, its full form, another one; an expression without symbols and a number. No sum overflows. -/
theorem equalities_agree_sample :
    letI := Scalar.summing nearestSum
    ((Quantity.expr sampleLinear).equal (.expr sampleUncertain) = do
        return (← Canonical.ofQuantity (K := Float) ⟨fun _ => "x", fun _ => "u", fun _ => "m"⟩ (.expr sampleLinear)).agrees
          (← Canonical.ofQuantity ⟨fun _ => "x", fun _ => "u", fun _ => "m"⟩ (.expr sampleUncertain)))
      ∧ (Quantity.expr sampleLinear).equal (.expr sampleLinear) = .ok true
      ∧ (Quantity.expr sampleLinear).equal (.expr (.full sampleLinear.toFull)) = .ok true
      ∧ (Quantity.expr (.full sampleLinear.toFull)).equal (.expr sampleLinear) = .ok true
      ∧ (Quantity.expr (.linear (.ofConstant 0.5))).equal (.number (0.5 : Float)) = .ok true
      ∧ (Quantity.expr (.linear (.ofConstant (2 : Rat)))).SameValues (.number 2) := by
  let S := Scalar.summing nearestSum
  obtain ⟨⟨hagree, hsymm, -, hrounded⟩, hexact, -⟩ := equalities_agree nearestSum 0 ⟨fun _ => "x", fun _ => "u", fun _ => "m"⟩
  obtain ⟨hself, hkinds⟩ := hrounded roundsCorrectly_nearestSum
  have hconstant : (Expr.linear (.ofConstant (0.5 : Float))).FiniteOver 0 :=
    ⟨fun _ h => (nomatch h), fun _ ht => absurd ht List.not_mem_nil, fun _ ht => absurd ht List.not_mem_nil,
      List.forall_mem_singleton.mpr (by decide +kernel)⟩
  have hfull := (hkinds _ finiteOver_sampleLinear).1.resolve_right (ne_overflow_of_isOk (by decide +kernel))
  have hequal := Rounding.equal_number (R := Rounding.exact) (Quantity.all_true (q := .expr _)) (reduce_ofConstant (2 : Rat))
  exact ⟨hagree _ _ finiteOver_sampleLinear.symbols finiteOver_sampleUncertain.symbols,
    (hself (.expr sampleLinear) finiteOver_sampleLinear).resolve_right (ne_overflow_of_isOk (by decide +kernel)), hfull,
    hsymm _ _ hfull, (hkinds _ hconstant).2 _ (reduce_ofConstant _),
    (hexact (.expr (.linear (.ofConstant 2))) (.number 2) (fun _ ht => absurd ht List.not_mem_nil) trivial).2 hequal⟩

end RobustLP
