import RobustLP.Proofs.Rounding.Nearest
import RobustLP.Proofs.Rounding.Order

/-!
# Addition of doubles

The laws of addition for expressions whose numbers are finite doubles (`Expr.FiniteOver`). All that they rest on is that a sum of
doubles is rounded once: it answers the double nearest to the exact sum, unless it overflows (`RoundsCorrectly`). So the sum is
a parameter here (`Scalar.summing`), while all other operations are those of doubles.
-/

namespace RobustLP

open Decimal

/-- Doubles with a given sum of lists. -/
@[reducible] def Scalar.summing (sum : List Float → Except Fault Float) : Scalar Float Float :=
  { (inferInstance : Scalar Float Float) with sum }

/-- The doubles of the library are those with `exactSum`. -/
theorem Scalar.summing_exactSum : Scalar.summing exactSum = instScalarFloat := rfl

/-- **Sums that are rounded once:** the sum of finite doubles is the double nearest to their exact sum, unless it overflows. -/
def RoundsCorrectly (sum : List Float → Except Fault Float) : Prop :=
  ∀ xs, (∀ x ∈ xs, x.isFinite = true) →
    sum xs = .error .overflow ∨ ∃ y, sum xs = .ok y ∧ ofRat? (xs.map exactValue).sum = some y

/-- Sums that overflow only if the exact sum does. -/
def nearestSum (xs : List Float) : Except Fault Float :=
  match ofRat? (xs.map exactValue).sum with
  | some y => .ok y
  | none => .error .overflow

theorem roundsCorrectly_nearestSum : RoundsCorrectly nearestSum := by
  intro xs _
  unfold nearestSum
  cases ofRat? (xs.map exactValue).sum with
  | none => exact .inl rfl
  | some y => exact .inr ⟨y, rfl, rfl⟩

theorem ofFloat_zero : Parts.ofFloat 0 = .finite false 0 (-1074) := rfl

theorem exactValue_zero : exactValue 0 = 0 := by
  rw [exactValue_eq ofFloat_zero, Nat.cast_zero, zero_mul, mul_zero]

/-- Finite doubles, with sums that are rounded once. -/
def Rounding.doubles {sum : List Float → Except Fault Float} (h : RoundsCorrectly sum) :
    letI := Scalar.summing sum
    Rounding Float :=
  letI := Scalar.summing sum
  { Finite := fun x => x.isFinite = true
    value := exactValue
    nearest := ofRat?
    finite_zero := isFinite_iff.mpr ⟨_, _, _, ofFloat_zero⟩
    value_zero := exactValue_zero
    beq_iff := Decimal.beq_iff
    finite_opposite := fun hx => (exactValue_mul_minusOne hx).1
    value_opposite := fun hx => (exactValue_mul_minusOne hx).2
    finite_nearest := isFinite_of_ofRat?
    nearest_value := exists_ofRat?_exactValue
    sum_correct := h _ }

/-! ## The laws -/

/-- An expression over the model `m` whose numbers are finite. -/
structure Expr.FiniteOver (m : ModelId) (e : Expr Float) : Prop where
  owned : e.Over m
  symbols : e.Within m
  finite : e.All (·.isFinite = true)

/-- A finite number, or an expression over the model `m` whose numbers are finite. -/
def Quantity.FiniteOver (m : ModelId) : Quantity Float → Prop
  | number x => x.isFinite = true
  | expr e => e.FiniteOver m

theorem Quantity.FiniteOver.owned {m : ModelId} {q : Quantity Float} (h : q.FiniteOver m) : q.Over m := by
  cases q with
  | number x => trivial
  | expr e => exact Expr.FiniteOver.owned h

theorem Quantity.FiniteOver.finite {m : ModelId} {q : Quantity Float} (h : q.FiniteOver m) : q.All (·.isFinite = true) := by
  cases q with
  | number x => exact h
  | expr e => exact Expr.FiniteOver.finite h

/-- **The laws of addition** for expressions of any kinds over one model, if sums are rounded once: what is added and taken away
again leaves no trace, whether it is an expression or a number; the operands may be grouped in any way; and exchanging them only
changes the order of terms of the normal form. The comparisons fail only if a sum overflows. -/
theorem addition_laws {sum : List Float → Except Fault Float} (hsum : RoundsCorrectly sum) {m : ModelId}
    {a b c : Expr Float} {q : Quantity Float} (ha : a.FiniteOver m) (hb : b.FiniteOver m) (hc : c.FiniteOver m)
    (hq : q.FiniteOver m) :
    letI := Scalar.summing sum
    (∃ s d, (Quantity.expr a).add q = .ok s ∧ s.sub q = .ok d
        ∧ (d.equal (.expr a) ≠ .error .overflow → d.equal (.expr a) = .ok true))
      ∧ (∃ s t l r, (Quantity.expr a).add (.expr b) = .ok s ∧ s.add (.expr c) = .ok l ∧ (Quantity.expr b).add (.expr c) = .ok t
        ∧ (Quantity.expr a).add t = .ok r ∧ (l.equal r ≠ .error .overflow → l.equal r = .ok true))
      ∧ ∃ s t : Expr Float, (Quantity.expr a).add (.expr b) = .ok (.expr s) ∧ (Quantity.expr b).add (.expr a) = .ok (.expr t)
        ∧ (s.normalized ≠ .error .overflow → t.normalized ≠ .error .overflow →
          ∃ n n', s.normalized = .ok n ∧ t.normalized = .ok n' ∧ n.Reorders n') := by
  let S := Scalar.summing sum
  let R := Rounding.doubles hsum
  exact ⟨Rounding.equal_add_sub (R := R) ha.owned hq.owned ha.finite hq.finite,
    Rounding.equal_add_assoc (R := R) ha.owned hb.owned hc.owned ha.finite hb.finite hc.finite,
    Rounding.exists_reorders (R := R) ha.owned hb.owned ha.symbols hb.symbols ha.finite hb.finite⟩

/-- Three tenths of a variable, plus a tenth. -/
def sampleLinear : Expr Float := .linear { terms := [(⟨0, 0⟩, 0.3)], constant := 0.1, owner := some 0 }

/-- Seven tenths of a parameter, plus a fifth. -/
def sampleUncertain : Expr Float := .uncertain { terms := [(⟨0, 0⟩, 0.7)], constant := 0.2, owner := some 0 }

/-- The variable, times the parameter less a third, less a tenth. -/
def sampleFull : Expr Float :=
  .full
    { terms := [(⟨0, 0⟩, { terms := [(⟨0, 0⟩, 1)], constant := -0.3, owner := some 0 })]
      constant := { terms := [], constant := -0.1 }
      owner := some 0 }

theorem finiteOver_sampleLinear : sampleLinear.FiniteOver 0 where
  owned _ h := (Option.some.inj h).symm
  symbols := List.forall_mem_singleton.mpr rfl
  finite := ⟨List.forall_mem_singleton.mpr (by decide +kernel), List.forall_mem_singleton.mpr (by decide +kernel)⟩

theorem finiteOver_sampleUncertain : sampleUncertain.FiniteOver 0 where
  owned _ h := (Option.some.inj h).symm
  symbols := List.forall_mem_singleton.mpr rfl
  finite := ⟨List.forall_mem_singleton.mpr (by decide +kernel), List.forall_mem_singleton.mpr (by decide +kernel)⟩

theorem finiteOver_sampleFull : sampleFull.FiniteOver 0 where
  owned := ⟨fun _ h => (Option.some.inj h).symm, fun _ h => nomatch h⟩
  symbols := ⟨List.forall_mem_singleton.mpr rfl, List.forall_mem_singleton.mpr (List.forall_mem_singleton.mpr rfl),
    fun _ h => (List.not_mem_nil h).elim⟩
  finite := by
    refine ⟨List.forall_mem_singleton.mpr ⟨List.forall_mem_singleton.mpr ?_, List.forall_mem_singleton.mpr ?_⟩,
      fun _ h => (List.not_mem_nil h).elim, List.forall_mem_singleton.mpr ?_⟩ <;> decide +kernel

theorem ne_overflow_of_isOk {α : Type} {r : Except Fault α} (h : r.isOk = true) : r ≠ .error .overflow := by
  rintro rfl
  cases h

/-- A fifth is added and taken away; the kinds of the operands that are grouped and exchanged differ. No sum overflows. -/
theorem addition_laws_sample : letI := Scalar.summing nearestSum
    (∃ s d, (Quantity.expr sampleLinear).add (.number 0.2) = .ok s ∧ s.sub (.number 0.2) = .ok d
        ∧ d.equal (.expr sampleLinear) = .ok true)
      ∧ (∃ s t l r, (Quantity.expr sampleLinear).add (.expr sampleUncertain) = .ok s ∧ s.add (.expr sampleFull) = .ok l
        ∧ (Quantity.expr sampleUncertain).add (.expr sampleFull) = .ok t ∧ (Quantity.expr sampleLinear).add t = .ok r
        ∧ l.equal r = .ok true)
      ∧ ∃ s t : Expr Float, (Quantity.expr sampleLinear).add (.expr sampleUncertain) = .ok (.expr s)
        ∧ (Quantity.expr sampleUncertain).add (.expr sampleLinear) = .ok (.expr t)
        ∧ ∃ n n', s.normalized = .ok n ∧ t.normalized = .ok n' ∧ n.Reorders n' := by
  let S := Scalar.summing nearestSum
  have hq : (Quantity.number 0.2).FiniteOver 0 := by
    show (0.2 : Float).isFinite = true
    decide +kernel
  obtain ⟨⟨s, d, hs, hd, hcancel⟩, ⟨p, t, l, r, hp, hl, ht, hr, hassoc⟩, u, v, hu, hv, hcomm⟩ :=
    addition_laws roundsCorrectly_nearestSum finiteOver_sampleLinear finiteOver_sampleUncertain finiteOver_sampleFull hq
  refine ⟨⟨s, d, hs, hd, hcancel ?_⟩, ⟨p, t, l, r, hp, hl, ht, hr, hassoc ?_⟩, u, v, hu, hv, hcomm ?_ ?_⟩
  · cases hs
    cases hd
    decide +kernel
  · cases hp
    cases ht
    cases hl
    cases hr
    decide +kernel
  · cases hu
    exact ne_overflow_of_isOk (by decide +kernel)
  · cases hv
    exact ne_overflow_of_isOk (by decide +kernel)

end RobustLP
