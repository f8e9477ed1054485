import RobustLP.Proofs.Rounding.Equality

/-!
# Adding nothing

A form without positions is evaluated to an empty sum plus its constant. This is the constant again, but for the sign of a zero
(`Scalar.Neutral`): in exact arithmetic, and for all doubles, infinite and undefined ones included.

For doubles this is read off the logical model. Packing takes back unpacking (`Decimal.ofModel_pack_unpack`), so it suffices that
the operations on unpacked numbers answer one of their operands (`Decimal.zero_add_eq`, `Decimal.sub_eq_of_zero`).
-/

namespace RobustLP

/-- Two bounds are the same, or at least equal: they may then differ in the sign of a zero. -/
def Bound.Same {B : Type} [Bound B] (a b : B) : Prop := a = b ∨ Bound.beq a b = true

/-- **Adding nothing to a number changes at most the sign of a zero.** -/
class Scalar.Neutral (K : Type) {B : Type} [Bound B] [Scalar K B] : Prop where
  sum_nil : Scalar.sum ([] : List K) = .ok Scalar.zero
  sum_singleton (c : K) : ∃ s, Scalar.sum [c] = .ok s ∧ Scalar.isZero s = Scalar.isZero c ∧ (Scalar.isZero c = false → s = c)
  zero_add {c : K} : Scalar.isZero c = false → Scalar.zero + c = c
  shift_zero_add (b : B) (c : K) : Bound.Same (Scalar.shift b (Scalar.zero + c)) (Scalar.shift b c)

instance : Scalar.Neutral Rat where
  sum_nil := rfl
  sum_singleton c := ⟨c + 0, rfl, by rw [Rat.add_zero], fun _ => Rat.add_zero c⟩
  zero_add _ := Rat.zero_add _
  shift_zero_add b c := .inl (congrArg b.shift (Rat.zero_add c))

/-! ## Doubles -/

namespace Decimal

open Float.Model Float.Model.UnpackedFloat

/-- **Packing takes back unpacking:** a double has no other content than its unpacked form. -/
theorem ofModel_pack_unpack (x : Float) : Float.ofModel (.pack x.toModel.unpack) = x := by
  obtain ⟨⟨bits, hvalid⟩⟩ := x
  show Float.ofModel ⟨.ofBitVec (UnpackedFloat.pack Format.binary64 (UnpackedFloat.unpack Format.binary64 bits.toBitVec)), _⟩ = _
  congr 2
  exact congrArg UInt64.ofBitVec (pack_unpack_of_valid hvalid)

theorem unpack_zero : (0 : Float).toModel.unpack = .zero .positive := rfl

/-- The zeros are those that equal zero. -/
theorem beq_zero_iff {x : Float} : (x == 0) = true ↔ ∃ s, x.toModel.unpack = .zero s := by
  rw [float_beq_iff, unpack_zero]
  rcases x.toModel.unpack with s | _ | s | ⟨s, m, e, hm⟩ <;> simp [comparisonKey]

/-- Zero plus a number is the number, unless this is the other zero. -/
theorem zero_add_eq {x : Float} (h : x.toModel.unpack ≠ .zero .negative) : 0 + x = x := by
  have hadd : UnpackedFloat.add Format.binary64 (.zero .positive) x.toModel.unpack = x.toModel.unpack := by
    rcases hx : x.toModel.unpack with s | _ | s | ⟨s, m, e, hm⟩
    · rfl
    · rfl
    · cases s with
      | negative => exact absurd hx h
      | positive => rfl
    · rfl
  calc 0 + x = Float.ofModel (.pack (UnpackedFloat.add Format.binary64 (.zero .positive) x.toModel.unpack)) := rfl
    _ = x := by rw [hadd, ofModel_pack_unpack]

theorem zero_add_of_ne_zero {x : Float} (h : (x == 0) = false) : 0 + x = x :=
  zero_add_eq fun hx => Bool.eq_false_iff.mp h (beq_zero_iff.mpr ⟨_, hx⟩)

theorem sub_eq (x y : Float) :
    x - y = Float.ofModel (.pack (UnpackedFloat.sub Format.binary64 x.toModel.unpack y.toModel.unpack)) := rfl

/-- A number less zero is the number. -/
theorem sub_zero (x : Float) : x - 0 = x := by
  have hsub : UnpackedFloat.sub Format.binary64 x.toModel.unpack (.zero .positive) = x.toModel.unpack := by
    rcases x.toModel.unpack with s | _ | s | ⟨s, m, e, hm⟩
    · rfl
    · rfl
    · cases s <;> rfl
    · rfl
  rw [sub_eq, unpack_zero, hsub, ofModel_pack_unpack]

/-- A number less the other zero is the number, too, unless both are that zero. -/
theorem sub_negative_zero {x y : Float} (hy : y.toModel.unpack = .zero .negative) (hx : x.toModel.unpack ≠ .zero .negative) :
    x - y = x := by
  have hsub : UnpackedFloat.sub Format.binary64 x.toModel.unpack (.zero .negative) = x.toModel.unpack := by
    rcases hu : x.toModel.unpack with s | _ | s | ⟨s, m, e, hm⟩
    · rfl
    · rfl
    · cases s with
      | negative => exact absurd hu hx
      | positive => rfl
    · rfl
  rw [sub_eq, hy, hsub, ofModel_pack_unpack]

/-- **A bound less a number with nothing added** is the bound less the number. -/
theorem same_sub_zero_add (b c : Float) : Bound.Same (b - (0 + c)) (b - c) := by
  by_cases hc : c.toModel.unpack = .zero .negative
  · have hsum : 0 + c = 0 := by
      calc 0 + c = Float.ofModel (.pack (UnpackedFloat.add Format.binary64 (.zero .positive) c.toModel.unpack)) := rfl
        _ = 0 := by rw [hc]; rfl
    rw [hsum, sub_zero]
    by_cases hb : b.toModel.unpack = .zero .negative
    · have hzero : b - c = 0 := by rw [sub_eq, hb, hc]; rfl
      rw [hzero]
      exact .inr (beq_zero_iff.mpr ⟨_, hb⟩)
    · exact .inl (sub_negative_zero hc hb).symm
  · exact .inl (by rw [zero_add_eq hc])

/-- An infinite double is not undefined. -/
theorem isNaN_of_isInf {x : Float} (h : x.isInf = true) : x.isNaN = false := by
  have hinf : x.toModel.unpack.isInf = true := h
  have hnan : x.isNaN = x.toModel.unpack.isNaN := rfl
  rw [hnan]
  cases hx : x.toModel.unpack with
  | infinity s => rfl
  | notANumber =>
    rw [hx] at hinf
    cases hinf
  | zero s => rfl
  | finite s m e hm => rfl

/-- The partials of one number. -/
theorem add_singleton (c : Float) : Partials.add {} c = .ok (
    if c == 0 then {} else if c.isFinite then { partials := [c] }
    else { infinite := if c.isInf then c else 0, special := c }) := by
  unfold Partials.add
  dsimp only [addPartials]
  by_cases hzero : (c == 0) = true
  · rw [if_pos hzero, if_pos hzero]
  · have hsum : 0 + c = c := zero_add_of_ne_zero (Bool.eq_false_iff.mpr hzero)
    rw [if_neg hzero, if_neg hzero, hsum]
    by_cases hfinite : c.isFinite = true
    · rw [if_pos hfinite, if_pos hfinite]
      rfl
    · rw [if_neg hfinite, if_neg hfinite, if_neg hfinite]

/-- The sum of one number is read off its partials. -/
theorem exactSum_of_add {c : Float} {s : Partials} (h : Partials.add {} c = .ok s) : exactSum [c] =
    if s.special != 0 then if s.infinite.isNaN then .error .badValue else .ok s.special
    else .ok (roundPartials s.partials) := by
  unfold exactSum
  rw [List.foldlM_cons, h]
  rfl

/-- **The sum of one number** is the number, unless it is a zero. -/
theorem exactSum_singleton (c : Float) : ∃ s, exactSum [c] = .ok s ∧ (s == 0) = (c == 0) ∧ ((c == 0) = false → s = c) := by
  have hadd := add_singleton c
  have hnone : ¬((0 : Float) != 0) = true := Bool.false_ne_true
  by_cases hzero : (c == 0) = true
  · rw [if_pos hzero] at hadd
    refine ⟨0, ?_, hzero.symm, fun h => absurd (h.symm.trans hzero) Bool.false_ne_true⟩
    exact (exactSum_of_add hadd).trans (if_neg hnone)
  · rw [if_neg hzero] at hadd
    refine ⟨c, ?_, rfl, fun _ => rfl⟩
    by_cases hfinite : c.isFinite = true
    · rw [if_pos hfinite] at hadd
      exact (exactSum_of_add hadd).trans (if_neg hnone)
    · have hspecial : (c != 0) = true := by rw [bne, Bool.eq_false_iff.mpr hzero]; rfl
      have hinfinite : (if c.isInf then c else 0).isNaN = false := by
        split
        next hinf => exact isNaN_of_isInf hinf
        next => rfl
      rw [if_neg hfinite] at hadd
      refine (exactSum_of_add hadd).trans ((if_pos hspecial).trans (if_neg ?_))
      rw [hinfinite]
      exact Bool.false_ne_true

end Decimal

instance : Scalar.Neutral Float where
  sum_nil := rfl
  sum_singleton := Decimal.exactSum_singleton
  zero_add := Decimal.zero_add_of_ne_zero
  shift_zero_add := Decimal.same_sub_zero_add

end RobustLP
