import RobustLP.Proofs.Rounding.Doubles

/-!
# The nearest double

The double nearest to a rational number is finite (`isFinite_of_ofRat?`), and that nearest to the value of a finite double has
the same value (`exists_ofRat?_exactValue`): a number that is a double already is not rounded.
-/

namespace RobustLP.Decimal

theorem powTwo_ratio (e : Int) : ((powTwo e).1 : Rat) / (powTwo e).2 = 2 ^ e := by
  have h := mkRat_powTwo 1 e
  rwa [Nat.one_mul, Nat.cast_one, one_mul, Rat.mkRat_eq_div, Int.cast_natCast] at h

theorem powTwo_pos (e : Int) : 0 < (powTwo e).1 ∧ 0 < (powTwo e).2 := by
  unfold powTwo
  split
  · exact ⟨Nat.two_pow_pos _, Nat.one_pos⟩
  · exact ⟨Nat.one_pos, Nat.two_pow_pos _⟩

/-! ## The steps of rounding -/

/-- The mantissa of a quotient for an exponent, rounded. -/
def mantissaAt (num den : Nat) (q : Int) : Nat := roundDiv (num * (powTwo q).2) (den * (powTwo q).1)

/-- The exponent at which the mantissa of a quotient has 53 bits. -/
def leading (num den : Nat) : Int :=
  let guess : Int := num.log2 - den.log2 - 53
  if num * (powTwo guess).2 / (den * (powTwo guess).1) < twoTo 53 then guess else guess + 1

/-- The bits for a mantissa that is not larger than `2 ^ 53`; none beyond the largest double. -/
def bits? (m : Nat) (q : Int) : Option Nat :=
  if m < twoTo 52 then some m
  else if (q + 1075).toNat * twoTo 52 + (m - twoTo 52) < 2047 * twoTo 52 then
    some ((q + 1075).toNat * twoTo 52 + (m - twoTo 52))
  else none

theorem nearestBits?_of_ne_zero {num : Nat} (h : num ≠ 0) (den : Nat) :
    nearestBits? num den = bits? (mantissaAt num den (max (leading num den) (-1074))) (max (leading num den) (-1074)) :=
  if_neg h

theorem lt_of_bits? {m bits : Nat} {q : Int} (h : bits? m q = some bits) : bits < 2047 * twoTo 52 := by
  unfold bits? at h
  split at h
  next hsmall =>
    cases h
    omega
  next =>
    split at h
    next hlarge => exact Option.some.inj h ▸ hlarge
    next => cases h

/-- The bits of a finite double are below those of the infinities. -/
theorem lt_of_nearestBits? {num den bits : Nat} (h : nearestBits? num den = some bits) : bits < 2047 * twoTo 52 := by
  by_cases hnum : num = 0
  · subst hnum
    cases h
    exact Nat.mul_pos (by decide) (Nat.two_pow_pos 52)
  · rw [nearestBits?_of_ne_zero hnum] at h
    exact lt_of_bits? h

theorem exists_ofBits_finite {n : Nat} (h : n / 2 ^ 52 % 2 ^ 11 ≠ 2047) : ∃ s m e, Parts.ofBits n = .finite s m e := by
  unfold Parts.ofBits twoTo
  simp only [Nat.pow_eq]
  rw [if_neg h]
  split
  · exact ⟨_, _, _, rfl⟩
  · exact ⟨_, _, _, rfl⟩

/-- **The nearest double is finite.** -/
theorem isFinite_of_ofRat? {q : Rat} {y : Float} (h : ofRat? q = some y) : y.isFinite = true := by
  obtain ⟨bits, hbits, rfl⟩ := Option.map_eq_some_iff.mp h
  have hlt := lt_of_nearestBits? hbits
  have htwo : twoTo 52 = 2 ^ 52 := rfl
  have htwo' : twoTo 63 = 2 ^ 63 := rfl
  generalize hn : bits + (if decide (q < 0) = true then twoTo 63 else 0) = n
  have hn64 : n < 2 ^ 64 := by split at hn <;> omega
  obtain ⟨s, m, e, hparts⟩ := exists_ofBits_finite (n := n) (by split at hn <;> omega)
  exact isFinite_iff.mpr ⟨s, m, e, ofFloat_ofBits hn64 hparts⟩

/-! ## Numbers that are doubles -/

variable {num den m : Nat} {e : Int}

theorem log2_le_cast {n : Nat} (hn : 0 < n) : (2 : Rat) ^ (n.log2 : Int) ≤ n := by
  rw [zpow_natCast]
  exact_mod_cast Nat.log2_self_le (Nat.pos_iff_ne_zero.mp hn)

theorem cast_lt_log2 (n : Nat) : (n : Rat) < 2 ^ ((n.log2 : Int) + 1) := by
  rw [zpow_add_one₀ two_ne_zero, zpow_natCast, ← pow_succ]
  exact_mod_cast Nat.lt_log2_self

/-- A quotient scaled by a power of two. -/
theorem scaled_ratio (hden : 0 < den) (hval : (num : Rat) / den = m * 2 ^ e) (q : Int) :
    (num * (powTwo q).2 : Rat) = m * 2 ^ (e - q) * (den * (powTwo q).1) := by
  have hq : (2 : Rat) ^ q ≠ 0 := zpow_ne_zero q two_ne_zero
  have hden' : (den : Rat) ≠ 0 := by positivity
  have hb : ((powTwo q).2 : Rat) ≠ 0 := Nat.cast_ne_zero.mpr (powTwo_pos q).2.ne'
  have hratio := powTwo_ratio q
  rw [div_eq_iff hb] at hratio
  rw [div_eq_iff hden'] at hval
  rw [hval, hratio, zpow_sub₀ two_ne_zero]
  field_simp

/-- A mantissa is below a power of two, scaled, if its leading bit is. -/
theorem mul_zpow_lt_iff (hm : 0 < m) (k n : Int) : m * (2 : Rat) ^ k < 2 ^ n ↔ m.log2 + k < n := by
  have hk : (0 : Rat) < 2 ^ k := zpow_pos two_pos k
  constructor
  · intro h
    have hle : (2 : Rat) ^ (m.log2 + k) ≤ m * 2 ^ k := by
      rw [zpow_add₀ two_ne_zero]
      exact mul_le_mul_of_nonneg_right (log2_le_cast hm) hk.le
    exact (zpow_lt_zpow_iff_right₀ one_lt_two).mp (hle.trans_lt h)
  · intro h
    have hlt : m * (2 : Rat) ^ k < 2 ^ (m.log2 + 1 + k : Int) := by
      rw [zpow_add₀ two_ne_zero]
      exact mul_lt_mul_of_pos_right (cast_lt_log2 m) hk
    exact hlt.trans_le (zpow_le_zpow_right₀ one_le_two (by omega))

/-- The leading bit of a quotient is that of its mantissa. -/
theorem leading_eq (hnum : 0 < num) (hden : 0 < den) (hm : 0 < m) (hval : (num : Rat) / den = m * 2 ^ e) :
    leading num den = m.log2 + e - 52 := by
  have hprod : (num : Rat) = m * 2 ^ e * den := (div_eq_iff (by positivity)).mp hval
  have hpow : (0 : Rat) < m * 2 ^ e := by positivity
  -- the difference of the logarithms is that of the quotient, or one more
  have hlower : m.log2 + e + den.log2 < num.log2 + 1 := by
    have h : m * (2 : Rat) ^ (e + den.log2) < 2 ^ ((num.log2 : Int) + 1) := by
      refine lt_of_le_of_lt ?_ (cast_lt_log2 num)
      rw [hprod, zpow_add₀ two_ne_zero, ← mul_assoc]
      exact mul_le_mul_of_nonneg_left (log2_le_cast hden) hpow.le
    rw [mul_zpow_lt_iff hm] at h
    omega
  have hupper : num.log2 ≤ m.log2 + e + den.log2 + 1 := by
    by_contra hlarge
    have h : m * (2 : Rat) ^ (e + den.log2 + 1) < 2 ^ (num.log2 : Int) := (mul_zpow_lt_iff hm _ _).mpr (by omega)
    refine absurd (h.trans_le (log2_le_cast hnum)) (not_lt.mpr ?_)
    rw [hprod, add_assoc, zpow_add₀ two_ne_zero, ← mul_assoc]
    exact mul_le_mul_of_nonneg_left (cast_lt_log2 den).le hpow.le
  have hguess : num * (powTwo ((num.log2 : Int) - den.log2 - 53)).2 / (den * (powTwo ((num.log2 : Int) - den.log2 - 53)).1)
      < twoTo 53 ↔ m.log2 + e < num.log2 - den.log2 := by
    have hpos : 0 < den * (powTwo ((num.log2 : Int) - den.log2 - 53)).1 := Nat.mul_pos hden (powTwo_pos _).1
    have hpos' : (0 : Rat) < (den * (powTwo ((num.log2 : Int) - den.log2 - 53)).1 : Nat) := Nat.cast_pos.mpr hpos
    have htwo : ((twoTo 53 : Nat) : Rat) = 2 ^ (53 : Int) := by
      rw [twoTo, Nat.pow_eq]
      norm_num
    rw [Nat.div_lt_iff_lt_mul hpos, ← Nat.cast_lt (α := Rat), Nat.cast_mul, scaled_ratio hden hval, Nat.cast_mul, htwo,
      ← Nat.cast_mul, mul_lt_mul_iff_left₀ hpos', mul_zpow_lt_iff hm]
    omega
  unfold leading
  dsimp only
  split
  next h =>
    have := hguess.mp h
    omega
  next h =>
    have := mt hguess.mpr h
    omega

/-- **A number that is a double is not rounded.** -/
theorem nearestBits?_eq (hden : 0 < den) (h : Fits m e) (hval : (num : Rat) / den = m * 2 ^ e) :
    nearestBits? num den = some (bitsOf false m e) := by
  have hden' : (den : Rat) ≠ 0 := by positivity
  rcases Nat.eq_zero_or_pos m with rfl | hm
  · have hnum : num = 0 := by
      rw [Nat.cast_zero, zero_mul, div_eq_zero_iff, Nat.cast_eq_zero] at hval
      exact hval.resolve_right hden'
    rw [hnum, nearestBits?, if_pos rfl, bitsOf, if_pos (by omega)]
    rfl
  · have hnum : 0 < num := by
      refine Nat.pos_of_ne_zero fun h0 => ?_
      rw [h0, Nat.cast_zero, zero_div] at hval
      exact absurd hval (by positivity)
    have hexponent : max (leading num den) (-1074) = e := by
      have hlog : m.log2 < 53 := (Nat.log2_lt hm.ne').mpr h.lt
      have hlog' : 2 ^ 52 ≤ m → 52 ≤ m.log2 := (Nat.le_log2 hm.ne').mpr
      have hnormal := h.normal
      have hleast := h.least
      rw [leading_eq hnum hden hm hval]
      omega
    have hmantissa : mantissaAt num den e = m := by
      have hscaled := scaled_ratio hden hval e
      rw [sub_self, zpow_zero, mul_one] at hscaled
      have heq : num * (powTwo e).2 = m * (den * (powTwo e).1) := by exact_mod_cast hscaled
      rw [mantissaAt, heq, roundDiv_mul_right m (Nat.mul_pos hden (powTwo_pos e).1)]
    have hmost := h.most
    have hlt := h.lt
    have htwo : twoTo 52 = 2 ^ 52 := rfl
    rw [nearestBits?_of_ne_zero hnum.ne', hexponent, hmantissa, bits?, bitsOf, htwo]
    split
    · simp
    · rw [if_pos (by omega)]
      simp

/-- The nearest double to a number that is a double is that double. -/
theorem ofRat?_eq {q : Rat} (h : Fits m e) (hq : |q| = m * 2 ^ e) :
    ofRat? q = some (Float.ofBits (UInt64.ofNat (bitsOf (decide (q < 0)) m e))) := by
  have hval : (q.num.natAbs : Rat) / q.den = m * 2 ^ e := by
    rw [← hq, Rat.abs_def, Rat.divInt_eq_div, Int.cast_natCast, Int.cast_natCast]
  have hbits : bitsOf false m e + (if decide (q < 0) = true then twoTo 63 else 0) = bitsOf (decide (q < 0)) m e := by
    have htwo : twoTo 63 = 2 ^ 63 := rfl
    unfold bitsOf
    cases decide (q < 0)
    · rw [if_neg Bool.false_ne_true, Nat.add_zero]
    · rw [htwo, if_pos rfl, Bool.toNat_false, Bool.toNat_true]
      omega
  unfold ofRat? ofRatio?
  rw [nearestBits?_eq q.den_pos h hval, Option.map_some, hbits]

/-- **The nearest double to the value of a finite double** has that value. -/
theorem exists_ofRat?_exactValue {x : Float} (hx : x.isFinite = true) :
    ∃ y, ofRat? (exactValue x) = some y ∧ exactValue y = exactValue x := by
  obtain ⟨s, m, e, hparts⟩ := isFinite_iff.mp hx
  have hfits : Fits m e := fits_of_ofBits hparts
  have hnonneg : 0 ≤ m * (2 : Rat) ^ e := by positivity
  have habs : |exactValue x| = m * 2 ^ e := by
    rw [exactValue_eq hparts]
    cases s
    · rw [if_neg Bool.false_ne_true, one_mul, abs_of_nonneg hnonneg]
    · rw [if_pos rfl, neg_one_mul, abs_neg, abs_of_nonneg hnonneg]
  refine ⟨_, ofRat?_eq hfits habs, ?_⟩
  rw [exactValue_eq (ofFloat_ofBits (bitsOf_lt hfits _) (ofBits_bitsOf hfits _)), ← habs]
  by_cases hneg : exactValue x < 0
  · rw [decide_eq_true hneg, if_pos rfl, abs_of_neg hneg, neg_one_mul, neg_neg]
  · rw [decide_eq_false hneg, if_neg Bool.false_ne_true, one_mul, abs_of_nonneg (not_lt.mp hneg)]

end RobustLP.Decimal
