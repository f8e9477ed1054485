import RobustLP.Expr.Print
import RobustLP.Proofs.Print.Phrases
import RobustLP.Proofs.Rounding.Differences

/-!
# Numbers as they are printed

A number is printed behind its sign; a coefficient of magnitude one is not printed at all, and numbers that are too small are left
out.

* Rounding keeps the leading bit of a number that is not too small (`exists_round_finite`), so that a difference of doubles that is
  not zero does not become arbitrarily small. Hence a double whose magnitude cannot be told from one has magnitude one
  (`Decimal.abs_eq_one_of_isUnit`).
* A finite double is printed as the text of its magnitude, behind a sign if it is negative (`Decimal.clamped_eq_sign`). The text
  begins with a digit and has no blanks in it (`Decimal.isNumeral_clamped_abs`), and it is zero for zero only
  (`Decimal.clamped_abs_eq_zero_iff`).
-/

namespace RobustLP.Decimal

open Float.Model Float.Model.UnpackedFloat

variable {x : Float}

/-! ## Rounding keeps the leading bit -/

/-- Shifting drops the last bits of a mantissa. -/
theorem mantissa_shiftRight (em : ExtendedMantissa) (n : Nat) : (em >>> n).mantissa = em.mantissa / 2 ^ n := by
  show (Nat.repeat ExtendedMantissa.shiftRightOne n em).mantissa = _
  induction n with
  | zero => simp [Nat.repeat]
  | succ n ih =>
    show (Nat.repeat ExtendedMantissa.shiftRightOne n em).mantissa / 2 = _
    rw [ih, Nat.div_div_eq_div_mul, Nat.pow_succ]

theorem roundedMantissa_bounds (em : ExtendedMantissa) :
    em.mantissa ≤ em.roundedMantissa ∧ em.roundedMantissa ≤ em.mantissa + 1 := by
  obtain ⟨m, roundBit, stickyBit⟩ := em
  have hparity : m % 2 ≤ 1 := by omega
  cases roundBit <;> cases stickyBit <;>
    simp [ExtendedMantissa.roundedMantissa, ExtendedMantissa.accuracy, Accuracy.roundToNearestEven, hparity]

/-- The leading 53 bits of a number. -/
theorem leadingBits_bounds {n : Nat} (h : 52 ≤ n.log2) :
    2 ^ 52 ≤ n / 2 ^ (n.log2 - 52) ∧ n / 2 ^ (n.log2 - 52) < 2 ^ 53 := by
  have hn : n ≠ 0 := by
    rintro rfl
    simp at h
  have hbits := (Nat.log2_eq_iff hn).mp rfl
  have hsplit : 2 ^ n.log2 = 2 ^ 52 * 2 ^ (n.log2 - 52) := by
    rw [← Nat.pow_add, Nat.add_sub_cancel' h]
  have hpos : 0 < 2 ^ (n.log2 - 52) := Nat.two_pow_pos _
  rw [Nat.pow_succ, hsplit] at hbits
  refine ⟨(Nat.le_div_iff_mul_le hpos).mpr hbits.1, (Nat.div_lt_iff_lt_mul hpos).mpr ?_⟩
  calc n < 2 ^ 52 * 2 ^ (n.log2 - 52) * 2 := hbits.2
    _ = 2 ^ 53 * 2 ^ (n.log2 - 52) := by ring

/-- A number that is not too small is shifted to its leading bits. -/
theorem shiftToTargetExponent_normal {m : Nat} {e : Int} (h : -1022 ≤ m.log2 + e) :
    shiftToTargetExponent Format.binary64 m e .exact
      = ((⟨m, false, false⟩ : ExtendedMantissa) >>> (m.log2 - 52), e + (m.log2 - 52 : Nat)) := by
  have hbits : Format.binary64.mantissaBits = 53 := rfl
  have hmin : Format.binary64.minExponent = -1074 := rfl
  have hamount : (Format.binary64.targetExponent (totalExponent m e) - e).toNat = m.log2 - 52 := by
    unfold Format.targetExponent totalExponent
    rw [hbits, hmin]
    omega
  unfold shiftToTargetExponent shiftToExponent
  dsimp only
  rw [hamount, ExtendedMantissa.ofMantissaAndAccuracy]

/-- The mantissa of a number that is not too small is brought to 53 bits at least. -/
theorem decreaseExponent_normal {m : Nat} {e : Int} (h : -1022 ≤ m.log2 + e) :
    decreaseExponent m e (Format.binary64.targetExponent (totalExponent m e))
      = (m * 2 ^ (52 - m.log2), e - (52 - m.log2 : Nat)) := by
  have hbits : Format.binary64.mantissaBits = 53 := rfl
  have hmin : Format.binary64.minExponent = -1074 := rfl
  have hamount : (e - Format.binary64.targetExponent (totalExponent m e)).toNat = 52 - m.log2 := by
    unfold Format.targetExponent totalExponent
    rw [hbits, hmin]
    omega
  unfold decreaseExponent
  dsimp only
  rw [hamount, Nat.shiftLeft_eq]

/-- **Rounding keeps the leading bit** of a number that is not too small, or carries it to the next. -/
theorem exists_round_finite {m : Nat} {e : Int} (hm : 0 < m) (h : -1022 ≤ m.log2 + e) (s : Sign) :
    ∃ m' e' hm', UnpackedFloat.round Format.binary64 s m e = .finite s m' e' hm' ∧ 2 ^ 52 ≤ m' ∧ m' < 2 ^ 53
      ∧ m.log2 + e - 52 ≤ e' := by
  obtain ⟨n, hn⟩ : ∃ n, n = m * 2 ^ (52 - m.log2) := ⟨_, rfl⟩
  have hdecrease := decreaseExponent_normal h
  rw [← hn] at hdecrease
  have hlog : n.log2 = m.log2 + (52 - m.log2) := by rw [hn, log2_mul_two_pow hm]
  have hlead : 52 ≤ n.log2 := by omega
  -- rounded to the leading 53 bits, and once more if that carries
  obtain ⟨hge, hlt⟩ := leadingBits_bounds hlead
  have hfirst := shiftToTargetExponent_normal (m := n) (e := e - (52 - m.log2 : Nat)) (by omega)
  obtain ⟨r, hr⟩ : ∃ r, r = ((⟨n, false, false⟩ : ExtendedMantissa) >>> (n.log2 - 52)).roundedMantissa := ⟨_, rfl⟩
  have hround := roundedMantissa_bounds ((⟨n, false, false⟩ : ExtendedMantissa) >>> (n.log2 - 52))
  rw [mantissa_shiftRight, ← hr] at hround
  dsimp only at hround
  have hrlead : 52 ≤ r.log2 := (Nat.le_log2 (by omega)).mpr (hge.trans hround.1)
  obtain ⟨hge', hlt'⟩ := leadingBits_bounds hrlead
  have hsecond := shiftToTargetExponent_normal (m := r) (e := e - (52 - m.log2 : Nat) + (n.log2 - 52 : Nat)) (by omega)
  refine ⟨r / 2 ^ (r.log2 - 52), e - (52 - m.log2 : Nat) + (n.log2 - 52 : Nat) + (r.log2 - 52 : Nat), by omega, ?_, hge', hlt',
    by omega⟩
  unfold UnpackedFloat.round roundWithAccuracy
  dsimp only
  rw [hdecrease]
  dsimp only
  rw [hfirst]
  dsimp only
  rw [← hr, hsecond]
  dsimp only
  simp only [mantissa_shiftRight]
  exact dif_neg (by omega)

/-! ## Numbers that are small -/

theorem unpack_dropBelow : ∃ m hm, (Print.dropBelow : Float).toModel.unpack = .finite .positive m (-119) hm :=
  ⟨_, _, rfl⟩

/-- A double with a large exponent is not small. -/
theorem not_le_dropBelow {s : Sign} {m : Nat} {e : Int} (hm : 0 < m) (hlow : 2 ^ 52 ≤ m) (hhigh : m < 2 ^ 53) (he : -118 ≤ e)
    (hx : x = Float.ofModel (.pack (.finite s m e hm))) : ¬x.abs ≤ Print.dropBelow := by
  obtain ⟨m₀, hm₀, hdrop⟩ := unpack_dropBelow
  obtain ⟨negative, rfl⟩ : ∃ negative, s = signOf negative := by
    cases s with
    | positive => exact ⟨false, rfl⟩
    | negative => exact ⟨true, rfl⟩
  rw [le_iff, unpack_abs, hdrop]
  by_cases hmost : e ≤ 971
  · have hparts := ofFloat_pack ⟨hhigh, by omega, hmost, .inl hlow⟩ negative
    rw [unpacked_finite hm, ← hx] at hparts
    have hgt : compare e (-119) = .gt := compare_gt_iff_gt.mpr (by omega)
    rw [unpack_eq, hparts, unpacked_finite hm, UnpackedFloat.abs, UnpackedFloat.compare, hgt]
    exact Bool.false_ne_true
  · have hinf : UnpackedFloat.pack Format.binary64 (.finite (signOf negative) m e hm)
        = packedInfinity Format.binary64 (signOf negative) := by
      have hbias : Format.binary64.exponentBias = 1023 := rfl
      unfold UnpackedFloat.pack
      dsimp only
      rw [if_pos]
      rw [hbias]
      omega
    have hunpack : x.toModel.unpack = .infinity (signOf negative) := by
      rw [hx, unpack_ofModel_pack, hinf]
      cases negative <;> rfl
    rw [hunpack]
    exact Bool.false_ne_true

/-! ## Magnitude one -/

/-- The magnitude of a finite double has its parts, but for the sign. -/
theorem ofFloat_abs {s : Bool} {m : Nat} {e : Int} (h : Parts.ofFloat x = .finite s m e) :
    Parts.ofFloat x.abs = .finite false m e := by
  rw [abs_eq, unpack_eq, h, abs_unpacked, ofFloat_pack (fits_of_ofBits h)]

theorem unpack_one : (1 : Float).toModel.unpack = .finite .positive (2 ^ 52) (-52) (by decide) := rfl

/-- The difference of one and a number on a grid that is not finer than that of one. -/
theorem ne_two_pow_of_le {m : Nat} {e : Int} (hm : 2 ^ 52 ≤ m) (he : -52 ≤ e) (hne : ¬(m = 2 ^ 52 ∧ e = -52)) :
    m * 2 ^ (e - -52).toNat ≠ 2 ^ 52 := by
  intro heq
  obtain hzero | ⟨k, hk⟩ : (e - -52).toNat = 0 ∨ ∃ k, (e - -52).toNat = k + 1 := by
    cases (e - -52).toNat with
    | zero => exact .inl rfl
    | succ k => exact .inr ⟨k, rfl⟩
  · rw [hzero, Nat.pow_zero, Nat.mul_one] at heq
    exact hne ⟨heq, by omega⟩
  · have htwo : 2 ≤ 2 ^ (e - -52).toNat := by
      rw [hk, Nat.pow_succ]
      have := Nat.two_pow_pos k
      omega
    have := Nat.mul_le_mul hm htwo
    omega

/-- A number on a finer grid than that of one is below one, by half of one or by the last bit of one at least. -/
theorem le_log2_of_lt {m : Nat} (hm : m < 2 ^ 53) (k : Nat) :
    m < 2 ^ 53 * 2 ^ k ∧ k ≤ (2 ^ 53 * 2 ^ k - m).log2 := by
  have hlt : m < 2 ^ 53 * 2 ^ k := hm.trans_le (Nat.le_mul_of_pos_right _ (Nat.two_pow_pos k))
  refine ⟨hlt, ?_⟩
  cases k with
  | zero => exact Nat.zero_le _
  | succ k =>
    have hlarge : 2 ^ (k + 1) ≤ 2 ^ 53 * 2 ^ (k + 1) - m := by
      have hpos := Nat.two_pow_pos k
      rw [Nat.pow_succ]
      omega
    exact (Nat.le_log2 (by omega)).mpr hlarge

/-- The difference of a number and one, on the finer grid of both: it is not zero unless the number is one, and it is not small. -/
theorem le_log2_sub_one {m : Nat} {e : Int} (hfits : Fits m e) (hm : 0 < m) (hne : ¬(m = 2 ^ 52 ∧ e = -52)) :
    0 < ((m * 2 ^ (e - min e (-52)).toNat : Nat) - (2 ^ 52 * 2 ^ (-52 - min e (-52)).toNat : Nat) : Int).natAbs
      ∧ -53 ≤ ((m * 2 ^ (e - min e (-52)).toNat : Nat) - (2 ^ 52 * 2 ^ (-52 - min e (-52)).toNat : Nat) : Int).natAbs.log2
          + min e (-52) := by
  obtain ⟨hlt, -, -, hnormal⟩ := hfits
  by_cases he : -52 ≤ e
  · -- multiples of the last bit of one
    have hmin : min e (-52) = -52 := min_eq_right he
    rw [hmin, show (-52 - -52 : Int).toNat = 0 from rfl, Nat.pow_zero, Nat.mul_one]
    have hdiffer := ne_two_pow_of_le (show 2 ^ 52 ≤ m by omega) he hne
    refine ⟨by omega, by omega⟩
  · -- multiples of the last bit of the number, which is below one
    obtain ⟨k, rfl⟩ : ∃ k : Nat, e = -(53 + k : Nat) := ⟨(-53 - e).toNat, by omega⟩
    have hmin : min (-(53 + k : Nat) : Int) (-52) = -(53 + k : Nat) := min_eq_left (by omega)
    have hshift : (-52 - -(53 + k : Nat) : Int).toNat = 1 + k := by omega
    rw [hmin, hshift, show (-(53 + k : Nat) - -(53 + k : Nat) : Int).toNat = 0 by omega, Nat.pow_zero, Nat.mul_one,
      ← Nat.pow_add]
    obtain ⟨hsmall, hlog⟩ := le_log2_of_lt hlt k
    have hpow : 2 ^ (52 + (1 + k)) = 2 ^ 53 * 2 ^ k := by rw [← Nat.add_assoc, Nat.pow_add]
    have habs : ((m : Nat) - (2 ^ (52 + (1 + k)) : Nat) : Int).natAbs = 2 ^ 53 * 2 ^ k - m := by
      rw [hpow]
      omega
    rw [habs]
    exact ⟨by omega, by omega⟩

/-- A number that is not zero is normalized by rounding its magnitude. -/
theorem exists_normalize_eq_round {d : Int} (hd : 0 < d.natAbs) (e : Int) (s : Sign) : ∃ s',
    UnpackedFloat.normalize Format.binary64 d e s = UnpackedFloat.round Format.binary64 s' d.natAbs e := by
  unfold UnpackedFloat.normalize
  rcases lt_trichotomy d 0 with hlt | rfl | hgt
  · rw [compare_lt_iff_lt.mpr hlt]
    exact ⟨.negative, by rw [show (-d).toNat = d.natAbs by omega]⟩
  · exact absurd hd (by decide)
  · rw [compare_gt_iff_gt.mpr hgt]
    exact ⟨.positive, by rw [show d.toNat = d.natAbs by omega]⟩

/-- **A number whose magnitude cannot be told from one** has magnitude one. -/
theorem abs_eq_one_of_isUnit (hx : x.isFinite = true) (h : Print.isUnit x = true) : x.abs = 1 := by
  obtain ⟨s, m, e, hparts⟩ := isFinite_iff.mp hx
  have habs := ofFloat_abs hparts
  have hfits : Fits m e := fits_of_ofBits hparts
  have hunit : (x.abs - 1).abs ≤ Print.dropBelow := of_decide_eq_true h
  by_contra hne
  rcases Nat.eq_zero_or_pos m with rfl | hm
  · refine not_le_dropBelow (s := .negative) (m := 2 ^ 52) (e := -52) (by decide) (by decide) (by decide) (by decide) ?_ hunit
    rw [sub_eq, unpack_eq, habs, unpacked_zero, unpack_one]
    rfl
  have hdiffer : ¬(m = 2 ^ 52 ∧ e = -52) := by
    rintro ⟨rfl, rfl⟩
    apply hne
    apply eq_of_unpack
    rw [unpack_eq, habs, unpacked_finite (by decide), unpack_one]
    rfl
  obtain ⟨hpos, hlog⟩ := le_log2_sub_one hfits hm hdiffer
  generalize hd : ((m * 2 ^ (e - min e (-52)).toNat : Nat) - (2 ^ 52 * 2 ^ (-52 - min e (-52)).toNat : Nat) : Int) = d at hpos hlog
  have hsub : UnpackedFloat.sub Format.binary64 x.abs.toModel.unpack (1 : Float).toModel.unpack
      = UnpackedFloat.normalize Format.binary64 d (min e (-52)) .positive := by
    rw [unpack_eq, habs, unpacked_finite hm, unpack_one, ← hd, ← Nat.shiftLeft_eq, ← Nat.shiftLeft_eq]
    rfl
  obtain ⟨s', hnormalize⟩ := exists_normalize_eq_round hpos (min e (-52)) .positive
  obtain ⟨m', e', hm', hround, hlow, hhigh, he'⟩ := exists_round_finite hpos (show -1022 ≤ (d.natAbs.log2 : Int) + min e (-52) by omega) s'
  have hlarge : -118 ≤ e' := by omega
  have hdifference : x.abs - 1 = Float.ofModel (.pack (.finite s' m' e' hm')) := by
    rw [sub_eq, hsub, hnormalize, hround]
  exact not_le_dropBelow hm' hlow hhigh hlarge hdifference hunit

end RobustLP.Decimal

namespace RobustLP

namespace Print

/-! ## Words for numbers and names -/

/-- The characters of numbers. -/
def isNumeralChar (c : Char) : Bool := c.isDigit || c == '.' || c == 'e' || c == '+' || c == '-'

/-- A word for a number: it begins with a digit. -/
structure IsNumeral (w : String) : Prop extends IsWord w where
  digit : ∀ c ∈ w.toList.head?, c.isDigit = true

/-- A word for a symbol, as identifiers are: it does not begin with a digit. -/
structure IsName (w : String) : Prop extends IsWord w where
  letter : ∀ c ∈ w.toList.head?, c.isDigit = false

instance (w : String) : Decidable (IsName w) :=
  decidable_of_iff (IsWord w ∧ w.toList.head?.all (fun c => !c.isDigit) = true)
    ⟨fun h => ⟨h.1, by simpa [Option.all_eq_true] using h.2⟩, fun h => ⟨h.toIsWord, by simpa [Option.all_eq_true] using h.letter⟩⟩

theorem IsNumeral.ne_name {v w : String} (hv : IsNumeral v) (hw : IsName w) : v ≠ w := by
  rintro rfl
  obtain ⟨c, cs, hc⟩ := List.exists_cons_of_ne_nil hv.nonempty
  have hhead : c ∈ v.toList.head? := by rw [hc]; rfl
  exact Bool.false_ne_true ((hw.letter c hhead).symm.trans (hv.digit c hhead))

theorem isNumeral_of_cons {w : String} {c : Char} {cs : List Char} (h : w.toList = c :: cs) (hc : c.isDigit = true)
    (hcs : ∀ d ∈ cs, isNumeralChar d = true) : IsNumeral w := by
  have hplain : ∀ d : Char, isNumeralChar d = true → d ≠ ' ' ∧ d ≠ '(' ∧ d ≠ ')' := by
    intro d hd
    refine ⟨?_, ?_, ?_⟩ <;> rintro rfl <;> exact absurd hd (by decide)
  have hfirst : isNumeralChar c = true := by simp [isNumeralChar, hc]
  refine ⟨⟨?_, ?_, ?_⟩, ?_⟩
  · simp [h]
  · rw [h]
    rintro d hd
    cases hd
    exact ⟨by rintro rfl; exact absurd hc (by decide), by rintro rfl; exact absurd hc (by decide)⟩
  · rw [h, List.forall_mem_cons]
    exact ⟨hplain c hfirst, fun d hd => hplain d (hcs d hd)⟩
  · rw [h]
    rintro d hd
    cases hd
    exact hc

end Print

namespace Decimal

open Float.Model Float.Model.UnpackedFloat Print

variable {x : Float} {s : Bool} {m : Nat} {e : Int}

/-! ## Digits -/

theorem toList_toString (n : Nat) : (toString n).toList = Nat.toDigits 10 n := by
  rw [Nat.toString_eq_repr, Nat.toList_repr]

/-- A natural number is written with digits. -/
theorem exists_digits (n : Nat) : ∃ c cs, (toString n).toList = c :: cs ∧ c.isDigit = true ∧ ∀ d ∈ cs, isNumeralChar d = true := by
  obtain ⟨c, cs, hcs⟩ := List.exists_cons_of_ne_nil (Nat.toDigits_ne_nil (n := n) (b := 10))
  have hdigits : ∀ d ∈ c :: cs, d.isDigit = true := fun d hd =>
    Nat.isDigit_of_mem_toDigits (by decide) (by decide) (hcs ▸ hd)
  refine ⟨c, cs, by rw [toList_toString, hcs], hdigits c List.mem_cons_self, fun d hd => ?_⟩
  simp [isNumeralChar, hdigits d (List.mem_cons_of_mem _ hd)]

theorem isNumeralChar_of_mem_toString {n : Nat} {c : Char} (h : c ∈ (toString n).toList) : isNumeralChar c = true := by
  rw [toList_toString] at h
  simp [isNumeralChar, Nat.isDigit_of_mem_toDigits (by decide) (by decide) h]

theorem isNumeralChar_of_mem_zeros {n : Nat} {c : Char} (h : c ∈ (zeros n).toList) : isNumeralChar c = true := by
  rw [zeros, String.toList_ofList] at h
  rw [List.eq_of_mem_replicate h]
  decide

theorem isNumeralChar_of_mem_exponentText {e : Int} {c : Char} (h : c ∈ (exponentText e).toList) : isNumeralChar c = true := by
  unfold exponentText at h
  simp only [String.toList_append, List.mem_append] at h
  rcases h with (h | h) | h
  · split at h
    · obtain rfl : c = '-' := by simpa using h
      decide
    · obtain rfl : c = '+' := by simpa using h
      decide
  · exact isNumeralChar_of_mem_zeros h
  · exact isNumeralChar_of_mem_toString h

/-- **The text of a decimal** is made of the characters of numbers. -/
theorem isNumeralChar_of_mem_layout (d : Digits) : ∀ c ∈ d.layout.toList, isNumeralChar c = true := by
  have hdigits : ∀ c ∈ (toString d.digits).toList, isNumeralChar c = true := fun c => isNumeralChar_of_mem_toString
  unfold Digits.layout
  generalize toString d.digits = text at hdigits
  have htake : ∀ n, ∀ c ∈ (text.take n).copy.toList, isNumeralChar c = true := fun n c hc => by
    rw [String.toList_copy_take] at hc
    exact hdigits c (List.mem_of_mem_take hc)
  have hdrop : ∀ n, ∀ c ∈ (text.drop n).copy.toList, isNumeralChar c = true := fun n c hc => by
    rw [String.toList_copy_drop] at hc
    exact hdigits c (List.mem_of_mem_drop hc)
  have hzeros : ∀ n, ∀ c ∈ (zeros n).toList, isNumeralChar c = true := fun n c => isNumeralChar_of_mem_zeros
  dsimp only
  split
  · have hrest : ∀ c ∈ (if (text.drop 1).copy.isEmpty then "" else "." ++ (text.drop 1).copy).toList,
        isNumeralChar c = true := by
      split
      · simp
      · rw [String.toList_append, List.forall_mem_append]
        exact ⟨by simp [isNumeralChar], hdrop 1⟩
    simp only [String.toList_append, List.forall_mem_append]
    exact ⟨⟨⟨htake 1, hrest⟩, by simp [isNumeralChar]⟩, fun c => isNumeralChar_of_mem_exponentText⟩
  split
  · simp only [String.toList_append, List.forall_mem_append]
    exact ⟨⟨hdigits, hzeros _⟩, by simp [isNumeralChar]⟩
  split
  · simp only [String.toList_append, List.forall_mem_append]
    exact ⟨⟨htake _, by simp [isNumeralChar]⟩, hdrop _⟩
  · simp only [String.toList_append, List.forall_mem_append]
    exact ⟨⟨by simp [isNumeralChar], hzeros _⟩, hdigits⟩

/-- The text of a decimal begins with a digit, and a point or an exponent comes behind it. -/
theorem exists_layout (d : Digits) : ∃ c cs, d.layout.toList = c :: cs ∧ c.isDigit = true ∧ cs ≠ [] := by
  obtain ⟨c, cs, htext, hc, -⟩ := exists_digits d.digits
  unfold Digits.layout
  generalize toString d.digits = text at htext
  dsimp only
  split
  · refine ⟨c, (if (text.drop 1).copy.isEmpty then "" else "." ++ (text.drop 1).copy).toList
      ++ 'e' :: (exponentText (text.length + d.exponent - 1)).toList, ?_, hc, by simp⟩
    simp [htext]
  split
  · refine ⟨c, cs ++ ((zeros d.exponent.toNat).toList ++ ['.', '0']), ?_, hc, by simp⟩
    simp [htext]
  split
  next hplace =>
    -- the point stands behind one of the digits
    obtain ⟨k, hk⟩ : ∃ k, (text.length + d.exponent - 1 + 1 : Int).toNat = k + 1 :=
      ⟨(text.length + d.exponent - 1 : Int).toNat, by omega⟩
    refine ⟨c, cs.take k ++ '.' :: cs.drop k, ?_, hc, by simp⟩
    rw [hk]
    simp [htext]
  next =>
    refine ⟨'0', '.' :: ((zeros (-(text.length + d.exponent - 1) - 1 : Int).toNat).toList ++ c :: cs), ?_, by decide, by simp⟩
    simp [htext]

/-! ## Magnitudes -/

/-- The text of a magnitude. -/
def magnitudeText (m : Nat) (e : Int) : String :=
  if m * (powTwo e).1 % (powTwo e).2 = 0 then toString (m * (powTwo e).1 / (powTwo e).2) else (shortest m e).layout

theorem div_powTwo_eq_zero_iff (h : m * (powTwo e).1 % (powTwo e).2 = 0) : m * (powTwo e).1 / (powTwo e).2 = 0 ↔ m = 0 := by
  have hdvd := Nat.div_mul_cancel (Nat.dvd_of_mod_eq_zero h)
  have hpos : 0 < (powTwo e).1 := by
    unfold powTwo
    split
    · exact Nat.two_pow_pos _
    · exact Nat.one_pos
  constructor
  · intro hzero
    rw [hzero, Nat.zero_mul] at hdvd
    exact (Nat.mul_eq_zero.mp hdvd.symm).resolve_right hpos.ne'
  · rintro rfl
    simp

/-- **A finite double is printed** as its magnitude, behind a sign if it is negative. -/
theorem clamped_eq (h : Parts.ofFloat x = .finite s m e) :
    clamped x = (if s && m != 0 then "-" else "") ++ magnitudeText m e := by
  have htruncate : truncate? x = some (if s then -((m * (powTwo e).1 / (powTwo e).2 : Nat) : Int)
      else ((m * (powTwo e).1 / (powTwo e).2 : Nat) : Int)) := by
    unfold truncate?
    rw [h]
  have hintegral : isIntegral x = decide (m * (powTwo e).1 % (powTwo e).2 = 0) := by
    unfold isIntegral
    rw [h]
  have hplain : plain x = (if s then "-" else "") ++ if m = 0 then "0.0" else (shortest m e).layout := by
    unfold plain
    rw [h]
  unfold clamped magnitudeText
  rw [htruncate, hintegral]
  dsimp only
  by_cases hzero : m * (powTwo e).1 % (powTwo e).2 = 0
  · have hiff := div_powTwo_eq_zero_iff hzero
    rw [if_pos (decide_eq_true hzero), if_pos hzero]
    generalize m * (powTwo e).1 / (powTwo e).2 = n at hiff
    cases s with
    | false =>
      simp
      rfl
    | true =>
      cases n with
      | zero =>
        rw [hiff.mp rfl]
        rfl
      | succ n =>
        have hm : (m != 0) = true := bne_iff_ne.mpr fun hm => Nat.succ_ne_zero n (hiff.mpr hm)
        rw [hm]
        rfl
  · have hm : m ≠ 0 := by
      rintro rfl
      simp at hzero
    have hm' : (m != 0) = true := bne_iff_ne.mpr hm
    rw [if_neg (by simpa using hzero), if_neg hzero, hplain, if_neg hm, hm', Bool.and_true]

/-- **The text of a magnitude** begins with a digit, and there are no blanks in it. -/
theorem isNumeral_magnitudeText (m : Nat) (e : Int) : IsNumeral (magnitudeText m e) := by
  unfold magnitudeText
  split
  · obtain ⟨c, cs, htext, hc, hcs⟩ := exists_digits (m * (powTwo e).1 / (powTwo e).2)
    exact isNumeral_of_cons htext hc hcs
  · obtain ⟨c, cs, htext, hc, -⟩ := exists_layout (shortest m e)
    have hchars := isNumeralChar_of_mem_layout (shortest m e)
    rw [htext] at hchars
    exact isNumeral_of_cons htext hc (List.forall_mem_of_forall_mem_cons hchars)

/-- Zero is the only number that is printed as zero. -/
theorem magnitudeText_eq_zero_iff : magnitudeText m e = "0" ↔ m = 0 := by
  unfold magnitudeText
  split
  next hzero =>
    rw [← div_powTwo_eq_zero_iff hzero]
    generalize m * (powTwo e).1 / (powTwo e).2 = n
    constructor
    · intro h
      have hdigits := congrArg String.toList h
      rw [toList_toString] at hdigits
      have hvalue := Nat.ofDigitChars_ten_toDigits (n := n)
      rw [hdigits] at hvalue
      exact hvalue.symm
    · rintro rfl
      rfl
  next hne =>
    refine iff_of_false (fun h => ?_) (by rintro rfl; simp at hne)
    obtain ⟨c, cs, htext, -, hcs⟩ := exists_layout (shortest m e)
    rw [h] at htext
    exact hcs (List.cons.inj htext).2.symm

/-! ## Signs and magnitudes -/

variable {y : Float}

theorem isNegative_eq (h : Parts.ofFloat x = .finite s m e) : isNegative x = (s && m != 0) := by
  have hlt : isNegative x = decide (x < 0) := rfl
  rw [hlt, Bool.eq_iff_iff, decide_eq_true_iff, lt_iff, unpack_eq, h, unpack_zero]
  by_cases hm : m = 0
  · subst hm
    rw [unpacked_zero]
    cases s <;> simp [UnpackedFloat.compare]
  · rw [unpacked_finite (Nat.pos_of_ne_zero hm)]
    cases s <;> simp [signOf, UnpackedFloat.compare, hm]

theorem isZero_eq (h : Parts.ofFloat x = .finite s m e) : Scalar.isZero x = (m == 0) := by
  have hbeq : Scalar.isZero x = (x == 0) := rfl
  rw [hbeq, Bool.eq_iff_iff, beq_zero_iff, unpack_eq, h, beq_iff_eq]
  by_cases hm : m = 0
  · subst hm
    rw [unpacked_zero]
    exact iff_of_true ⟨_, rfl⟩ rfl
  · rw [unpacked_finite (Nat.pos_of_ne_zero hm)]
    exact iff_of_false (fun ⟨_, h⟩ => nomatch h) hm

theorem clamped_abs (h : Parts.ofFloat x = .finite s m e) : clamped x.abs = magnitudeText m e := by
  rw [clamped_eq (ofFloat_abs h), Bool.false_and, if_neg Bool.false_ne_true, String.empty_append]

/-- **A finite double is printed behind its sign.** -/
theorem clamped_eq_sign (hx : x.isFinite = true) : clamped x = (if isNegative x then "-" else "") ++ clamped x.abs := by
  obtain ⟨s, m, e, h⟩ := isFinite_iff.mp hx
  rw [clamped_abs h, isNegative_eq h, clamped_eq h]

theorem isNumeral_clamped_abs (hx : x.isFinite = true) : IsNumeral (clamped x.abs) := by
  obtain ⟨s, m, e, h⟩ := isFinite_iff.mp hx
  rw [clamped_abs h]
  exact isNumeral_magnitudeText m e

theorem clamped_abs_eq_zero_iff (hx : x.isFinite = true) : clamped x.abs = "0" ↔ Scalar.isZero x = true := by
  obtain ⟨s, m, e, h⟩ := isFinite_iff.mp hx
  rw [clamped_abs h, magnitudeText_eq_zero_iff, isZero_eq h, beq_iff_eq]

theorem isNegative_of_isZero (hx : x.isFinite = true) (h : Scalar.isZero x = true) : isNegative x = false := by
  obtain ⟨s, m, e, hparts⟩ := isFinite_iff.mp hx
  rw [isZero_eq hparts] at h
  rw [isNegative_eq hparts, bne, h, Bool.not_true, Bool.and_false]

/-- Doubles with the same sign and magnitude are equal. -/
theorem beq_of_abs_eq (hx : x.isFinite = true) (hy : y.isFinite = true) (hsign : isNegative x = isNegative y)
    (habs : x.abs = y.abs) : (x == y) = true := by
  obtain ⟨s, m, e, h⟩ := isFinite_iff.mp hx
  obtain ⟨t, n, f, h'⟩ := isFinite_iff.mp hy
  have hparts := ofFloat_abs h
  rw [habs, ofFloat_abs h'] at hparts
  cases hparts
  rw [beq_iff hx hy, exactValue_eq h, exactValue_eq h']
  by_cases hm : m = 0
  · subst hm
    simp
  · have hm' : (m != 0) = true := bne_iff_ne.mpr hm
    rw [isNegative_eq h, isNegative_eq h', hm', Bool.and_true, Bool.and_true] at hsign
    rw [hsign]

/-- Equal doubles that are not zero are the same. -/
theorem eq_of_beq_of_ne (hx : x.isFinite = true) (hzero : Scalar.isZero x = false) (h : (x == y) = true) : x = y := by
  obtain ⟨s, m, e, hparts⟩ := isFinite_iff.mp hx
  have hm : 0 < m := by
    rw [isZero_eq hparts] at hzero
    exact Nat.pos_of_ne_zero (beq_eq_false_iff_ne.mp hzero)
  obtain ⟨hkey, -⟩ := float_beq_iff.mp h
  rw [unpack_eq, hparts, unpacked_finite hm] at hkey
  apply eq_of_unpack
  rw [unpack_eq, hparts, unpacked_finite hm]
  generalize y.toModel.unpack = v at hkey ⊢
  rcases v with t | _ | t | ⟨t, n, f, hn⟩ <;> cases hkey
  rfl

theorem isZero_eq_of_beq (h : (x == y) = true) : Scalar.isZero x = Scalar.isZero y := by
  obtain ⟨hkey, -⟩ := float_beq_iff.mp h
  show (x == 0) = (y == 0)
  rw [Bool.eq_iff_iff, float_beq_iff, float_beq_iff, hkey]

theorem beq_of_isZero (hx : Scalar.isZero x = true) (hy : Scalar.isZero y = true) : (x == y) = true := by
  obtain ⟨hkey, hne⟩ := float_beq_iff.mp hx
  obtain ⟨hkey', -⟩ := float_beq_iff.mp hy
  exact float_beq_iff.mpr ⟨hkey.trans hkey'.symm, hne⟩

/-! ## Limits -/

variable {limit : Float} {hm : 0 < m}

theorem unpack_abs_of_isZero (h : Scalar.isZero x = true) : x.abs.toModel.unpack = .zero .positive := by
  obtain ⟨s, hs⟩ := beq_zero_iff.mp h
  rw [unpack_abs, hs]
  rfl

/-- Zero is below every positive limit. -/
theorem abs_le_of_isZero (hlimit : limit.toModel.unpack = .finite .positive m e hm) (h : Scalar.isZero x = true) :
    x.abs ≤ limit := by
  rw [le_iff, unpack_abs_of_isZero h, hlimit]
  rfl

theorem not_le_abs_of_isZero (hlimit : limit.toModel.unpack = .finite .positive m e hm) (h : Scalar.isZero x = true) :
    ¬limit ≤ x.abs := by
  rw [le_iff, unpack_abs_of_isZero h, hlimit]
  exact Bool.false_ne_true

theorem unpack_constantFrom : ∃ m hm, (Print.constantFrom : Float).toModel.unpack = .finite .positive m (-72) hm :=
  ⟨_, _, rfl⟩

/-- A constant that is printed is larger than a coefficient that is not. -/
theorem not_le_dropBelow_of_constantFrom_le (h : Print.constantFrom ≤ x.abs) : ¬x.abs ≤ Print.dropBelow := by
  obtain ⟨m, hm, hfrom⟩ := unpack_constantFrom
  obtain ⟨n, hn, hdrop⟩ := unpack_dropBelow
  rw [le_iff, hfrom, unpack_abs] at h
  rw [le_iff, hdrop, unpack_abs]
  generalize x.toModel.unpack = u at h ⊢
  rcases u with s | _ | s | ⟨s, k, e, hk⟩
  · exact Bool.false_ne_true
  · exact Bool.false_ne_true
  · exact absurd h Bool.false_ne_true
  · have hexponent : -72 ≤ e := by
      by_contra hlt
      have hgt : compare (-72) e = .gt := compare_gt_iff_gt.mpr (by omega)
      rw [UnpackedFloat.abs, UnpackedFloat.compare, hgt] at h
      exact Bool.false_ne_true h
    have hgt : compare e (-119) = .gt := compare_gt_iff_gt.mpr (by omega)
    rw [UnpackedFloat.abs, UnpackedFloat.compare, hgt]
    exact Bool.false_ne_true

end Decimal

end RobustLP
