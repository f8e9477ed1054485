import RobustLP.Proofs.Config.Regular
import RobustLP.Proofs.Rounding.Nearest

/-!
# Integers as options

The integer domains read a candidate twice, as integer and as double, and compare both. Which integers they take is thus a
question of rounding: an integer in range is stored as it is exactly if it is a double (`Decimal.IsDouble`), that is, if its
nearest double is not rounded (`Decimal.exists_ofInt?_iff`). A double is stored as the integer it equals, if there is one in
range, and what is stored once is stored again as it is (`Config.cast_integers`).

All integers up to `2 ^ 53` are doubles (`Decimal.isDouble_of_le`), and the next one is not: it is refused although it is positive
(`Config.positive_refused`).
-/

namespace RobustLP

namespace Decimal

/-! ## Integers that are doubles -/

/-- An integer that is the value of a double: 53 bits with zeros behind them. -/
def IsDouble (n : Int) : Prop := ∃ m k : Nat, m < 2 ^ 53 ∧ k ≤ 971 ∧ n.natAbs = m * 2 ^ k

/-- A mantissa that is too small for its exponent is shifted to the left until it fits. -/
theorem exists_fits {m : Nat} (hm : m < 2 ^ 53) : ∀ k : Nat, k ≤ 2045 →
    ∃ m' e', Fits m' e' ∧ m' * (2 : Rat) ^ e' = m * 2 ^ ((k : Int) - 1074)
  | 0, _ => ⟨m, -1074, ⟨hm, by omega, by omega, .inr rfl⟩, by simp⟩
  | k + 1, hk => by
    by_cases hnormal : 2 ^ 52 ≤ m
    · exact ⟨m, (k + 1 : Nat) - 1074, ⟨hm, by omega, by omega, .inl hnormal⟩, rfl⟩
    · obtain ⟨m', e', hfits, hval⟩ := exists_fits (m := 2 * m) (by omega) k (by omega)
      refine ⟨m', e', hfits, hval.trans ?_⟩
      have hexp : ((k + 1 : Nat) : Int) - 1074 = (k : Int) - 1074 + 1 := by omega
      rw [hexp, zpow_add_one₀ two_ne_zero]
      push_cast
      ring

theorem IsDouble.exists_fits {n : Int} (h : IsDouble n) : ∃ m e, Fits m e ∧ m * (2 : Rat) ^ e = n.natAbs := by
  obtain ⟨m, k, hm, hk, hn⟩ := h
  obtain ⟨m', e', hfits, hval⟩ := Decimal.exists_fits hm (k + 1074) (by omega)
  refine ⟨m', e', hfits, hval.trans ?_⟩
  have hexp : ((k + 1074 : Nat) : Int) - 1074 = k := by omega
  rw [hexp, zpow_natCast, hn]
  push_cast
  rfl

/-- A mantissa with an exponent that stands for an integer: below the binary point there is nothing to shift out. -/
theorem isDouble_of_fits {m : Nat} {e n : Int} (h : Fits m e) (hval : m * (2 : Rat) ^ e = n.natAbs) : IsDouble n := by
  rcases le_or_gt 0 e with he | he
  · obtain ⟨k, rfl⟩ := Int.eq_ofNat_of_zero_le he
    have hmost := h.most
    refine ⟨m, k, h.lt, by omega, ?_⟩
    rw [zpow_natCast] at hval
    exact_mod_cast hval.symm
  · -- the mantissa is a multiple of the integer, which is small, too
    obtain ⟨k, rfl⟩ : ∃ k : Nat, e = -(k : Int) := ⟨(-e).toNat, by omega⟩
    have hmul : m = n.natAbs * 2 ^ k := by
      rw [zpow_neg, zpow_natCast, mul_inv_eq_iff_eq_mul₀ (by positivity)] at hval
      exact_mod_cast hval
    have hle : n.natAbs ≤ m := hmul ▸ Nat.le_mul_of_pos_right _ (Nat.two_pow_pos k)
    exact ⟨n.natAbs, 0, hle.trans_lt h.lt, by omega, by rw [Nat.pow_zero, Nat.mul_one]⟩

/-- All integers up to `2 ^ 53` are doubles. -/
theorem isDouble_of_le {n : Int} (h : n.natAbs ≤ 2 ^ 53) : IsDouble n := by
  rcases h.lt_or_eq with hlt | heq
  · exact ⟨n.natAbs, 0, hlt, by omega, by rw [Nat.pow_zero, Nat.mul_one]⟩
  · exact ⟨2 ^ 52, 1, by decide, by omega, by rw [heq]; rfl⟩

/-! ## The double nearest to an integer -/

/-- The opposite of a finite double has the other sign and the same magnitude. -/
theorem ofFloat_neg {x : Float} {s : Bool} {m : Nat} {e : Int} (h : Parts.ofFloat x = .finite s m e) :
    Parts.ofFloat (-x) = .finite (!s) m e := by
  have hfits : Fits m e := fits_of_ofBits h
  have hneg : x.toModel.unpack.neg = (Parts.finite (!s) m e).unpacked := by
    rw [unpack_eq, h]
    by_cases hm : m = 0
    · subst hm
      rw [unpacked_zero, unpacked_zero]
      cases s <;> rfl
    · rw [unpacked_finite (Nat.pos_of_ne_zero hm), unpacked_finite (Nat.pos_of_ne_zero hm)]
      cases s <;> rfl
  calc Parts.ofFloat (-x) = Parts.ofFloat (.ofModel (.pack x.toModel.unpack.neg)) := rfl
    _ = .finite (!s) m e := by rw [hneg, ofFloat_pack hfits]

theorem toRat?_eq {x : Float} {s : Bool} {m : Nat} {e : Int} (h : Parts.ofFloat x = .finite s m e) :
    toRat? x = some ((if s then -1 else 1) * (m * (2 : Rat) ^ e)) := by
  have hsome : ∃ q, toRat? x = some q := by
    unfold toRat?
    rw [h]
    exact ⟨_, rfl⟩
  obtain ⟨q, hq⟩ := hsome
  rw [← exactValue_eq h, exactValue, hq, Option.getD_some]

/-- A double that has a value has parts. -/
theorem exists_parts_of_toRat? {x : Float} {q : Rat} (h : toRat? x = some q) :
    ∃ s m e, Parts.ofFloat x = .finite s m e ∧ (if s then -1 else 1) * (m * (2 : Rat) ^ e) = q := by
  cases hparts : Parts.ofFloat x with
  | nan => simp [toRat?, hparts] at h
  | infinite s => simp [toRat?, hparts] at h
  | finite s m e =>
    rw [toRat?_eq hparts] at h
    exact ⟨s, m, e, rfl, Option.some.inj h⟩

/-- The magnitude of a double that equals an integer. -/
theorem magnitude_eq {s : Bool} {m : Nat} {e n : Int} (h : (if s then -1 else 1) * (m * (2 : Rat) ^ e) = n) :
    m * (2 : Rat) ^ e = n.natAbs := by
  have hnonneg : 0 ≤ m * (2 : Rat) ^ e := by positivity
  rw [Nat.cast_natAbs, Int.cast_abs, ← h]
  cases s
  · rw [if_neg Bool.false_ne_true, one_mul, abs_of_nonneg hnonneg]
  · rw [if_pos rfl, neg_one_mul, abs_neg, abs_of_nonneg hnonneg]

/-- **An integer that is a double** is not rounded. -/
theorem exists_ofInt? {n : Int} (h : IsDouble n) : ∃ x, ofInt? n = some x ∧ toRat? x = some (n : Rat) := by
  obtain ⟨m, e, hfits, hval⟩ := h.exists_fits
  have hbits : nearestBits? n.natAbs 1 = some (bitsOf false m e) :=
    nearestBits?_eq Nat.one_pos hfits (by rw [hval, Nat.cast_one, div_one])
  have hparts : Parts.ofFloat (Float.ofBits (UInt64.ofNat (bitsOf false m e))) = .finite false m e :=
    ofFloat_ofBits (bitsOf_lt hfits _) (ofBits_bitsOf hfits _)
  have hratio : ofRatio? false n.natAbs 1 = some (Float.ofBits (UInt64.ofNat (bitsOf false m e))) := by
    rw [ofRatio?, hbits, Option.map_some, if_neg Bool.false_ne_true, Nat.add_zero]
  have hnat : ((n.natAbs : Nat) : Rat) = |(n : Rat)| := by
    rw [Nat.cast_natAbs, Int.cast_abs]
  refine ⟨_, by rw [ofInt?, hratio], ?_⟩
  by_cases hneg : n < 0
  · rw [if_pos hneg, toRat?_eq (ofFloat_neg hparts), hval, hnat, abs_of_neg (Int.cast_lt_zero.mpr hneg)]
    simp
  · rw [if_neg hneg, toRat?_eq hparts, hval, hnat, abs_of_nonneg (Int.cast_nonneg (not_lt.mp hneg))]
    simp

/-- The integer that a double equals is a double. -/
theorem isDouble_of_toRat? {x : Float} {n : Int} (h : toRat? x = some (n : Rat)) : IsDouble n := by
  obtain ⟨s, m, e, hparts, hval⟩ := exists_parts_of_toRat? h
  exact isDouble_of_fits (fits_of_ofBits hparts) (magnitude_eq hval)

theorem exists_ofInt?_iff {n : Int} : (∃ x, ofInt? n = some x ∧ toRat? x = some (n : Rat)) ↔ IsDouble n :=
  ⟨fun ⟨_, _, h⟩ => isDouble_of_toRat? h, exists_ofInt?⟩

/-- Nothing is cut off a double that is an integer. -/
theorem truncate?_eq {x : Float} {n : Int} (h : toRat? x = some (n : Rat)) : truncate? x = some n := by
  obtain ⟨s, m, e, hparts, hval⟩ := exists_parts_of_toRat? h
  have hden : ((powTwo e).2 : Rat) ≠ 0 := Nat.cast_ne_zero.mpr (powTwo_pos e).2.ne'
  have hmul : m * (powTwo e).1 = n.natAbs * (powTwo e).2 := by
    have habs := magnitude_eq hval
    rw [← powTwo_ratio e, ← mul_div_assoc, div_eq_iff hden] at habs
    exact_mod_cast habs
  have hquot : m * (powTwo e).1 / (powTwo e).2 = n.natAbs := by
    rw [hmul, Nat.mul_div_cancel _ (powTwo_pos e).2]
  have hsign : (if s then -(n.natAbs : Int) else n.natAbs) = n := by
    have hnonneg : 0 ≤ m * (2 : Rat) ^ e := by positivity
    cases s
    · rw [if_neg Bool.false_ne_true, one_mul] at hval
      have : 0 ≤ n := by exact_mod_cast hval ▸ hnonneg
      rw [if_neg Bool.false_ne_true, Int.natAbs_of_nonneg this]
    · rw [if_pos rfl, neg_one_mul] at hval
      have : n ≤ 0 := by exact_mod_cast hval ▸ neg_nonpos.mpr hnonneg
      rw [if_pos rfl, Int.ofNat_natAbs_of_nonpos this, neg_neg]
  unfold truncate?
  rw [hparts]
  dsimp only
  rw [hquot, hsign]

end Decimal

namespace Config

/-! ## Integer domains -/

/-- The integers in the range of an integer domain. -/
inductive OptionDomain.Ranges : OptionDomain → (Int → Prop) → Prop
  | positive : Ranges (.integer .positive) fun n => 0 < n
  | nonNegative : Ranges (.integer .nonNegative) fun n => 0 ≤ n
  | limit : Ranges .limit fun n => 1 ≤ n ∨ n = -1

theorem same_int_float {n : Int} {x : Float} :
    (Value.int n).same (.float x) = true ↔ Decimal.toRat? x = some (n : Rat) := by
  unfold Value.same
  dsimp only [Value.rational?]
  cases Decimal.toRat? x with
  | none => exact iff_of_false Bool.false_ne_true nofun
  | some q => exact beq_iff_eq.trans (eq_comm.trans (Option.some_inj).symm)

variable {d : OptionDomain} {inRange : Int → Prop} {v w : Value}

/-- A candidate that can be read in both ways. -/
theorem castInteger_of_read {n : Int} {x : Float} {accept : Int → Bool} {refusal : String} (hn : v.toInt = .ok n)
    (hx : v.toFloat = .ok x) : castInteger accept refusal v =
      if Decimal.toRat? x = some (n : Rat) ∧ accept n = true then .ok (.int n) else .error (.option refusal) := by
  unfold castInteger Value.readFloat
  rw [hn, hx]
  simp only [← same_int_float, ← Bool.and_eq_true]
  rfl

/-- **What an integer domain stores:** the integer of the candidate, if its double is the same number. -/
theorem castInteger_eq_ok {accept : Int → Bool} {refusal : String} :
    castInteger accept refusal v = .ok w ↔ ∃ n x, v.toInt = .ok n ∧ v.toFloat = .ok x ∧
      Decimal.toRat? x = some (n : Rat) ∧ accept n = true ∧ w = .int n := by
  constructor
  · intro h
    obtain ⟨n, hn, hrest⟩ := bind_eq_ok.mp h
    obtain ⟨x, hx, -⟩ := bind_eq_ok.mp hrest
    rw [mapError_eq_ok] at hn
    have hx' : v.toFloat = .ok x := mapError_eq_ok.mp hx
    rw [castInteger_of_read hn hx'] at h
    split at h
    next hok => exact ⟨n, x, hn, hx', hok.1, hok.2, (Except.ok.inj h).symm⟩
    next => cases h
  · rintro ⟨n, x, hn, hx, hval, haccept, rfl⟩
    rw [castInteger_of_read hn hx, if_pos ⟨hval, haccept⟩]

theorem OptionDomain.Ranges.cast_eq_ok (h : d.Ranges inRange) : d.cast v = .ok w ↔ ∃ n x, v.toInt = .ok n ∧
    v.toFloat = .ok x ∧ Decimal.toRat? x = some (n : Rat) ∧ inRange n ∧ w = .int n := by
  cases h with
  | positive => exact castInteger_eq_ok.trans (by simp [Range.hasInt])
  | nonNegative => exact castInteger_eq_ok.trans (by simp [Range.hasInt])
  | limit => exact castInteger_eq_ok.trans (by simp)

theorem toInt_float {n : Int} {x : Float} (h : Decimal.truncate? x = some n) : (Value.float x).toInt = .ok n := by
  simp only [Value.toInt, h]

theorem toFloat_int {n : Int} {x : Float} : (Value.int n).toFloat = .ok x ↔ Decimal.ofInt? n = some x := by
  simp only [Value.toFloat]
  cases Decimal.ofInt? n <;> simp

theorem OptionDomain.Ranges.cast_int (h : d.Ranges inRange) (n : Int) :
    d.cast (.int n) = .ok w ↔ w = .int n ∧ inRange n ∧ Decimal.IsDouble n := by
  rw [h.cast_eq_ok, ← Decimal.exists_ofInt?_iff]
  constructor
  · rintro ⟨k, x, hk, hx, hval, hrange, rfl⟩
    obtain rfl : n = k := Except.ok.inj hk
    exact ⟨rfl, hrange, x, toFloat_int.mp hx, hval⟩
  · rintro ⟨rfl, hrange, x, hx, hval⟩
    exact ⟨n, x, rfl, toFloat_int.mpr hx, hval, hrange, rfl⟩

theorem OptionDomain.Ranges.cast_float (h : d.Ranges inRange) (x : Float) :
    d.cast (.float x) = .ok w ↔ ∃ n : Int, Decimal.toRat? x = some (n : Rat) ∧ inRange n ∧ w = .int n := by
  rw [h.cast_eq_ok]
  constructor
  · rintro ⟨n, y, -, hy, hval, hrange, rfl⟩
    obtain rfl : x = y := Except.ok.inj hy
    exact ⟨n, hval, hrange, rfl⟩
  · rintro ⟨n, hval, hrange, rfl⟩
    exact ⟨n, x, toInt_float (Decimal.truncate?_eq hval), rfl, hval, hrange, rfl⟩

/-- An integer domain stores what it stored once as it is. -/
theorem OptionDomain.Ranges.idempotent (h : d.Ranges inRange) : d.Idempotent := by
  intro v w hw
  obtain ⟨n, x, -, -, hval, hrange, rfl⟩ := h.cast_eq_ok.mp hw
  exact (h.cast_int n).mpr ⟨rfl, hrange, Decimal.isDouble_of_toRat? hval⟩

/-- **Integer options.** An integer of any size is stored as it is exactly if it is in range and a double; a double is stored as
the integer in range that it equals; all other integers and doubles are refused, infinite and undefined ones included. What an
integer domain made of any candidate, it stores as it is. -/
theorem cast_integers (h : d.Ranges inRange) :
    (∀ n w, d.cast (.int n) = .ok w ↔ w = .int n ∧ inRange n ∧ Decimal.IsDouble n) ∧
    (∀ x w, d.cast (.float x) = .ok w ↔ ∃ n : Int, Decimal.toRat? x = some (n : Rat) ∧ inRange n ∧ w = .int n) ∧
    d.Idempotent :=
  ⟨fun n _ => h.cast_int n, fun x _ => h.cast_float x, h.idempotent⟩

theorem cast_integers_limit : OptionDomain.limit.Ranges (fun n => 1 ≤ n ∨ n = -1) ∧
    OptionDomain.limit.cast (.int (-1)) = .ok (.int (-1)) ∧
    OptionDomain.limit.cast (.int 9007199254740994) = .ok (.int 9007199254740994) ∧
    OptionDomain.limit.cast (.float 4) = .ok (.int 4) := by
  have hfour : Decimal.toRat? 4 = some ((4 : Int) : Rat) := by decide +kernel
  refine ⟨.limit, ?_, ?_, ?_⟩
  · exact ((cast_integers .limit).1 (-1) _).mpr ⟨rfl, .inr rfl, Decimal.isDouble_of_le (by decide)⟩
  · exact ((cast_integers .limit).1 9007199254740994 _).mpr
      ⟨rfl, .inl (by decide), 4503599627370497, 1, by decide, by decide, rfl⟩
  · exact ((cast_integers .limit).2.1 4 _).mpr ⟨4, hfour, .inl (by decide), rfl⟩

/-- The first positive integer that is no double: its nearest double is the integer before it. -/
theorem positive_refused : 0 < 9007199254740993 ∧ (OptionDomain.integer .positive).cast (.int 9007199254740993)
    = .error (.option "Expected positive int, but received 9007199254740993") := by
  refine ⟨by decide, ?_⟩
  have hnearest : Decimal.ofInt? 9007199254740993 = some (Float.ofBits 0x4340000000000000) := by rfl
  have hvalue : Decimal.toRat? (Float.ofBits 0x4340000000000000) = some 9007199254740992 := by decide +kernel
  refine (castInteger_of_read rfl (toFloat_int.mpr hnearest)).trans ?_
  rw [hvalue, if_neg (by decide)]
  rfl

end Config

end RobustLP
