import RobustLP.Proofs.Rounding.Zero

/-!
# Differences of doubles

How far two doubles are apart does not depend on their order, although differences are rounded (`abs_sub_comm`): rounding looks
at the magnitude only (`abs_round`), and packing keeps it (`abs_unpack_pack`).

The second part says what becomes of infinite and undefined doubles: a difference with an undefined one is undefined
(`isNaN_abs_sub`), one with an infinite double is infinite unless both are the same (`abs_sub_eq_infinity`), and a multiple of
the infinite double reaches it exactly for a positive factor (`infinity_le_mul_infinity`).
-/

namespace RobustLP.Decimal

open Float.Model Float.Model.UnpackedFloat

variable {u v : UnpackedFloat} {x y : Float}

theorem eq_of_unpack (h : x.toModel.unpack = y.toModel.unpack) : x = y := by
  rw [← ofModel_pack_unpack x, h, ofModel_pack_unpack]

theorem unpack_ofModel_pack (u : UnpackedFloat) : (Float.ofModel (.pack u)).toModel.unpack
    = UnpackedFloat.unpack Format.binary64 (UnpackedFloat.pack Format.binary64 u) := rfl

/-! ## Rounding -/

/-- Rounding looks at the magnitude only. -/
theorem abs_round (s t : Sign) (m : Nat) (e : Int) :
    (UnpackedFloat.round Format.binary64 s m e).abs = (UnpackedFloat.round Format.binary64 t m e).abs := by
  unfold UnpackedFloat.round roundWithAccuracy
  dsimp only
  split
  next => rfl
  next => rfl

theorem abs_normalize_neg (m : Int) (e : Int) : (UnpackedFloat.normalize Format.binary64 (-m) e .positive).abs
    = (UnpackedFloat.normalize Format.binary64 m e .positive).abs := by
  unfold UnpackedFloat.normalize
  rcases lt_trichotomy m 0 with h | rfl | h
  · have hlt : compare m 0 = .lt := compare_lt_iff_lt.mpr h
    have hgt : compare (-m) 0 = .gt := compare_gt_iff_gt.mpr (by omega)
    rw [hlt, hgt]
    exact abs_round _ _ _ _
  · rfl
  · have hgt : compare m 0 = .gt := compare_gt_iff_gt.mpr h
    have hlt : compare (-m) 0 = .lt := compare_lt_iff_lt.mpr (by omega)
    rw [hlt, hgt, neg_neg]
    exact abs_round _ _ _ _

theorem abs_unpacked_sub (u v : UnpackedFloat) :
    (UnpackedFloat.sub Format.binary64 u v).abs = (UnpackedFloat.sub Format.binary64 v u).abs := by
  rcases u with s | _ | s | ⟨s, m, e, hm⟩ <;> rcases v with t | _ | t | ⟨t, n, f, hn⟩
  all_goals try rfl
  · cases s <;> cases t <;> rfl
  · cases s <;> cases t <;> rfl
  · unfold UnpackedFloat.sub
    dsimp only
    rw [min_comm f e, ← neg_sub, abs_normalize_neg]

/-! ## Magnitudes and packing -/

theorem abs_unpacked (s : Bool) (m : Nat) (e : Int) :
    (Parts.finite s m e).unpacked.abs = (Parts.finite false m e).unpacked := by
  unfold Parts.unpacked
  dsimp only
  split
  next => rfl
  next => rfl

/-- Bits without the highest one stand for the magnitude. -/
theorem abs_ofBits (n : Nat) : (Parts.ofBits n).unpacked.abs = (Parts.ofBits (n % 2 ^ 63)).unpacked := by
  have hbiased : n % 2 ^ 63 / 2 ^ 52 % 2 ^ 11 = n / 2 ^ 52 % 2 ^ 11 := by omega
  have hmantissa : n % 2 ^ 63 % 2 ^ 52 = n % 2 ^ 52 := by omega
  have hsign : (n % 2 ^ 63 / 2 ^ 63 % 2 == 1) = false := by
    rw [Nat.div_eq_of_lt (Nat.mod_lt n (by decide))]
    rfl
  unfold Parts.ofBits twoTo
  simp only [Nat.pow_eq]
  rw [hbiased, hmantissa, hsign]
  split
  · split
    next => rfl
    next => rfl
  · split
    next => exact abs_unpacked _ _ _
    next => exact abs_unpacked _ _ _

theorem abs_unpack_packComponents (s : Sign) (e : BitVec 11) (m : BitVec 52) :
    (UnpackedFloat.unpack Format.binary64 (packComponents Format.binary64 s e m)).abs
      = UnpackedFloat.unpack Format.binary64 (packComponents Format.binary64 .positive e m) := by
  have hsign : s = signOf (s == .negative) := by cases s <;> rfl
  have hpositive : Sign.positive = signOf false := rfl
  have he : e.toNat < 2 ^ 11 := e.isLt
  have hm : m.toNat < 2 ^ 52 := m.isLt
  have hbits : (packComponents Format.binary64 s e m).toNat % 2 ^ 63
      = (packComponents Format.binary64 .positive e m).toNat := by
    rw [hsign, hpositive, toNat_packComponents, toNat_packComponents, Bool.toNat_false]
    omega
  rw [unpack_ofBits, unpack_ofBits, abs_ofBits, hbits]

/-- The sign of a finite number goes to the sign bit, and nowhere else. -/
theorem exists_pack_finite {m : Nat} (hm : 0 < m) (e : Int) : ∃ e' m', ∀ s,
    UnpackedFloat.pack Format.binary64 (.finite s m e hm) = packComponents Format.binary64 s e' m' := by
  unfold UnpackedFloat.pack
  dsimp only
  split
  · exact ⟨_, _, fun s => rfl⟩
  · split
    · exact ⟨_, _, fun s => rfl⟩
    · exact ⟨_, _, fun s => rfl⟩

/-- Packing looks at the sign only to keep it. -/
theorem abs_unpack_pack (u : UnpackedFloat) : (UnpackedFloat.unpack Format.binary64 (UnpackedFloat.pack Format.binary64 u)).abs
    = UnpackedFloat.unpack Format.binary64 (UnpackedFloat.pack Format.binary64 u.abs) := by
  rcases u with s | _ | s | ⟨s, m, e, hm⟩
  · exact abs_unpack_packComponents s _ _
  · rfl
  · exact abs_unpack_packComponents s _ _
  · obtain ⟨e', m', hpack⟩ := exists_pack_finite hm e
    rw [UnpackedFloat.abs.eq_4 s m e hm, hpack, hpack]
    exact abs_unpack_packComponents s e' m'

/-! ## Magnitudes of doubles -/

theorem abs_eq (x : Float) : x.abs = Float.ofModel (.pack x.toModel.unpack.abs) := rfl

/-- The magnitude of a double is unpacked to the magnitude. -/
theorem unpack_abs (x : Float) : x.abs.toModel.unpack = x.toModel.unpack.abs := by
  rw [abs_eq, unpack_ofModel_pack, ← abs_unpack_pack, ← unpack_ofModel_pack, ofModel_pack_unpack]

/-- **The difference of two doubles does not depend on their order,** but for its sign. -/
theorem abs_sub_comm (x y : Float) : (x - y).abs = (y - x).abs := by
  rw [abs_eq, abs_eq, sub_eq, sub_eq, unpack_ofModel_pack, unpack_ofModel_pack, abs_unpack_pack, abs_unpack_pack,
    abs_unpacked_sub]

/-! ## Comparisons -/

theorem lt_iff : x < y ↔ UnpackedFloat.compare x.toModel.unpack y.toModel.unpack = some .lt := by
  have h : (x < y) = (decide (x.toModel < y.toModel) = true) := rfl
  rw [h, decide_eq_true_iff]
  show UnpackedFloat.lt x.toModel.unpack y.toModel.unpack = true ↔ _
  unfold UnpackedFloat.lt
  exact beq_iff_eq

theorem le_iff : x ≤ y ↔ (UnpackedFloat.compare x.toModel.unpack y.toModel.unpack).any (·.isLE) = true := by
  have h : (x ≤ y) = (decide (x.toModel ≤ y.toModel) = true) := rfl
  rw [h, decide_eq_true_iff]
  rfl

theorem compare_swap (u v : UnpackedFloat) : UnpackedFloat.compare v u = (UnpackedFloat.compare u v).map Ordering.swap := by
  have hfinite : ∀ (m n : Nat) (e f : Int),
      (compare f e).then (compare n m) = ((compare e f).then (compare m n)).swap := by
    intro m n e f
    rw [Ordering.swap_then, Int.compare_swap, Nat.compare_swap]
  rcases u with s | _ | s | ⟨s, m, e, hm⟩ <;> rcases v with t | _ | t | ⟨t, n, f, hn⟩ <;> (try cases s) <;> (try cases t)
  all_goals try rfl
  · exact congrArg some (congrArg Ordering.swap (hfinite m n e f))
  · exact congrArg some (hfinite m n e f)

/-- Magnitudes of which neither is the smaller one are the same. -/
theorem abs_eq_of_compare (h : UnpackedFloat.compare x.abs.toModel.unpack y.abs.toModel.unpack = some .eq) :
    x.abs = y.abs := by
  have hbeq : UnpackedFloat.beq x.abs.toModel.unpack y.abs.toModel.unpack = true := by
    unfold UnpackedFloat.beq
    exact beq_iff_eq.mpr h
  obtain ⟨hkey, -⟩ := unpacked_beq_iff.mp hbeq
  apply eq_of_unpack
  rw [unpack_abs, unpack_abs] at hkey ⊢
  generalize x.toModel.unpack = u at hkey ⊢
  generalize y.toModel.unpack = v at hkey ⊢
  rcases u with s | _ | s | ⟨s, m, e, hm⟩ <;> rcases v with t | _ | t | ⟨t, n, f, hn⟩ <;> cases hkey <;> rfl

/-! ## Infinite and undefined doubles -/

theorem isNaN_iff : x.isNaN = true ↔ x.toModel.unpack = .notANumber := by
  have h : x.isNaN = x.toModel.unpack.isNaN := rfl
  rw [h]
  cases x.toModel.unpack <;> simp [UnpackedFloat.isNaN]

theorem unpack_ne (h : x.isNaN = false) : x.toModel.unpack ≠ .notANumber :=
  fun hx => Bool.eq_false_iff.mp h (isNaN_iff.mpr hx)

theorem isInf_iff : x.isInf = true ↔ ∃ s, x.toModel.unpack = .infinity s := by
  have h : x.isInf = x.toModel.unpack.isInf := rfl
  rw [h]
  cases x.toModel.unpack <;> simp [UnpackedFloat.isInf]

theorem isFinite_iff_not : x.isFinite = true ↔ x.isNaN = false ∧ x.isInf = false := by
  have hfinite : x.isFinite = x.toModel.unpack.isFinite := rfl
  have hnan : x.isNaN = x.toModel.unpack.isNaN := rfl
  have hinf : x.isInf = x.toModel.unpack.isInf := rfl
  rw [hfinite, hnan, hinf]
  cases x.toModel.unpack <;> simp [UnpackedFloat.isFinite, UnpackedFloat.isNaN, UnpackedFloat.isInf]

theorem eq_notANumber_of_comparisonKey (h : comparisonKey u = none) : u = .notANumber := by
  cases u with
  | notANumber => rfl
  | infinity s => cases h
  | zero s => cases h
  | finite s m e hm => cases h

theorem beq_self (h : x.isNaN = false) : (x == x) = true :=
  float_beq_iff.mpr ⟨rfl, fun hkey => unpack_ne h (eq_notANumber_of_comparisonKey hkey)⟩

theorem beq_comm (x y : Float) : (x == y) = (y == x) := by
  have hsymm : ∀ {x y : Float}, (x == y) = true → (y == x) = true := by
    intro x y h
    obtain ⟨hkey, hne⟩ := float_beq_iff.mp h
    exact float_beq_iff.mpr ⟨hkey.symm, hkey ▸ hne⟩
  exact Bool.eq_iff_iff.mpr ⟨hsymm, hsymm⟩

/-- Magnitudes can be compared. -/
theorem exists_compare_abs (hx : x.isNaN = false) (hy : y.isNaN = false) :
    ∃ o, UnpackedFloat.compare x.abs.toModel.unpack y.abs.toModel.unpack = some o := by
  have hx' := unpack_ne hx
  have hy' := unpack_ne hy
  rw [unpack_abs, unpack_abs]
  revert hx' hy'
  rcases x.toModel.unpack with s | _ | s | ⟨s, m, e, hm⟩ <;> rcases y.toModel.unpack with t | _ | t | ⟨t, n, f, hn⟩
  all_goals first
    | exact fun _ _ => ⟨_, rfl⟩
    | exact fun h _ => absurd rfl h
    | exact fun _ h => absurd rfl h

theorem unpack_infinity : infinity.toModel.unpack = .infinity .positive := by rfl

/-- **A difference with an undefined double** is undefined. -/
theorem isNaN_abs_sub (h : x.isNaN = true ∨ y.isNaN = true) : (x - y).abs.isNaN = true := by
  rw [isNaN_iff, isNaN_iff] at h
  have hsub : UnpackedFloat.sub Format.binary64 x.toModel.unpack y.toModel.unpack = .notANumber := by
    rcases h with h | h <;> rw [h]
    · rfl
    · cases x.toModel.unpack <;> rfl
  rw [isNaN_iff, unpack_abs, sub_eq, hsub]
  rfl

theorem not_le_of_isNaN (h : x.isNaN = true) : ¬x ≤ y := by
  rw [le_iff, isNaN_iff.mp h]
  exact Bool.false_ne_true

theorem toRat?_of_isNaN (h : x.isNaN = true) : toRat? x = none := by
  have hx : x = undefined := eq_of_unpack (isNaN_iff.mp h)
  rw [hx]
  rfl

theorem exists_sub_eq_infinity (s : Sign) (hv : v ≠ .notANumber) (hkey : comparisonKey (.infinity s) ≠ comparisonKey v) :
    ∃ t, UnpackedFloat.sub Format.binary64 (.infinity s) v = .infinity t := by
  rcases v with t | _ | t | ⟨t, n, f, hn⟩
  · -- infinities of one sign have the same key
    cases s <;> cases t
    · exact absurd rfl hkey
    · exact ⟨_, rfl⟩
    · exact ⟨_, rfl⟩
    · exact absurd rfl hkey
  · exact absurd rfl hv
  · exact ⟨_, rfl⟩
  · exact ⟨_, rfl⟩

/-- **A difference with an infinite double** is infinite, unless both are the same. -/
theorem abs_sub_eq_infinity (hx : x.isInf = true) (hy : y.isNaN = false) (hne : (x == y) = false) :
    (x - y).abs = infinity := by
  obtain ⟨s, hs⟩ := isInf_iff.mp hx
  have hkey : comparisonKey (.infinity s) ≠ comparisonKey y.toModel.unpack := by
    intro hkey
    refine Bool.eq_false_iff.mp hne (float_beq_iff.mpr ⟨hs ▸ hkey, ?_⟩)
    rw [hs]
    exact Option.some_ne_none _
  obtain ⟨t, hsub⟩ := exists_sub_eq_infinity s (unpack_ne hy) hkey
  apply eq_of_unpack
  rw [unpack_abs, sub_eq, hs, hsub]
  cases t <;> rfl

theorem infinity_le_iff : infinity ≤ x ↔ x = infinity := by
  rw [le_iff, unpack_infinity]
  constructor
  · intro h
    apply eq_of_unpack
    rw [unpack_infinity]
    revert h
    rcases x.toModel.unpack with s | _ | s | ⟨s, m, e, hm⟩
    · cases s with
      | negative => exact fun h => nomatch h
      | positive => exact fun _ => rfl
    · exact fun h => nomatch h
    · exact fun h => nomatch h
    · exact fun h => nomatch h
  · rintro rfl
    rfl

theorem not_infinity_lt (x : Float) : ¬infinity < x := by
  rw [lt_iff, unpack_infinity]
  rcases x.toModel.unpack with s | _ | s | ⟨s, m, e, hm⟩
  · cases s <;> exact fun h => nomatch h
  · exact fun h => nomatch h
  · exact fun h => nomatch h
  · exact fun h => nomatch h

theorem abs_of_isInf (h : x.isInf = true) : x.abs = infinity := by
  obtain ⟨s, hs⟩ := isInf_iff.mp h
  apply eq_of_unpack
  rw [unpack_abs, hs]
  rfl

/-- **A multiple of the infinite double** reaches it for a positive factor, and for no other one. -/
theorem infinity_le_mul_infinity : infinity ≤ x * infinity ↔ 0 < x := by
  have hmul : x * infinity
      = Float.ofModel (.pack (UnpackedFloat.mul Format.binary64 x.toModel.unpack (.infinity .positive))) := rfl
  have hnan : UnpackedFloat.unpack Format.binary64 (UnpackedFloat.pack Format.binary64 .notANumber) = .notANumber := rfl
  have hinf (s : Sign) :
      UnpackedFloat.unpack Format.binary64 (UnpackedFloat.pack Format.binary64 (.infinity s)) = .infinity s := by
    cases s <;> rfl
  rw [le_iff, lt_iff, hmul, unpack_zero, unpack_infinity, unpack_ofModel_pack]
  rcases x.toModel.unpack with s | _ | s | ⟨s, m, e, hm⟩
  · cases s with
    | negative => exact iff_of_false (by decide) (fun h => nomatch h)
    | positive => exact iff_of_true (by decide) rfl
  · exact iff_of_false (by decide) (fun h => nomatch h)
  · exact iff_of_false (by rw [UnpackedFloat.mul, hnan]; exact Bool.false_ne_true) (fun h => nomatch h)
  · cases s with
    | negative => exact iff_of_false (by rw [UnpackedFloat.mul, hinf]; exact Bool.false_ne_true) (fun h => nomatch h)
    | positive => exact iff_of_true (by rw [UnpackedFloat.mul, hinf]; rfl) rfl

end RobustLP.Decimal
