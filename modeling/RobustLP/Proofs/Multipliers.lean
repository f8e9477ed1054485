import Mathlib

/-!
# Multipliers of linear inequalities

A finite system of linear inequalities over the rational numbers either has a solution, or nonnegative multipliers combine
its rows to a contradiction `0 ≤ b` with `b < 0` (`exists_contradiction`). The proof removes one unknown after the other.
From this it follows that an inequality that holds at every solution of a system with a solution is bounded by a
combination of its rows (`exists_multipliers`): this is what makes dualization complete.

An inequality `Σ aₖ uₖ ≤ b` is a pair `(a, b)`; combinations are taken in the module of these pairs.
-/

namespace RobustLP.Inequality

open Finset

/-- An inequality: the coefficients of the unknowns and the right-hand side. -/
abbrev Row := (ℕ → ℚ) × ℚ

/-- The numbers `u` of the first `n` unknowns satisfy an inequality. -/
def Satisfies (n : ℕ) (u : ℕ → ℚ) (p : Row) : Prop := ∑ k ∈ range n, p.1 k * u k ≤ p.2

/-- Only the first `n` unknowns occur. -/
def Below (n : ℕ) (p : Row) : Prop := ∀ k, n ≤ k → p.1 k = 0

/-! ## Removing an unknown -/

/-- The combination of a row in which unknown `n` has a positive coefficient and one in which it has a negative one. -/
def resolve (n : ℕ) (p q : Row) : Row := (-q.1 n) • p + (p.1 n) • q

theorem resolve_below {n : ℕ} {p q : Row} (hp : Below (n + 1) p) (hq : Below (n + 1) q) :
    Below n (resolve n p q) := by
  intro k hk
  rcases hk.lt_or_eq with hk | rfl
  · simp [resolve, hp k hk, hq k hk]
  · simp [resolve]
    ring

/-- The rows without unknown `n` and all combinations of rows that remove it. -/
def eliminate [DecidableEq Row] (n : ℕ) (S : Finset Row) : Finset Row :=
  S.filter (fun p => p.1 n = 0)
    ∪ ((S.filter fun p => 0 < p.1 n) ×ˢ (S.filter fun q => q.1 n < 0)).image fun e => resolve n e.1 e.2

section

variable [DecidableEq Row] {n : ℕ} {S : Finset Row}

theorem mem_eliminate {r : Row} : r ∈ eliminate n S ↔
    (r ∈ S ∧ r.1 n = 0) ∨ ∃ p q, (p ∈ S ∧ 0 < p.1 n) ∧ (q ∈ S ∧ q.1 n < 0) ∧ resolve n p q = r := by
  simp only [eliminate, mem_union, mem_filter, mem_image, mem_product, Prod.exists, and_assoc]

theorem eliminate_below (h : ∀ p ∈ S, Below (n + 1) p) : ∀ r ∈ eliminate n S, Below n r := by
  intro r hr
  rcases mem_eliminate.mp hr with ⟨hrS, hz⟩ | ⟨p, q, ⟨hp, -⟩, ⟨hq, -⟩, rfl⟩
  · intro k hk
    rcases hk.lt_or_eq with hk | rfl
    · exact h r hrS k hk
    · exact hz
  · exact resolve_below (h p hp) (h q hq)

/-- Every new row is a combination of old ones with multipliers that are not negative. -/
theorem eliminate_subset_span : ((eliminate n S : Finset Row) : Set Row) ⊆ Submodule.span ℚ≥0 (S : Set Row) := by
  intro r hr
  rcases mem_eliminate.mp hr with ⟨hrS, -⟩ | ⟨p, q, ⟨hp, hpn⟩, ⟨hq, hqn⟩, rfl⟩
  · exact Submodule.subset_span hrS
  · obtain ⟨α, hα⟩ : ∃ α : ℚ≥0, (α : ℚ) = -q.1 n := ⟨⟨-q.1 n, by linarith⟩, rfl⟩
    obtain ⟨β, hβ⟩ : ∃ β : ℚ≥0, (β : ℚ) = p.1 n := ⟨⟨p.1 n, hpn.le⟩, rfl⟩
    have hr : resolve n p q = α • p + β • q := by
      rw [resolve, ← hα, ← hβ]
      rfl
    rw [hr]
    exact Submodule.add_mem _ (Submodule.smul_mem _ α (Submodule.subset_span hp))
      (Submodule.smul_mem _ β (Submodule.subset_span hq))

end

/-- A number between lower and upper limits of which none contradict. -/
theorem exists_between (L U : Finset ℚ) (h : ∀ l ∈ L, ∀ u ∈ U, l ≤ u) :
    ∃ t, (∀ l ∈ L, l ≤ t) ∧ ∀ u ∈ U, t ≤ u := by
  rcases L.eq_empty_or_nonempty with rfl | hL
  · rcases U.eq_empty_or_nonempty with rfl | hU
    · exact ⟨0, by simp, by simp⟩
    · exact ⟨U.min' hU, by simp, fun u hu => U.min'_le u hu⟩
  · exact ⟨L.max' hL, fun l hl => L.le_max' l hl, fun u hu => h _ (L.max'_mem hL) u hu⟩

/-- The limit that a row puts on unknown `n`, the other ones being given. -/
def limit (n : ℕ) (u : ℕ → ℚ) (p : Row) : ℚ := (p.2 - ∑ k ∈ range n, p.1 k * u k) / p.1 n

theorem sum_update (n : ℕ) (u : ℕ → ℚ) (t : ℚ) (a : ℕ → ℚ) :
    ∑ k ∈ range (n + 1), a k * Function.update u n t k = ∑ k ∈ range n, a k * u k + a n * t := by
  rw [sum_range_succ, Function.update_self]
  congr 1
  refine sum_congr rfl fun k hk => ?_
  rw [Function.update_of_ne (mem_range.mp hk).ne]

theorem satisfies_update_of_pos {n : ℕ} {u : ℕ → ℚ} {t : ℚ} {p : Row} (hp : 0 < p.1 n) (ht : t ≤ limit n u p) :
    Satisfies (n + 1) (Function.update u n t) p := by
  rw [Satisfies, sum_update]
  rw [limit, le_div_iff₀ hp] at ht
  linarith

theorem satisfies_update_of_neg {n : ℕ} {u : ℕ → ℚ} {t : ℚ} {p : Row} (hp : p.1 n < 0) (ht : limit n u p ≤ t) :
    Satisfies (n + 1) (Function.update u n t) p := by
  rw [Satisfies, sum_update]
  rw [limit, div_le_iff_of_neg hp] at ht
  linarith

theorem satisfies_update_of_zero {n : ℕ} {u : ℕ → ℚ} {t : ℚ} {p : Row} (hp : p.1 n = 0) (h : Satisfies n u p) :
    Satisfies (n + 1) (Function.update u n t) p := by
  rw [Satisfies, sum_update, hp, zero_mul, add_zero]
  exact h

/-- The combination of two rows says that their limits do not contradict. -/
theorem limit_le_limit {n : ℕ} {u : ℕ → ℚ} {p q : Row} (hp : 0 < p.1 n) (hq : q.1 n < 0)
    (h : Satisfies n u (resolve n p q)) : limit n u q ≤ limit n u p := by
  have hsum : ∑ k ∈ range n, (resolve n p q).1 k * u k
      = -q.1 n * ∑ k ∈ range n, p.1 k * u k + p.1 n * ∑ k ∈ range n, q.1 k * u k := by
    rw [mul_sum, mul_sum, ← sum_add_distrib]
    refine sum_congr rfl fun k _ => ?_
    simp only [resolve, Prod.fst_add, Prod.smul_fst, Pi.add_apply, Pi.smul_apply, smul_eq_mul]
    ring
  rw [Satisfies, hsum] at h
  simp only [resolve, Prod.snd_add, Prod.smul_snd, smul_eq_mul] at h
  rw [limit, limit, div_le_iff_of_neg hq, div_mul_eq_mul_div, div_le_iff₀ hp]
  linarith

/-- A solution of the rows without unknown `n` extends to it. -/
theorem exists_extension [DecidableEq Row] {n : ℕ} {S : Finset Row} {u : ℕ → ℚ}
    (h : ∀ r ∈ eliminate n S, Satisfies n u r) : ∃ v, ∀ p ∈ S, Satisfies (n + 1) v p := by
  obtain ⟨t, hlow, hupp⟩ := exists_between ((S.filter fun q => q.1 n < 0).image (limit n u))
    ((S.filter fun p => 0 < p.1 n).image (limit n u)) (by
      intro l hl m hm
      obtain ⟨q, hq, rfl⟩ := mem_image.mp hl
      obtain ⟨p, hp, rfl⟩ := mem_image.mp hm
      have hp := mem_filter.mp hp
      have hq := mem_filter.mp hq
      exact limit_le_limit hp.2 hq.2 (h _ (mem_eliminate.mpr (.inr ⟨p, q, hp, hq, rfl⟩))))
  refine ⟨Function.update u n t, fun p hp => ?_⟩
  rcases lt_trichotomy (p.1 n) 0 with hn | hn | hn
  · exact satisfies_update_of_neg hn (hlow _ (mem_image_of_mem _ (mem_filter.mpr ⟨hp, hn⟩)))
  · exact satisfies_update_of_zero hn (h p (mem_eliminate.mpr (.inl ⟨hp, hn⟩)))
  · exact satisfies_update_of_pos hn (hupp _ (mem_image_of_mem _ (mem_filter.mpr ⟨hp, hn⟩)))

/-! ## Contradictions -/

/-- **A system without solution combines to a contradiction.** -/
theorem exists_contradiction [DecidableEq Row] : ∀ (n : ℕ) (S : Finset Row), (∀ p ∈ S, Below n p) →
    (¬∃ u, ∀ p ∈ S, Satisfies n u p) → ∃ b < 0, ((0, b) : Row) ∈ Submodule.span ℚ≥0 (S : Set Row)
  | 0, S, hS, hno => by
    simp only [Satisfies, range_zero, sum_empty, exists_const, not_forall, not_le] at hno
    obtain ⟨p, hp, hneg⟩ := hno
    have hp0 : p = (0, p.2) := Prod.ext (funext fun k => hS p hp k (Nat.zero_le k)) rfl
    exact ⟨p.2, hneg, hp0 ▸ Submodule.subset_span hp⟩
  | n + 1, S, hS, hno => by
    have hno' : ¬∃ u, ∀ r ∈ eliminate n S, Satisfies n u r := fun ⟨_, hu⟩ => hno (exists_extension hu)
    obtain ⟨b, hb, hmem⟩ := exists_contradiction n (eliminate n S) (eliminate_below hS) hno'
    exact ⟨b, hb, Submodule.span_le.mpr eliminate_subset_span hmem⟩

/-! ## Bounds that follow from a system -/

variable {ι : Type*} {n : ℕ} {a : ι → ℕ → ℚ} {b : ι → ℚ} {c : ℕ → ℚ} {d : ℚ}

/-- A row made homogeneous: unknown `n` takes the place of the number one. -/
def homogeneous (n : ℕ) (a : ℕ → ℚ) (b : ℚ) : ℕ → ℚ := fun k => if k < n then a k else if k = n then -b else 0

theorem sum_homogeneous (n : ℕ) (a : ℕ → ℚ) (b : ℚ) (u : ℕ → ℚ) :
    ∑ k ∈ range (n + 1), homogeneous n a b k * u k = ∑ k ∈ range n, a k * u k - b * u n := by
  rw [sum_range_succ, sum_congr rfl fun k hk => by rw [homogeneous, if_pos (mem_range.mp hk)]]
  simp [homogeneous, sub_eq_add_neg]

/-- The homogeneous system of rows `a u ≤ b` together with `0 ≤ t` and `c u - d t ≥ 1`. -/
def homogeneousRow (n : ℕ) (a : ι → ℕ → ℚ) (b : ι → ℚ) (c : ℕ → ℚ) (d : ℚ) : Option (Option ι) → Row
  | none => (fun k => -homogeneous n c d k, -1)
  | some none => (homogeneous n 0 1, 0)
  | some (some i) => (homogeneous n (a i) (b i), 0)

theorem homogeneousRow_below (j : Option (Option ι)) : Below (n + 1) (homogeneousRow n a b c d j) := by
  intro k hk
  have h₁ : ¬k < n := by omega
  have h₂ : k ≠ n := by omega
  rcases j with _ | _ | i <;> simp [homogeneousRow, homogeneous, h₁, h₂]

/-- If `c u ≤ d` follows from a system with a solution, its homogeneous system has none. -/
theorem homogeneousRow_no_solution (hne : ∃ u : ℕ → ℚ, ∀ i, ∑ k ∈ range n, a i k * u k ≤ b i)
    (himp : ∀ u : ℕ → ℚ, (∀ i, ∑ k ∈ range n, a i k * u k ≤ b i) → ∑ k ∈ range n, c k * u k ≤ d) :
    ¬∃ u, ∀ j, Satisfies (n + 1) u (homogeneousRow n a b c d j) := by
  rintro ⟨u, hu⟩
  have hgain : 1 ≤ ∑ k ∈ range n, c k * u k - d * u n := by
    have h := hu none
    simp only [Satisfies, homogeneousRow, neg_mul, sum_neg_distrib, sum_homogeneous] at h
    linarith
  have htime : 0 ≤ u n := by
    have h := hu (some none)
    simp only [Satisfies, homogeneousRow, sum_homogeneous, Pi.zero_apply, zero_mul, sum_const_zero] at h
    linarith
  have hrow : ∀ i, ∑ k ∈ range n, a i k * u k ≤ b i * u n := by
    intro i
    have h := hu (some (some i))
    simp only [Satisfies, homogeneousRow, sum_homogeneous] at h
    linarith
  have hlin : ∀ (e : ℕ → ℚ) (v : ℕ → ℚ) (s : ℚ),
      ∑ k ∈ range n, e k * (v k + s * u k) = ∑ k ∈ range n, e k * v k + s * ∑ k ∈ range n, e k * u k := by
    intro e v s
    rw [mul_sum, ← sum_add_distrib]
    exact sum_congr rfl fun k _ => by ring
  rcases htime.eq_or_lt with h0 | hpos
  · -- a direction along which the system stays satisfied and `c` grows without bound
    obtain ⟨v, hv⟩ := hne
    have hd := himp (fun k => v k + (|d| + |∑ k ∈ range n, c k * v k| + 1) * u k) (by
      intro i
      rw [hlin]
      have := hrow i
      rw [← h0, mul_zero] at this
      have : (|d| + |∑ k ∈ range n, c k * v k| + 1) * ∑ k ∈ range n, a i k * u k ≤ 0 :=
        mul_nonpos_of_nonneg_of_nonpos (by positivity) this
      linarith [hv i])
    rw [hlin] at hd
    rw [← h0, mul_zero, sub_zero] at hgain
    have hgrow : |d| + |∑ k ∈ range n, c k * v k| + 1
        ≤ (|d| + |∑ k ∈ range n, c k * v k| + 1) * ∑ k ∈ range n, c k * u k :=
      le_mul_of_one_le_right (by positivity) hgain
    linarith [le_abs_self d, neg_abs_le (∑ k ∈ range n, c k * v k)]
  · -- the solution divided by the unknown that stands for one
    have hscale : ∀ e : ℕ → ℚ, ∑ k ∈ range n, e k * (u k / u n) = (∑ k ∈ range n, e k * u k) / u n := by
      intro e
      rw [sum_div]
      exact sum_congr rfl fun k _ => by rw [mul_div_assoc]
    have hd := himp (fun k => u k / u n) (by
      intro i
      rw [hscale, div_le_iff₀ hpos]
      exact hrow i)
    rw [hscale, div_le_iff₀ hpos] at hd
    linarith

/-- **An inequality that follows from a system with a solution is bounded by a combination of its rows.** -/
theorem exists_multipliers [Fintype ι] (hne : ∃ u : ℕ → ℚ, ∀ i, ∑ k ∈ range n, a i k * u k ≤ b i)
    (himp : ∀ u : ℕ → ℚ, (∀ i, ∑ k ∈ range n, a i k * u k ≤ b i) → ∑ k ∈ range n, c k * u k ≤ d) :
    ∃ y : ι → ℚ, (∀ i, 0 ≤ y i) ∧ (∀ k < n, ∑ i, y i * a i k = c k) ∧ ∑ i, y i * b i ≤ d := by
  classical
  obtain ⟨e, he, hmem⟩ := exists_contradiction (n + 1) (univ.image (homogeneousRow n a b c d))
    (by
      intro p hp
      obtain ⟨j, -, rfl⟩ := mem_image.mp hp
      exact homogeneousRow_below j)
    (by
      rintro ⟨u, hu⟩
      exact homogeneousRow_no_solution hne himp ⟨u, fun j => hu _ (mem_image_of_mem _ (mem_univ j))⟩)
  rw [coe_image, coe_univ, Set.image_univ, Submodule.mem_span_range_iff_exists_fun] at hmem
  obtain ⟨w, hw⟩ := hmem
  rw [Fintype.sum_option, Fintype.sum_option] at hw
  have hfst : ∀ k, -((w none : ℚ) * homogeneous n c d k) + ((w (some none) : ℚ) * homogeneous n 0 1 k
      + ∑ i, (w (some (some i)) : ℚ) * homogeneous n (a i) (b i) k) = 0 := by
    intro k
    have h := congrFun (congrArg Prod.fst hw) k
    simpa [homogeneousRow, Prod.fst_sum, NNRat.smul_def] using h
  have hpos : 0 < (w none : ℚ) := by
    have h := congrArg Prod.snd hw
    simp only [homogeneousRow, Prod.snd_add, Prod.smul_snd, Prod.snd_sum, NNRat.smul_def, mul_zero,
      sum_const_zero, add_zero, mul_neg, mul_one] at h
    linarith
  refine ⟨fun i => w (some (some i)) / w none, fun i => by positivity, fun k hk => ?_, ?_⟩
  · have h := hfst k
    simp only [homogeneous, if_pos hk, Pi.zero_apply, mul_zero, zero_add] at h
    simp only [div_mul_eq_mul_div]
    rw [← sum_div, div_eq_iff hpos.ne']
    linarith
  · have h := hfst n
    simp only [homogeneous, lt_irrefl, if_false, if_true, mul_neg, mul_one, sum_neg_distrib, neg_neg] at h
    simp only [div_mul_eq_mul_div]
    rw [← sum_div, div_le_iff₀ hpos]
    have hnonneg : (0 : ℚ) ≤ w (some none) := NNRat.cast_nonneg _
    linarith

end RobustLP.Inequality
