import RobustLP.Proofs.Outcome
import RobustLP.Scalar.Exact
import RobustLP.Working

/-!
# Values of forms in exact arithmetic

The meaning of a form is a number for each choice of numbers for its positions (`Form.value`, `MixedForm.value`). This
module gives that meaning and says that the operations of the library compute it:

* evaluating answers the value, and fails only for a position that has no number (`Form.evaluate_eq_ok_iff`,
  `MixedForm.evaluate_eq_value`);
* fixing the parameters (`MixedForm.specialize_eq_ok`) or the columns (`MixedForm.uncertainPart_value`) keeps it.

Bounds of exact arithmetic are compared with numbers by `ExtRat.Between`.
-/

namespace RobustLP

/-! ## Operations of exact arithmetic -/

section Exact

@[simp] theorem exact_zero : (Scalar.zero : Rat) = 0 := rfl

@[simp] theorem exact_one : (Scalar.one : Rat) = 1 := rfl

@[simp] theorem exact_minusOne : (Scalar.minusOne : Rat) = -1 := rfl

@[simp] theorem exact_bound (q : Rat) : Scalar.bound q = ExtRat.finite q := rfl

@[simp] theorem exact_coef (b : ExtRat) : (Scalar.coef b : Rat) = b.toRat := rfl

@[simp] theorem exact_shift (b : ExtRat) (q : Rat) : Scalar.shift b q = b.shift q := rfl

@[simp] theorem exact_negInf : (Bound.negInf : ExtRat) = .negInf := rfl

@[simp] theorem exact_posInf : (Bound.posInf : ExtRat) = .posInf := rfl

@[simp] theorem exact_neg (b : ExtRat) : Bound.neg b = b.neg := rfl

@[simp] theorem isZero_iff {q : Rat} : Scalar.isZero q = true ↔ q = 0 := beq_iff_eq

theorem isZero_eq_false_iff {q : Rat} : Scalar.isZero q = false ↔ q ≠ 0 := beq_eq_false_iff_ne

theorem isUpper_iff {b : ExtRat} : Bound.isUpper b = true ↔ b ≠ .posInf := by
  cases b <;> simp [Bound.isUpper, Bound.lt, ExtRat.lt]

theorem isLower_iff {b : ExtRat} : Bound.isLower b = true ↔ b ≠ .negInf := by
  cases b <;> simp [Bound.isLower, Bound.lt, ExtRat.lt]

end Exact

/-- Dropping entries without value keeps a sum. -/
theorem sum_map_filter {α : Type} {p : α → Bool} {f : α → Rat} {l : List α} (h : ∀ a ∈ l, p a = false → f a = 0) :
    ((l.filter p).map f).sum = (l.map f).sum := by
  induction l with
  | nil => rfl
  | cons a l ih =>
    have hrest := ih fun b hb => h b (List.mem_cons_of_mem _ hb)
    rw [List.filter_cons, List.map_cons, List.sum_cons]
    cases ha : p a with
    | true => rw [if_pos rfl, List.map_cons, List.sum_cons, hrest]
    | false => rw [if_neg Bool.false_ne_true, hrest, h a List.mem_cons_self ha, zero_add]

/-! ## Bounds and numbers -/

namespace ExtRat

@[simp] theorem finite_le_finite {p q : Rat} : le (finite p) (finite q) = true ↔ p ≤ q := by
  simp [le, lt]

@[simp] theorem negInf_le (b : ExtRat) : le negInf b = true := by cases b <;> rfl

@[simp] theorem le_posInf (b : ExtRat) : le b posInf = true := by cases b <;> rfl

@[simp] theorem finite_le_negInf (q : Rat) : le (finite q) negInf = false := rfl

@[simp] theorem posInf_le_finite (q : Rat) : le posInf (finite q) = false := rfl

theorem le_iff_not_lt {a b : ExtRat} : le a b = true ↔ ¬lt b a = true := by
  rw [le, Bool.not_eq_true', Bool.not_eq_true]

protected theorem lt_of_lt_of_le {a b c : ExtRat} (hab : lt a b = true) (hbc : le b c = true) : lt a c = true := by
  cases a <;> cases b <;> cases c <;> simp_all [lt, le]
  linarith

protected theorem lt_trans {a b c : ExtRat} (hab : lt a b = true) (hbc : lt b c = true) : lt a c = true := by
  refine ExtRat.lt_of_lt_of_le hab ?_
  cases b <;> cases c <;> simp_all [lt, le]
  linarith

protected theorem le_trans {a b c : ExtRat} (hab : le a b = true) (hbc : le b c = true) : le a c = true := by
  cases a <;> cases b <;> cases c <;> simp_all [lt, le]
  linarith

protected theorem le_antisymm {a b : ExtRat} (hab : le a b = true) (hba : le b a = true) : a = b := by
  cases a <;> cases b <;> simp_all [lt, le]
  linarith

protected theorem le_refl (a : ExtRat) : le a a = true := by
  cases a <;> simp [lt, le]

protected theorem le_of_lt {a b : ExtRat} (h : lt a b = true) : le a b = true := by
  cases a <;> cases b <;> simp_all [lt, le]
  linarith

/-- The larger of two bounds is at most a third one if both are. -/
protected theorem max_le_iff {a b c : ExtRat} : le (Bound.max a b) c = true ↔ le a c = true ∧ le b c = true := by
  have hmax : Bound.max a b = if lt a b = true then b else a := rfl
  rw [hmax]
  split
  next hlt => exact ⟨fun h => ⟨ExtRat.le_trans (ExtRat.le_of_lt hlt) h, h⟩, And.right⟩
  next hle => exact ⟨fun h => ⟨h, ExtRat.le_trans (le_iff_not_lt.mpr hle) h⟩, And.left⟩

theorem finite_le_of_le {p q : Rat} {b : ExtRat} (hpq : p ≤ q) (h : le (finite q) b = true) : le (finite p) b = true := by
  cases b with
  | finite r => exact finite_le_finite.mpr (hpq.trans (finite_le_finite.mp h))
  | negInf => exact h
  | posInf => rfl

theorem le_finite_of_le {p q : Rat} {b : ExtRat} (hpq : p ≤ q) (h : le b (finite p) = true) : le b (finite q) = true := by
  cases b with
  | finite r => exact finite_le_finite.mpr ((finite_le_finite.mp h).trans hpq)
  | negInf => rfl
  | posInf => exact h

@[simp] theorem shift_zero (b : ExtRat) : b.shift 0 = b := by
  cases b with
  | negInf => rfl
  | finite q => rw [shift, sub_zero]
  | posInf => rfl

theorem finite_le_shift {b : ExtRat} {q c : Rat} : le (finite q) (b.shift c) = true ↔ le (finite (q + c)) b = true := by
  cases b with
  | finite p => simp [shift, le_sub_iff_add_le]
  | _ => simp [shift]

theorem shift_le_finite {b : ExtRat} {q c : Rat} : le (b.shift c) (finite q) = true ↔ le b (finite (q + c)) = true := by
  cases b with
  | finite p => simp [shift]
  | _ => simp [shift]

theorem finite_le_neg {b : ExtRat} {q : Rat} : le (finite q) b.neg = true ↔ le b (finite (-q)) = true := by
  cases b with
  | finite p => simp [neg, le_neg]
  | _ => simp [neg]

/-- A finite bound is a number that it is at most, and at least. -/
theorem finite_le_iff {b : ExtRat} {q : Rat} (h : b ≠ posInf) :
    le (finite q) b = true ↔ ∃ p, b = finite p ∧ q ≤ p := by
  cases b with
  | finite p => simp
  | negInf => simp
  | posInf => exact absurd rfl h

/-- The same for bounds from below. -/
theorem le_finite_iff {b : ExtRat} {q : Rat} (h : b ≠ negInf) :
    le b (finite q) = true ↔ ∃ p, b = finite p ∧ p ≤ q := by
  cases b with
  | finite p => simp
  | negInf => exact absurd rfl h
  | posInf => simp

/-- A number lies between two bounds. -/
def Between (lower upper : ExtRat) (q : Rat) : Prop := le lower (finite q) = true ∧ le (finite q) upper = true

instance (lower upper : ExtRat) (q : Rat) : Decidable (Between lower upper q) :=
  inferInstanceAs (Decidable (le lower (finite q) = true ∧ le (finite q) upper = true))

/-- A number lies between two bounds that are moved apart by a slack. -/
def Within (slack : Rat) (lower upper : ExtRat) (q : Rat) : Prop := Between (lower.shift slack) (upper.shift (-slack)) q

theorem between_shift {l u : ExtRat} {c q : Rat} : Between (l.shift c) (u.shift c) q ↔ Between l u (q + c) := by
  rw [Between, Between, shift_le_finite, finite_le_shift]

theorem within_iff {d : Rat} {l u : ExtRat} {q : Rat} :
    Within d l u q ↔ le l (finite (q + d)) = true ∧ le (finite (q - d)) u = true := by
  rw [Within, Between, shift_le_finite, finite_le_shift, ← sub_eq_add_neg]

theorem within_shift {d : Rat} {l u : ExtRat} {c q : Rat} : Within d (l.shift c) (u.shift c) q ↔ Within d l u (q + c) := by
  rw [within_iff, within_iff, shift_le_finite, finite_le_shift, add_right_comm, sub_add_eq_add_sub]

/-- Moving the bounds apart by nothing changes nothing. -/
theorem within_zero {l u : ExtRat} {q : Rat} : Within 0 l u q ↔ Between l u q := by
  rw [within_iff, Between, add_zero, sub_zero]

theorem between_finite {p q : Rat} : Between (finite p) (finite p) q ↔ q = p := by
  rw [Between, finite_le_finite, finite_le_finite, le_antisymm_iff, and_comm]

theorem between_self {b : ExtRat} {q : Rat} : Between b b q ↔ b = finite q := by
  cases b with
  | finite p =>
    rw [between_finite]
    exact ⟨fun h => congrArg finite h.symm, fun h => (finite.inj h).symm⟩
  | negInf => exact ⟨fun h => absurd h.2 Bool.false_ne_true, fun h => by cases h⟩
  | posInf => exact ⟨fun h => absurd h.1 Bool.false_ne_true, fun h => by cases h⟩

theorem between_free (q : Rat) : Between negInf posInf q := ⟨negInf_le _, le_posInf _⟩

theorem within_free (slack q : Rat) : Within slack negInf posInf q := between_free q

/-- A larger slack allows more. -/
theorem Within.mono {s t : Rat} {l u : ExtRat} {q : Rat} (hst : s ≤ t) (h : Within s l u q) : Within t l u q := by
  obtain ⟨hl, hu⟩ := h
  constructor
  · cases l with
    | finite p => simp only [shift, finite_le_finite] at hl ⊢; linarith
    | negInf => rfl
    | posInf => exact hl
  · cases u with
    | finite p => simp only [shift, finite_le_finite] at hu ⊢; linarith
    | negInf => exact hu
    | posInf => rfl

end ExtRat

/-! ## Numbers of positions -/

namespace Lookup

/-- The number of a position; zero where there is none. -/
def number (U : Lookup Rat) (k : Nat) : Rat :=
  match U k with
  | .ok q => q
  | .error _ => 0

/-- A look-up that never fails. -/
def total (u : Nat → Rat) : Lookup Rat := fun k => .ok (u k)

@[simp] theorem number_total (u : Nat → Rat) : (total u).number = u := rfl

theorem number_eq_of_ok {U : Lookup Rat} {k : Nat} {q : Rat} (h : U k = .ok q) : U.number k = q := by
  rw [number, h]

theorem ofList_eq_ok_iff {α : Type} {xs : List α} {k : Nat} {q : α} : ofList xs k = .ok q ↔ xs[k]? = some q := by
  unfold ofList
  cases xs[k]? <;> simp

theorem number_ofList (xs : List Rat) (k : Nat) : (ofList xs).number k = xs[k]?.getD 0 := by
  unfold number ofList
  cases xs[k]? <;> rfl

theorem ofList_of_lt {α : Type} {xs : List α} {k : Nat} (h : k < xs.length) : ofList xs k = .ok xs[k] :=
  ofList_eq_ok_iff.mpr (List.getElem?_eq_getElem h)

end Lookup

/-! ## Forms -/

namespace Form

/-- The value of a form for given numbers of its positions. -/
def value (u : Nat → Rat) (f : Form Rat) : Rat := (f.linear.map fun t => t.2 * u t.1).sum + f.constant

/-- No position occurs twice. -/
def Tabular (f : Form Rat) : Prop := (f.linear.map (·.1)).Nodup

instance (f : Form Rat) : Decidable f.Tabular := inferInstanceAs (Decidable (List.Nodup _))

@[simp] theorem value_ofConstant (u : Nat → Rat) (c : Rat) : (ofConstant c).value u = c := by
  simp [value, ofConstant]

theorem tabular_ofConstant (c : Rat) : (ofConstant c).Tabular := List.nodup_nil

/-- **Evaluating answers the value,** provided that every position has a number. -/
theorem evaluate_eq_ok_iff {U : Lookup Rat} {f : Form Rat} {q : Rat} :
    f.evaluate U = .ok q ↔ (∀ t ∈ f.linear, ∃ a, U t.1 = .ok a) ∧ q = f.value U.number := by
  have key : ∀ t : Nat × Rat, ∀ a, U t.1 = .ok a →
      (do return t.2 * (← U t.1) : Except Fault Rat) = .ok (t.2 * U.number t.1) := by
    intro t a ha
    rw [Lookup.number_eq_of_ok ha, ha]
    rfl
  unfold evaluate
  constructor
  · intro h
    obtain ⟨products, hp, h⟩ := bind_eq_ok.mp h
    have hall : ∀ t ∈ f.linear, ∃ a, U t.1 = .ok a := by
      intro t ht
      obtain ⟨b, hb⟩ := exists_mapM_ok_iff.mp ⟨products, hp⟩ t ht
      obtain ⟨a, ha, -⟩ := bind_eq_ok.mp hb
      exact ⟨a, ha⟩
    refine ⟨hall, ?_⟩
    rw [mapM_ok_map fun t ht => key t _ (hall t ht).choose_spec] at hp
    cases hp
    cases h
    rfl
  · rintro ⟨hall, rfl⟩
    rw [mapM_ok_map fun t ht => key t _ (hall t ht).choose_spec]
    rfl

theorem value_scaled (u : Nat → Rat) (f : Form Rat) (c : Rat) : (f.scaled c).value u = c * f.value u := by
  simp only [value, scaled, List.map_map, Function.comp_def, mul_add]
  rw [← List.sum_map_mul_left, mul_comm c f.constant]
  simp only [mul_comm, mul_left_comm]

theorem tabular_scaled {f : Form Rat} (h : f.Tabular) (c : Rat) : (f.scaled c).Tabular := by
  simpa [Tabular, scaled, List.map_map, Function.comp_def] using h

/-- The value depends on the positions that occur only. -/
theorem value_congr {f : Form Rat} {u v : Nat → Rat} (h : ∀ t ∈ f.linear, u t.1 = v t.1) : f.value u = f.value v := by
  unfold value
  rw [List.map_congr_left fun t ht => by rw [h t ht]]

theorem value_of_isConstant {f : Form Rat} (h : f.isConstant = true) (u : Nat → Rat) : f.value u = f.constant := by
  rw [isConstant, List.isEmpty_iff] at h
  simp [value, h]

end Form

/-! ## Mixed forms -/

namespace MixedForm

/-- The value of a mixed form for given numbers of the columns and the parameters. -/
def value (x u : Nat → Rat) (f : MixedForm Rat) : Rat :=
  (f.linear.map fun t => t.2.value u * x t.1).sum + f.constant.value u

/-- No column occurs twice, and no parameter twice in one coefficient. -/
structure Tabular (f : MixedForm Rat) : Prop where
  columns : (f.linear.map (·.1)).Nodup
  coefs : ∀ t ∈ f.linear, t.2.Tabular
  constant : f.constant.Tabular

theorem mem_parameters {f : MixedForm Rat} {k : Nat} :
    k ∈ f.parameters ↔ (∃ t ∈ f.constant.linear, t.1 = k) ∨ ∃ c ∈ f.linear, ∃ t ∈ c.2.linear, t.1 = k := by
  simp only [parameters, List.mem_eraseDups, List.mem_mergeSort, List.mem_flatMap, List.mem_cons, List.mem_map]
  constructor
  · rintro ⟨c, rfl | ⟨t, ht, rfl⟩, hk⟩
    · exact .inl hk
    · exact .inr ⟨t, ht, hk⟩
  · rintro (hk | ⟨t, ht, hk⟩)
    · exact ⟨f.constant, .inl rfl, hk⟩
    · exact ⟨t.2, .inr ⟨t, ht, rfl⟩, hk⟩

theorem mem_parameters_of_mem_coef {f : MixedForm Rat} {c : Nat × Form Rat} (hc : c ∈ f.linear) {t : Nat × Rat}
    (ht : t ∈ c.2.linear) : t.1 ∈ f.parameters := mem_parameters.mpr (.inr ⟨c, hc, t, ht, rfl⟩)

theorem mem_parameters_of_mem_constant {f : MixedForm Rat} {t : Nat × Rat} (ht : t ∈ f.constant.linear) :
    t.1 ∈ f.parameters := mem_parameters.mpr (.inl ⟨t, ht, rfl⟩)

theorem isDeterministic_iff {f : MixedForm Rat} : f.isDeterministic = true ↔ f.parameters = [] := by
  rw [isDeterministic, Bool.and_eq_true, List.all_eq_true, List.eq_nil_iff_forall_not_mem]
  simp only [Form.isConstant, List.isEmpty_iff, List.eq_nil_iff_forall_not_mem]
  constructor
  · rintro ⟨hc, hl⟩ k hk
    rcases mem_parameters.mp hk with ⟨t, ht, -⟩ | ⟨c, hcf, t, ht, -⟩
    · exact hc t ht
    · exact hl c hcf t ht
  · intro h
    exact ⟨fun t ht => h _ (mem_parameters_of_mem_constant ht), fun c hc t ht => h _ (mem_parameters_of_mem_coef hc ht)⟩

/-- Every parameter of a form has a number. -/
def Defined (U : Lookup Rat) (f : MixedForm Rat) : Prop := ∀ k ∈ f.parameters, ∃ a, U k = .ok a

/-- The value depends on the columns and the parameters that occur only. -/
theorem value_congr {f : MixedForm Rat} {x y u v : Nat → Rat} (hx : ∀ t ∈ f.linear, x t.1 = y t.1)
    (hu : ∀ k ∈ f.parameters, u k = v k) : f.value x u = f.value y v := by
  unfold value
  rw [Form.value_congr fun t ht => hu _ (mem_parameters_of_mem_constant ht)]
  rw [List.map_congr_left fun c hc => by
    rw [hx c hc, Form.value_congr fun t ht => hu _ (mem_parameters_of_mem_coef hc ht)]]

theorem value_scaled (x u : Nat → Rat) (f : MixedForm Rat) (c : Rat) : (f.scaled c).value x u = c * f.value x u := by
  simp only [value, scaled, List.map_map, Function.comp_def, mul_add, Form.value_scaled]
  rw [← List.sum_map_mul_left]
  simp only [mul_assoc]

theorem tabular_scaled {f : MixedForm Rat} (h : f.Tabular) (c : Rat) : (f.scaled c).Tabular where
  columns := by simpa [scaled, List.map_map, Function.comp_def] using h.columns
  coefs := by
    intro t ht
    obtain ⟨t₀, ht₀, rfl⟩ := List.mem_map.mp ht
    exact Form.tabular_scaled (h.coefs t₀ ht₀) c
  constant := Form.tabular_scaled h.constant c

theorem parameters_scaled (f : MixedForm Rat) (c : Rat) : (f.scaled c).parameters = f.parameters := by
  have hkeys : ∀ g : Form Rat, (g.scaled c).linear.map (·.1) = g.linear.map (·.1) := by
    intro g
    rw [Form.scaled, List.map_map]
    rfl
  simp only [parameters, scaled, hkeys, List.map_map, Function.comp_def, List.flatMap_cons, List.flatMap_map]

/-- Dropping coefficients that are zero keeps a sum. -/
theorem sum_filter_isZero {S : Type} (w : S → Rat) (cs : List (S × Rat)) :
    ((cs.filter fun t => !Scalar.isZero t.2).map fun t => t.2 * w t.1).sum = (cs.map fun t => t.2 * w t.1).sum := by
  refine sum_map_filter fun t _ ht => ?_
  rw [Bool.not_eq_false', isZero_iff] at ht
  rw [ht, zero_mul]

/-- The form in the columns when the parameters have given numbers. -/
def fixed (u : Nat → Rat) (f : MixedForm Rat) : Form Rat :=
  { linear := (f.linear.map fun t => (t.1, t.2.value u)).filter fun t => !Scalar.isZero t.2
    constant := f.constant.value u }

theorem value_fixed (x u : Nat → Rat) (f : MixedForm Rat) : (f.fixed u).value x = f.value x u := by
  rw [Form.value, fixed, sum_filter_isZero, List.map_map]
  rfl

theorem specialize_eq_ok_iff {U : Lookup Rat} {f : MixedForm Rat} {g : Form Rat} :
    f.specialize U = .ok g ↔ f.Defined U ∧ g = f.fixed U.number := by
  have key : f.Defined U → f.specialize U = .ok (f.fixed U.number) := by
    intro hU
    have hlin : f.linear.mapM (fun t => (do return (t.1, ← t.2.evaluate U) : Except Fault (Nat × Rat)))
        = .ok (f.linear.map fun t => (t.1, t.2.value U.number)) := by
      refine mapM_ok_map fun c hc => ?_
      rw [Form.evaluate_eq_ok_iff.mpr ⟨fun t ht => hU _ (mem_parameters_of_mem_coef hc ht), rfl⟩]
      rfl
    have hcon : f.constant.evaluate U = .ok (f.constant.value U.number) :=
      Form.evaluate_eq_ok_iff.mpr ⟨fun t ht => hU _ (mem_parameters_of_mem_constant ht), rfl⟩
    unfold specialize
    rw [hlin, hcon]
    rfl
  constructor
  · intro h
    have hU : f.Defined U := by
      obtain ⟨cs, hcs, h⟩ := bind_eq_ok.mp h
      obtain ⟨c, hc, -⟩ := bind_eq_ok.mp h
      intro k hk
      rcases mem_parameters.mp hk with ⟨t, ht, rfl⟩ | ⟨c, hcf, t, ht, rfl⟩
      · exact (Form.evaluate_eq_ok_iff.mp hc).1 t ht
      · obtain ⟨b, hb⟩ := exists_mapM_ok_iff.mp ⟨cs, hcs⟩ c hcf
        obtain ⟨a, ha, -⟩ := bind_eq_ok.mp hb
        exact (Form.evaluate_eq_ok_iff.mp ha).1 t ht
    rw [key hU] at h
    cases h
    exact ⟨hU, rfl⟩
  · rintro ⟨hU, rfl⟩
    exact key hU

/-- **Evaluating answers the value,** provided that every column and every parameter has a number. -/
theorem evaluate_eq_ok {X U : Lookup Rat} {f : MixedForm Rat} (hx : ∀ t ∈ f.linear, ∃ a, X t.1 = .ok a)
    (hu : f.Defined U) : f.evaluate X U = .ok (f.value X.number U.number) := by
  unfold evaluate
  rw [specialize_eq_ok_iff.mpr ⟨hu, rfl⟩]
  refine Form.evaluate_eq_ok_iff.mpr ⟨?_, (value_fixed _ _ _).symm⟩
  intro t ht
  obtain ⟨t₀, ht₀, rfl⟩ := List.mem_map.mp (List.mem_filter.mp ht).1
  exact hx t₀ ht₀

/-- An answer is the value. -/
theorem eq_value_of_evaluate {X U : Lookup Rat} {f : MixedForm Rat} {q : Rat} (h : f.evaluate X U = .ok q) :
    q = f.value X.number U.number := by
  obtain ⟨g, hg, h⟩ := bind_eq_ok.mp h
  obtain ⟨-, rfl⟩ := specialize_eq_ok_iff.mp hg
  rw [(Form.evaluate_eq_ok_iff.mp h).2, value_fixed]

end MixedForm

/-! ## Gathered sums -/

section Gather

variable {S α : Type} (key : S → Nat)

theorem sum_pairsOf_add_pairsBeside (v : S × α → Rat) (s : S) (ts : List (S × α)) :
    ((pairsOf key s ts).map v).sum + ((pairsBeside key s ts).map v).sum = (ts.map v).sum := by
  unfold pairsOf pairsBeside
  induction ts with
  | nil => simp
  | cons t ts ih =>
    by_cases h : key t.1 = key s
    · simp only [List.filter_cons, h, beq_self_eq_true, if_true, Bool.not_true, Bool.false_eq_true, if_false,
        List.map_cons, List.sum_cons]
      linarith
    · simp only [List.filter_cons, beq_eq_false_iff_ne.mpr h, Bool.false_eq_true, if_false, Bool.not_false, if_true,
        List.map_cons, List.sum_cons]
      linarith

/-- **Gathering keeps sums** of products in which one factor depends on the key only. -/
theorem sum_gather (v : α → Rat) (w : S → Rat) (hw : ∀ s s', key s = key s' → w s = w s') :
    ∀ ts : List (S × α),
      ((gather key ts).map fun p => (p.2.map v).sum * w p.1).sum = (ts.map fun t => v t.2 * w t.1).sum
  | [] => by simp [gather_nil]
  | (s, c) :: rest => by
    have hs : ((pairsOf key s rest).map fun t => v t.2 * w t.1).sum = ((pairsOf key s rest).map fun t => v t.2).sum * w s := by
      rw [← List.sum_map_mul_right]
      refine congrArg List.sum (List.map_congr_left fun t ht => ?_)
      rw [hw t.1 s (beq_iff_eq.mp (List.mem_filter.mp ht).2)]
    have hrest := sum_pairsOf_add_pairsBeside key (fun t => v t.2 * w t.1) s rest
    rw [gather_cons, List.map_cons, List.sum_cons, sum_gather v w hw (pairsBeside key s rest)]
    simp only [List.map_cons, List.map_map, Function.comp_def, List.sum_cons]
    rw [← hrest, hs]
    ring
termination_by ts => ts.length
decreasing_by exact Nat.lt_succ_of_le (length_pairsBeside_le _ _ _)

/-- What is gathered comes from the list. -/
theorem exists_mem_of_mem_gathered {p : S × List α} {a : α} (ha : a ∈ p.2) : ∀ {ts : List (S × α)}, p ∈ gather key ts →
    ∃ s, (s, a) ∈ ts
  | [], h => by
    rw [gather_nil] at h
    cases h
  | (s, c) :: rest, h => by
    rw [gather_cons] at h
    rcases List.mem_cons.mp h with rfl | h
    · rcases List.mem_cons.mp ha with rfl | ha
      · exact ⟨s, List.mem_cons_self⟩
      · obtain ⟨t, ht, rfl⟩ := List.mem_map.mp ha
        exact ⟨t.1, List.mem_cons_of_mem _ (List.mem_filter.mp ht).1⟩
    · obtain ⟨s', hs'⟩ := exists_mem_of_mem_gathered ha h
      exact ⟨s', List.mem_cons_of_mem _ (List.mem_filter.mp hs').1⟩
termination_by ts => ts.length
decreasing_by exact Nat.lt_succ_of_le (length_pairsBeside_le _ _ _)

end Gather

namespace MixedForm

/-- The summands of a mixed form for given columns: coefficients that are forms, with their factors. -/
def summands (x : Nat → Rat) (f : MixedForm Rat) : List (Form Rat × Rat) :=
  (f.constant, 1) :: f.linear.map fun t => (t.2, x t.1)

/-- The form in the parameters when the columns have given numbers. -/
def fixedColumns (x : Nat → Rat) (f : MixedForm Rat) : Form Rat :=
  { linear := (gather id ((f.summands x).flatMap fun p => p.1.linear.map fun t => (t.1, t.2 * p.2))).map
      fun p => (p.1, p.2.sum)
    constant := ((f.summands x).map fun p => p.1.constant * p.2).sum }

theorem value_fixedColumns (x u : Nat → Rat) (f : MixedForm Rat) : (f.fixedColumns x).value u = f.value x u := by
  have hgather := sum_gather (id : Nat → Nat) (id : Rat → Rat) u (fun _ _ => congrArg u)
    ((f.summands x).flatMap fun p => p.1.linear.map fun t => (t.1, t.2 * p.2))
  have hproducts : ∀ terms : List (Form Rat × Rat),
      ((terms.flatMap fun p => p.1.linear.map fun t => (t.1, t.2 * p.2)).map fun t => t.2 * u t.1).sum
          + (terms.map fun p => p.1.constant * p.2).sum
        = (terms.map fun p => p.1.value u * p.2).sum := by
    intro terms
    induction terms with
    | nil => simp
    | cons p terms ih =>
      simp only [List.flatMap_cons, List.map_append, List.sum_append, List.map_cons, List.sum_cons, List.map_map,
        Function.comp_def, Form.value, add_mul, ← List.sum_map_mul_right] at ih ⊢
      rw [← ih]
      simp only [mul_right_comm]
      ring
  simp only [Form.value, fixedColumns, List.map_map, Function.comp_def, List.map_id, id] at hgather ⊢
  rw [hgather, hproducts (f.summands x)]
  simp only [summands, List.map_cons, List.sum_cons, List.map_map, Function.comp_def, mul_one]
  rw [value, add_comm]

theorem uncertainPart_eq_ok_iff {X : Lookup Rat} {f : MixedForm Rat} {g : Form Rat} :
    f.uncertainPart X = .ok g ↔ (∀ t ∈ f.linear, ∃ a, X t.1 = .ok a) ∧ g = f.fixedColumns X.number := by
  have key : (∀ t ∈ f.linear, ∃ a, X t.1 = .ok a) → f.uncertainPart X = .ok (f.fixedColumns X.number) := by
    intro hX
    have hcols : f.linear.mapM (fun t => (do return (t.2, ← X t.1) : Except Fault (Form Rat × Rat)))
        = .ok (f.linear.map fun t => (t.2, X.number t.1)) := by
      refine mapM_ok_map fun t ht => ?_
      obtain ⟨a, ha⟩ := hX t ht
      rw [Lookup.number_eq_of_ok ha, ha]
      rfl
    have hsum : ∀ ps : List (Nat × List Rat),
        ps.mapM (fun (k, cs) => (do return (k, ← Scalar.sum cs) : Except Fault (Nat × Rat)))
          = .ok (ps.map fun p => (p.1, p.2.sum)) := fun ps => mapM_ok_map fun p _ => rfl
    unfold uncertainPart
    rw [hcols]
    show (List.mapM (fun (k, cs) => (do return (k, ← Scalar.sum cs) : Except Fault (Nat × Rat))) _ >>= _) = _
    rw [hsum]
    rfl
  constructor
  · intro h
    have hX : ∀ t ∈ f.linear, ∃ a, X t.1 = .ok a := by
      obtain ⟨columns, hcols, -⟩ := bind_eq_ok.mp h
      intro t ht
      obtain ⟨b, hb⟩ := exists_mapM_ok_iff.mp ⟨columns, hcols⟩ t ht
      obtain ⟨a, ha, -⟩ := bind_eq_ok.mp hb
      exact ⟨a, ha⟩
    rw [key hX] at h
    cases h
    exact ⟨hX, rfl⟩
  · rintro ⟨hX, rfl⟩
    exact key hX

/-- **Fixing the columns keeps the value.** -/
theorem value_uncertainPart {X : Lookup Rat} {f : MixedForm Rat} {g : Form Rat} (h : f.uncertainPart X = .ok g)
    (u : Nat → Rat) : g.value u = f.value X.number u := by
  rw [(uncertainPart_eq_ok_iff.mp h).2, value_fixedColumns]

end MixedForm

end RobustLP
