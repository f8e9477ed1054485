import RobustLP.Proofs.Value

/-!
# Products of affine functions

A function of numbers for positions is *straight* when it is affine: its increments do not depend on where they are taken.
The product of two straight functions is straight only if one of them is constant (`Straight.constant_of_mul`).

A function of two such arguments is *biaffine* when it is straight in each of them, as the value of a mixed form is. A product
of two biaffine functions is biaffine only if one factor does not depend on the first argument, and one does not depend on
the second (`Biaffine.constant_of_mul`).
-/

namespace RobustLP

/-- The increments of a function do not depend on where they are taken. -/
def Straight (f : (Nat → Rat) → Rat) : Prop := ∀ v d e, f (v + d + e) + f v = f (v + d) + f (v + e)

namespace Straight

variable {f g : (Nat → Rat) → Rat}

theorem const (c : Rat) : Straight fun _ => c := fun _ _ _ => rfl

theorem add (hf : Straight f) (hg : Straight g) : Straight fun v => f v + g v := by
  intro v d e
  linear_combination hf v d e + hg v d e

theorem sub (hf : Straight f) (hg : Straight g) : Straight fun v => f v - g v := by
  intro v d e
  linear_combination hf v d e - hg v d e

theorem mul_const (hf : Straight f) (c : Rat) : Straight fun v => f v * c := by
  intro v d e
  linear_combination c * hf v d e

theorem const_mul (c : Rat) (hf : Straight f) : Straight fun v => c * f v := by
  intro v d e
  linear_combination c * hf v d e

theorem entry (k : Nat) : Straight fun v => v k := by
  intro v d e
  simp only [Pi.add_apply]
  ring

theorem sum {α : Type} {l : List α} {f : α → (Nat → Rat) → Rat} (h : ∀ a ∈ l, Straight (f a)) :
    Straight fun v => (l.map fun a => f a v).sum := by
  induction l with
  | nil => exact const 0
  | cons a l ih =>
    simp only [List.map_cons, List.sum_cons]
    exact (h a List.mem_cons_self).add (ih fun b hb => h b (List.mem_cons_of_mem a hb))

/-- An increment is that from the origin. -/
theorem eq_add (hf : Straight f) (v d : Nat → Rat) : f (v + d) = f v + (f d - f 0) := by
  have h := hf 0 v d
  rw [zero_add, zero_add] at h
  linear_combination h

/-- **The product of two affine functions is affine only if one of them is constant.** Increments along `d` and `e` satisfy
`φ d * γ e + φ e * γ d = 0`; for `d = e` one of them is zero, and for two different directions so is the other. -/
theorem constant_of_mul (hf : Straight f) (hg : Straight g) (hmul : Straight fun v => f v * g v) :
    (∀ v w, f v = f w) ∨ ∀ v w, g v = g w := by
  have hcross : ∀ d e, (f d - f 0) * (g e - g 0) + (f e - f 0) * (g d - g 0) = 0 := by
    intro d e
    have h := hmul 0 d e
    simp only [zero_add] at h
    rw [hf.eq_add d e, hg.eq_add d e] at h
    linear_combination h
  have hsame : ∀ d, f d = f 0 ∨ g d = g 0 := by
    intro d
    have h : (f d - f 0) * (g d - g 0) = 0 := by linear_combination hcross d d / 2
    exact (mul_eq_zero.mp h).imp sub_eq_zero.mp sub_eq_zero.mp
  by_cases hconst : ∀ d, f d = f 0
  · exact .inl fun v w => (hconst v).trans (hconst w).symm
  · obtain ⟨d, hd⟩ := not_forall.mp hconst
    have hgd : g d = g 0 := (hsame d).resolve_left hd
    have hall : ∀ e, g e = g 0 := by
      intro e
      have h := hcross d e
      rw [hgd, sub_self, mul_zero, add_zero] at h
      exact sub_eq_zero.mp ((mul_eq_zero.mp h).resolve_left (sub_ne_zero.mpr hd))
    exact .inr fun v w => (hall v).trans (hall w).symm

/-- Two affine functions that are not zero are not zero somewhere together. -/
theorem exists_ne_zero (hf : Straight f) (hg : Straight g) {v w : Nat → Rat} (hv : f v ≠ 0) (hw : g w ≠ 0) :
    ∃ p, f p ≠ 0 ∧ g p ≠ 0 := by
  by_cases hgv : g v = 0
  · by_cases hfw : f w = 0
    · -- beyond `v`, seen from `w`, neither function is zero
      have hfp := hf w (v - w) (v - w)
      have hgp := hg w (v - w) (v - w)
      rw [add_sub_cancel] at hfp hgp
      refine ⟨v + (v - w), fun h => hv ?_, fun h => hw ?_⟩
      · linear_combination (h - hfp + hfw) / 2
      · linear_combination hgp - h + 2 * hgv
    · exact ⟨w, hfw, hw⟩
  · exact ⟨v, hv, hgv⟩

end Straight

/-- A function of two arguments that is affine in each of them. -/
structure Biaffine (F : (Nat → Rat) → (Nat → Rat) → Rat) : Prop where
  left : ∀ u, Straight fun x => F x u
  right : ∀ x, Straight fun u => F x u

namespace Biaffine

variable {F G : (Nat → Rat) → (Nat → Rat) → Rat}

theorem swap (hF : Biaffine F) : Biaffine fun u x => F x u := ⟨hF.right, hF.left⟩

/-- **One factor of a biaffine product does not depend on the first argument.** If both did, both would for the same second
argument. -/
theorem constant_of_mul (hF : Biaffine F) (hG : Biaffine G) (hmul : Biaffine fun x u => F x u * G x u) :
    (∀ u x y, F x u = F y u) ∨ ∀ u x y, G x u = G y u := by
  by_contra h
  push Not at h
  obtain ⟨⟨u, x, y, hFu⟩, v, z, w, hGv⟩ := h
  obtain ⟨p, hFp, hGp⟩ := ((hF.right x).sub (hF.right y)).exists_ne_zero ((hG.right z).sub (hG.right w))
    (sub_ne_zero.mpr hFu) (sub_ne_zero.mpr hGv)
  rcases (hF.left p).constant_of_mul (hG.left p) (hmul.left p) with hconst | hconst
  · exact hFp (sub_eq_zero.mpr (hconst x y))
  · exact hGp (sub_eq_zero.mpr (hconst z w))

end Biaffine

theorem Form.straight_value (f : Form Rat) : Straight fun u => f.value u :=
  (Straight.sum fun _ _ => (Straight.entry _).const_mul _).add (.const _)

/-- **The value of a mixed form is biaffine.** -/
theorem MixedForm.biaffine_value (f : MixedForm Rat) : Biaffine fun x u => f.value x u where
  left _ := (Straight.sum fun _ _ => (Straight.entry _).const_mul _).add (.const _)
  right _ := (Straight.sum fun t _ => t.2.straight_value.mul_const _).add f.constant.straight_value

end RobustLP
