import RobustLP.Proofs.Set.Points

/-!
# A mixed form as a function of the parameters

For given numbers of the columns a mixed form is affine in the parameters: a *level* and one *slope* for each parameter
(`MixedForm.value_eq_level_add`). The slopes are what multipliers have to reach.
-/

namespace RobustLP

open UncertaintySet

/-- A double sum over two lists, in either order. -/
theorem sum_sum_comm {α β : Type} (g : α → β → Rat) (as : List α) (bs : List β) :
    (as.map fun a => (bs.map fun b => g a b).sum).sum = (bs.map fun b => (as.map fun a => g a b).sum).sum := by
  induction as with
  | nil => simp
  | cons a as ih =>
    simp only [List.map_cons, List.sum_cons, ih]
    rw [← List.sum_map_add]

namespace Form

/-- The coefficient of a position, zero where there is none. -/
def coefOf (f : Form Rat) (k : Nat) : Rat := (f.coef? k).getD 0

/-- In a form without repetition, the entries of a position are its coefficient. -/
theorem sum_entries_eq_coefOf {f : Form Rat} (h : f.Tabular) (k : Nat) :
    (f.linear.map fun t => if t.1 = k then t.2 else 0).sum = f.coefOf k := by
  obtain ⟨ts, c⟩ := f
  unfold Tabular at h
  unfold coefOf coef?
  dsimp only at h ⊢
  induction ts with
  | nil => rfl
  | cons t ts ih =>
    obtain ⟨hnot, hts⟩ := List.nodup_cons.mp h
    rw [List.map_cons, List.sum_cons, List.find?_cons]
    by_cases ht : t.1 = k
    · have hrest : (ts.map fun t => if t.1 = k then t.2 else 0).sum = 0 := by
        refine List.sum_eq_zero fun q hq => ?_
        obtain ⟨t', ht', rfl⟩ := List.mem_map.mp hq
        exact if_neg fun hk => hnot (List.mem_map.mpr ⟨t', ht', hk.trans ht.symm⟩)
      simp [ht, hrest]
    · have hbeq : (t.1 == k) = false := beq_eq_false_iff_ne.mpr ht
      rw [if_neg ht, zero_add, hbeq]
      exact ih hts

/-- The value of a form by positions. -/
theorem value_eq_sum_coefOf {f : Form Rat} (h : f.Tabular) {ks : List Nat} (hks : ks.Nodup)
    (hin : ∀ t ∈ f.linear, t.1 ∈ ks) (u : Nat → Rat) :
    f.value u = f.constant + (ks.map fun k => f.coefOf k * u k).sum := by
  have hentry : ∀ t ∈ f.linear, t.2 * u t.1 = (ks.map fun k => (if t.1 = k then t.2 else 0) * u k).sum := by
    intro t ht
    rw [← List.sum_toFinset _ hks]
    simp only [ite_mul, zero_mul]
    rw [Finset.sum_ite_eq, if_pos (List.mem_toFinset.mpr (hin t ht))]
  have hcoef : ∀ k ∈ ks, f.coefOf k * u k = (f.linear.map fun t => (if t.1 = k then t.2 else 0) * u k).sum := by
    intro k _
    rw [← sum_entries_eq_coefOf h k, List.sum_map_mul_right]
  rw [value, List.map_congr_left hentry, List.map_congr_left hcoef, add_comm, sum_sum_comm]

end Form

namespace MixedForm

/-- The part of the value that does not depend on the parameters. -/
def level (x : Nat → Rat) (f : MixedForm Rat) : Rat :=
  (f.linear.map fun t => t.2.constant * x t.1).sum + f.constant.constant

/-- The coefficient of a parameter for given numbers of the columns. -/
def slope (x : Nat → Rat) (f : MixedForm Rat) (k : Nat) : Rat :=
  (f.linear.map fun t => t.2.coefOf k * x t.1).sum + f.constant.coefOf k

/-- **The value of a mixed form is its level and its slopes times the parameters.** -/
theorem value_eq_level_add {f : MixedForm Rat} (h : f.Tabular) {ks : List Nat} (hks : ks.Nodup)
    (hin : ∀ k ∈ f.parameters, k ∈ ks) (x u : Nat → Rat) :
    f.value x u = f.level x + (ks.map fun k => f.slope x k * u k).sum := by
  have hcoef : ∀ t ∈ f.linear, t.2.value u * x t.1
      = t.2.constant * x t.1 + (ks.map fun k => t.2.coefOf k * x t.1 * u k).sum := by
    intro t ht
    rw [Form.value_eq_sum_coefOf (h.coefs t ht) hks (fun e he => hin _ (mem_parameters_of_mem_coef ht he)), add_mul,
      ← List.sum_map_mul_right]
    simp only [mul_right_comm]
  have hslope : ∀ k ∈ ks, f.slope x k * u k
      = (f.linear.map fun t => t.2.coefOf k * x t.1 * u k).sum + f.constant.coefOf k * u k := by
    intro k _
    rw [slope, add_mul, ← List.sum_map_mul_right]
  rw [value, Form.value_eq_sum_coefOf h.constant hks (fun e he => hin _ (mem_parameters_of_mem_constant he)),
    List.map_congr_left hcoef, List.map_congr_left hslope, List.sum_map_add, List.sum_map_add, level, sum_sum_comm]
  ring

end MixedForm

end RobustLP
