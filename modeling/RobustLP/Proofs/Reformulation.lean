import RobustLP.Oracle.Dual
import RobustLP.Proofs.Value

/-!
# What a reformulation says

Values `x` of the columns of the program and `y` of the auxiliary columns give each auxiliary row a value. A reformulation
holds at them when every auxiliary column lies within its bounds and every row between its own (`Reformulation.Holds`).
-/

namespace RobustLP

open ExtRat

/-! ## Rows -/

/-- The value of a column of an auxiliary row. -/
def AuxColumn.value (x y : Nat → Rat) : AuxColumn → Rat
  | existing j => x j.toNat
  | auxiliary i => y i
  | stray _ => 0

/-- The value of terms. -/
def termsValue (x y : Nat → Rat) (terms : List (AuxColumn × Rat)) : Rat :=
  (terms.map fun t => t.2 * t.1.value x y).sum

theorem termsValue_append (x y : Nat → Rat) (as bs : List (AuxColumn × Rat)) :
    termsValue x y (as ++ bs) = termsValue x y as + termsValue x y bs := by
  rw [termsValue, List.map_append, List.sum_append]
  rfl

/-- An auxiliary row lies between its bounds. -/
def AuxRow.Holds (x y : Nat → Rat) (r : AuxRow Rat ExtRat) : Prop := Between r.lower r.upper (termsValue x y r.terms)

instance (x y : Nat → Rat) (r : AuxRow Rat ExtRat) : Decidable (r.Holds x y) :=
  inferInstanceAs (Decidable (Between ..))

/-- A row at a point of the parameters, its constant moved into the bounds. -/
theorem MixedRow.specialize_eq_ok_iff {U : Lookup Rat} {r : MixedRow Rat ExtRat}
    {a : List (Nat × Rat) × ExtRat × ExtRat} : r.specialize U = .ok a ↔ r.form.Defined U ∧
      a = ((r.form.fixed U.number).linear, r.lower.shift (r.form.constant.value U.number),
        r.upper.shift (r.form.constant.value U.number)) := by
  rw [specialize, bind_eq_ok]
  constructor
  · rintro ⟨g, hg, h⟩
    obtain ⟨hU, rfl⟩ := MixedForm.specialize_eq_ok_iff.mp hg
    cases h
    exact ⟨hU, rfl⟩
  · rintro ⟨hU, rfl⟩
    exact ⟨_, MixedForm.specialize_eq_ok_iff.mpr ⟨hU, rfl⟩, rfl⟩

/-- **A mixed row at a point of the parameters** as auxiliary row says that its value there lies between its bounds. -/
theorem MixedRow.auxRow_holds {U : Lookup Rat} {name : Option String} {row : MixedRow Rat ExtRat}
    {r : AuxRow Rat ExtRat} (h : row.auxRow U name = .ok r) (x y : Nat → Rat) :
    r.Holds x y ↔ Between row.lower row.upper (row.form.value x U.number) := by
  obtain ⟨a, ha, h⟩ := bind_eq_ok.mp h
  obtain ⟨-, rfl⟩ := MixedRow.specialize_eq_ok_iff.mp ha
  cases h
  have hterms : termsValue x y ((row.form.fixed U.number).linear.map fun t => (AuxColumn.existing t.1, t.2))
      + row.form.constant.value U.number = row.form.value x U.number := by
    rw [← MixedForm.value_fixed x U.number row.form, Form.value, termsValue, List.map_map]
    rfl
  rw [← hterms, ← between_shift]
  exact Iff.rfl

/-! ## Reformulations -/

/-- Auxiliary columns lie within their bounds, the first one being at a given position. -/
def InBounds (y : Nat → Rat) (start : Nat) (vs : List (AuxVariable ExtRat)) : Prop :=
  ∀ p ∈ vs.zipIdx start, Between p.1.lower p.1.upper (y p.2)

instance (y : Nat → Rat) (start : Nat) (vs : List (AuxVariable ExtRat)) : Decidable (InBounds y start vs) :=
  inferInstanceAs (Decidable (∀ p ∈ vs.zipIdx start, Between p.1.lower p.1.upper (y p.2)))

theorem inBounds_append {y : Nat → Rat} {start : Nat} {vs ws : List (AuxVariable ExtRat)} :
    InBounds y start (vs ++ ws) ↔ InBounds y start vs ∧ InBounds y (start + vs.length) ws := by
  simp only [InBounds, List.zipIdx_append, List.mem_append, or_imp, forall_and]

/-- A reformulation holds when its auxiliary columns are those from a given position on. -/
structure Reformulation.HoldsFrom (x y : Nat → Rat) (start : Nat) (f : Reformulation Rat ExtRat) : Prop where
  bounds : InBounds y start f.auxiliaries
  rows : ∀ r ∈ f.constraints, r.Holds x y

instance (x y : Nat → Rat) (start : Nat) (f : Reformulation Rat ExtRat) : Decidable (f.HoldsFrom x y start) :=
  decidable_of_iff (InBounds y start f.auxiliaries ∧ ∀ r ∈ f.constraints, r.Holds x y)
    ⟨fun h => ⟨h.1, h.2⟩, fun h => ⟨h.bounds, h.rows⟩⟩

/-- **A reformulation holds** for values of the columns of the program and of its auxiliary columns. -/
def Reformulation.Holds (x y : Nat → Rat) (f : Reformulation Rat ExtRat) : Prop := f.HoldsFrom x y 0

instance (x y : Nat → Rat) (f : Reformulation Rat ExtRat) : Decidable (f.Holds x y) :=
  inferInstanceAs (Decidable (f.HoldsFrom x y 0))

theorem Reformulation.holdsFrom_append {x y : Nat → Rat} {start : Nat} {f g : Reformulation Rat ExtRat} :
    (f.append g).HoldsFrom x y start ↔ f.HoldsFrom x y start ∧ g.HoldsFrom x y (start + f.auxiliaries.length) := by
  constructor
  · rintro ⟨hb, hr⟩
    obtain ⟨hf, hg⟩ := inBounds_append.mp hb
    exact ⟨⟨hf, fun r h => hr r (List.mem_append_left _ h)⟩, ⟨hg, fun r h => hr r (List.mem_append_right _ h)⟩⟩
  · rintro ⟨⟨hf, hfr⟩, ⟨hg, hgr⟩⟩
    refine ⟨inBounds_append.mpr ⟨hf, hg⟩, fun r h => ?_⟩
    rcases List.mem_append.mp h with h | h
    · exact hfr r h
    · exact hgr r h

/-! ## Weighted sums -/

/-- The sum of numbers weighted with the values of auxiliary columns from a position on. -/
def weigh (y : Nat → Rat) (start : Nat) (as : List Rat) : Rat := ((as.zipIdx start).map fun p => p.1 * y p.2).sum

theorem weigh_append (y : Nat → Rat) (start : Nat) (as bs : List Rat) :
    weigh y start (as ++ bs) = weigh y start as + weigh y (start + as.length) bs := by
  rw [weigh, List.zipIdx_append, List.map_append, List.sum_append]
  rfl

/-- Terms with one auxiliary column for each entry of a list. -/
theorem termsValue_zipIdx {α : Type} (x y : Nat → Rat) (start : Nat) (as : List α) (g : α → Rat) :
    termsValue x y (as.zipIdx.map fun p => (AuxColumn.auxiliary (start + p.2), g p.1)) = weigh y start (as.map g) := by
  rw [termsValue, weigh, List.zipIdx_map, List.map_map, List.map_map, List.zipIdx_eq_map_add (i := start), List.map_map]
  rfl

/-- A weighted sum over the positions. -/
theorem weigh_eq_sum (y : Nat → Rat) : ∀ (start : Nat) (as : List Rat),
    weigh y start as = ∑ i ∈ Finset.range as.length, as[i]?.getD 0 * y (start + i)
  | _, [] => rfl
  | start, a :: as => by
    have ih : weigh y start (a :: as) = a * y start + weigh y (start + 1) as := rfl
    rw [ih, weigh_eq_sum y (start + 1) as, List.length_cons, Finset.sum_range_succ', add_comm]
    congr 1
    refine Finset.sum_congr rfl fun i _ => ?_
    rw [List.getElem?_cons_succ, Nat.add_assoc, Nat.add_comm 1 i]

end RobustLP
