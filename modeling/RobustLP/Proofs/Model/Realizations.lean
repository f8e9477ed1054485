import RobustLP.Proofs.Dual.Slope
import RobustLP.Proofs.Expressions

/-!
# Realizations of the parameters

A realization gives each parameter of a model a number within its bounds, an integer where it has to be one, such that all
constraints of the uncertainty set hold (`Model.Realizes`). The uncertainty set that a solve works with is well-formed and has
all realizations as points (`UncertaintySet.admits_of_realizes`).
-/

namespace RobustLP

open ExtRat UncertaintySet

/-- **A constraint holds up to a slack:** its body has a value, which lies between the bounds. -/
def Constraint.HoldsWithin (slack : Rat) (U X : Lookup Rat) (c : Constraint Rat ExtRat) : Prop :=
  ∃ q, c.body.evaluate (fun k => U k.index) (fun v => X v.index) = .ok q ∧ Within slack c.lower c.upper q

/-- No variable has a value. -/
def Lookup.nothing : Lookup Rat := fun _ => .error .noIndex

/-- **A realization** of the parameters of a model. -/
structure Model.Realizes (m : Model Rat ExtRat) (u : List Rat) : Prop where
  size : u.length = m.parameters.length
  bounds : ∀ k d, m.parameters[k]? = some d → Between d.lower.value d.upper.value (entries u k)
  integral : ∀ k d, m.parameters[k]? = some d → d.domain.isInteger = true → ∃ z : Int, entries u k = z
  constraints : ∀ c ∈ m.setConstraints, c.HoldsWithin 0 (Lookup.ofList u) Lookup.nothing

namespace UncertaintySet

variable {s : UncertaintySet Rat ExtRat} {row : List Rat} {lower upper : ExtRat} {v : Nat → Rat}

/-! ## Rows -/

/-- A row of the set has the value of its form, but for the constant. -/
theorem dot_denseForm {n : Nat} {f : Form Rat} (h : f.Tabular) (hlt : ∀ t ∈ f.linear, t.1 < n) (v : Nat → Rat) :
    dot (denseForm n f) v + f.constant = f.value v := by
  have hcoef : ∀ k, LinearProgram.coefAt f.linear k = f.coefOf k := by
    intro k
    unfold LinearProgram.coefAt Form.coefOf Form.coef?
    cases f.linear.find? (·.1 == k) with
    | none => rfl
    | some t => rfl
  have hlength : (denseForm n f).length = n := by
    rw [denseForm, LinearProgram.denseRow, List.length_map, List.length_range]
  have hentry : ∀ k ∈ Finset.range n, (denseForm n f)[k]?.getD 0 * v k = f.coefOf k * v k := by
    intro k hk
    rw [denseForm, LinearProgram.denseRow, List.getElem?_map, List.getElem?_range (Finset.mem_range.mp hk), ← hcoef]
    rfl
  rw [Form.value_eq_sum_coefOf h List.nodup_range (fun t ht => List.mem_range.mpr (hlt t ht)), add_comm, dot, hlength,
    Finset.sum_congr rfl hentry, ← List.sum_toFinset _ List.nodup_range, List.toFinset_range]

theorem dot_neg (row : List Rat) (v : Nat → Rat) : dot (row.map (-·)) v = -dot row v := by
  have hentry : ∀ k, (row.map (-·))[k]?.getD 0 * v k = -(row[k]?.getD 0 * v k) := by
    intro k
    rw [List.getElem?_map]
    cases row[k]? with
    | none => simp
    | some a => simp
  rw [dot, List.length_map, Finset.sum_congr rfl fun k _ => hentry k, Finset.sum_neg_distrib]
  rfl

/-! ## Building a set -/

/-- A set with more rows, which say `S` of its points. -/
structure Narrowed (s s' : UncertaintySet Rat ExtRat) (S : (Nat → Rat) → Prop) : Prop where
  wellFormed : s'.WellFormed
  lower : s'.lower = s.lower
  integer : s'.integer = s.integer
  solves : ∀ v, s'.Solves v ↔ s.Solves v ∧ S v

/-- Rows that say nothing may be left out. -/
theorem Narrowed.refl {S : (Nat → Rat) → Prop} (h : s.WellFormed) (hS : ∀ v, S v) : s.Narrowed s S :=
  ⟨h, rfl, rfl, fun v => (and_iff_left (hS v)).symm⟩

theorem Narrowed.congr {s' : UncertaintySet Rat ExtRat} {S T : (Nat → Rat) → Prop} (h : s.Narrowed s' S)
    (hS : ∀ v, S v ↔ T v) : s.Narrowed s' T :=
  ⟨h.wellFormed, h.lower, h.integer, fun v => (h.solves v).trans (and_congr_right fun _ => hS v)⟩

theorem Narrowed.trans {s' s'' : UncertaintySet Rat ExtRat} {S S' : (Nat → Rat) → Prop} (h : s.Narrowed s' S)
    (h' : s'.Narrowed s'' S') : s.Narrowed s'' fun v => S v ∧ S' v where
  wellFormed := h'.wellFormed
  lower := h'.lower.trans h.lower
  integer := h'.integer.trans h.integer
  solves v := by rw [h'.solves, h.solves, and_assoc]

/-- A set with one more equality. -/
def withEqual (s : UncertaintySet Rat ExtRat) (row : List Rat) (b : ExtRat) : UncertaintySet Rat ExtRat :=
  { s with equalRows := s.equalRows ++ [row], equalBounds := s.equalBounds ++ [b] }

/-- A set with one more inequality. -/
def withAtMost (s : UncertaintySet Rat ExtRat) (row : List Rat) (b : ExtRat) : UncertaintySet Rat ExtRat :=
  { s with atMostRows := s.atMostRows ++ [row], atMostBounds := s.atMostBounds ++ [b] }

theorem narrowed_withEqual (h : s.WellFormed) (hrow : row.length = s.numParameters) (b : ExtRat) :
    s.Narrowed (s.withEqual row b) fun v => b = finite (dot row v) where
  wellFormed := by
    refine ⟨h.upper, h.integer, h.atMost, ?_, fun r hr => ?_, h.limited⟩
    · rw [withEqual, List.length_append, List.length_append, h.equal]
      rfl
    · rw [withEqual, ← List.append_assoc] at hr
      rcases List.mem_append.mp hr with hr | hr
      · exact h.width r hr
      · exact List.mem_singleton.mp hr ▸ hrow
  lower := rfl
  integer := rfl
  solves v := by
    have hzip : (s.withEqual row b).equalRows.zip (s.withEqual row b).equalBounds
        = s.equalRows.zip s.equalBounds ++ [(row, b)] := List.zip_append h.equal
    constructor
    · rintro ⟨hbounds, hatMost, hequal⟩
      rw [hzip, List.forall_mem_append, List.forall_mem_singleton] at hequal
      exact ⟨⟨hbounds, hatMost, hequal.1⟩, hequal.2⟩
    · rintro ⟨⟨hbounds, hatMost, hequal⟩, hnew⟩
      refine ⟨hbounds, hatMost, ?_⟩
      rw [hzip, List.forall_mem_append, List.forall_mem_singleton]
      exact ⟨hequal, hnew⟩

theorem narrowed_withAtMost (h : s.WellFormed) (hrow : row.length = s.numParameters) {b : ExtRat} (hb : b ≠ posInf) :
    s.Narrowed (s.withAtMost row b) fun v => le (finite (dot row v)) b = true where
  wellFormed := by
    refine ⟨h.upper, h.integer, ?_, h.equal, fun r hr => ?_, fun c hc => ?_⟩
    · rw [withAtMost, List.length_append, List.length_append, h.atMost]
      rfl
    · rcases List.mem_append.mp hr with hr | hr
      · rcases List.mem_append.mp hr with hr | hr
        · exact h.width r (List.mem_append_left _ hr)
        · exact List.mem_singleton.mp hr ▸ hrow
      · exact h.width r (List.mem_append_right _ hr)
    · rcases List.mem_append.mp hc with hc | hc
      · exact h.limited c hc
      · exact List.mem_singleton.mp hc ▸ hb
  lower := rfl
  integer := rfl
  solves v := by
    have hzip : (s.withAtMost row b).atMostRows.zip (s.withAtMost row b).atMostBounds
        = s.atMostRows.zip s.atMostBounds ++ [(row, b)] := List.zip_append h.atMost
    constructor
    · rintro ⟨hbounds, hatMost, hequal⟩
      rw [hzip, List.forall_mem_append, List.forall_mem_singleton] at hatMost
      exact ⟨⟨hbounds, hatMost.1, hequal⟩, hatMost.2⟩
    · rintro ⟨⟨hbounds, hatMost, hequal⟩, hnew⟩
      refine ⟨hbounds, ?_, hequal⟩
      rw [hzip, List.forall_mem_append, List.forall_mem_singleton]
      exact ⟨hatMost, hnew⟩

/-- The row for an upper bound. -/
theorem narrowed_upper (h : s.WellFormed) (hrow : row.length = s.numParameters) (upper : ExtRat) :
    s.Narrowed (if Bound.isUpper upper then s.withAtMost row upper else s)
      fun v => le (finite (dot row v)) upper = true := by
  split
  next hupper => exact narrowed_withAtMost h hrow (isUpper_iff.mp hupper)
  next hupper =>
    obtain rfl : upper = posInf := not_not.mp (mt isUpper_iff.mpr hupper)
    exact .refl h fun v => le_posInf _

/-- The row for a lower bound. -/
theorem narrowed_lower (h : s.WellFormed) (hrow : row.length = s.numParameters) (lower : ExtRat) :
    s.Narrowed (if Bound.isLower lower then s.withAtMost (row.map (-·)) lower.neg else s)
      fun v => le lower (finite (dot row v)) = true := by
  split
  next hlower =>
    have hneg : lower.neg ≠ posInf := by
      intro heq
      refine isLower_iff.mp hlower ?_
      rw [← ExtRat.neg_neg lower, heq]
      rfl
    refine (narrowed_withAtMost h ((List.length_map _).trans hrow) hneg).congr fun v => ?_
    rw [dot_neg, finite_le_neg, Rat.neg_neg]
  next hlower =>
    obtain rfl : lower = negInf := not_not.mp (mt isLower_iff.mpr hlower)
    exact .refl h fun v => negInf_le _

/-- **The rows of a constraint** say that the value of its form lies between its bounds. -/
theorem narrowed_addConstraint (h : s.WellFormed) (hrow : row.length = s.numParameters) (lower upper : ExtRat) :
    s.Narrowed (s.addConstraint row lower upper) fun v => Between lower upper (dot row v) := by
  unfold addConstraint
  split
  next heq =>
    obtain rfl : lower = upper := beq_iff_eq.mp heq
    exact (narrowed_withEqual h hrow lower).congr fun v => between_self.symm
  next =>
    have hupper := narrowed_upper h hrow upper
    have hlower := narrowed_lower hupper.wellFormed (hrow.trans (congrArg List.length hupper.lower.symm)) lower
    exact (hupper.trans hlower).congr fun v => and_comm

/-! ## The set of a model -/

/-- The set without rows, from which that of a model is built. -/
def ofBounds (m : Model Rat ExtRat) : UncertaintySet Rat ExtRat :=
  { lower := m.parameters.map (·.lower.value)
    upper := m.parameters.map (·.upper.value)
    integer := m.parameters.map (·.domain.isInteger)
    names := (List.range m.parameters.length).map m.parameterName }

theorem wellFormed_ofBounds (m : Model Rat ExtRat) : (ofBounds m).WellFormed where
  upper := by simp [ofBounds, numParameters]
  integer := by simp [ofBounds, numParameters]
  atMost := rfl
  equal := rfl
  width r hr := absurd hr List.not_mem_nil
  limited b hb := absurd hb List.not_mem_nil

theorem numParameters_ofBounds (m : Model Rat ExtRat) : (ofBounds m).numParameters = m.parameters.length := by
  rw [numParameters, ofBounds, List.length_map]

theorem numParameters_of_narrowed {m : Model Rat ExtRat} {S : (Nat → Rat) → Prop} (h : (ofBounds m).Narrowed s S) :
    s.numParameters = m.parameters.length :=
  (congrArg List.length h.lower).trans (numParameters_ofBounds m)

theorem solves_ofBounds {m : Model Rat ExtRat} {u : List Rat} (hu : m.Realizes u) : (ofBounds m).Solves (entries u) where
  bounds k hk := by
    rw [numParameters_ofBounds] at hk
    have hget := List.getElem?_eq_getElem hk
    rw [ofBounds, List.getElem?_map, List.getElem?_map, hget]
    exact hu.bounds k _ hget
  atMost p hp := absurd hp List.not_mem_nil
  equal p hp := absurd hp List.not_mem_nil

/-- The rows of some constraints. -/
theorem narrowed_addConstraints [Written Rat] {naming : Naming} {n : Nat} : ∀ {cs : List (Constraint Rat ExtRat)}
    {s s' : UncertaintySet Rat ExtRat}, s.WellFormed → s.numParameters = n →
      (∀ c ∈ cs, ∀ k ∈ c.body.positions, k < n) → cs.foldlM (fun s c => do
        let f ← Quantity.uncertainForm naming (.expr c.body)
        return addConstraint s (denseForm n f) (Scalar.shift c.lower f.constant) (Scalar.shift c.upper f.constant)) s
        = .ok s' → s.Narrowed s' fun v => ∀ c ∈ cs, ∀ x, Between c.lower c.upper (c.body.value x v)
  | [], s, s', h, _, _, hfold => by
    cases hfold
    exact .refl h fun v c hc => absurd hc List.not_mem_nil
  | c :: cs, s, s', h, hn, hcs, hfold => by
    rw [List.foldlM_cons] at hfold
    obtain ⟨s₁, hfirst, hrest⟩ := bind_eq_ok.mp hfold
    obtain ⟨f, hf, hs₁⟩ := bind_eq_ok.mp hfirst
    obtain ⟨htabular, hpositions, hvalue⟩ := Expr.uncertainForm_spec hf
    have hlt : ∀ t ∈ f.linear, t.1 < n := fun t ht => hcs c List.mem_cons_self _ (hpositions t ht)
    have hlength : (denseForm n f).length = s.numParameters := by
      rw [denseForm, LinearProgram.denseRow, List.length_map, List.length_range, hn]
    have hnew := (narrowed_addConstraint h hlength (Scalar.shift c.lower f.constant) (Scalar.shift c.upper f.constant)).congr
      (T := fun v => ∀ x, Between c.lower c.upper (c.body.value x v)) fun v => by
        rw [exact_shift, exact_shift, between_shift, dot_denseForm htabular hlt]
        exact ⟨fun hb x => hvalue x v ▸ hb, fun hb => (hvalue v v).symm ▸ hb v⟩
    cases hs₁
    have hn₁ := (congrArg List.length hnew.lower).trans hn
    have hall := narrowed_addConstraints hnew.wellFormed hn₁ (fun c hc => hcs c (List.mem_cons_of_mem _ hc)) hrest
    refine (hnew.trans hall).congr fun v => ?_
    rw [List.forall_mem_cons]

/-- **The set of a model** is well-formed, it has the parameters of the model, and its points are those of the bounds at which
the forms of all constraints lie between their bounds. -/
theorem narrowed_ofModel [Written Rat] [Written ExtRat] {naming : Naming} {m : Model Rat ExtRat}
    (hm : ∀ c ∈ m.setConstraints, ∀ k ∈ c.body.positions, k < m.parameters.length)
    (h : UncertaintySet.ofModel naming m = .ok s) : (ofBounds m).Narrowed s
      fun v => ∀ c ∈ m.setConstraints, ∀ x, Between c.lower c.upper (c.body.value x v) := by
  obtain ⟨s₁, hfold, hrest⟩ := bind_eq_ok.mp h
  obtain ⟨⟨⟩, -, hpure⟩ := bind_eq_ok.mp hrest
  cases hpure
  exact narrowed_addConstraints (wellFormed_ofBounds m) (numParameters_ofBounds m) hm hfold

/-- **Every realization is a point of the set.** -/
theorem admits_of_realizes [Written Rat] [Written ExtRat] {naming : Naming} {m : Model Rat ExtRat}
    (hm : ∀ c ∈ m.setConstraints, ∀ k ∈ c.body.positions, k < m.parameters.length)
    (h : UncertaintySet.ofModel naming m = .ok s) {u : List Rat} (hu : m.Realizes u) : s.Admits u := by
  have hs := narrowed_ofModel hm h
  have hsize := numParameters_of_narrowed hs
  refine ⟨hu.size.trans hsize.symm, (hs.solves _).mpr ⟨solves_ofBounds hu, fun c hc x => ?_⟩, fun k hk => ?_⟩
  · obtain ⟨q, hq, hwithin⟩ := hu.constraints c hc
    obtain ⟨⟨hcolumns, -⟩, rfl⟩ := Expr.evaluate_eq_ok_iff.mp hq
    rw [within_zero, number_ofList] at hwithin
    -- the body mentions no variable, as none has a value
    have hnone : ∀ j ∈ c.body.columns, Lookup.nothing.number j = x j := by
      intro j hj
      obtain ⟨a, ha⟩ := hcolumns j hj
      cases ha
    rwa [Expr.value_congr hnone] at hwithin
  · rw [hs.integer, ofBounds, List.getElem?_map, Option.map_eq_some_iff] at hk
    obtain ⟨d, hd, hinteger⟩ := hk
    exact hu.integral k d hd hinteger

/-- **Every point of the set is a realization,** as its constraints mention no variable. -/
theorem realizes_of_admits [Written Rat] [Written ExtRat] {naming : Naming} {m : Model Rat ExtRat}
    (hm : ∀ c ∈ m.setConstraints, ∀ k ∈ c.body.positions, k < m.parameters.length)
    (hcolumns : ∀ c ∈ m.setConstraints, c.body.columns = []) (h : UncertaintySet.ofModel naming m = .ok s) {u : List Rat}
    (hu : s.Admits u) : m.Realizes u := by
  have hs := narrowed_ofModel hm h
  have hsize := numParameters_of_narrowed hs
  obtain ⟨hbounds, hconstraints⟩ := (hs.solves _).mp hu.solves
  have hlength : u.length = m.parameters.length := hu.size.trans hsize
  refine ⟨hlength, fun k d hd => ?_, fun k d hd hinteger => ?_, fun c hc => ?_⟩
  · have hk := hbounds.bounds k ((numParameters_ofBounds m).symm ▸ (List.getElem?_eq_some_iff.mp hd).1)
    rw [ofBounds, List.getElem?_map, List.getElem?_map, hd] at hk
    exact hk
  · refine hu.integral k ?_
    rw [hs.integer, ofBounds, List.getElem?_map, hd]
    exact congrArg some hinteger
  · refine ⟨_, Expr.evaluate_eq_ok_iff.mpr ⟨⟨fun j hj => ?_, fun k hk => ?_⟩, rfl⟩, ?_⟩
    · rw [hcolumns c hc] at hj
      exact absurd hj List.not_mem_nil
    · exact ⟨_, Lookup.ofList_of_lt ((hm c hc k hk).trans_eq hlength.symm)⟩
    · rw [within_zero, number_ofList]
      exact hconstraints c hc _

end UncertaintySet

end RobustLP
