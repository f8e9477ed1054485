import RobustLP.Proofs.Set.Points

/-!
# A set is the product of its parts

The components of a set are the classes of parameters that are connected through its rows. A union of components cuts no row:
a row with a nonzero coefficient there lies inside it, so that the part of the set for the union keeps exactly the rows
inside, in their order (`restricts_of_union`). A row with a nonzero coefficient lies inside one component, so numbers satisfy
the bounds and rows of the set if and only if they satisfy those of the part for each component, and the rows without
nonzero coefficients hold (`solves_iff_parts`).
-/

namespace RobustLP.UncertaintySet

open ExtRat

/-! ## Rows inside a union of components -/

section

variable {K B : Type} [Bound B] [Scalar K B] {s : UncertaintySet K B} {cols : List Nat} {row : List K}

/-- A row has a nonzero coefficient, and all its nonzero coefficients belong to some columns. -/
def Inside (cols : List Nat) (row : List K) : Prop := support row ≠ [] ∧ ∀ k ∈ support row, k ∈ cols

instance (cols : List Nat) (row : List K) : Decidable (Inside cols row) :=
  inferInstanceAs (Decidable (support row ≠ [] ∧ ∀ k ∈ support row, k ∈ cols))

omit [Bound B] in
theorem liesWithin_eq_decide (cols : List Nat) (row : List K) : liesWithin cols row = decide (Inside cols row) := by
  rw [Bool.eq_iff_iff, decide_eq_true_iff]
  simp only [liesWithin, Inside, Bool.and_eq_true, List.any_eq_true, List.all_eq_true, List.contains_iff_mem]
  refine and_congr_left fun hall => ?_
  constructor
  · rintro ⟨k, hk, -⟩
    exact List.ne_nil_of_mem hk
  · intro hne
    obtain ⟨k, hk⟩ := List.exists_mem_of_ne_nil _ hne
    exact ⟨k, hk, hall k hk⟩

/-- The parameters of some components. -/
def IsUnion (s : UncertaintySet K B) (cols : List Nat) : Prop :=
  ∃ parts ⊆ s.components, ∀ k, k ∈ cols ↔ ∃ c ∈ parts, k ∈ c

/-- The rows inside some columns, with their right-hand sides. -/
def rowsInside (cols : List Nat) (rows : List (List K)) (bounds : List B) : List (List K × B) :=
  (rows.zip bounds).filter fun q => decide (Inside cols q.1)

/-- **What the part of a set for some columns keeps:** exactly the rows inside the columns, each once and in order, with their
right-hand sides, and the bounds of the columns. No row is cut. -/
structure Restricts (s : UncertaintySet K B) (cols : List Nat) : Prop where
  whole : ∀ row ∈ s.atMostRows ++ s.equalRows, (∃ k ∈ support row, k ∈ cols) → Inside cols row
  atMostRows : (s.restrict cols).atMostRows
    = (rowsInside cols s.atMostRows s.atMostBounds).map fun q => pickColumns cols q.1
  atMostBounds : (s.restrict cols).atMostBounds = (rowsInside cols s.atMostRows s.atMostBounds).map fun q => q.2
  equalRows : (s.restrict cols).equalRows
    = (rowsInside cols s.equalRows s.equalBounds).map fun q => pickColumns cols q.1
  equalBounds : (s.restrict cols).equalBounds = (rowsInside cols s.equalRows s.equalBounds).map fun q => q.2
  lower : (s.restrict cols).lower = cols.map fun k => s.lower[k]?.getD Bound.negInf
  upper : (s.restrict cols).upper = cols.map fun k => s.upper[k]?.getD Bound.posInf

omit [Bound B] in
theorem restrictRows_eq (cols : List Nat) (rows : List (List K)) (bounds : List B) : restrictRows cols rows bounds
    = ((rowsInside cols rows bounds).map fun q => pickColumns cols q.1, (rowsInside cols rows bounds).map fun q => q.2) := by
  simp only [restrictRows, rowsInside, liesWithin_eq_decide]

variable (hwidth : ∀ row ∈ s.atMostRows ++ s.equalRows, row.length = s.numParameters)

include hwidth

omit [Bound B] in
/-- **No row is cut by a component.** -/
theorem inside_component {c : List Nat} (hc : c ∈ s.components) (hrow : row ∈ s.atMostRows ++ s.equalRows) {k : Nat}
    (hk : k ∈ support row) (hkc : k ∈ c) : Inside c row := by
  refine ⟨List.ne_nil_of_mem hk, fun j hj => ?_⟩
  have hlt : j < s.numParameters := by
    rw [← hwidth row hrow]
    exact lt_length_of_mem_support hj
  exact (mem_component hwidth hc hkc).mpr ⟨hlt, .single ⟨row, hrow, hk, hj⟩⟩

omit [Bound B] in
/-- A row with a nonzero coefficient lies inside a component. -/
theorem exists_inside (hrow : row ∈ s.atMostRows ++ s.equalRows) (hne : support row ≠ []) :
    ∃ c ∈ s.components, Inside c row := by
  obtain ⟨k, hk⟩ := List.exists_mem_of_ne_nil _ hne
  have hlt : k < s.numParameters := by
    rw [← hwidth row hrow]
    exact lt_length_of_mem_support hk
  obtain ⟨c, hc, hkc⟩ := exists_component hlt
  exact ⟨c, hc, inside_component hwidth hc hrow hk hkc⟩

/-- **The part for a union of components** keeps exactly the rows inside it. -/
theorem restricts_of_union (hcols : s.IsUnion cols) : s.Restricts cols := by
  obtain ⟨parts, hparts, hmem⟩ := hcols
  constructor
  case whole =>
    rintro row hrow ⟨k, hk, hkcols⟩
    obtain ⟨c, hc, hkc⟩ := (hmem k).mp hkcols
    have hinside := inside_component hwidth (hparts hc) hrow hk hkc
    exact ⟨hinside.1, fun j hj => (hmem j).mpr ⟨c, hc, hinside.2 j hj⟩⟩
  all_goals simp only [restrict, restrictRows_eq]

end

/-! ## Numbers of the parameters -/

section

variable {s : UncertaintySet Rat ExtRat}

/-- The rows without nonzero coefficients hold: zero is at most, or equal to, their right-hand sides. -/
structure ZeroRowsHold (s : UncertaintySet Rat ExtRat) : Prop where
  atMost : ∀ q ∈ s.atMostRows.zip s.atMostBounds, (∀ a ∈ q.1, a = 0) → le (finite 0) q.2 = true
  equal : ∀ q ∈ s.equalRows.zip s.equalBounds, (∀ a ∈ q.1, a = 0) → q.2 = finite 0

theorem support_eq_nil_iff {row : List Rat} : support row = [] ↔ ∀ a ∈ row, a = 0 := by
  rw [List.eq_nil_iff_forall_not_mem]
  simp only [mem_support_iff, not_not]
  constructor
  · intro h a ha
    obtain ⟨k, hk, rfl⟩ := List.mem_iff_getElem.mp ha
    simpa [List.getElem?_eq_getElem hk] using h k
  · intro h k
    cases hk : row[k]? with
    | none => rfl
    | some a => exact h a (List.mem_of_getElem? hk)

theorem dot_of_support_eq_nil {row : List Rat} (h : support row = []) (v : Nat → Rat) : dot row v = 0 := by
  have hzero : dot row v = dot row fun _ => 0 := dot_congr fun k hk => by rw [h] at hk; cases hk
  rw [hzero]
  simp [dot]

/-- The value of a row inside some columns is that of the picked row at their numbers. -/
theorem dot_of_inside {cols : List Nat} (hcols : cols.Nodup) {row : List Rat} (h : Inside cols row) (v : Nat → Rat) :
    dot (pickColumns cols row) (atPosition cols v) = dot row v :=
  dot_pickColumns hcols h.2 v

/-- **Numbers solve a set if and only if they solve the part for each component,** and the rows without nonzero coefficients
hold. -/
theorem solves_iff_parts (hwidth : ∀ row ∈ s.atMostRows ++ s.equalRows, row.length = s.numParameters) {v : Nat → Rat} :
    s.Solves v ↔ (∀ c ∈ s.components, (s.restrict c).Solves (atPosition c v)) ∧ s.ZeroRowsHold := by
  have hclasses := classes_components hwidth
  have hnodup : ∀ c ∈ s.components, c.Nodup := fun c hc => (hclasses.sorted c hc).imp Nat.ne_of_lt
  constructor
  · intro h
    refine ⟨fun c hc => h.restrict (hnodup c hc) fun k hk => ((hclasses.whole c hc k hk k).mp hk).1, ?_, ?_⟩
    · intro q hq hzero
      have hrow := h.atMost q hq
      rwa [dot_of_support_eq_nil (support_eq_nil_iff.mpr hzero)] at hrow
    · intro q hq hzero
      have hrow := h.equal q hq
      rwa [dot_of_support_eq_nil (support_eq_nil_iff.mpr hzero)] at hrow
  · rintro ⟨hparts, hzero⟩
    constructor
    case bounds =>
      intro k hk
      -- the bounds of a parameter stand in its component, at the position it has there
      obtain ⟨c, hc, hkc⟩ := hclasses.cover k hk
      have hp := List.idxOf_lt_length_of_mem hkc
      have hb := (hparts c hc).bounds (c.idxOf k) (by rwa [length_restrict_lower])
      rwa [restrict_lower s hp, restrict_upper s hp, atPosition, List.getElem?_eq_getElem hp, Option.getD_some,
        List.getElem_idxOf hp] at hb
    -- a row with a nonzero coefficient is one of the part for its component
    case atMost =>
      intro q hq
      by_cases hne : support q.1 = []
      · rw [dot_of_support_eq_nil hne]
        exact hzero.atMost q hq (support_eq_nil_iff.mp hne)
      · obtain ⟨c, hc, hin⟩ := exists_inside hwidth (List.mem_append_left _ (List.of_mem_zip hq).1) hne
        rw [← dot_of_inside (hnodup c hc) hin]
        exact (hparts c hc).atMost _ (mem_restrict_atMost.mpr ⟨q, hq, by simpa [liesWithin_eq_decide] using hin, rfl⟩)
    case equal =>
      intro q hq
      by_cases hne : support q.1 = []
      · rw [dot_of_support_eq_nil hne]
        exact hzero.equal q hq (support_eq_nil_iff.mp hne)
      · obtain ⟨c, hc, hin⟩ := exists_inside hwidth (List.mem_append_right _ (List.of_mem_zip hq).1) hne
        rw [← dot_of_inside (hnodup c hc) hin]
        exact (hparts c hc).equal _ (mem_restrict_equal.mpr ⟨q, hq, by simpa [liesWithin_eq_decide] using hin, rfl⟩)

end

/-! ## The decomposition -/

/-- **Components decompose a set.** They are the classes of the parameters that are connected through rows, each sorted and in
the order of their least parameters. The parameters of the components of some parameters are the sorted union of those
components that have one of them. The part for a union of components keeps exactly the rows inside it. In exact
arithmetic, numbers solve the set if and only if they solve the part for each component and the rows without nonzero
coefficients hold. -/
theorem components_decompose :
    (∀ {K B : Type} [Bound B] [Scalar K B] (s : UncertaintySet K B),
      (∀ row ∈ s.atMostRows ++ s.equalRows, row.length = s.numParameters) →
        Classes s.numParameters s.Connected s.components
        ∧ (∀ wanted, (s.componentOf wanted).Pairwise (· < ·)
          ∧ ∀ k, k ∈ s.componentOf wanted ↔ ∃ c ∈ s.components, k ∈ c ∧ ∃ w ∈ wanted, w ∈ c)
        ∧ ∀ cols, s.IsUnion cols → s.Restricts cols)
    ∧ ∀ s : UncertaintySet Rat ExtRat, (∀ row ∈ s.atMostRows ++ s.equalRows, row.length = s.numParameters) →
      ∀ v, s.Solves v ↔ (∀ c ∈ s.components, (s.restrict c).Solves (atPosition c v)) ∧ s.ZeroRowsHold := by
  constructor
  · intro K B _ _ s hwidth
    refine ⟨classes_components hwidth, fun wanted => ?_, fun cols hcols => restricts_of_union hwidth hcols⟩
    exact ⟨s.pairwise_lt_componentOf wanted, fun k => mem_componentOf_iff⟩
  · exact fun s hwidth v => solves_iff_parts hwidth

/-- Five parameters: the first, fourth and fifth are chained by two rows, the second and third are linked by an equality. A
last row has no nonzero coefficient. -/
def chainedSet : UncertaintySet Rat ExtRat :=
  { lower := List.replicate 5 (finite 0), upper := List.replicate 5 (finite 1), integer := List.replicate 5 false
    names := ["a", "b", "c", "d", "e"]
    atMostRows := [[0, 0, 0, 1, 1], [1, 0, 0, 1, 0], [0, 0, 0, 0, 0]], atMostBounds := [finite 1, finite 1, finite 2]
    equalRows := [[0, 1, 1, 0, 0]], equalBounds := [finite 1] }

/-- The chained set has two components; the one of the last parameter has the first two rows. -/
theorem chainedSet_decomposes : chainedSet.components = [[0, 3, 4], [1, 2]]
    ∧ (∀ k, k ∈ chainedSet.componentOf [4] ↔ k = 0 ∨ k = 3 ∨ k = 4)
    ∧ (chainedSet.restrict [0, 3, 4]).atMostRows = [[0, 1, 1], [1, 1, 0]]
    ∧ chainedSet.Solves (entries [1, 0, 1, 0, 1]) := by
  have hwidth : ∀ row ∈ chainedSet.atMostRows ++ chainedSet.equalRows, row.length = chainedSet.numParameters := by decide
  have hcomponents : chainedSet.components = [[0, 3, 4], [1, 2]] := by cbv
  obtain ⟨-, hunion, hrestricts⟩ := components_decompose.1 chainedSet hwidth
  refine ⟨hcomponents, fun k => ?_, ?_, (components_decompose.2 chainedSet hwidth _).mpr ⟨?_, ?_⟩⟩
  · rw [(hunion [4]).2 k, hcomponents]
    simp
  · rw [(hrestricts [0, 3, 4] ⟨[[0, 3, 4]], by simp [hcomponents], by simp⟩).atMostRows]
    cbv
  · rw [hcomponents]
    simp only [List.forall_mem_cons, List.not_mem_nil, false_imp_iff, implies_true, and_true]
    constructor
    · exact ⟨by decide +kernel, by decide +kernel, by decide +kernel⟩
    · exact ⟨by decide +kernel, by decide +kernel, by decide +kernel⟩
  · exact ⟨by decide, by decide⟩

end RobustLP.UncertaintySet
