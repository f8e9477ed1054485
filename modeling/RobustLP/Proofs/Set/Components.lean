import RobustLP.Proofs.Forest
import RobustLP.UncertaintySet

/-!
# Components of an uncertainty set

Parameters are connected when they occur, directly or through others, in a common row. The labels of two parameters are the
same if and only if they are connected (`labelOf_eq_iff`), so the components are the classes of this relation, in the order
of their least parameters (`classes_components`). A union of components either has all parameters of a row or none of them
(`mem_componentOf_of_support`). What is dualized for a row is such a union, and it has the parameters of the row
(`mem_componentOf`).
-/

namespace RobustLP.UncertaintySet

variable {K B : Type} [Scalar K B] {row : List K} {i j k : Nat}

/-! ## Supports -/

theorem mem_support : k ∈ support row ↔ ∃ a, row[k]? = some a ∧ Scalar.isZero a = false := by
  simp only [support, List.mem_filterMap, Prod.exists, List.mem_zipIdx_iff_getElem?]
  constructor
  · rintro ⟨a, j, ha, h⟩
    by_cases hz : Scalar.isZero a = true
    · simp [hz] at h
    · rw [if_neg hz, Option.some.injEq] at h
      exact ⟨a, h ▸ ha, by simpa using hz⟩
  · rintro ⟨a, ha, hz⟩
    exact ⟨a, k, ha, by simp [hz]⟩

theorem lt_length_of_mem_support (h : k ∈ support row) : k < row.length := by
  obtain ⟨a, ha, -⟩ := mem_support.mp h
  exact (List.getElem?_eq_some_iff.mp ha).1

/-! ## Connected parameters -/

/-- Two parameters occur with nonzero coefficients in a common row. -/
def SameRow (s : UncertaintySet K B) (i j : Nat) : Prop :=
  ∃ row ∈ s.atMostRows ++ s.equalRows, i ∈ support row ∧ j ∈ support row

/-- Two parameters occur in a common row, directly or through others. -/
def Connected (s : UncertaintySet K B) : Nat → Nat → Prop := Relation.ReflTransGen s.SameRow

theorem labelOf_labels {s : UncertaintySet K B} (hk : k < s.numParameters) : labelOf s.labels k = s.forest.root k := by
  simp [labelOf, labels, Forest.findAll_eq_map, List.getElem?_range hk]

/-- Lists that are the classes of a relation on the numbers below `n`: they cover the numbers, each of them is sorted and
has all numbers related to any of its members, and they stand in the order of their least members. -/
structure Classes (n : Nat) (r : Nat → Nat → Prop) (parts : List (List Nat)) : Prop where
  cover : ∀ k < n, ∃ c ∈ parts, k ∈ c
  nonempty : ∀ c ∈ parts, c ≠ []
  whole : ∀ c ∈ parts, ∀ i ∈ c, ∀ j, j ∈ c ↔ j < n ∧ r i j
  sorted : ∀ c ∈ parts, c.Pairwise (· < ·)
  ordered : parts.Pairwise fun c d => ∃ i ∈ c, ∀ j ∈ d, i < j

/-! ## Components -/

theorem mem_components {s : UncertaintySet K B} {c : List Nat} : c ∈ s.components ↔
    ∃ l < s.numParameters, c = (List.range s.numParameters).filter (fun k => labelOf s.labels k == l) ∧ c ≠ [] := by
  simp only [components, List.mem_filter, List.mem_map, List.mem_range, Bool.not_eq_true', List.isEmpty_eq_false_iff]
  constructor
  · rintro ⟨⟨l, hl, rfl⟩, hne⟩
    exact ⟨l, hl, rfl, hne⟩
  · rintro ⟨l, hl, rfl, hne⟩
    exact ⟨⟨l, hl, rfl⟩, hne⟩

/-- No parameter is listed twice. -/
theorem nodup_componentOf (s : UncertaintySet K B) (wanted : List Nat) : (s.componentOf wanted).Nodup := by
  unfold componentOf components
  rw [(List.mergeSort_perm _ _).nodup_iff, List.nodup_flatten]
  constructor
  · intro c hc
    obtain ⟨l, -, rfl⟩ := List.mem_map.mp (List.mem_filter.mp (List.mem_filter.mp hc).1).1
    exact List.nodup_range.filter _
  · refine List.Pairwise.filter _ (List.Pairwise.filter _ ?_)
    refine List.Pairwise.map _ ?_ List.nodup_range
    intro l m hlm k hl hm
    simp only [List.mem_filter, List.mem_range, beq_iff_eq] at hl hm
    exact hlm (hl.2.symm.trans hm.2)

/-- A union of components is in order. -/
theorem pairwise_lt_componentOf (s : UncertaintySet K B) (wanted : List Nat) :
    (s.componentOf wanted).Pairwise (· < ·) := by
  have hle : (s.componentOf wanted).Pairwise fun a b => decide (a ≤ b) := by
    refine List.pairwise_mergeSort (fun a b c hab hbc => ?_) (fun a b => ?_) _
    · exact decide_eq_true ((of_decide_eq_true hab).trans (of_decide_eq_true hbc))
    · simpa using Nat.le_total a b
  exact (hle.and (s.nodup_componentOf wanted)).imp fun h => Nat.lt_of_le_of_ne (of_decide_eq_true h.1) h.2

section

variable {s : UncertaintySet K B} (hwidth : ∀ row ∈ s.atMostRows ++ s.equalRows, row.length = s.numParameters)

include hwidth

/-- **Parameters have the same label if and only if they are connected.** -/
theorem labelOf_eq_iff (hi : i < s.numParameters) (hj : j < s.numParameters) :
    labelOf s.labels i = labelOf s.labels j ↔ s.Connected i j := by
  have hsupport : ∀ g ∈ (s.atMostRows ++ s.equalRows).map support, ∀ k ∈ g, k < s.numParameters := by
    intro g hg k hk
    obtain ⟨row, hrow, rfl⟩ := List.mem_map.mp hg
    rw [← hwidth row hrow]
    exact lt_length_of_mem_support hk
  have htogether : Forest.Together ((s.atMostRows ++ s.equalRows).map support) = s.SameRow := by
    funext i j
    simp only [Forest.Together, SameRow, List.mem_map, exists_exists_and_eq_and]
  rw [labelOf_labels hi, labelOf_labels hj, Connected, ← htogether, ← Forest.root_foldl_join_iff hsupport, List.foldl_map]
  rfl

/-- A component is the class of any of its parameters. -/
theorem mem_component {c : List Nat} (hc : c ∈ s.components) (hi : i ∈ c) :
    j ∈ c ↔ j < s.numParameters ∧ s.Connected i j := by
  obtain ⟨l, hl, rfl, -⟩ := mem_components.mp hc
  simp only [List.mem_filter, List.mem_range, beq_iff_eq] at hi ⊢
  obtain ⟨hi, rfl⟩ := hi
  refine and_congr_right fun hj => ?_
  rw [← labelOf_eq_iff hwidth hi hj, eq_comm]

omit hwidth in
/-- Each parameter has a component. -/
theorem exists_component (hk : k < s.numParameters) : ∃ c ∈ s.components, k ∈ c := by
  have hmem : k ∈ (List.range s.numParameters).filter fun j => labelOf s.labels j == labelOf s.labels k := by simp [hk]
  refine ⟨_, mem_components.mpr ⟨labelOf s.labels k, ?_, rfl, List.ne_nil_of_mem hmem⟩, hmem⟩
  rw [labelOf_labels hk]
  exact (s.forest.root_le k).trans_lt hk

/-- **The components are the classes of connected parameters.** -/
theorem classes_components : Classes s.numParameters s.Connected s.components where
  cover k hk := exists_component hk
  nonempty c hc := by
    obtain ⟨l, -, -, hne⟩ := mem_components.mp hc
    exact hne
  whole c hc i hi j := mem_component hwidth hc hi
  sorted c hc := by
    obtain ⟨l, -, rfl, -⟩ := mem_components.mp hc
    exact List.pairwise_lt_range.filter _
  ordered := by
    unfold components
    rw [List.pairwise_filter, List.pairwise_map]
    refine List.pairwise_lt_range.imp fun {l m} hlm hl _ => ?_
    -- the label of a group is its root, so it is a member of the group and the least one
    rw [Bool.not_eq_true', List.isEmpty_eq_false_iff] at hl
    obtain ⟨k, hk⟩ := List.exists_mem_of_ne_nil _ hl
    simp only [List.mem_filter, List.mem_range, beq_iff_eq] at hk ⊢
    obtain ⟨hk, rfl⟩ := hk
    rw [labelOf_labels hk] at hlm ⊢
    have hroot : s.forest.root k < s.numParameters := (s.forest.root_le k).trans_lt hk
    refine ⟨_, ⟨hroot, by rw [labelOf_labels hroot, Forest.root_root]⟩, fun j hj => ?_⟩
    obtain ⟨hj, rfl⟩ := hj
    rw [labelOf_labels hj] at hlm
    exact hlm.trans_le (s.forest.root_le j)

omit hwidth in
/-- The parameters of the components of some parameters are those of the components that have one of them. -/
theorem mem_componentOf_iff {wanted : List Nat} :
    k ∈ s.componentOf wanted ↔ ∃ c ∈ s.components, k ∈ c ∧ ∃ w ∈ wanted, w ∈ c := by
  simp only [componentOf, List.mem_mergeSort, List.mem_flatten, List.mem_filter, List.any_eq_true, List.contains_iff_mem]
  constructor
  · rintro ⟨c, ⟨hc, w, hw, hwanted⟩, hk⟩
    exact ⟨c, hc, hk, w, hwanted, hw⟩
  · rintro ⟨c, hc, hk, w, hwanted, hw⟩
    exact ⟨c, ⟨hc, w, hw, hwanted⟩, hk⟩

/-- The parameters of the components of some parameters are those that are connected with one of them. -/
theorem mem_componentOf {wanted : List Nat} :
    k ∈ s.componentOf wanted ↔ k < s.numParameters ∧ ∃ w ∈ wanted, w < s.numParameters ∧ s.Connected w k := by
  rw [mem_componentOf_iff]
  constructor
  · rintro ⟨c, hc, hk, w, hwanted, hw⟩
    obtain ⟨hlt, hconn⟩ := (mem_component hwidth hc hw).mp hk
    exact ⟨hlt, w, hwanted, ((mem_component hwidth hc hw).mp hw).1, hconn⟩
  · rintro ⟨hlt, w, hwanted, hw, hconn⟩
    obtain ⟨c, hc, hwc⟩ := exists_component hw
    exact ⟨c, hc, (mem_component hwidth hc hwc).mpr ⟨hlt, hconn⟩, w, hwanted, hwc⟩

theorem mem_componentOf_self {wanted : List Nat} (hk : k ∈ wanted) (hlt : k < s.numParameters) :
    k ∈ s.componentOf wanted := (mem_componentOf hwidth).mpr ⟨hlt, k, hk, hlt, .refl⟩

/-- **A row that has one parameter of a union of components has all its parameters there.** -/
theorem mem_componentOf_of_support {wanted : List Nat} {row : List K} (hrow : row ∈ s.atMostRows ++ s.equalRows)
    {i j : Nat} (hi : i ∈ support row) (hj : j ∈ support row) (h : i ∈ s.componentOf wanted) :
    j ∈ s.componentOf wanted := by
  obtain ⟨-, w, hw, hlt, hconn⟩ := (mem_componentOf hwidth).mp h
  refine (mem_componentOf hwidth).mpr ⟨?_, w, hw, hlt, hconn.tail ⟨row, hrow, hi, hj⟩⟩
  rw [← hwidth row hrow]
  exact lt_length_of_mem_support hj

end

end RobustLP.UncertaintySet
