import RobustLP.Proofs.Growth
import RobustLP.Proofs.Solve.Trail

/-!
# Cuts and their names

The cuts of a solve are kept in a table by the source of their row, and a cut is named after its source and the number of
cuts that the source already has. A table holds exactly what was recorded (`CutTable.Tallies`), however the rows with a source
take turns. Two cuts of one source have different numbers; two cuts of different sources have names with different texts, as the
sources of a working model can be told apart by their texts (`RowSource.Regular`). So no name occurs twice
(`nodup_cutNames`).
-/

namespace RobustLP

variable {K B : Type}

/-- A row with a realization at which it was found violated. -/
abbrev Finding (K B : Type) := MixedRow K B × Realization K B

/-! ## Tables of cuts -/

namespace CutTable

variable {t : CutTable K B} {source source' : RowSource} {r : Realization K B}

/-- The sources that have cuts. -/
def sources (t : CutTable K B) : List RowSource := t.map (·.1)

theorem mem_sources_cons {e : RowSource × List (Realization K B)} :
    source ∈ sources (e :: t) ↔ source = e.1 ∨ source ∈ sources t := List.mem_cons

theorem any_source_iff : t.any (·.1 == source) = true ↔ source ∈ sources t := by
  simp only [sources, List.any_eq_true, List.mem_map, beq_iff_eq]

/-- The entry of a source with one more cut. -/
def extend (source : RowSource) (r : Realization K B) (e : RowSource × List (Realization K B)) :
    RowSource × List (Realization K B) := if e.1 == source then (e.1, e.2 ++ [r]) else e

theorem record_of_mem (h : source ∈ sources t) : record source r t = t.map (extend source r) :=
  if_pos (any_source_iff.mpr h)

theorem record_of_not_mem (h : source ∉ sources t) : record source r t = t ++ [(source, [r])] :=
  if_neg (mt any_source_iff.mp h)

theorem fst_extend (e : RowSource × List (Realization K B)) : (extend source r e).1 = e.1 := by
  unfold extend
  split <;> rfl

/-! ### Sources -/

theorem sources_record : sources (record source r t) = if source ∈ sources t then sources t else sources t ++ [source] := by
  by_cases h : source ∈ sources t
  · rw [if_pos h, record_of_mem h, sources, List.map_map]
    exact List.map_congr_left fun e _ => fst_extend e
  · rw [if_neg h, record_of_not_mem h, sources, List.map_append]
    rfl

theorem nodup_record (h : (sources t).Nodup) : (sources (record source r t)).Nodup := by
  rw [sources_record]
  split
  next => exact h
  next hmem =>
    refine List.nodup_append.mpr ⟨h, List.nodup_singleton source, fun a ha b hb hab => hmem ?_⟩
    rw [← List.mem_singleton.mp hb, ← hab]
    exact ha

/-! ### The cuts of a source -/

theorem of_cons (e : RowSource × List (Realization K B)) (t : CutTable K B) :
    CutTable.of source (e :: t) = if e.1 = source then e.2 else CutTable.of source t := by
  unfold CutTable.of
  rw [List.find?_cons]
  by_cases h : e.1 = source
  · simp [h]
  · simp [h, beq_eq_false_iff_ne.mpr h]

theorem of_append (t u : CutTable K B) :
    CutTable.of source (t ++ u) = if source ∈ sources t then CutTable.of source t else CutTable.of source u := by
  induction t with
  | nil => rfl
  | cons e t ih =>
    rw [List.cons_append, of_cons, of_cons, ih]
    by_cases h : e.1 = source
    · simp [h, mem_sources_cons]
    · simp [h, mem_sources_cons, Ne.symm h]

theorem of_map_extend : CutTable.of source' (t.map (extend source r))
    = if source' = source ∧ source ∈ sources t then CutTable.of source t ++ [r] else CutTable.of source' t := by
  induction t with
  | nil => simp [sources]
  | cons e t ih =>
    rw [List.map_cons, of_cons, of_cons, of_cons, ih, fst_extend]
    by_cases he : e.1 = source'
    · by_cases hs : source' = source
      · simp [he, hs, extend, mem_sources_cons]
      · simp [he, hs, extend]
    · by_cases hs : source' = source
      · subst hs
        simp [he, mem_sources_cons, Ne.symm he]
      · simp [he, hs]

/-- **Recording a cut** appends it to the cuts of its source. -/
theorem of_record : CutTable.of source' (record source r t)
    = if source' = source then CutTable.of source t ++ [r] else CutTable.of source' t := by
  by_cases h : source ∈ sources t
  · rw [record_of_mem h, of_map_extend]
    simp [h]
  · have hnone : CutTable.of source t = [] := by
      have happend : CutTable.of source (t ++ []) = _ := of_append t []
      rwa [List.append_nil, if_neg h] at happend
    rw [record_of_not_mem h, of_append, of_cons]
    by_cases hs : source' = source
    · subst hs
      simp [h, hnone]
    · by_cases hmem : source' ∈ sources t
      · simp [hs, hmem]
      · have hnone' : CutTable.of source' t = [] := by
          have happend : CutTable.of source' (t ++ []) = _ := of_append t []
          rwa [List.append_nil, if_neg hmem] at happend
        simp [hs, hmem, hnone', Ne.symm hs]
        rfl

/-! ### The number of cuts -/

theorem size_cons (e : RowSource × List (Realization K B)) (t : CutTable K B) :
    CutTable.size (e :: t) = e.2.length + CutTable.size t := rfl

theorem size_append (t u : CutTable K B) : CutTable.size (t ++ u) = CutTable.size t + CutTable.size u := by
  induction t with
  | nil => exact (Nat.zero_add _).symm
  | cons e t ih => rw [List.cons_append, size_cons, size_cons, ih, Nat.add_assoc]

theorem map_extend_of_not_mem (h : source ∉ sources t) : t.map (extend source r) = t := by
  have hsame : ∀ e ∈ t, extend source r e = id e := by
    intro e he
    have hne : e.1 ≠ source := fun heq => h (heq ▸ List.mem_map_of_mem he)
    rw [extend, if_neg (by simpa using hne), id]
  rw [List.map_congr_left hsame, List.map_id]

theorem size_map_extend (hnodup : (sources t).Nodup) (h : source ∈ sources t) :
    CutTable.size (t.map (extend source r)) = CutTable.size t + 1 := by
  induction t with
  | nil => cases h
  | cons e t ih =>
    rw [sources, List.map_cons, List.nodup_cons] at hnodup
    rw [List.map_cons, size_cons, size_cons]
    by_cases he : e.1 = source
    · -- no other entry has this source
      rw [map_extend_of_not_mem (he ▸ hnodup.1)]
      simp only [extend, he, beq_self_eq_true, if_true, List.length_append, List.length_singleton]
      omega
    · have hrest : source ∈ sources t := (List.mem_cons.mp h).resolve_left (Ne.symm he)
      rw [ih hnodup.2 hrest]
      simp only [extend, beq_eq_false_iff_ne.mpr he, Bool.false_eq_true, if_false]
      omega

/-- **Recording a cut** makes one more. -/
theorem size_record (hnodup : (sources t).Nodup) : CutTable.size (record source r t) = CutTable.size t + 1 := by
  by_cases h : source ∈ sources t
  · rw [record_of_mem h, size_map_extend hnodup h]
  · rw [record_of_not_mem h, size_append]
    rfl

/-- **A table that holds the cuts of some findings,** in their order. -/
structure Tallies (t : CutTable K B) (cuts : List (Finding K B)) : Prop where
  nodup : (sources t).Nodup
  of : ∀ source, CutTable.of source t = (cuts.filter (·.1.source == source)).map (·.2)
  size : CutTable.size t = cuts.length

theorem tallies_nil : Tallies ([] : CutTable K B) [] := ⟨List.nodup_nil, fun _ => rfl, rfl⟩

theorem Tallies.record {cuts : List (Finding K B)} (h : Tallies t cuts) (row : MixedRow K B) (r : Realization K B) :
    Tallies (CutTable.record row.source r t) (cuts ++ [(row, r)]) where
  nodup := nodup_record h.nodup
  of source := by
    rw [of_record, List.filter_append, List.map_append, h.of, h.of]
    by_cases hs : row.source = source
    · simp [hs]
    · simp [Ne.symm hs, beq_eq_false_iff_ne.mpr hs]
  size := by rw [size_record h.nodup, h.size, List.length_append, List.length_singleton]

end CutTable

/-! ## Names of cuts -/

/-- The name of the cut of a source that has some cuts already. -/
def cutNameAt (source : RowSource) (n : Nat) : String := "_cut[" ++ source.text ++ "][" ++ toString n ++ "]"

/-- The names of cuts in their order, behind some earlier ones. -/
def cutNames : List (Finding K B) → List (Finding K B) → List String
  | _, [] => []
  | earlier, c :: cuts =>
    cutNameAt c.1.source (earlier.countP (·.1.source == c.1.source)) :: cutNames (earlier ++ [c]) cuts

theorem cutNames_append (earlier cuts cuts' : List (Finding K B)) :
    cutNames earlier (cuts ++ cuts') = cutNames earlier cuts ++ cutNames (earlier ++ cuts) cuts' := by
  induction cuts generalizing earlier with
  | nil => rw [List.nil_append, List.append_nil]; rfl
  | cons c cuts ih =>
    rw [List.cons_append, cutNames, cutNames, ih, List.append_assoc]
    rfl

/-! ### Numbers -/

theorem isDigit_of_mem_toString {n : Nat} {c : Char} (h : c ∈ (toString n).toList) : c.isDigit = true := by
  rw [Nat.toString_eq_repr, Nat.toList_repr] at h
  exact Nat.isDigit_of_mem_toDigits (by decide) (by decide) h

theorem toString_nat_inj {m n : Nat} (h : toString m = toString n) : m = n := by
  have hlist := congrArg String.toList h
  rw [Nat.toString_eq_repr, Nat.toString_eq_repr, Nat.toList_repr, Nat.toList_repr] at hlist
  rw [← Nat.ofDigitChars_ten_toDigits (n := m), hlist, Nat.ofDigitChars_ten_toDigits]

/-- What stands behind the last occurrence of a letter can be read off a text, and so can what stands before it. -/
theorem eq_of_append_cons_eq {α : Type} {a : α} {x y u v : List α} (hu : a ∉ u) (hv : a ∉ v)
    (h : x ++ a :: u = y ++ a :: v) : x = y ∧ u = v := by
  rw [List.append_eq_append_iff] at h
  rcases h with ⟨z, rfl, hz⟩ | ⟨z, rfl, hz⟩
  · cases z with
    | nil => exact ⟨(List.append_nil x).symm, (List.cons.inj hz).2⟩
    | cons b z =>
      refine absurd ?_ hu
      rw [(List.cons.inj hz).2]
      exact List.mem_append_right z List.mem_cons_self
  · cases z with
    | nil => exact ⟨List.append_nil y, (List.cons.inj hz).2.symm⟩
    | cons b z =>
      refine absurd ?_ hv
      rw [(List.cons.inj hz).2]
      exact List.mem_append_right z List.mem_cons_self

/-- **A name tells the text of the source and the number.** -/
theorem cutNameAt_inj {source source' : RowSource} {m n : Nat} (h : cutNameAt source m = cutNameAt source' n) :
    source.text = source'.text ∧ m = n := by
  have hdigits : ∀ n : Nat, '[' ∉ (toString n).toList ++ [']'] := by
    intro n hmem
    rcases List.mem_append.mp hmem with hmem | hmem
    · exact absurd (isDigit_of_mem_toString hmem) (by decide)
    · exact absurd (List.mem_singleton.mp hmem) (by decide)
  have hlist : ∀ (source : RowSource) (n : Nat), (cutNameAt source n).toList
      = ("_cut[".toList ++ source.text.toList ++ [']']) ++ '[' :: ((toString n).toList ++ [']']) := by
    intro source n
    simp [cutNameAt, String.toList_append]
  have heq := congrArg String.toList h
  rw [hlist, hlist] at heq
  obtain ⟨hsource, hnumber⟩ := eq_of_append_cons_eq (hdigits m) (hdigits n) heq
  rw [List.append_left_inj, List.append_right_inj] at hsource
  rw [List.append_left_inj] at hnumber
  exact ⟨String.toList_inj.mp hsource, toString_nat_inj (String.toList_inj.mp hnumber)⟩

/-! ### Sources -/

/-- The sources of the rows of a working model. -/
inductive RowSource.Regular : RowSource → Prop where
  | index (i : Nat) : Regular (.index i)
  | objective : Regular (.label "objective")
  | bounds (name : String) : Regular (.label ("bounds:" ++ name))
  | lifted (name : String) : Regular (.label ("lifted:" ++ name))

theorem RowSource.Regular.eq_index_or_label {source : RowSource} (h : source.Regular) :
    (∃ i : Nat, source = .index i) ∨ ∃ c l, source = .label (String.ofList (c :: l)) ∧ c.isDigit = false := by
  cases h with
  | index i => exact .inl ⟨i, rfl⟩
  | objective => exact .inr ⟨'o', "bjective".toList, rfl, rfl⟩
  | bounds name => exact .inr ⟨'b', "ounds:".toList ++ name.toList,
      congrArg RowSource.label (String.toList_inj.mp (by simp [String.toList_append])), rfl⟩
  | lifted name => exact .inr ⟨'l', "ifted:".toList ++ name.toList,
      congrArg RowSource.label (String.toList_inj.mp (by simp [String.toList_append])), rfl⟩

/-- **Such sources are told apart by their texts:** the text of a label does not begin with a digit. -/
theorem RowSource.Regular.eq_of_text {source source' : RowSource} (h : source.Regular) (h' : source'.Regular)
    (htext : source.text = source'.text) : source = source' := by
  have hne : ∀ (i : Nat) (c : Char) (l : List Char), c.isDigit = false → toString i ≠ String.ofList (c :: l) := by
    intro i c l hc heq
    have hmem : c ∈ (toString i).toList := by simp [heq]
    rw [isDigit_of_mem_toString hmem] at hc
    cases hc
  rcases h.eq_index_or_label with ⟨i, rfl⟩ | ⟨c, l, rfl, hc⟩
  · rcases h'.eq_index_or_label with ⟨j, rfl⟩ | ⟨c, l, rfl, hc⟩
    · rw [toString_nat_inj (show toString i = toString j from htext)]
    · exact absurd htext (hne i c l hc)
  · rcases h'.eq_index_or_label with ⟨j, rfl⟩ | ⟨c', l', rfl, -⟩
    · exact absurd htext.symm (hne j c l hc)
    · rw [show String.ofList (c :: l) = String.ofList (c' :: l') from htext]

/-! ### No name occurs twice -/

theorem mem_cutNames {name : String} {earlier cuts : List (Finding K B)} (h : name ∈ cutNames earlier cuts) :
    ∃ c ∈ cuts, ∃ n < (earlier ++ cuts).countP (·.1.source == c.1.source), name = cutNameAt c.1.source n := by
  induction cuts generalizing earlier with
  | nil => cases h
  | cons c cuts ih =>
    rcases List.mem_cons.mp h with rfl | h
    · refine ⟨c, List.mem_cons_self, _, ?_, rfl⟩
      rw [List.countP_append, List.countP_cons, if_pos (beq_self_eq_true _)]
      omega
    · obtain ⟨d, hd, n, hn, rfl⟩ := ih h
      rw [List.append_assoc] at hn
      exact ⟨d, List.mem_cons_of_mem _ hd, n, hn, rfl⟩

/-- **The names of cuts are pairwise distinct.** -/
theorem nodup_cutNames {cuts : List (Finding K B)} (h : ∀ c ∈ cuts, c.1.source.Regular) : (cutNames [] cuts).Nodup := by
  induction cuts using List.reverseRecOn with
  | nil => exact List.nodup_nil
  | append_singleton cuts c ih =>
    have hcuts : ∀ d ∈ cuts, d.1.source.Regular := fun d hd => h d (List.mem_append_left _ hd)
    have hc : c.1.source.Regular := h c (List.mem_append_right _ (List.mem_singleton_self c))
    rw [cutNames_append]
    refine List.nodup_append.mpr ⟨ih hcuts, List.nodup_singleton _, fun a ha b hb hab => ?_⟩
    -- an earlier cut of the same source has a smaller number
    obtain ⟨d, hd, n, hn, rfl⟩ := mem_cutNames ha
    obtain rfl := List.mem_singleton.mp hb
    obtain ⟨htext, hnumber⟩ := cutNameAt_inj hab
    have hsource := (hcuts d hd).eq_of_text hc htext
    rw [List.nil_append] at hn hnumber
    rw [hsource] at hn
    omega

end RobustLP
