import RobustLP.Proofs.Expand.Goal

/-!
# Decision rules and their columns

An adaptive column stands for the rule `x + Σ yₖ uₖ`, in which `yₖ` is the column that was added for it and the parameter `k`
(`Expander.rule`). The table of these columns only grows while forms are substituted (`Grows`), and keeps one column for each
pair (`AuxTable`); so a column that was found once stays the one of its pair.
-/

namespace RobustLP

open ExtRat

namespace Expander

/-- The number of the column for a variable and a parameter, zero if there is none. -/
def auxValue (aux : List ((Nat × Nat) × Nat)) (x : Nat → Rat) (j k : Nat) : Rat :=
  match aux.find? (·.1 == (j, k)) with
  | some (_, col) => x col
  | none => 0

/-- What the rule of a variable adds to its column. -/
def correction (e : Expander) (aux : List ((Nat × Nat) × Nat)) (x u : Nat → Rat) (j : Nat) : Rat :=
  ((e.dependsOn j).map fun k => auxValue aux x j k * u k).sum

/-- **The decision rule** of each column, for numbers of the columns, at a point of the parameters. -/
def rule (e : Expander) (aux : List ((Nat × Nat) × Nat)) (x u : Nat → Rat) (j : Nat) : Rat :=
  x j + e.correction aux x u j

variable {e : Expander} {n : Nat}

theorem dependsOn_of_not_adaptive {j : Nat} (h : e.isAdaptive j = false) : e.dependsOn j = [] := by
  have hnone : e.policies.find? (·.1 == j) = none := by
    rw [List.find?_eq_none]
    rw [isAdaptive, List.any_eq_false] at h
    exact h
  rw [dependsOn, hnone]

theorem correction_of_not_adaptive (aux : List ((Nat × Nat) × Nat)) (x u : Nat → Rat) {j : Nat}
    (h : e.isAdaptive j = false) : e.correction aux x u j = 0 := by
  rw [correction, dependsOn_of_not_adaptive h]
  rfl

/-- A column without policy is its own rule. -/
theorem rule_of_not_adaptive (aux : List ((Nat × Nat) × Nat)) (x u : Nat → Rat) {j : Nat}
    (h : e.isAdaptive j = false) : e.rule aux x u j = x j := by
  rw [rule, correction_of_not_adaptive aux x u h, add_zero]

/-- A parameter occurs in some policy. -/
def Depends (e : Expander) (k : Nat) : Prop := ∃ p ∈ e.policies, k ∈ p.2

/-- A parameter that a column depends on is one of a policy of the column. -/
theorem exists_policy {j k : Nat} (hk : k ∈ e.dependsOn j) : ∃ p ∈ e.policies, p.1 = j ∧ k ∈ p.2 := by
  unfold dependsOn at hk
  split at hk
  next j' ks hfind => exact ⟨(j', ks), List.mem_of_find?_eq_some hfind, by simpa using List.find?_some hfind, hk⟩
  next => cases hk

/-! ## Growing tables -/

/-- A working model with more columns, all of them free and auxiliary, and no integers. -/
structure Grows (s s' : WorkingModel Rat ExtRat) : Prop where
  tables : s'.program.rows = s.program.rows
  goal : s'.program.objective = s.program.objective
  objective : s'.objective = s.objective
  epigraphColumn : s'.epigraphColumn = s.epigraphColumn
  userColumns : s'.userColumns = s.userColumns
  rows : s'.rows = s.rows
  columns : ∃ extra, s'.program.columns = s.program.columns ++ extra
    ∧ ∀ c ∈ extra, c.lower = negInf ∧ c.upper = posInf ∧ c.integer = false
  auxColumns : ∃ more, s'.auxColumns = s.auxColumns ++ more

theorem Grows.refl (s : WorkingModel Rat ExtRat) : Grows s s :=
  ⟨rfl, rfl, rfl, rfl, rfl, rfl, ⟨[], by simp⟩, ⟨[], by simp⟩⟩

theorem Grows.trans {s s' s'' : WorkingModel Rat ExtRat} (h : Grows s s') (h' : Grows s' s'') : Grows s s'' := by
  obtain ⟨extra, hextra, hfree⟩ := h.columns
  obtain ⟨extra', hextra', hfree'⟩ := h'.columns
  obtain ⟨more, hmore⟩ := h.auxColumns
  obtain ⟨more', hmore'⟩ := h'.auxColumns
  refine ⟨h'.tables.trans h.tables, h'.goal.trans h.goal, h'.objective.trans h.objective,
    h'.epigraphColumn.trans h.epigraphColumn, h'.userColumns.trans h.userColumns, h'.rows.trans h.rows,
    ⟨extra ++ extra', ?_, fun c hc => ?_⟩, ⟨more ++ more', ?_⟩⟩
  · rw [hextra', hextra, List.append_assoc]
  · rcases List.mem_append.mp hc with hc | hc
    · exact hfree c hc
    · exact hfree' c hc
  · rw [hmore', hmore, List.append_assoc]

theorem Grows.numColumns_le {s s' : WorkingModel Rat ExtRat} (h : Grows s s') :
    s.program.numColumns ≤ s'.program.numColumns := by
  obtain ⟨extra, hextra, -⟩ := h.columns
  rw [LinearProgram.numColumns, LinearProgram.numColumns, hextra, List.length_append]
  exact Nat.le_add_right _ _

/-- All pairs of a column have their columns. -/
def HasPairs (e : Expander) (aux : List ((Nat × Nat) × Nat)) (j : Nat) : Prop :=
  ∀ k ∈ e.dependsOn j, ∃ q ∈ aux, q.1 = (j, k)

theorem hasPairs_of_not_adaptive {aux : List ((Nat × Nat) × Nat)} {j : Nat} (h : e.isAdaptive j = false) :
    e.HasPairs aux j := by
  intro k hk
  rw [dependsOn_of_not_adaptive h] at hk
  exact absurd hk List.not_mem_nil

theorem Grows.hasPairs {s s' : WorkingModel Rat ExtRat} (h : Grows s s') {j : Nat} (hj : e.HasPairs s.auxColumns j) :
    e.HasPairs s'.auxColumns j := by
  obtain ⟨more, hmore⟩ := h.auxColumns
  intro k hk
  obtain ⟨q, hq, heq⟩ := hj k hk
  exact ⟨q, hmore ▸ List.mem_append_left _ hq, heq⟩

theorem Grows.integers {s s' : WorkingModel Rat ExtRat} (h : Grows s s') : s.program.SameIntegers s'.program := by
  obtain ⟨extra, hextra, hfree⟩ := h.columns
  exact .of_append (fun c hc => (hfree c hc).2.2) hextra

/-- **A column that was found stays the one of its pair.** -/
theorem Grows.auxValue_eq {s s' : WorkingModel Rat ExtRat} (h : Grows s s') {j k : Nat} {q : (Nat × Nat) × Nat}
    (hq : s.auxColumns.find? (·.1 == (j, k)) = some q) (x : Nat → Rat) : auxValue s'.auxColumns x j k = x q.2 := by
  obtain ⟨more, hmore⟩ := h.auxColumns
  rw [auxValue, hmore, List.find?_append, hq]
  rfl

/-- The table of the auxiliary columns: one column for each pair, all of them behind the first `n`, each for an adaptive
column and a parameter that it depends on. -/
structure AuxTable (e : Expander) (n : Nat) (s : WorkingModel Rat ExtRat) : Prop where
  behind : n ≤ s.program.numColumns
  pairs : (s.auxColumns.map (·.1)).Nodup
  distinct : (s.auxColumns.map (·.2)).Nodup
  range : ∀ q ∈ s.auxColumns, n ≤ q.2 ∧ q.2 < s.program.numColumns
  policy : ∀ q ∈ s.auxColumns, e.isAdaptive q.1.1 = true ∧ q.1.2 ∈ e.dependsOn q.1.1

/-- A new pair gets a new free column. -/
def withAux (s : WorkingModel Rat ExtRat) (j k : Nat) (name : String) : WorkingModel Rat ExtRat :=
  { s with
    program := s.program.withColumn negInf posInf false (some name)
    auxColumns := s.auxColumns ++ [((j, k), s.program.numColumns)] }

theorem grows_withAux (s : WorkingModel Rat ExtRat) (j k : Nat) (name : String) : Grows s (withAux s j k name) where
  tables := rfl
  goal := rfl
  objective := rfl
  epigraphColumn := rfl
  userColumns := rfl
  rows := rfl
  columns := ⟨_, rfl, fun c hc => by rw [List.mem_singleton.mp hc]; exact ⟨rfl, rfl, rfl⟩⟩
  auxColumns := ⟨_, rfl⟩

theorem AuxTable.withAux {s : WorkingModel Rat ExtRat} (hs : e.AuxTable n s) {j k : Nat} (had : e.isAdaptive j = true)
    (hk : k ∈ e.dependsOn j) (hnew : (j, k) ∉ s.auxColumns.map (·.1)) (name : String) :
    e.AuxTable n (withAux s j k name) := by
  have hcolumns : (Expander.withAux s j k name).program.numColumns = s.program.numColumns + 1 :=
    LinearProgram.numColumns_withColumn ..
  refine ⟨hs.behind.trans (grows_withAux s j k name).numColumns_le, ?_, ?_, fun q hq => ?_, fun q hq => ?_⟩
  · rw [Expander.withAux, List.map_append, List.nodup_append]
    refine ⟨hs.pairs, List.nodup_singleton _, fun a ha b hb hab => hnew ?_⟩
    have hpair : a = (j, k) := hab.trans (List.mem_singleton.mp hb)
    exact hpair ▸ ha
  · rw [Expander.withAux, List.map_append, List.nodup_append]
    refine ⟨hs.distinct, List.nodup_singleton _, fun a ha b hb => ?_⟩
    obtain ⟨q, hq, rfl⟩ := List.mem_map.mp ha
    rw [List.mem_singleton.mp hb]
    exact (hs.range q hq).2.ne
  · rw [hcolumns]
    rcases List.mem_append.mp hq with hq | hq
    · obtain ⟨hle, hlt⟩ := hs.range q hq
      exact ⟨hle, hlt.trans (Nat.lt_succ_self _)⟩
    · rw [List.mem_singleton.mp hq]
      exact ⟨hs.behind, Nat.lt_succ_self _⟩
  · rcases List.mem_append.mp hq with hq | hq
    · exact hs.policy q hq
    · rw [List.mem_singleton.mp hq]
      exact ⟨had, hk⟩

/-- **Asking for the column of a pair** answers the one of the table, after adding it if there was none. -/
theorem run_auxColumn (he : e.Fits n) {s : WorkingModel Rat ExtRat} (hs : e.AuxTable n s) {j k : Nat}
    (had : e.isAdaptive j = true) (hk : k ∈ e.dependsOn j) :
    ∃ col s', (e.auxColumn j k).run s = (.ok col, s') ∧ Grows s s' ∧ e.AuxTable n s'
      ∧ s'.auxColumns.find? (·.1 == (j, k)) = some ((j, k), col) := by
  unfold auxColumn
  rw [Edit.run_bind_of_ok (Edit.run_get s)]
  dsimp only
  cases hfind : s.auxColumns.find? (·.1 == (j, k)) with
  | some q =>
    obtain ⟨pair, col⟩ := q
    obtain rfl : pair = (j, k) := by simpa using List.find?_some hfind
    exact ⟨col, s, rfl, .refl s, hs, hfind⟩
  | none =>
    have hj : j < s.program.columns.length := (lt_of_isAdaptive he had).trans_le hs.behind
    have hcolumn : columnName s j = .ok s.program.columns[j].name := by
      rw [columnName, List.getElem?_eq_getElem hj]
    obtain ⟨p, hp, -, hkp⟩ := exists_policy hk
    obtain ⟨parameter, hparameter⟩ := he.names p hp k hkp
    have hnew : (j, k) ∉ s.auxColumns.map (·.1) := by
      intro hmem
      obtain ⟨q, hq, hpair⟩ := List.mem_map.mp hmem
      exact List.find?_eq_none.mp hfind q hq (by simp [hpair])
    rw [Edit.run_bind_of_ok (Edit.run_liftFault_eq_ok.mpr ⟨hcolumn, rfl⟩),
      Edit.run_bind_of_ok (Edit.run_liftFault_eq_ok.mpr ⟨hparameter, rfl⟩),
      Edit.run_bind_of_ok (WorkingModel.run_editProgram (LinearProgram.run_addFreeColumn false _)),
      Edit.run_bind_of_ok (Edit.run_modify _ _)]
    refine ⟨_, _, rfl, grows_withAux s j k _, hs.withAux had hk hnew _, ?_⟩
    rw [List.find?_append, hfind]
    simp

end Expander

end RobustLP
