import RobustLP.Proofs.Failure
import RobustLP.Proofs.Program

/-!
# Calls that edit a program

The operations by which a program is edited are collected as the type of calls (`LinearProgram.Call`). What a call leaves when it
succeeds is described by `LinearProgram.Call.Done`, what it leaves behind when it fails half-way by `LinearProgram.Call.Torn`, and
there is nothing else that it can do (`LinearProgram.Call.ends`).

Two properties of a program are carried along. Its rows and its objective mention columns that exist, each of them once and with a
coefficient other than zero; no call changes that, whether it fails or not (`LinearProgram.Clean`). The columns of its table of
rows have the same length unless a row was added with a bound that is no number, since the coefficients are entered before the
bounds are read (`Call.Torn.aligned`).
-/

namespace RobustLP

open Edit

namespace LinearProgram

variable {K B : Type}

/-- A call of one of the operations that edit a program. -/
inductive Call (K B : Type) where
  | addColumn (lower upper : GivenBound B) (integer : Bool) (name : Option String)
  | addRow (terms : List (GivenTerm K)) (lower upper : GivenBound B) (name : Option String)
  | removeRows (drop : List Int)
  | setObjective (terms : List (GivenTerm K)) (constant : Except Error K) (sense : Option Sense)

section

variable [Bound B] [Scalar K B]

/-- The operation that a call stands for; what it answers is left out. -/
def Call.edit : Call K B → Edit (LinearProgram K B) Unit
  | .addColumn lower upper integer name => discard (LinearProgram.addColumn lower upper integer name)
  | .addRow terms lower upper name => discard (LinearProgram.addRow terms lower upper name)
  | .removeRows drop => LinearProgram.removeRows drop
  | .setObjective terms constant sense => LinearProgram.setObjective terms constant sense

/-! ## What a call leaves -/

/-- **The programs that calls leave when they succeed.** -/
inductive Call.Done (p : LinearProgram K B) : Call K B → LinearProgram K B → Prop
  | addColumn {lower upper : GivenBound B} {low high : B} {integer : Bool} {name : Option String} :
    lower.getD (.ok Bound.negInf) = .ok low → upper.getD (.ok Bound.posInf) = .ok high →
    Done p (.addColumn lower upper integer name) (p.withColumn low high integer name)
  | addRow {terms : List (GivenTerm K)} {coefs : List (Nat × K)} {lower upper : GivenBound B} {low high : B}
    {name : Option String} : readTerms p.numColumns terms = .ok coefs →
    lower.getD (.ok Bound.negInf) = .ok low → upper.getD (.ok Bound.posInf) = .ok high →
    Done p (.addRow terms lower upper name) { p with rows := p.rows.push (collect coefs) low high name }
  | removeRows {drop : List Int} : p.rows.reach (kept p.numRows drop) = 4 →
    Done p (.removeRows drop) { p with rows := p.rows.keep (kept p.numRows drop) }
  | setObjective {terms : List (GivenTerm K)} {coefs : List (Nat × K)} {c : K} {s : Sense} :
    readTerms p.numColumns terms = .ok coefs →
    Done p (.setObjective terms (.ok c) (some s)) { p with objective := { terms := collect coefs, constant := c, sense := s } }

/-- **What failing calls leave behind.** A row stands without the bounds from the first one on that could not be read. A removal
stops at a column of the table of rows that lacks an entry. Of an objective the coefficients are there, and its constant if the
sense is at fault. -/
inductive Call.Torn (p : LinearProgram K B) : Call K B → LinearProgram K B → Prop
  | lower {terms : List (GivenTerm K)} {coefs : List (Nat × K)} {lower upper : GivenBound B} {name : Option String}
    {err : Error} : readTerms p.numColumns terms = .ok coefs → lower.getD (.ok Bound.negInf) = .error err →
    Torn p (.addRow terms lower upper name) { p with rows := { p.rows with coefs := p.rows.coefs ++ [collect coefs] } }
  | upper {terms : List (GivenTerm K)} {coefs : List (Nat × K)} {lower upper : GivenBound B} {low : B}
    {name : Option String} {err : Error} : readTerms p.numColumns terms = .ok coefs →
    lower.getD (.ok Bound.negInf) = .ok low → upper.getD (.ok Bound.posInf) = .error err →
    Torn p (.addRow terms lower upper name)
      { p with rows := { p.rows with coefs := p.rows.coefs ++ [collect coefs], lower := p.rows.lower ++ [low] } }
  | removeRows {drop : List Int} : p.rows.reach (kept p.numRows drop) ≠ 4 → Torn p (.removeRows drop)
      { p with rows := p.rows.keepFirst (p.rows.reach (kept p.numRows drop)) (kept p.numRows drop) }
  | constant {terms : List (GivenTerm K)} {coefs : List (Nat × K)} {sense : Option Sense} {err : Error} :
    readTerms p.numColumns terms = .ok coefs →
    Torn p (.setObjective terms (.error err) sense) { p with objective := { p.objective with terms := collect coefs } }
  | sense {terms : List (GivenTerm K)} {coefs : List (Nat × K)} {c : K} : readTerms p.numColumns terms = .ok coefs →
    Torn p (.setObjective terms (.ok c) none)
      { p with objective := { p.objective with terms := collect coefs, constant := c } }

end

/-! ## All that a call can do -/

section

variable [Bound B] [Scalar K B] {p q : LinearProgram K B} {c : Call K B}

theorem ends_addColumn (lower upper : GivenBound B) (integer : Bool) (name : Option String) :
    Ends (addColumn lower upper integer name : Edit (LinearProgram K B) Nat) p
      (fun _ => Call.Done p (.addColumn lower upper integer name)) (Call.Torn p (.addColumn lower upper integer name)) := by
  unfold addColumn
  refine (steady_readBound _ lower).ends fun low hlow => ?_
  refine (steady_readBound _ upper).ends fun high hhigh => ?_
  exact ends_of_run rfl (.addColumn (eq_of_run_readBound hlow) (eq_of_run_readBound hhigh))

theorem ends_addRow (terms : List (GivenTerm K)) (lower upper : GivenBound B) (name : Option String) :
    Ends (addRow terms lower upper name) p (fun _ => Call.Done p (.addRow terms lower upper name))
      (Call.Torn p (.addRow terms lower upper name)) := by
  unfold addRow
  simp only [readBound_eq]
  refine steady_get.ends fun q hq => ?_
  obtain rfl : p = q := Except.ok.inj (Prod.mk.inj hq).1
  refine (steady_lift _).ends fun coefs hcoefs => ?_
  have hread := (run_lift_eq_ok.mp hcoefs).1
  -- from here on the coefficients stand, and each bound that is read is entered at once
  cases hlower : lower.getD (.ok Bound.negInf) with
  | error err => exact ends_of_error rfl (.inr (.lower hread hlower))
  | ok low =>
    cases hupper : upper.getD (.ok Bound.posInf) with
    | error err => exact ends_of_error rfl (.inr (.upper hread hlower hupper))
    | ok high => exact ends_of_run rfl (.addRow hread hlower hupper)

theorem ends_removeRows (drop : List Int) :
    Ends (removeRows drop) p (fun _ => Call.Done p (.removeRows drop)) (Call.Torn p (.removeRows drop)) := by
  have hrun := run_removeRows_eq drop p
  by_cases hreach : p.rows.reach (kept p.numRows drop) = 4
  · rw [if_pos hreach, hreach] at hrun
    exact ends_of_run hrun (.removeRows hreach)
  · rw [if_neg hreach] at hrun
    exact ends_of_error hrun (.inr (.removeRows hreach))

theorem ends_setObjective (terms : List (GivenTerm K)) (constant : Except Error K) (sense : Option Sense) :
    Ends (setObjective terms constant sense) p (fun _ => Call.Done p (.setObjective terms constant sense))
      (Call.Torn p (.setObjective terms constant sense)) := by
  unfold setObjective
  refine steady_get.ends fun q hq => ?_
  obtain rfl : p = q := Except.ok.inj (Prod.mk.inj hq).1
  refine (steady_lift _).ends fun coefs hcoefs => ?_
  have hread := (run_lift_eq_ok.mp hcoefs).1
  cases constant with
  | error err => exact ends_of_error rfl (.inr (.constant hread))
  | ok c =>
    cases sense with
    | none => exact ends_of_error rfl (.inr (.sense hread))
    | some s => exact ends_of_run rfl (.setObjective hread)

/-- **All that a call can do:** it leaves what `Done` says, or fails and leaves the program as it was, up to what `Torn` says. -/
theorem Call.ends (p : LinearProgram K B) (c : Call K B) : Ends c.edit p (fun _ => c.Done p) (c.Torn p) := by
  cases c with
  | addColumn lower upper integer name => exact (ends_addColumn lower upper integer name).map fun _ _ h => h
  | addRow terms lower upper name => exact (ends_addRow terms lower upper name).map fun _ _ h => h
  | removeRows drop => exact ends_removeRows drop
  | setObjective terms constant sense => exact ends_setObjective terms constant sense

/-! ## Columns that exist -/

/-- Coefficients of the first `n` columns, one for each column at most and none of them zero. -/
def Stored (n : Nat) (row : List (Nat × K)) : Prop := (keys row).Nodup ∧ ∀ t ∈ row, t.1 < n ∧ Scalar.isZero t.2 = false

/-- **The rows and the objective mention columns that exist,** each of them once and with a coefficient other than zero. -/
structure Clean (p : LinearProgram K B) : Prop where
  rows : ∀ row ∈ p.rows.coefs, Stored p.numColumns row
  objective : Stored p.numColumns p.objective.terms

omit [Bound B] in
theorem Stored.mono {n m : Nat} {row : List (Nat × K)} (hnm : n ≤ m) (h : Stored n row) : Stored m row :=
  ⟨h.1, fun t ht => ⟨(h.2 t ht).1.trans_le hnm, (h.2 t ht).2⟩⟩

omit [Bound B] in
/-- What is read is stored so. -/
theorem stored_collect {n : Nat} {terms : List (GivenTerm K)} {coefs : List (Nat × K)}
    (h : readTerms n terms = .ok coefs) : Stored n (collect coefs) := by
  refine ⟨nodup_keys_collect coefs, fun t ht => ⟨?_, ?_⟩⟩
  · obtain ⟨s, hs, hst⟩ := List.mem_map.mp (mem_keys_of_mem_collect ht)
    exact hst ▸ lt_of_readTerms h s hs
  · simpa using (List.mem_filter.mp ht).2

omit [Bound B] in
theorem clean_empty (name : Option String) : (empty name : LinearProgram K B).Clean :=
  ⟨by simp [empty], List.nodup_nil, by simp [empty]⟩

/-- No call takes a column away. -/
theorem Call.Done.numColumns_le (h : c.Done p q) : p.numColumns ≤ q.numColumns := by
  cases h with
  | addColumn => exact (Nat.le_succ _).trans_eq (numColumns_withColumn _ _ _ _).symm
  | addRow | removeRows | setObjective => exact le_refl _

theorem Call.Torn.columns_eq (h : c.Torn p q) : q.columns = p.columns := by
  cases h <;> rfl

theorem Call.Done.clean (h : c.Done p q) (hp : p.Clean) : q.Clean := by
  have hle := h.numColumns_le
  cases h with
  | addColumn => exact ⟨fun row hrow => (hp.rows row hrow).mono hle, hp.objective.mono hle⟩
  | addRow hread =>
    refine ⟨fun row hrow => ?_, hp.objective⟩
    rcases List.mem_append.mp hrow with hrow | hrow
    · exact hp.rows row hrow
    · exact List.mem_singleton.mp hrow ▸ stored_collect hread
  | removeRows =>
    refine ⟨fun row hrow => ?_, hp.objective⟩
    obtain ⟨i, -, hi⟩ := List.mem_filterMap.mp hrow
    exact hp.rows row (List.mem_of_getElem? hi)
  | setObjective hread => exact ⟨hp.rows, stored_collect hread⟩

theorem Call.Torn.clean (h : c.Torn p q) (hp : p.Clean) : q.Clean := by
  cases h with
  | lower hread | upper hread =>
    refine ⟨fun row hrow => ?_, hp.objective⟩
    rcases List.mem_append.mp hrow with hrow | hrow
    · exact hp.rows row hrow
    · exact List.mem_singleton.mp hrow ▸ stored_collect hread
  | @removeRows drop =>
    refine ⟨fun row hrow => ?_, hp.objective⟩
    unfold RowTable.keepFirst at hrow
    dsimp only at hrow
    split at hrow
    next =>
      obtain ⟨i, -, hi⟩ := List.mem_filterMap.mp hrow
      exact hp.rows row (List.mem_of_getElem? hi)
    next => exact hp.rows row hrow
  | constant hread | sense hread => exact ⟨hp.rows, stored_collect hread⟩

/-! ## Tables of rows -/

/-- A call other than one that adds a row with a bound that cannot be read. -/
def Call.Readable : Call K B → Prop
  | .addRow _ lower upper _ => (∀ err, lower ≠ some (.error err)) ∧ ∀ err, upper ≠ some (.error err)
  | _ => True

theorem Call.Done.aligned (h : c.Done p q) (hp : p.rows.Aligned) : q.rows.Aligned := by
  cases h with
  | addColumn | setObjective => exact hp
  | addRow => exact hp.push _ _ _ _
  | removeRows => exact hp.keep fun i hi => lt_of_mem_kept hi

theorem Call.Torn.aligned (h : c.Torn p q) (hc : c.Readable) (hp : p.rows.Aligned) : q.rows.Aligned := by
  cases h with
  | lower _ hlower => exact absurd (eq_some_of_getD_eq_error hlower) (hc.1 _)
  | upper _ _ hupper => exact absurd (eq_some_of_getD_eq_error hupper) (hc.2 _)
  | removeRows hreach => exact absurd (reach_kept hp _) hreach
  | constant | sense => exact hp

end

end LinearProgram

end RobustLP
