import RobustLP.Proofs.Program.Calls
import RobustLP.Scalar.Exact

/-!
# Programs that share their tables, and calls that fail

Calls on several programs that may share their tables are collected as `Shelf.Call`: a program is made, copied, given another
objective over the same tables, or edited.

A call that fails leaves all programs as they were, unless it adds a row with a bound that is no number or sets an objective with
a constant or a sense that is none; what these two leave behind is said by `Shelf.Call.Torn`. Whatever was called before, each row and each
objective mentions columns that exist, each of them once and with a coefficient other than zero. This needs that programs share
their rows only together with their columns (`Shelf.Sound`). As long as no row was added with a bound that is no number, every program
has all columns of its rows in one table, and these columns have the same length (`Shelf.Level`); removing rows cannot fail then.
-/

namespace RobustLP

variable {K B : Type}

/-! ## Tables -/

namespace RowPlaces

/-- What is stored shows in the tables that are used, column by column. -/
theorem getElem?_write (r : RowPlaces) (t : RowTable K B) (tables : List (RowTable K B)) (k : Nat) :
    (r.write t tables)[k]? = tables[k]?.map fun s =>
      { coefs := if r.coefs = k then t.coefs else s.coefs, lower := if r.lower = k then t.lower else s.lower
        upper := if r.upper = k then t.upper else s.upper, names := if r.names = k then t.names else s.names } := by
  unfold write
  simp only [List.getElem?_modify, Option.map_eq_map, Option.map_map]
  congr 1
  funext s
  simp only [Function.comp_apply]
  by_cases h₁ : r.coefs = k <;> by_cases h₂ : r.lower = k <;> by_cases h₃ : r.upper = k <;> by_cases h₄ : r.names = k <;>
    simp [h₁, h₂, h₃, h₄]

theorem read_eq_some_iff {r : RowPlaces} {tables : List (RowTable K B)} {t : RowTable K B} :
    r.read tables = some t ↔ tables[r.coefs]?.map (·.coefs) = some t.coefs ∧ tables[r.lower]?.map (·.lower) = some t.lower
      ∧ tables[r.upper]?.map (·.upper) = some t.upper ∧ tables[r.names]?.map (·.names) = some t.names := by
  unfold read
  obtain ⟨coefs, lower, upper, names⟩ := t
  cases tables[r.coefs]? <;> cases tables[r.lower]? <;> cases tables[r.upper]? <;> cases tables[r.names]? <;> simp

/-- Storing what is there changes nothing. -/
theorem write_self {r : RowPlaces} {tables : List (RowTable K B)} {t : RowTable K B} (h : r.read tables = some t) :
    r.write t tables = tables := by
  obtain ⟨hcoefs, hlower, hupper, hnames⟩ := read_eq_some_iff.mp h
  refine List.ext_getElem? fun k => ?_
  rw [getElem?_write]
  cases hk : tables[k]? with
  | none => rfl
  | some s =>
    have hcoefs' : r.coefs = k → t.coefs = s.coefs := fun hr => by simpa [hr, hk, eq_comm] using hcoefs
    have hlower' : r.lower = k → t.lower = s.lower := fun hr => by simpa [hr, hk, eq_comm] using hlower
    have hupper' : r.upper = k → t.upper = s.upper := fun hr => by simpa [hr, hk, eq_comm] using hupper
    have hnames' : r.names = k → t.names = s.names := fun hr => by simpa [hr, hk, eq_comm] using hnames
    obtain ⟨coefs, lower, upper, names⟩ := s
    simp only [Option.map_some, Option.some.injEq, RowTable.mk.injEq, ite_eq_right_iff]
    exact ⟨hcoefs', hlower', hupper', hnames'⟩

theorem read_whole {k : Nat} {tables : List (RowTable K B)} : (whole k).read tables = tables[k]? := by
  unfold read whole
  cases tables[k]? <;> rfl

end RowPlaces

namespace Shelf

variable {s s' : Shelf K B} {i : Nat} {p q : LinearProgram K B}

theorem program?_eq_some_iff : s.program? i = some p ↔ ∃ e, s.entries[i]? = some e ∧ s.columns[e.columns]? = some p.columns
    ∧ e.rows.read s.rows = some p.rows ∧ e.objective = p.objective ∧ e.name = p.name := by
  unfold program?
  simp only [Option.bind_eq_bind, Option.bind_eq_some_iff, Option.pure_def, Option.some.injEq]
  constructor
  · rintro ⟨e, hentry, columns, hcolumns, rows, hrows, rfl⟩
    exact ⟨e, hentry, hcolumns, hrows, rfl, rfl⟩
  · rintro ⟨e, hentry, hcolumns, hrows, hobjective, hname⟩
    exact ⟨e, hentry, _, hcolumns, _, hrows, by rw [hobjective, hname]⟩

/-- Storing a program that was not changed changes nothing. -/
theorem store_self (h : s.program? i = some p) : s.store i p = s := by
  obtain ⟨e, hentry, hcolumns, hrows, hobjective, -⟩ := program?_eq_some_iff.mp h
  have hset : ∀ {α : Type} {xs : List α} {k : Nat} {x : α}, xs[k]? = some x → xs.set k x = xs := by
    intro α xs k x hk
    refine List.ext_getElem? fun j => ?_
    rw [List.getElem?_set]
    split
    next hj =>
      rw [← hj, hk, if_pos (List.getElem?_eq_some_iff.mp hk).1]
    next => rfl
  unfold store
  rw [hentry]
  simp only [hset hcolumns, RowPlaces.write_self hrows, ← hobjective, hset hentry]

/-- **Removing rows** of a program that is on the shelf. -/
theorem removeRows_eq {e : ShelfEntry K} (hp : s.program? i = some p) (hentry : s.entries[i]? = some e) (drop : List Int) :
    let positions := LinearProgram.kept p.numRows drop
    let count := p.rows.reach positions
    s.removeRows i drop = (if count = 4 then .ok ⟨⟩ else .error (.fault .noIndex),
      { s with rows := s.rows ++ [p.rows.keepFirst count positions]
               entries := s.entries.set i { e with rows := e.rows.renew s.rows.length count } }) := by
  unfold removeRows
  rw [hp, hentry]
  dsimp only
  rw [LinearProgram.run_removeRows_eq]

section

variable [Scalar K B]

/-! ## Columns that exist -/

/-- **Programs share their rows only together with their columns,** and all rows and objectives mention columns that exist, each
of them once and with a coefficient other than zero. -/
structure Sound (s : Shelf K B) : Prop where
  placed : ∀ e ∈ s.entries, e.columns < s.columns.length ∧ e.rows.coefs < s.rows.length
  shared : ∀ e ∈ s.entries, ∀ e' ∈ s.entries, e.rows.coefs = e'.rows.coefs → e.columns = e'.columns
  rows : ∀ e ∈ s.entries, ∀ columns t, s.columns[e.columns]? = some columns → s.rows[e.rows.coefs]? = some t →
    ∀ row ∈ t.coefs, LinearProgram.Stored columns.length row
  objective : ∀ e ∈ s.entries, ∀ columns, s.columns[e.columns]? = some columns →
    LinearProgram.Stored columns.length e.objective.terms

theorem sound_empty : (({} : Shelf K B)).Sound :=
  ⟨fun _ h => (List.not_mem_nil h).elim, fun _ h => (List.not_mem_nil h).elim, fun _ h => (List.not_mem_nil h).elim,
    fun _ h => (List.not_mem_nil h).elim⟩

theorem Sound.clean (h : s.Sound) (hp : s.program? i = some p) : p.Clean := by
  obtain ⟨e, hentry, hcolumns, hrows, hobjective, -⟩ := program?_eq_some_iff.mp hp
  have hmem := List.mem_of_getElem? hentry
  obtain ⟨t, ht, hcoefs⟩ := Option.map_eq_some_iff.mp (RowPlaces.read_eq_some_iff.mp hrows).1
  exact ⟨fun row hrow => h.rows e hmem _ t hcolumns ht row (hcoefs ▸ hrow), hobjective ▸ h.objective e hmem _ hcolumns⟩

/-- A program that was edited: all programs with the same columns see the new ones, and no other program has its rows. -/
theorem Sound.store (h : s.Sound) (hp : s.program? i = some p) (hle : p.numColumns ≤ q.numColumns) (hq : q.Clean) :
    (s.store i q).Sound := by
  obtain ⟨e, hentry, hcolumns, hrows, -, -⟩ := program?_eq_some_iff.mp hp
  have hmem := List.mem_of_getElem? hentry
  have hplaces : ∀ e' ∈ s.entries.set i { e with objective := q.objective }, ∃ e₀ ∈ s.entries, e'.columns = e₀.columns
      ∧ e'.rows = e₀.rows ∧ (e'.objective = e₀.objective ∨ e₀ = e ∧ e'.objective = q.objective) := by
    intro e' he'
    rcases List.mem_or_eq_of_mem_set he' with he' | rfl
    · exact ⟨e', he', rfl, rfl, .inl rfl⟩
    · exact ⟨e, hmem, rfl, rfl, .inr ⟨rfl, rfl⟩⟩
  have hgrown : ∀ k columns', (s.columns.set e.columns q.columns)[k]? = some columns' → ∃ columns,
      s.columns[k]? = some columns ∧ columns.length ≤ columns'.length ∧ (k = e.columns → columns' = q.columns) := by
    intro k columns' hk
    rw [List.getElem?_set] at hk
    split at hk
    next heq =>
      subst heq
      rw [if_pos (h.placed e hmem).1] at hk
      cases hk
      exact ⟨_, hcolumns, hle, fun _ => rfl⟩
    next hne => exact ⟨columns', hk, le_refl _, fun heq => absurd heq.symm hne⟩
  unfold Shelf.store
  rw [hentry]
  constructor
  · intro e' he'
    obtain ⟨e₀, he₀, hcolumns', hrows', -⟩ := hplaces e' he'
    have hlength : (e.rows.write q.rows s.rows).length = s.rows.length := by simp [RowPlaces.write]
    rw [hcolumns', hrows', List.length_set, hlength]
    exact h.placed e₀ he₀
  · intro e₁ he₁ e₂ he₂ heq
    obtain ⟨e₁', he₁', hcolumns₁, hrows₁, -⟩ := hplaces e₁ he₁
    obtain ⟨e₂', he₂', hcolumns₂, hrows₂, -⟩ := hplaces e₂ he₂
    rw [hcolumns₁, hcolumns₂]
    exact h.shared e₁' he₁' e₂' he₂' (by rw [← hrows₁, ← hrows₂, heq])
  · intro e' he' columns' t' hcolumns' ht' row hrow
    obtain ⟨e₀, he₀, hc, hr, -⟩ := hplaces e' he'
    obtain ⟨columns, hold, hlength, hnew⟩ := hgrown _ _ hcolumns'
    rw [hr, RowPlaces.getElem?_write] at ht'
    obtain ⟨t, ht, rfl⟩ := Option.map_eq_some_iff.mp ht'
    dsimp only at hrow
    split at hrow
    next hsame =>
      rw [hnew (hc.trans (h.shared e hmem e₀ he₀ hsame).symm)]
      exact hq.rows row hrow
    next => exact (h.rows e₀ he₀ columns t (hc ▸ hold) ht row hrow).mono hlength
  · intro e' he' columns' hcolumns'
    obtain ⟨e₀, he₀, hc, -, hobjective⟩ := hplaces e' he'
    obtain ⟨columns, hold, hlength, hnew⟩ := hgrown _ _ hcolumns'
    rcases hobjective with hobjective | ⟨rfl, hobjective⟩
    · rw [hobjective]
      exact (h.objective e₀ he₀ columns (hc ▸ hold)).mono hlength
    · rw [hobjective, hnew hc]
      exact hq.objective

/-- One more program, or another one in the place of an old one: it may use tables that are there, or new ones. -/
theorem Sound.extend (h : s.Sound) (columns : List (List (Column B))) (rows : List (RowTable K B))
    {entries : List (ShelfEntry K)} (e : ShelfEntry K) (hp : p.Clean) (hentries : ∀ e' ∈ entries, e' ∈ s.entries ∨ e' = e)
    (hcolumns : (s.columns ++ columns)[e.columns]? = some p.columns)
    (hrows : (s.rows ++ rows)[e.rows.coefs]?.map (·.coefs) = some p.rows.coefs) (hobjective : e.objective = p.objective)
    (hshared : ∀ e' ∈ s.entries, e'.rows.coefs = e.rows.coefs → e'.columns = e.columns) :
    Sound { columns := s.columns ++ columns, rows := s.rows ++ rows, entries } := by
  obtain ⟨t, ht, hcoefs⟩ := Option.map_eq_some_iff.mp hrows
  constructor
  · intro e' he'
    rcases hentries e' he' with he' | rfl
    · obtain ⟨hc, hr⟩ := h.placed e' he'
      simp only [List.length_append]
      omega
    · exact ⟨(List.getElem?_eq_some_iff.mp hcolumns).1, (List.getElem?_eq_some_iff.mp ht).1⟩
  · intro e₁ he₁ e₂ he₂ heq
    rcases hentries e₁ he₁ with he₁ | rfl <;> rcases hentries e₂ he₂ with he₂ | rfl
    · exact h.shared e₁ he₁ e₂ he₂ heq
    · exact hshared e₁ he₁ heq
    · exact (hshared e₂ he₂ heq.symm).symm
    · rfl
  · intro e' he' columns' t' hc hr row hrow
    rcases hentries e' he' with he' | rfl
    · rw [List.getElem?_append_left (h.placed e' he').1] at hc
      rw [List.getElem?_append_left (h.placed e' he').2] at hr
      exact h.rows e' he' columns' t' hc hr row hrow
    · obtain rfl := Option.some.inj (hcolumns.symm.trans hc)
      obtain rfl := Option.some.inj (ht.symm.trans hr)
      exact hp.rows row (hcoefs ▸ hrow)
  · intro e' he' columns' hc
    rcases hentries e' he' with he' | rfl
    · rw [List.getElem?_append_left (h.placed e' he').1] at hc
      exact h.objective e' he' columns' hc
    · obtain rfl := Option.some.inj (hcolumns.symm.trans hc)
      exact hobjective ▸ hp.objective

theorem Sound.insert (h : s.Sound) (hp : p.Clean) : (s.insert p).1.Sound := by
  refine h.extend [p.columns] [p.rows] ⟨p.name, s.columns.length, .whole s.rows.length, p.objective⟩ hp (fun e' he' => ?_)
    List.getElem?_concat_length ?_ rfl fun e' he' heq => ?_
  · exact (List.mem_append.mp he').imp_right List.mem_singleton.mp
  · rw [RowPlaces.whole, List.getElem?_concat_length]
    rfl
  · exact absurd heq (h.placed e' he').2.ne

theorem Sound.removeRows (h : s.Sound) (i : Nat) (drop : List Int) : (s.removeRows i drop).2.Sound := by
  cases hp : s.program? i with
  | none => rwa [Shelf.removeRows, hp]
  | some p =>
    obtain ⟨e, hentry, hcolumns, hrows, hobjective, -⟩ := program?_eq_some_iff.mp hp
    have hmem := List.mem_of_getElem? hentry
    have hreach := p.reach_kept_pos drop
    set q : LinearProgram K B := { p with
      rows := p.rows.keepFirst (p.rows.reach (LinearProgram.kept p.numRows drop)) (LinearProgram.kept p.numRows drop) }
    set places := e.rows.renew s.rows.length (p.rows.reach (LinearProgram.kept p.numRows drop)) with hplaces
    have hown : places.coefs = s.rows.length := by rw [hplaces, RowPlaces.renew, if_pos hreach]
    have hq : q.Clean := by
      refine ⟨fun row hrow => ?_, (h.clean hp).objective⟩
      dsimp only [q, RowTable.keepFirst] at hrow
      rw [if_pos hreach] at hrow
      obtain ⟨j, -, hj⟩ := List.mem_filterMap.mp hrow
      exact (h.clean hp).rows row (List.mem_of_getElem? hj)
    have hextend := h.extend [] [q.rows] { e with rows := places } hq (fun e' he' => List.mem_or_eq_of_mem_set (i := i) he')
      (by rw [List.append_nil]; exact hcolumns) ?_ hobjective ?_
    · rw [List.append_nil] at hextend
      rw [removeRows_eq hp hentry]
      exact hextend
    · dsimp only
      rw [hown, List.getElem?_concat_length]
      rfl
    · intro e' he' heq
      exact absurd (heq.trans hown) (h.placed e' he').2.ne

end

/-! ## Rows in one table -/

/-- **Every program has the columns of its rows in one table,** and in all tables they have the same length. -/
structure Level (s : Shelf K B) : Prop where
  whole : ∀ e ∈ s.entries, ∃ k, e.rows = .whole k
  aligned : ∀ t ∈ s.rows, t.Aligned

theorem Level.program (h : s.Level) (hp : s.program? i = some p) : p.rows.Aligned := by
  obtain ⟨e, hentry, -, hrows, -, -⟩ := program?_eq_some_iff.mp hp
  obtain ⟨k, hk⟩ := h.whole e (List.mem_of_getElem? hentry)
  rw [hk, RowPlaces.read_whole] at hrows
  exact h.aligned _ (List.mem_of_getElem? hrows)

theorem Level.store (h : s.Level) (hq : q.rows.Aligned) : (s.store i q).Level := by
  unfold Shelf.store
  cases hentry : s.entries[i]? with
  | none => exact h
  | some e =>
    obtain ⟨k, hk⟩ := h.whole e (List.mem_of_getElem? hentry)
    constructor
    · intro e' he'
      rcases List.mem_or_eq_of_mem_set he' with he' | rfl
      · exact h.whole e' he'
      · exact ⟨k, hk⟩
    · intro t ht
      obtain ⟨j, hj⟩ := List.mem_iff_getElem?.mp ht
      rw [RowPlaces.getElem?_write, hk] at hj
      obtain ⟨t₀, ht₀, rfl⟩ := Option.map_eq_some_iff.mp hj
      -- all columns of the table are replaced, or none
      by_cases hkj : k = j
      · simpa [RowPlaces.whole, hkj] using hq
      · simpa [RowPlaces.whole, hkj] using h.aligned t₀ (List.mem_of_getElem? ht₀)

theorem Level.insert (h : s.Level) (hp : p.rows.Aligned) : (s.insert p).1.Level := by
  constructor
  · intro e he
    rcases List.mem_append.mp he with he | he
    · exact h.whole e he
    · exact List.mem_singleton.mp he ▸ ⟨_, rfl⟩
  · intro t ht
    rcases List.mem_append.mp ht with ht | ht
    · exact h.aligned t ht
    · exact List.mem_singleton.mp ht ▸ hp

theorem Level.removeRows (h : s.Level) (i : Nat) (drop : List Int) : (s.removeRows i drop).2.Level := by
  cases hp : s.program? i with
  | none => rwa [Shelf.removeRows, hp]
  | some p =>
    obtain ⟨e, hentry, -⟩ := program?_eq_some_iff.mp hp
    rw [removeRows_eq hp hentry, LinearProgram.reach_kept (h.program hp)]
    constructor
    · intro e' he'
      rcases List.mem_or_eq_of_mem_set (i := i) he' with he' | rfl
      · exact h.whole e' he'
      · exact ⟨s.rows.length, rfl⟩
    · intro t ht
      rcases List.mem_append.mp ht with ht | ht
      · exact h.aligned t ht
      · rw [List.mem_singleton.mp ht]
        exact (h.program hp).keep fun i hi => LinearProgram.lt_of_mem_kept hi

/-! ## Calls -/

/-- A call of an operation on programs that may share their tables. -/
inductive Call (K B : Type) where
  | make (name : Option String)
  | edit (i : Nat) (c : LinearProgram.Call K B)
  | clone (i : Nat)
  | withObjective (i : Nat) (terms : List (GivenTerm K)) (constant : Except Error K) (sense : Option Sense)

section

variable [Bound B] [Scalar K B]

/-- Runs a call on the program at a place. -/
def editBy (s : Shelf K B) (i : Nat) : LinearProgram.Call K B → Except Error Unit × Shelf K B
  | .removeRows drop => s.removeRows i drop
  | c => s.edit i c.edit

/-- What a call answers, and the shelf it leaves. -/
def Call.run (s : Shelf K B) : Call K B → Except Error Unit × Shelf K B
  | .make name => (.ok ⟨⟩, (s.insert (.empty name)).1)
  | .edit i c => s.editBy i c
  | .clone i => match s.program? i with
    | some p => (.ok ⟨⟩, (s.insert p).1)
    | none => (.error (.fault .noIndex), s)
  | .withObjective i terms constant sense => match s.withObjective i terms constant sense with
    | .ok (s', _) => (.ok ⟨⟩, s')
    | .error err => (.error err, s)

/-- **What failing calls leave behind:** the programs that use the tables of a torn program show what was left there. Where a removal
stops, the columns of the rows that it went through are the program's own. -/
inductive Call.Torn (s : Shelf K B) : Call K B → Shelf K B → Prop
  | edit {i : Nat} {c : LinearProgram.Call K B} {p q : LinearProgram K B} : s.program? i = some p → c.Torn p q →
    (∀ drop, c ≠ .removeRows drop) → Torn s (.edit i c) (s.store i q)
  | removeRows {i : Nat} {drop : List Int} {p : LinearProgram K B} : s.program? i = some p →
    p.rows.reach (LinearProgram.kept p.numRows drop) ≠ 4 → Torn s (.edit i (.removeRows drop)) (s.removeRows i drop).2

/-- The shelf after some calls; calls that failed count with what they left. -/
def after (history : List (Call K B)) : Shelf K B := history.foldl (fun s c => (c.run s).2) {}

/-- A call other than one that adds a row with a bound that cannot be read. -/
def Call.Readable : Call K B → Prop
  | .edit _ c => c.Readable
  | _ => True

/-! ## What calls keep -/

/-- A program with another objective has the tables of the first one. -/
theorem withObjective_eq_ok {terms : List (GivenTerm K)} {constant : Except Error K} {sense : Option Sense} {j : Nat}
    (h : s.withObjective i terms constant sense = .ok (s', j)) : ∃ p q e, s.program? i = some p ∧ s.entries[i]? = some e
      ∧ LinearProgram.Call.Done p (.setObjective terms constant sense) q
      ∧ s' = { s with entries := s.entries ++ [{ e with objective := q.objective }] } := by
  unfold withObjective at h
  cases hp : s.program? i with
  | none =>
    rw [hp] at h
    cases h
  | some p =>
    obtain ⟨e, hentry, -⟩ := program?_eq_some_iff.mp hp
    rw [hp, hentry] at h
    dsimp only at h
    rcases hset : (LinearProgram.setObjective terms constant sense).run p with ⟨r, q⟩
    rw [hset] at h
    cases r with
    | error err => cases h
    | ok a =>
      cases h
      exact ⟨p, q, e, rfl, hentry, (LinearProgram.ends_setObjective terms constant sense).done a q hset, rfl⟩

theorem Sound.withObjective (h : s.Sound) {terms : List (GivenTerm K)} {constant : Except Error K} {sense : Option Sense}
    {j : Nat} (hrun : s.withObjective i terms constant sense = .ok (s', j)) : s'.Sound := by
  obtain ⟨p, q, e, hp, hentry, hdone, rfl⟩ := withObjective_eq_ok hrun
  obtain ⟨e', hentry', hcolumns, hrows, -, -⟩ := program?_eq_some_iff.mp hp
  obtain rfl := Option.some.inj (hentry'.symm.trans hentry)
  have hq := hdone.clean (h.clean hp)
  have hsame : q.columns = p.columns ∧ q.rows = p.rows := by
    cases hdone
    exact ⟨rfl, rfl⟩
  have hextend := h.extend [] [] { e' with objective := q.objective } hq
    (fun e he => (List.mem_append.mp he).imp_right List.mem_singleton.mp)
    (by rw [List.append_nil, hsame.1]; exact hcolumns)
    (by rw [List.append_nil, hsame.2]; exact (RowPlaces.read_eq_some_iff.mp hrows).1) rfl
    fun e he heq => h.shared e he e' (List.mem_of_getElem? hentry) heq
  rwa [List.append_nil, List.append_nil] at hextend

theorem Level.withObjective (h : s.Level) {terms : List (GivenTerm K)} {constant : Except Error K} {sense : Option Sense}
    {j : Nat} (hrun : s.withObjective i terms constant sense = .ok (s', j)) : s'.Level := by
  obtain ⟨p, q, e, -, hentry, -, rfl⟩ := withObjective_eq_ok hrun
  refine ⟨fun e' he' => ?_, h.aligned⟩
  rcases List.mem_append.mp he' with he' | he'
  · exact h.whole e' he'
  · exact List.mem_singleton.mp he' ▸ h.whole e (List.mem_of_getElem? hentry)

/-- **All that an edit can do:** the program is changed in the tables that it uses, or nothing is changed and the call fails, or it
fails and leaves the program torn. -/
theorem edit_cases (s : Shelf K B) (i : Nat) (c : LinearProgram.Call K B) :
    (∃ err, s.edit i c.edit = (.error err, s)) ∨ ∃ p q, s.program? i = some p ∧
      (c.Done p q ∧ s.edit i c.edit = (.ok ⟨⟩, s.store i q) ∨ c.Torn p q ∧ ∃ err, s.edit i c.edit = (.error err, s.store i q)) := by
  unfold edit
  cases hp : s.program? i with
  | none => exact .inl ⟨_, rfl⟩
  | some p =>
    dsimp only
    have hends := c.ends p
    rcases hrun : c.edit.run p with ⟨r, q⟩
    cases r with
    | ok a => exact .inr ⟨p, q, rfl, .inl ⟨hends.done a q hrun, rfl⟩⟩
    | error err =>
      rcases hends.failed err q hrun with rfl | htorn
      · exact .inl ⟨err, by rw [store_self hp]⟩
      · exact .inr ⟨p, q, rfl, .inr ⟨htorn, err, rfl⟩⟩

theorem Sound.editBy (h : s.Sound) (i : Nat) (c : LinearProgram.Call K B) : (s.editBy i c).2.Sound := by
  have hedit : (s.edit i c.edit).2.Sound := by
    rcases edit_cases s i c with ⟨err, hs⟩ | ⟨p, q, hp, ⟨hdone, hs⟩ | ⟨htorn, err, hs⟩⟩
    · rwa [hs]
    · rw [hs]
      exact h.store hp hdone.numColumns_le (hdone.clean (h.clean hp))
    · rw [hs]
      exact h.store hp (congrArg List.length htorn.columns_eq).ge (htorn.clean (h.clean hp))
  cases c with
  | removeRows drop => exact h.removeRows i drop
  | _ => exact hedit

theorem Level.editBy (h : s.Level) (i : Nat) {c : LinearProgram.Call K B} (hc : c.Readable) : (s.editBy i c).2.Level := by
  have hedit : (s.edit i c.edit).2.Level := by
    rcases edit_cases s i c with ⟨err, hs⟩ | ⟨p, q, hp, ⟨hdone, hs⟩ | ⟨htorn, err, hs⟩⟩
    · rwa [hs]
    · rw [hs]
      exact h.store (hdone.aligned (h.program hp))
    · rw [hs]
      exact h.store (htorn.aligned hc (h.program hp))
  cases c with
  | removeRows drop => exact h.removeRows i drop
  | _ => exact hedit

/-- **No call makes a row or an objective mention a column that does not exist,** whether it fails or not. -/
theorem Sound.run (h : s.Sound) (c : Call K B) : (c.run s).2.Sound := by
  cases c with
  | make name => exact h.insert (LinearProgram.clean_empty name)
  | edit i c => exact h.editBy i c
  | clone i =>
    unfold Call.run
    dsimp only
    split
    next p hp => exact h.insert (h.clean hp)
    next => exact h
  | withObjective i terms constant sense =>
    unfold Call.run
    dsimp only
    split
    next s' j hrun => exact h.withObjective hrun
    next => exact h

/-- **No call but one tears a table of rows.** -/
theorem Level.run (h : s.Level) {c : Call K B} (hc : c.Readable) : (c.run s).2.Level := by
  cases c with
  | make name => exact h.insert ⟨rfl, rfl, rfl⟩
  | edit i c => exact h.editBy i hc
  | clone i =>
    unfold Call.run
    dsimp only
    split
    next p hp => exact h.insert (h.program hp)
    next => exact h
  | withObjective i terms constant sense =>
    unfold Call.run
    dsimp only
    split
    next s' j hrun => exact h.withObjective hrun
    next => exact h

end

end Shelf

end RobustLP
