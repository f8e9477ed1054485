import RobustLP.Proofs.Model.Translation
import RobustLP.Proofs.Reformulation
import RobustLP.Proofs.Set.Points

/-!
# Reformulations in a program

The rows of a reformulation refer to columns of the program by their positions there, and to auxiliary columns by their positions
in the reformulation. When it is injected, the auxiliary columns come behind the columns of the program, so that the same
reformulation has other columns in each program (`AuxColumn.position`). What injections leave is computed for any numbers
(`WorkingModel.run_injectInto`, `WorkingModel.run_injectAll`).

In exact arithmetic, an auxiliary row and the row that it becomes have the same value, where the columns of the program have the
numbers that the reformulation gives them (`AuxRow.holds_iff_tableRow`). So what is injected holds where the reformulation does
(`Reformulation.holds_iff_holdsBehind`), and what several injections leave holds where all of their reformulations do
(`WorkingModel.injections_embed`).
-/

namespace RobustLP

open ExtRat UncertaintySet

section

variable {K B : Type} {n count : Nat}

/-! ## Columns that exist -/

/-- A column of an auxiliary row exists, as one of the first `n` of the program or as one of `count` auxiliary ones. -/
def AuxColumn.InRange (n count : Nat) : AuxColumn → Prop
  | existing j => 0 ≤ j ∧ j < n
  | auxiliary i => i < count
  | stray _ => False

instance (n count : Nat) : (c : AuxColumn) → Decidable (c.InRange n count)
  | .existing j => inferInstanceAs (Decidable (0 ≤ j ∧ j < n))
  | .auxiliary i => inferInstanceAs (Decidable (i < count))
  | .stray _ => inferInstanceAs (Decidable False)

/-- The rows of a reformulation mention only the first `n` columns of a program and auxiliary columns of the reformulation. -/
def Reformulation.OverColumns (n : Nat) (f : Reformulation K B) : Prop :=
  ∀ r ∈ f.constraints, ∀ t ∈ r.terms, t.1.InRange n f.auxiliaries.length

instance (n : Nat) (f : Reformulation K B) : Decidable (f.OverColumns n) :=
  inferInstanceAs (Decidable (∀ r ∈ f.constraints, ∀ t ∈ r.terms, t.1.InRange n f.auxiliaries.length))

/-- The number of auxiliary columns of reformulations. -/
def auxiliaryCount (fs : List (Reformulation K B)) : Nat := (fs.map fun f => f.auxiliaries.length).sum

/-- Reformulations that are injected one after another into a program with `n` columns: each mentions only columns that exist
when its turn comes, and its own. -/
def OverColumnsInTurn (n : Nat) (fs : List (Reformulation K B)) : Prop :=
  ∀ (k : Nat) (f : Reformulation K B), fs[k]? = some f → f.OverColumns (n + auxiliaryCount (fs.take k))

theorem overColumnsInTurn_cons {f : Reformulation K B} {fs : List (Reformulation K B)} :
    OverColumnsInTurn n (f :: fs) ↔ f.OverColumns n ∧ OverColumnsInTurn (n + f.auxiliaries.length) fs := by
  have hcount (k : Nat) : n + auxiliaryCount ((f :: fs).take (k + 1))
      = n + f.auxiliaries.length + auxiliaryCount (fs.take k) := (Nat.add_assoc ..).symm
  constructor
  · intro h
    exact ⟨h 0 f rfl, fun k g hg => hcount k ▸ h (k + 1) g hg⟩
  · rintro ⟨hf, hfs⟩ k g hg
    cases k with
    | zero =>
      cases hg
      exact hf
    | succ k => exact hcount k ▸ hfs k g hg

/-- The position of a column of an auxiliary row in a program where the auxiliary columns are those from `n` on. -/
def AuxColumn.position (n : Nat) : AuxColumn → Nat
  | existing j => j.toNat
  | auxiliary i => n + i
  | stray _ => 0

theorem AuxColumn.InRange.position_lt {c : AuxColumn} (h : c.InRange n count) : c.position n < n + count := by
  cases c with
  | existing j =>
    obtain ⟨hnonneg, hj⟩ : 0 ≤ j ∧ j < n := h
    simp only [position]
    omega
  | auxiliary i => exact Nat.add_lt_add_left h n
  | stray name => exact h.elim

theorem AuxColumn.InRange.resolveColumn {c : AuxColumn} (h : c.InRange n count) (rowName : Option String) :
    WorkingModel.resolveColumn (List.range' n count) rowName c = .ok (c.position n : Int) := by
  cases c with
  | existing j => exact congrArg Except.ok (Int.toNat_of_nonneg h.1).symm
  | auxiliary i =>
    have hget : (List.range' n count)[i]? = some (n + i) := by
      rw [List.getElem?_range' h, Nat.one_mul]
    simp only [WorkingModel.resolveColumn, hget, position]
  | stray name => exact h.elim

/-! ## Places of auxiliary columns -/

/-- An auxiliary column has become a column of a program, with its bounds, and with its name if it has one. -/
structure AuxVariable.Becomes (v : AuxVariable B) (c : Column B) : Prop where
  lower : c.lower = v.lower
  upper : c.upper = v.upper
  continuous : c.integer = false
  name : ∀ name, v.name = some name → c.name = name

theorem AuxVariable.becomes_column (v : AuxVariable B) (j : Nat) : v.Becomes (v.column j) where
  lower := rfl
  upper := rfl
  continuous := rfl
  name name h := by rw [column, h, Option.getD_some]

/-- Auxiliary columns are found at given positions of a list of columns. -/
def PlacedAt (columns : List (Column B)) (vs : List (AuxVariable B)) (places : List Nat) : Prop :=
  List.Forall₂ (fun v j => ∃ c, columns[j]? = some c ∧ v.Becomes c) vs places

theorem placedAt_auxiliaryColumns : ∀ (vs : List (AuxVariable B)) (columns more : List (Column B)),
    PlacedAt (columns ++ (auxiliaryColumns columns.length vs ++ more)) vs (List.range' columns.length vs.length)
  | [], _, _ => .nil
  | v :: vs, columns, more => by
    have htail := placedAt_auxiliaryColumns vs (columns ++ [v.column columns.length]) more
    rw [List.length_append, List.append_assoc] at htail
    refine .cons ⟨v.column columns.length, ?_, v.becomes_column _⟩ htail
    rw [List.getElem?_append_right le_rfl, Nat.sub_self]
    rfl

/-- The positions of the auxiliary columns of reformulations that are injected one after another. -/
def placesFrom (n : Nat) : List (Reformulation K B) → List (List Nat)
  | [] => []
  | f :: fs => List.range' n f.auxiliaries.length :: placesFrom (n + f.auxiliaries.length) fs

/-- The columns that those of reformulations become. -/
def columnsFrom (n : Nat) : List (Reformulation K B) → List (Column B)
  | [] => []
  | f :: fs => auxiliaryColumns n f.auxiliaries ++ columnsFrom (n + f.auxiliaries.length) fs

theorem placedAt_columnsFrom : ∀ (fs : List (Reformulation K B)) (columns : List (Column B)),
    List.Forall₂ (fun f places => PlacedAt (columns ++ columnsFrom columns.length fs) f.auxiliaries places) fs
      (placesFrom columns.length fs)
  | [], _ => .nil
  | f :: fs, columns => by
    have htail := placedAt_columnsFrom fs (columns ++ auxiliaryColumns columns.length f.auxiliaries)
    rw [List.length_append, length_auxiliaryColumns, List.append_assoc] at htail
    exact .cons (placedAt_auxiliaryColumns ..) htail

/-- The positions are those behind the first `n`, each once. -/
theorem flatten_placesFrom : ∀ (n : Nat) (fs : List (Reformulation K B)),
    (placesFrom n fs).flatten = List.range' n (columnsFrom n fs).length
  | _, [] => rfl
  | n, f :: fs => by
    rw [placesFrom, List.flatten_cons, flatten_placesFrom, columnsFrom, List.length_append, length_auxiliaryColumns,
      List.range'_append_1]

/-! ## Rows -/

section

variable [Scalar K B]

/-- The row that an auxiliary row becomes at position `i`. -/
def AuxRow.tableRow (n : Nat) (r : AuxRow K B) (i : Nat) : TableRow K B where
  coefs := collect (r.terms.map fun t => (t.1.position n, t.2))
  lower := r.lower
  upper := r.upper
  name := r.name.getD s!"_row{i}"

/-- The rows that auxiliary rows become, the first one at position `m`. -/
def auxiliaryRows (n m : Nat) (rs : List (AuxRow K B)) : List (TableRow K B) := (rs.zipIdx m).map fun r => r.1.tableRow n r.2

theorem length_auxiliaryRows (n m : Nat) (rs : List (AuxRow K B)) : (auxiliaryRows n m rs).length = rs.length := by
  rw [auxiliaryRows, List.length_map, List.length_zipIdx]

/-- The rows that those of reformulations become. -/
def rowsFrom (n m : Nat) : List (Reformulation K B) → List (TableRow K B)
  | [] => []
  | f :: fs => auxiliaryRows n m f.constraints ++ rowsFrom (n + f.auxiliaries.length) (m + f.constraints.length) fs

/-! ## Injecting -/

namespace WorkingModel

variable [Bound B] {p : LinearProgram K B}

/-- An auxiliary row that mentions columns that exist becomes the last row. -/
theorem run_injectRow {r : AuxRow K B} (h : ∀ t ∈ r.terms, t.1.InRange n count) (hp : p.numColumns = n + count) :
    (injectRow (List.range' n count) r).run p = (.ok ⟨⟩, p.grow [] [r.tableRow n p.rows.names.length]) := by
  have hterms : (r.terms.mapM fun t : AuxColumn × K => do
      return ((.ok (← Edit.lift (resolveColumn (List.range' n count) r.name t.1)), .ok t.2) : GivenTerm K)).run p
        = (.ok (LinearProgram.given (r.terms.map fun t => (t.1.position n, t.2))), p) := by
    rw [LinearProgram.given, List.map_map]
    refine Edit.run_mapM_ok_map fun t ht => ?_
    rw [(h t ht).resolveColumn]
    rfl
  have hin : ∀ s ∈ r.terms.map fun t => (t.1.position n, t.2), s.1 < p.numColumns := by
    intro s hs
    obtain ⟨t, ht, rfl⟩ := List.mem_map.mp hs
    exact hp ▸ (h t ht).position_lt
  rw [injectRow, Edit.run_bind_of_ok hterms]
  exact Edit.run_bind_of_ok (LinearProgram.run_pushRow hin r.name)

theorem run_injectRows : ∀ {rs : List (AuxRow K B)} {p : LinearProgram K B},
    (∀ r ∈ rs, ∀ t ∈ r.terms, t.1.InRange n count) → p.numColumns = n + count →
      (rs.forM (injectRow (List.range' n count))).run p = (.ok ⟨⟩, p.grow [] (auxiliaryRows n p.rows.names.length rs))
  | [], p, _, _ => congrArg (Prod.mk _) p.grow_nil.symm
  | r :: rs, p, h, hp => by
    have hfirst := run_injectRow (h r List.mem_cons_self) hp
    have hcolumns := (p.numColumns_growRows [r.tableRow n p.rows.names.length]).trans hp
    have hrest := run_injectRows (fun s hs => h s (List.mem_cons_of_mem _ hs)) hcolumns
    have hsteps : (r :: rs).forM (injectRow (K := K) (List.range' n count))
        = (injectRow (List.range' n count) r >>= fun _ => rs.forM (injectRow (List.range' n count))) := rfl
    rw [hsteps, Edit.run_bind_of_ok hfirst, hrest, LinearProgram.numNames_grow, LinearProgram.grow_grow]
    rfl

/-- **A reformulation** that mentions columns that exist is injected: its columns and its rows come behind those of the
program. -/
theorem run_injectInto {f : Reformulation K B} (h : f.OverColumns p.numColumns) :
    (injectInto f).run p = (.ok (List.range' p.numColumns f.auxiliaries.length),
      p.grow (auxiliaryColumns p.numColumns f.auxiliaries)
        (auxiliaryRows p.numColumns p.rows.names.length f.constraints)) := by
  have hcolumns : (p.grow (auxiliaryColumns p.numColumns f.auxiliaries) []).numColumns
      = p.numColumns + f.auxiliaries.length := by
    rw [LinearProgram.numColumns_grow, length_auxiliaryColumns]
  have hnames : (p.grow (auxiliaryColumns p.numColumns f.auxiliaries) []).rows.names = p.rows.names := List.append_nil _
  rw [injectInto, Edit.run_bind_of_ok (run_injectVariables_eq_grow _ p), Edit.run_bind_of_ok (run_injectRows h hcolumns), hnames,
    LinearProgram.grow_grow, List.append_nil]
  rfl

/-- **Reformulations are injected one after another:** of a working model only the program changes, and it only gets the columns
and rows of the reformulations behind its own. -/
theorem run_injectAll : ∀ (fs : List (Reformulation K B)) (wm : WorkingModel K B),
    OverColumnsInTurn wm.program.numColumns fs → (fs.mapM fun f => editProgram (injectInto f)).run wm
      = (.ok (placesFrom wm.program.numColumns fs), { wm with
        program := wm.program.grow (columnsFrom wm.program.numColumns fs)
          (rowsFrom wm.program.numColumns wm.program.rows.names.length fs) })
  | [], wm, _ => by
    have hsame : wm.program.grow [] [] = wm.program := wm.program.grow_nil
    rw [columnsFrom, rowsFrom, hsame]
    rfl
  | f :: fs, wm, h => by
    obtain ⟨hf, hfs⟩ := overColumnsInTurn_cons.mp h
    have hfirst := run_editProgram (run_injectInto hf)
    let q := wm.program.grow (auxiliaryColumns wm.program.numColumns f.auxiliaries)
      (auxiliaryRows wm.program.numColumns wm.program.rows.names.length f.constraints)
    have hcolumns : q.numColumns = wm.program.numColumns + f.auxiliaries.length := by
      rw [LinearProgram.numColumns_grow, length_auxiliaryColumns]
    have hnames : q.rows.names.length = wm.program.rows.names.length + f.constraints.length := by
      rw [LinearProgram.numNames_grow, length_auxiliaryRows]
    have hrest := run_injectAll fs { wm with program := q } (hcolumns ▸ hfs)
    rw [hcolumns, hnames, LinearProgram.grow_grow] at hrest
    rw [List.mapM_cons, Edit.run_bind_of_ok hfirst, Edit.run_bind_of_ok hrest]
    rfl

/-- **What injections leave of a working model:** its program has further columns and rows behind its own, and nothing else is
changed. The further columns are the auxiliary ones, each of which has one for itself. -/
structure Injected (wm : WorkingModel K B) (fs : List (Reformulation K B)) (places : List (List Nat)) (columns : List (Column B))
    (rows : List (TableRow K B)) : Prop where
  run : (fs.mapM fun f => editProgram (injectInto f)).run wm
    = (.ok places, { wm with program := wm.program.grow columns rows })
  behind : places.flatten = List.range' wm.program.numColumns columns.length
  distinct : places.flatten.Nodup
  placed : List.Forall₂ (fun f places => PlacedAt (wm.program.columns ++ columns) f.auxiliaries places) fs places

theorem injected {wm : WorkingModel K B} {fs : List (Reformulation K B)} (h : OverColumnsInTurn wm.program.numColumns fs) :
    Injected wm fs (placesFrom wm.program.numColumns fs) (columnsFrom wm.program.numColumns fs)
      (rowsFrom wm.program.numColumns wm.program.rows.names.length fs) where
  run := run_injectAll fs wm h
  behind := flatten_placesFrom _ fs
  distinct := flatten_placesFrom wm.program.numColumns fs ▸ List.nodup_range'
  placed := placedAt_columnsFrom ..

end WorkingModel

end

end

/-! ## What is injected holds -/

/-- **Columns and rows behind those of a program hold** at numbers of the columns: they lie between their bounds. The first of the
columns is at position `n`. -/
structure HoldsBehind (n : Nat) (columns : List (Column ExtRat)) (rows : List (TableRow Rat ExtRat)) (x : Nat → Rat) :
    Prop where
  columns : ∀ i c, columns[i]? = some c → Between c.lower c.upper (x (n + i))
  rows : ∀ t ∈ rows, Between t.lower t.upper (lhs x t.coefs)

variable {n count : Nat} {x y z : Nat → Rat} {f : Reformulation Rat ExtRat}

theorem holdsBehind_append {columns more : List (Column ExtRat)} {rows rest : List (TableRow Rat ExtRat)} :
    HoldsBehind n (columns ++ more) (rows ++ rest) x
      ↔ HoldsBehind n columns rows x ∧ HoldsBehind (n + columns.length) more rest x := by
  constructor
  · rintro ⟨hcolumns, hrows⟩
    refine ⟨⟨fun i c hc => hcolumns i c ?_, fun t ht => hrows t (List.mem_append_left _ ht)⟩,
      ⟨fun i c hc => ?_, fun t ht => hrows t (List.mem_append_right _ ht)⟩⟩
    · rw [List.getElem?_append_left (List.getElem?_eq_some_iff.mp hc).1]
      exact hc
    · rw [Nat.add_assoc]
      refine hcolumns (columns.length + i) c ?_
      rw [List.getElem?_append_right (Nat.le_add_right ..), Nat.add_sub_cancel_left]
      exact hc
  · rintro ⟨⟨hcolumns, hrows⟩, hmore, hrest⟩
    refine ⟨fun i c hc => ?_, fun t ht => (List.mem_append.mp ht).elim (hrows t) (hrest t)⟩
    by_cases hi : i < columns.length
    · rw [List.getElem?_append_left hi] at hc
      exact hcolumns i c hc
    · rw [List.getElem?_append_right (not_lt.mp hi)] at hc
      have h := hmore (i - columns.length) c hc
      rwa [Nat.add_assoc, Nat.add_sub_cancel' (not_lt.mp hi)] at h

/-- A column of an auxiliary row has in the program the number that it has for the reformulation. -/
theorem AuxColumn.InRange.number_position {c : AuxColumn} (h : c.InRange n count) (hx : ∀ j < n, z j = x j)
    (hy : ∀ i < count, z (n + i) = y i) : z (c.position n) = c.value x y := by
  cases c with
  | existing j =>
    obtain ⟨hnonneg, hj⟩ : 0 ≤ j ∧ j < n := h
    exact hx j.toNat (by omega)
  | auxiliary i => exact hy i h
  | stray name => exact h.elim

/-- **An auxiliary row** says in the program what it says in the reformulation; the coefficients of a column that is repeated have
been summed. -/
theorem AuxRow.holds_iff_tableRow {r : AuxRow Rat ExtRat} (h : ∀ t ∈ r.terms, t.1.InRange n count)
    (hx : ∀ j < n, z j = x j) (hy : ∀ i < count, z (n + i) = y i) (i : Nat) :
    r.Holds x y ↔ Between (r.tableRow n i).lower (r.tableRow n i).upper (lhs z (r.tableRow n i).coefs) := by
  have hvalue : lhs z (r.tableRow n i).coefs = termsValue x y r.terms := by
    rw [tableRow, lhs_collect, lhs, List.map_map, termsValue]
    refine congrArg List.sum (List.map_congr_left fun t ht => ?_)
    exact congrArg (t.2 * ·) ((h t ht).number_position hx hy)
  rw [hvalue]
  exact Iff.rfl

/-- **A reformulation holds** at numbers of the columns of a program and of its auxiliary columns if and only if what is injected
holds at numbers of the columns of the larger program that agree with them. -/
theorem Reformulation.holds_iff_holdsBehind (h : f.OverColumns n) (hx : ∀ j < n, z j = x j)
    (hy : ∀ i < f.auxiliaries.length, z (n + i) = y i) (m : Nat) : f.Holds x y
      ↔ HoldsBehind n (auxiliaryColumns n f.auxiliaries) (auxiliaryRows n m f.constraints) z := by
  have hnumber {i : Nat} {v : AuxVariable ExtRat} (hv : f.auxiliaries[i]? = some v) : z (n + i) = y i :=
    hy i (List.getElem?_eq_some_iff.mp hv).1
  constructor
  · rintro ⟨hbounds, hrows⟩
    refine ⟨fun i c hc => ?_, fun t ht => ?_⟩
    · rw [getElem?_auxiliaryColumns] at hc
      obtain ⟨v, hv, rfl⟩ := Option.map_eq_some_iff.mp hc
      rw [hnumber hv]
      exact hbounds (v, i) (List.mk_mem_zipIdx_iff_getElem?.mpr hv)
    · obtain ⟨q, hq, rfl⟩ := List.mem_map.mp ht
      have hr := List.fst_mem_of_mem_zipIdx hq
      exact (AuxRow.holds_iff_tableRow (h q.1 hr) hx hy q.2).mp (hrows q.1 hr)
  · rintro ⟨hcolumns, hrows⟩
    refine ⟨fun q hq => ?_, fun r hr => ?_⟩
    · have hv := List.mk_mem_zipIdx_iff_getElem?.mp hq
      rw [← hnumber hv]
      exact hcolumns q.2 (q.1.column (n + q.2)) (by rw [getElem?_auxiliaryColumns, hv]; rfl)
    · obtain ⟨i, hi⟩ := List.mem_iff_getElem?.mp hr
      refine (AuxRow.holds_iff_tableRow (h r hr) hx hy (m + i)).mpr (hrows _ (List.mem_map.mpr ⟨(r, m + i), ?_, rfl⟩))
      exact List.mk_add_mem_zipIdx_iff_getElem?.mpr hi

/-! ## Several reformulations -/

theorem entries_append_left {u w : List Rat} {j : Nat} (h : j < u.length) : entries (u ++ w) j = entries u j := by
  rw [entries, entries, List.getElem?_append_left h]

theorem entries_append_right (u w : List Rat) (i : Nat) : entries (u ++ w) (u.length + i) = entries w i := by
  rw [entries, entries, List.getElem?_append_right (Nat.le_add_right ..), Nat.add_sub_cancel_left]

/-- **Reformulations hold in turn** at numbers `u` of the columns of a program and `ws` of their auxiliary columns: each one at the
numbers of the columns that exist when its turn comes, and of its own. -/
def HoldInTurn (u : List Rat) (fs : List (Reformulation Rat ExtRat)) (ws : List (List Rat)) : Prop :=
  ∀ (k : Nat) (f : Reformulation Rat ExtRat) (w : List Rat), fs[k]? = some f → ws[k]? = some w →
    f.Holds (entries (u ++ (ws.take k).flatten)) (entries w)

theorem holdInTurn_cons {u w : List Rat} {fs : List (Reformulation Rat ExtRat)} {ws : List (List Rat)} :
    HoldInTurn u (f :: fs) (w :: ws) ↔ f.Holds (entries u) (entries w) ∧ HoldInTurn (u ++ w) fs ws := by
  constructor
  · intro h
    refine ⟨?_, fun k g v hg hv => ?_⟩
    · have hfirst := h 0 f w rfl rfl
      rwa [List.take_zero, List.flatten_nil, List.append_nil] at hfirst
    · have hlater := h (k + 1) g v hg hv
      rwa [List.take_succ_cons, List.flatten_cons, ← List.append_assoc] at hlater
  · rintro ⟨hfirst, hlater⟩ k g v hg hv
    cases k with
    | zero =>
      cases hg
      cases hv
      rwa [List.take_zero, List.flatten_nil, List.append_nil]
    | succ k =>
      rw [List.take_succ_cons, List.flatten_cons, ← List.append_assoc]
      exact hlater k g v hg hv

/-- Numbers for all auxiliary columns of reformulations. -/
def Valued (fs : List (Reformulation Rat ExtRat)) (ws : List (List Rat)) : Prop :=
  List.Forall₂ (fun f w => w.length = f.auxiliaries.length) fs ws

/-- **All that is injected holds** if and only if the reformulations hold in turn. The induction goes along the injections: what
the first one adds are columns of the program for the later ones. -/
theorem holdInTurn_iff_holdsBehind : ∀ {fs : List (Reformulation Rat ExtRat)} {u : List Rat} {ws : List (List Rat)} (m : Nat),
    OverColumnsInTurn u.length fs → Valued fs ws →
      (HoldInTurn u fs ws
        ↔ HoldsBehind u.length (columnsFrom u.length fs) (rowsFrom u.length m fs) (entries (u ++ ws.flatten)))
  | [], _, _, _, _, _ => ⟨fun _ => ⟨nofun, nofun⟩, fun _ => nofun⟩
  | f :: fs, u, w :: ws, m, h, .cons hw hws => by
    obtain ⟨hf, hfs⟩ := overColumnsInTurn_cons.mp h
    have hlength : (u ++ w).length = u.length + f.auxiliaries.length := by rw [List.length_append, hw]
    have hold (j : Nat) (hj : j < u.length) : entries (u ++ (w ++ ws.flatten)) j = entries u j := entries_append_left hj
    have hnew (i : Nat) (hi : i < f.auxiliaries.length) : entries (u ++ (w ++ ws.flatten)) (u.length + i) = entries w i :=
      (entries_append_right ..).trans (entries_append_left (hw.symm ▸ hi))
    have hnext : OverColumnsInTurn (u ++ w).length fs := hlength ▸ hfs
    have hlater := holdInTurn_iff_holdsBehind (m + f.constraints.length) hnext hws
    rw [hlength, List.append_assoc] at hlater
    rw [holdInTurn_cons, columnsFrom, rowsFrom, List.flatten_cons, holdsBehind_append, length_auxiliaryColumns,
      Reformulation.holds_iff_holdsBehind hf hold hnew m, hlater]

namespace WorkingModel

/-- **Injections embed reformulations in a program.** Reformulations that mention only columns that exist, and their own, can be
injected one after another. The columns, rows and objective of the program stay as they are and precede what is new; the new columns
are those of the reformulations, with their bounds, each auxiliary column at a place of its own. In exact arithmetic, numbers of the
old columns and of the auxiliary ones satisfy a reformulation if and only if, put one behind the other, they satisfy the columns
and rows that its injection adds; and they satisfy several reformulations if and only if they satisfy all that these add. -/
theorem injections_embed :
    (∀ {K B : Type} [Bound B] [Scalar K B] (wm : WorkingModel K B) (fs : List (Reformulation K B)),
      OverColumnsInTurn wm.program.numColumns fs → ∃ places columns rows, Injected wm fs places columns rows)
    ∧ (∀ (wm : WorkingModel Rat ExtRat) (f : Reformulation Rat ExtRat), f.OverColumns wm.program.numColumns →
      ∃ places columns rows, (editProgram (injectInto f)).run wm
          = (.ok places, { wm with program := wm.program.grow columns rows }) ∧
        ∀ u w : List Rat, u.length = wm.program.numColumns → w.length = f.auxiliaries.length →
          (f.Holds (entries u) (entries w) ↔ HoldsBehind wm.program.numColumns columns rows (entries (u ++ w))))
    ∧ ∀ (wm : WorkingModel Rat ExtRat) (fs : List (Reformulation Rat ExtRat)), OverColumnsInTurn wm.program.numColumns fs →
      ∃ places columns rows, Injected wm fs places columns rows ∧
        ∀ (u : List Rat) (ws : List (List Rat)), u.length = wm.program.numColumns → Valued fs ws →
          (HoldInTurn u fs ws ↔ HoldsBehind wm.program.numColumns columns rows (entries (u ++ ws.flatten))) := by
  refine ⟨?_, ?_, ?_⟩
  · intro K B _ _ wm fs h
    exact ⟨_, _, _, injected h⟩
  · intro wm f h
    refine ⟨_, _, _, run_editProgram (run_injectInto h), fun u w hu hw => ?_⟩
    rw [← hu] at h ⊢
    exact Reformulation.holds_iff_holdsBehind h (fun j hj => entries_append_left hj) (fun i _ => entries_append_right u w i) _
  · intro wm fs h
    refine ⟨_, _, _, injected h, fun u ws hu hws => ?_⟩
    rw [← hu] at h ⊢
    exact holdInTurn_iff_holdsBehind _ h hws

/-- A program with two columns and a row. -/
def shared : WorkingModel Rat ExtRat where
  program :=
    { columns := [⟨finite 0, finite 9, false, "x"⟩, ⟨negInf, posInf, true, "n"⟩]
      rows := { coefs := [[(0, 1), (1, 1)]], lower := [negInf], upper := [finite 10], names := ["total"] }
      objective := { terms := [(0, 1)], constant := 0 } }
  objective := { constant := .ofConstant 0 }
  userColumns := 2

/-- A row that mentions an auxiliary column twice, and a column of the program that cancels. -/
def repeating : Reformulation Rat ExtRat where
  auxiliaries := [⟨finite 0, posInf, some "y"⟩, ⟨negInf, posInf, none⟩]
  constraints :=
    [{ terms := [(.existing 0, 1), (.auxiliary 0, 2), (.existing 1, 3), (.auxiliary 0, 1), (.existing 1, -3), (.auxiliary 1, -1)]
       lower := finite 1, upper := posInf, name := some "r" }]

/-- A row that mentions an auxiliary column of the reformulation before. -/
def linking : Reformulation Rat ExtRat where
  auxiliaries := [⟨finite 0, finite 5, some "y"⟩]
  constraints := [{ terms := [(.existing 2, 1), (.auxiliary 0, -1)], lower := finite 0, upper := finite 0, name := none }]

theorem overColumns_linking : OverColumnsInTurn shared.program.numColumns [repeating, linking] :=
  overColumnsInTurn_cons.mpr ⟨by decide, overColumnsInTurn_cons.mpr ⟨by decide, nofun⟩⟩

/-- Where the two auxiliary columns of the first reformulation have the numbers 2 and 4, the one of the second has to be 2. -/
theorem injections_embed_linking : ∃ columns rows, Injected shared [repeating, linking] [[2, 3], [4]] columns rows
    ∧ HoldsBehind 2 columns rows (entries [1, 7, 2, 4, 2]) ∧ ¬HoldsBehind 2 columns rows (entries [1, 7, 2, 4, 3])
    ∧ ∃ columns rows, (editProgram (injectInto repeating)).run shared
        = (.ok [2, 3], { shared with program := shared.program.grow columns rows })
      ∧ HoldsBehind 2 columns rows (entries [1, 7, 2, 4]) := by
  obtain ⟨places, columns, rows, hinjected, hall⟩ := injections_embed.2.2 shared [repeating, linking] overColumns_linking
  obtain ⟨cols, columns', rows', hrun, hone⟩ := injections_embed.2.1 shared repeating (by decide)
  have hfirst : repeating.Holds (entries [1, 7]) (entries [2, 4]) := by decide +kernel
  have hplaces : (([repeating, linking].mapM fun f => editProgram (injectInto f)).run shared).1.toOption
      = some [[2, 3], [4]] := by decide
  have hcols : ((editProgram (injectInto repeating)).run shared).1.toOption = some [2, 3] := by decide
  rw [hinjected.run] at hplaces
  rw [hrun] at hcols
  cases hplaces
  cases hcols
  refine ⟨columns, rows, hinjected, ?_, fun h => ?_, columns', rows', hrun, (hone [1, 7] [2, 4] rfl rfl).mp hfirst⟩
  · refine (hall [1, 7] [[2, 4], [2]] rfl (.cons rfl (.cons rfl .nil))).mp ?_
    exact holdInTurn_cons.mpr ⟨hfirst, holdInTurn_cons.mpr ⟨by decide +kernel, nofun⟩⟩
  · have hturn := (hall [1, 7] [[2, 4], [3]] rfl (.cons rfl (.cons rfl .nil))).mpr h
    exact absurd (holdInTurn_cons.mp (holdInTurn_cons.mp hturn).2).1 (by decide +kernel)

end WorkingModel

end RobustLP
