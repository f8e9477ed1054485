import RobustLP.Proofs.Solve.Oracles
import RobustLP.Proofs.Solve.Questions

/-!
# The stages before the loop

Preparing a solve adds the rows without parameters to the program and sets up the oracles of the others (`ensures_prepare`).
Reformulating adds what the oracles answer in place of the other rows (`ensures_reformulateRows`): at every point of the program
that is left, the rows of dualizing oracles hold robustly, and those of separating oracles at their nominal points if these were
asked for.
-/

namespace RobustLP

open ExtRat UncertaintySet Run

/-- **A row holds robustly,** up to a slack: at every point of the set it lies between its bounds. -/
def MixedRow.Robust (s : UncertaintySet Rat ExtRat) (slack : Rat) (x : Nat → Rat) (row : MixedRow Rat ExtRat) : Prop :=
  ∀ v, s.Solves v → s.Integral v → row.HoldsWithin slack x v

/-- A row lies between its bounds, for numbers of the columns and the parameters. -/
def MixedRow.Holds (x u : Nat → Rat) (row : MixedRow Rat ExtRat) : Prop :=
  Between row.lower row.upper (row.form.value x u)

theorem MixedRow.holdsWithin_zero {x u : Nat → Rat} {row : MixedRow Rat ExtRat} :
    row.HoldsWithin 0 x u ↔ row.Holds x u := within_zero

/-- Whether the oracle of a number is driven by separation. -/
def separates (os : List (Oracle Rat ExtRat)) (o : OracleId) : Bool := (os[o]?.map Oracle.usesSeparation).getD false

/-- Whether the oracle of a row is driven by separation. -/
def separatesRow (os : List (Oracle Rat ExtRat)) (row : MixedRow Rat ExtRat) : Bool :=
  (row.oracle.map (separates os)).getD false

/-- The nominal point of a separating oracle. -/
def nominalAt (os : List (Oracle Rat ExtRat)) (o : OracleId) : Option (List Rat) :=
  match os[o]? with
  | some (.separating _ sep) => sep.nominal
  | _ => none

/-- **All oracles of some rows are ready,** each one for the sort that it had at the beginning. -/
def Readied (s : UncertaintySet Rat ExtRat) (tolerance : Option Rat) (drawn : List Rat → Prop)
    (os₀ : List (Oracle Rat ExtRat)) (ids : List OracleId) : Condition :=
  fun os => ∀ o ∈ ids, ∃ x, os[o]? = some x ∧ x.Prepared s tolerance drawn (separates os₀ o)

/-- **What a program says of a row** in whose place the answer of its oracle was added: the row holds robustly if the oracle
dualizes, and at the nominal point if it separates. -/
structure MixedRow.Replaced (s : UncertaintySet Rat ExtRat) (os₀ os : List (Oracle Rat ExtRat)) (x : Nat → Rat)
    (row : MixedRow Rat ExtRat) : Prop where
  robust : separatesRow os₀ row = false → row.Robust s 0 x
  nominal : ∀ o z, row.oracle = some o → nominalAt os o = some z → row.Holds x (entries z)

/-- The oracle of a row is ready. -/
theorem Readied.of_mem {s : UncertaintySet Rat ExtRat} {tolerance : Option Rat} {drawn : List Rat → Prop}
    {os₀ os : List (Oracle Rat ExtRat)} {rows : List (MixedRow Rat ExtRat)}
    (h : Readied s tolerance drawn os₀ (SolveLoop.oraclesOf rows) os) {row : MixedRow Rat ExtRat} (hrow : row ∈ rows)
    {o : OracleId} (ho : row.oracle = some o) :
    ∃ x, os[o]? = some x ∧ x.Prepared s tolerance drawn (separatesRow os₀ row) := by
  rw [separatesRow, ho]
  exact h o (mem_oraclesOf.mpr ⟨row, hrow, ho⟩)

namespace RobustSolve

variable {right : LinearProgram Rat ExtRat → SolverResults Rat → Prop} {s : UncertaintySet Rat ExtRat}
  {drawn : List Rat → Prop} {P : Condition}

theorem ensures_editing {α : Type} (e : Edit (LinearProgram Rat ExtRat) α) (p : LinearProgram Rat ExtRat) :
    Ensures right (editing e p) P fun p' os => P os ∧ ∃ a, e.run p = (.ok a, p') := by
  unfold editing
  split
  next a p' hrun => exact .pure fun os hP => ⟨hP, a, hrun⟩
  next => exact .throw _

/-- **Adding to a program one after the other** adds all of it. -/
theorem ensures_adding {α : Type} {f : LinearProgram Rat ExtRat → α → Run Rat ExtRat (LinearProgram Rat ExtRat)}
    {plain : α → Prop} {S : α → (Nat → Rat) → Prop} (hf : ∀ a q, Ensures right (f q a) P fun q' os =>
      P os ∧ (q.rows.Aligned → q.Adds (plain a) (S a) q')) : ∀ (l : List α) (p : LinearProgram Rat ExtRat),
    Ensures right (l.foldlM f p) P fun p' os => P os ∧ (p.rows.Aligned →
      p.Adds (∀ a ∈ l, plain a) (fun x => ∀ a ∈ l, S a x) p')
  | [], p => .pure fun os hP => ⟨hP, fun h => .refl h fun x a ha => absurd ha List.not_mem_nil⟩
  | a :: l, p => by
    rw [List.foldlM_cons]
    refine .bind (hf a p) fun q => (ensures_adding hf l q).keep.mono (fun _ h => h) ?_
    rintro p' os ⟨⟨hP, hrest⟩, hfirst⟩
    refine ⟨hP, fun h => ?_⟩
    have hhead := hfirst h
    exact (hhead.trans (hrest hhead.aligned)).congr List.forall_mem_cons.mp (fun _ hx => List.forall_mem_cons.mpr hx)
      fun _ _ hx => List.forall_mem_cons.mp hx

/-! ## Preparing -/

/-- **A row without parameters** says the same at all points of the parameters. -/
theorem ensures_addDeterministic (row : MixedRow Rat ExtRat) (p : LinearProgram Rat ExtRat) :
    Ensures right (addDeterministic p row) P fun p' os => P os ∧ (p.rows.Aligned →
      p.Adds True (fun x => ∀ v, row.Holds x v) p') := by
  refine (ensures_editing _ p).mono (fun _ h => h) ?_
  rintro p' os ⟨hP, i, hrun⟩
  refine ⟨hP, fun h => ?_⟩
  obtain ⟨hdefined, hadds⟩ := LinearProgram.adds_addCutTo h hrun
  have hnone : ∀ k, k ∉ row.form.parameters := by
    intro k hk
    obtain ⟨a, ha⟩ := hdefined k hk
    cases ha
  refine hadds.congr id (fun x hx v => ?_) fun _ x hx => hx _
  rwa [MixedRow.Holds, MixedForm.value_congr (fun _ _ => rfl) fun k hk => absurd hk (hnone k)]

/-- **In the course of setting up** some oracles, none of them changes its sort, and those that are not ready are still to be set
up. -/
structure SettingUp (s : UncertaintySet Rat ExtRat) (tolerance : Option Rat) (drawn : List Rat → Prop)
    (os₀ : List (Oracle Rat ExtRat)) (ids rest : List OracleId) (os : List (Oracle Rat ExtRat)) : Prop where
  among : ∀ o ∈ rest, o ∈ ids
  parameters : ids ≠ [] → s.numParameters ≠ 0
  sorts : ∀ o ∈ ids, ∀ x, os[o]? = some x → x.Standard ∧ x.usesSeparation = separates os₀ o
  ready : ∀ o ∈ ids, o ∈ rest ∨ ∃ x, os[o]? = some x ∧ x.Prepared s tolerance drawn (separates os₀ o)

/-- An oracle that is ready takes its place. -/
theorem SettingUp.set {tolerance : Option Rat} {os₀ os : List (Oracle Rat ExtRat)} {ids rest : List OracleId} {o : OracleId}
    (h : SettingUp s tolerance drawn os₀ ids (o :: rest) os) {x x' : Oracle Rat ExtRat} (hx : os[o]? = some x)
    (hprepared : x'.Prepared s tolerance drawn x.usesSeparation) :
    SettingUp s tolerance drawn os₀ ids rest (os.set o x') := by
  have hlt := (List.getElem?_eq_some_iff.mp hx).1
  rw [(h.sorts o (h.among o List.mem_cons_self) x hx).2] at hprepared
  refine ⟨fun o' ho' => h.among o' (List.mem_cons_of_mem _ ho'), h.parameters, fun o' ho' y hy => ?_, fun o' ho' => ?_⟩
  · by_cases heq : o = o'
    · subst heq
      rw [List.getElem?_set_self hlt] at hy
      cases hy
      exact ⟨hprepared.standard, hprepared.usesSeparation⟩
    · rw [List.getElem?_set_ne heq] at hy
      exact h.sorts o' ho' y hy
  · by_cases heq : o = o'
    · subst heq
      rw [List.getElem?_set_self hlt]
      exact .inr ⟨x', rfl, hprepared⟩
    · rw [List.getElem?_set_ne heq]
      exact (h.ready o' ho').imp_left fun hmem => (List.mem_cons.mp hmem).resolve_left (Ne.symm heq)

/-- **Setting up all oracles** makes them ready. -/
theorem ensures_setUpAll (options : OracleOptions Rat) {os₀ : List (Oracle Rat ExtRat)} {ids : List OracleId} :
    Ensures (SolverResults.Draws s drawn) (ids.forM fun o => setUp o s options)
      (fun os => os = os₀ ∧ (ids ≠ [] → s.numParameters ≠ 0) ∧ ∀ o ∈ ids, ∀ x, os₀[o]? = some x → x.Standard)
      fun _ => Readied s options.tolerance drawn os₀ ids := by
  refine (Ensures.forM (I := SettingUp s options.tolerance drawn os₀ ids) (fun o rest => ?_) ids).mono ?_ ?_
  · refine (ensures_setUp (P := SettingUp s options.tolerance drawn os₀ ids rest) o options).mono ?_ fun _ _ h => h
    intro os h
    have ho := h.among o List.mem_cons_self
    exact ⟨h.parameters (List.ne_nil_of_mem ho), fun x hx => ⟨(h.sorts o ho x hx).1, fun x' => h.set hx⟩⟩
  · rintro os ⟨rfl, hsome, hstandard⟩
    refine ⟨fun o ho => ho, hsome, fun o ho x hx => ⟨hstandard o ho x hx, ?_⟩, fun o ho => .inl ho⟩
    rw [separates, hx]
    rfl
  · intro _ os h o ho
    exact (h.ready o ho).resolve_left List.not_mem_nil

/-- A row with parameters is about a set that has some. -/
theorem numParameters_ne_zero {r : MixedRow Rat ExtRat} (h : s.Covers r) (hdet : isDeterministic r = false) :
    s.numParameters ≠ 0 := by
  intro hzero
  have hnone : r.form.parameters = [] := by
    refine List.eq_nil_iff_forall_not_mem.mpr fun k hk => ?_
    exact absurd (h.parameters k hk) (hzero ▸ Nat.not_lt_zero k)
  rw [isDeterministic, MixedForm.isDeterministic_iff.mpr hnone] at hdet
  cases hdet

/-- The rows of a working model that involve parameters. -/
def uncertainRows (wm : WorkingModel Rat ExtRat) : List (MixedRow Rat ExtRat) := wm.rows.filter fun r => !isDeterministic r

theorem mem_uncertainRows {wm : WorkingModel Rat ExtRat} {r : MixedRow Rat ExtRat} :
    r ∈ uncertainRows wm ↔ r ∈ wm.rows ∧ isDeterministic r = false := by
  rw [uncertainRows, List.mem_filter, Bool.not_eq_true']

/-- **Preparing a solve** adds the rows without parameters, and makes the oracles of the others ready. -/
theorem ensures_prepare [Written Rat] [Written ExtRat] (drawn : List Rat → Prop) (os₀ : List (Oracle Rat ExtRat))
    (naming : Naming) (options : RobustOptions Rat) (m : Model Rat ExtRat) {wm : WorkingModel Rat ExtRat}
    (hs : UncertaintySet.ofModel naming m = .ok s) :
    Ensures (SolverResults.Draws s drawn) (prepare naming options m wm) (fun os => os = os₀ ∧ wm.program.rows.Aligned
      ∧ ∀ r ∈ uncertainRows wm, s.Covers r ∧ ∀ o, r.oracle = some o → ∀ x, os₀[o]? = some x → x.Standard) fun a os =>
      Readied s options.tolerance drawn os₀ (SolveLoop.oraclesOf a.2) os ∧ a.2 = uncertainRows wm
      ∧ wm.program.Adds True (fun x => ∀ r ∈ wm.rows, isDeterministic r = true → ∀ v, r.Holds x v) a.1 := by
  have hread : (Edit.lift (UncertaintySet.ofModel naming m) : Run Rat ExtRat _) = pure s := by rw [hs]; rfl
  unfold prepare
  rw [hread, pure_bind]
  refine .bind (ensures_adding ensures_addDeterministic _ wm.program).keep fun p => ?_
  dsimp only
  refine .bind (Q := fun _ os => Readied s options.tolerance drawn os₀ (SolveLoop.oraclesOf (uncertainRows wm)) os
    ∧ wm.program.Adds True (fun x => ∀ r ∈ wm.rows, isDeterministic r = true → ∀ v, r.Holds x v) p) ?_ fun _ => ?_
  · refine ((ensures_setUpAll options.forOracles).keep (p := wm.program.Adds True
      (fun x => ∀ r ∈ wm.rows, isDeterministic r = true → ∀ v, r.Holds x v) p)).mono ?_ fun _ _ hQ => hQ
    rintro os ⟨⟨hos, hadds⟩, haligned, huncertain⟩
    refine ⟨⟨hos, fun hids => ?_, fun o ho x hx => ?_⟩, (hadds haligned).congr (fun _ _ _ => trivial) (fun x hx r hr hdet =>
      hx r (List.mem_filter.mpr ⟨hr, hdet⟩)) fun _ x hx r hr => hx r (List.mem_filter.mp hr).1 (List.mem_filter.mp hr).2⟩
    · obtain ⟨o, ho⟩ := List.exists_mem_of_ne_nil _ hids
      obtain ⟨r, hr, -⟩ := mem_oraclesOf.mp ho
      exact numParameters_ne_zero (huncertain r hr).1 (mem_uncertainRows.mp hr).2
    · obtain ⟨r, hr, hro⟩ := mem_oraclesOf.mp ho
      exact (huncertain r hr).2 o hro x hx
  · refine .pure ?_
    rintro os ⟨hready, hadds⟩
    exact ⟨hready, rfl, hadds⟩

/-! ## Reformulating -/

section

variable {tolerance : Option Rat} {os₀ os₁ : List (Oracle Rat ExtRat)} {rows : List (MixedRow Rat ExtRat)}

/-- **What is known of the oracles** while rows are reformulated: those of the rows are ready, and all stay as they are. -/
structure ReadyFor (s : UncertaintySet Rat ExtRat) (tolerance : Option Rat) (drawn : List Rat → Prop)
    (os₀ os₁ : List (Oracle Rat ExtRat)) (rows : List (MixedRow Rat ExtRat)) (os : List (Oracle Rat ExtRat)) : Prop where
  same : os = os₁
  ready : Readied s tolerance drawn os₀ (SolveLoop.oraclesOf rows) os₁
  covers : ∀ r ∈ rows, s.Covers r

/-- The oracle of a row is still of the sort that it had at the beginning. -/
theorem ensures_isSeparated {row : MixedRow Rat ExtRat} (hrow : row ∈ rows) : Ensures right (isSeparated row)
    (ReadyFor s tolerance drawn os₀ os₁ rows) fun b os =>
      ReadyFor s tolerance drawn os₀ os₁ rows os ∧ b = separatesRow os₀ row := by
  unfold isSeparated
  split
  next => exact .throw _
  next o ho =>
    refine .bind (ensures_oracleOf o) fun x => .pure ?_
    rintro os ⟨h, hx⟩
    obtain ⟨x', hx', hprepared⟩ := Readied.of_mem h.ready hrow ho
    rw [h.same] at hx
    cases hx.symm.trans hx'
    exact ⟨h, hprepared.usesSeparation⟩

/-- **What the answer of an oracle says of its row.** -/
theorem adds_answer (hs : s.WellFormed) {row : MixedRow Rat ExtRat} (hcovers : s.Covers row) {o : OracleId}
    (ho : row.oracle = some o) {a : Oracle Rat ExtRat} (ha : os₁[o]? = some a)
    (hprepared : a.Prepared s tolerance drawn (separatesRow os₀ row)) {f : Reformulation Rat ExtRat}
    (hf : a.Answers row f) {p p' : LinearProgram Rat ExtRat}
    (hadds : p.Adds (f.auxiliaries = []) (fun x => f.Holds x fun i => x (p.numColumns + i)) p') :
    p.Adds (separatesRow os₀ row = true) (fun x => row.Replaced s os₀ os₁ x) p' := by
  cases a with
  | dualizing set =>
    obtain ⟨hsort, rfl⟩ := hprepared
    obtain ⟨s', heq, hdualize⟩ := hf
    cases heq
    have hnominal : nominalAt os₁ o = none := by rw [nominalAt, ha]
    refine hadds.congr (fun hplain => ?_) (fun x hx => ⟨fun _ v hv _ => ?_, fun o' z ho' hz => ?_⟩) fun hplain => ?_
    · rw [hsort] at hplain
      cases hplain
    · exact MixedRow.holdsWithin_zero.mpr (between_of_holds hs hcovers hdualize hx hv)
    · cases ho.symm.trans ho'
      rw [hnominal] at hz
      cases hz
    · rw [hsort] at hplain
      cases hplain
  | separating preferred sep =>
    obtain ⟨hsort, hready⟩ := hprepared
    obtain ⟨name, r, hr, rfl⟩ := hf
    obtain ⟨z, hz, -⟩ := hready.nominal
    have hnominal : nominalAt os₁ o = some z := by rw [nominalAt, ha]; exact hz
    have hiff : ∀ x : Nat → Rat, r.Holds x (fun i => x (p.numColumns + i)) ↔ row.Holds x (entries z) := by
      intro x
      rw [MixedRow.auxRow_holds hr, hz, nominalLookup, number_ofList]
      exact Iff.rfl
    refine hadds.congr (fun _ => rfl) (fun x hx => ⟨fun hnot => ?_, fun o' z' ho' hz' => ?_⟩) fun _ x hx => ?_
    · rw [hsort] at hnot
      cases hnot
    · cases ho.symm.trans ho'
      cases hnominal.symm.trans hz'
      exact (hiff x).mp (hx.rows r List.mem_cons_self)
    · exact ⟨fun v hv => absurd hv List.not_mem_nil,
        List.forall_mem_singleton.mpr ((hiff x).mpr (hx.nominal o z ho hnominal))⟩
  | replaying r => exact hprepared.elim

/-- **Adding the answer of the oracle of a row.** -/
theorem ensures_injectRow (hs : s.WellFormed) (row : MixedRow Rat ExtRat) (p : LinearProgram Rat ExtRat) :
    Ensures right (injectRow p row) (ReadyFor s tolerance drawn os₀ os₁ rows) fun p' os =>
      ReadyFor s tolerance drawn os₀ os₁ rows os ∧ (p.rows.Aligned → p.Adds (row ∈ rows ∧ separatesRow os₀ row = true)
        (fun x => row ∈ rows → row.Replaced s os₀ os₁ x) p') := by
  unfold injectRow
  split
  next => exact .throw _
  next o ho =>
    refine .bind (ensures_reformulate o row) fun f => (ensures_editing _ p).mono (fun _ h => h) ?_
    rintro p' os ⟨⟨hready, a, ha, hf⟩, cols, hrun⟩
    refine ⟨hready, fun h => ?_⟩
    have hadds := LinearProgram.adds_injectInto h hrun
    by_cases hrow : row ∈ rows
    · obtain ⟨a', ha', hprepared⟩ := Readied.of_mem hready.ready hrow ho
      rw [hready.same] at ha
      cases ha.symm.trans ha'
      exact (adds_answer hs (hready.covers row hrow) ho ha hprepared hf hadds).congr And.right (fun _ hx _ => hx)
        fun _ _ hx => hx hrow
    · exact hadds.congr (fun hplain => absurd hplain.1 hrow) (fun _ _ hmem => absurd hmem hrow)
        fun hplain => absurd hplain.1 hrow

/-- The rows, each one with whether it is to be separated. -/
def marks (os₀ : List (Oracle Rat ExtRat)) (rows : List (MixedRow Rat ExtRat)) : List (MixedRow Rat ExtRat × Bool) :=
  rows.map fun r => (r, separatesRow os₀ r)

/-- Every row is marked with whether it is to be separated. -/
theorem ensures_mark : Ensures right (rows.mapM fun row => do return (row, ← isSeparated row))
    (ReadyFor s tolerance drawn os₀ os₁ rows) fun marked os =>
      ReadyFor s tolerance drawn os₀ os₁ rows os ∧ marked = marks os₀ rows := by
  refine (Ensures.mapM (S := fun r e => (r, separatesRow os₀ r) = e) fun row hrow =>
    .bind (ensures_isSeparated hrow) fun b => .pure ?_).mono (fun _ hready => hready) ?_
  · rintro os ⟨hready, rfl⟩
    exact ⟨hready, rfl⟩
  · rintro marked os ⟨hready, hall⟩
    refine ⟨hready, ?_⟩
    rw [← List.forall₂_map_left_iff, List.forall₂_eq_eq_eq] at hall
    exact hall.symm

/-- The marked rows are those that separate, and those that do not. -/
theorem map_filter_marks (test : Bool → Bool) :
    ((marks os₀ rows).filter fun e => test e.2).map (·.1) = rows.filter fun r => test (separatesRow os₀ r) := by
  rw [marks, List.filter_map, List.map_map]
  exact List.map_id _

/-- **A program to which the answers for some rows were added:** those of the sort that a test selects. -/
def Answered (s : UncertaintySet Rat ExtRat) (os₀ os₁ : List (Oracle Rat ExtRat)) (rows : List (MixedRow Rat ExtRat))
    (test : Bool → Prop) (p p' : LinearProgram Rat ExtRat) : Prop :=
  p.Adds (∀ r ∈ rows, separatesRow os₀ r = true) (fun x => ∀ r ∈ rows, test (separatesRow os₀ r) → r.Replaced s os₀ os₁ x) p'

theorem Answered.aligned {test : Bool → Prop} {p p' : LinearProgram Rat ExtRat} (h : Answered s os₀ os₁ rows test p p') :
    p'.rows.Aligned :=
  h.toNarrows.aligned

theorem Answered.congr {test test' : Bool → Prop} {p p' : LinearProgram Rat ExtRat} (h : Answered s os₀ os₁ rows test p p')
    (heq : ∀ b, test b ↔ test' b) : Answered s os₀ os₁ rows test' p p' :=
  LinearProgram.Adds.congr h id (fun _ hx r hr htest => hx r hr ((heq _).mpr htest))
    fun _ _ hx r hr htest => hx r hr ((heq _).mp htest)

theorem Answered.trans {test test' : Bool → Prop} {p q p' : LinearProgram Rat ExtRat} (h : Answered s os₀ os₁ rows test p q)
    (h' : Answered s os₀ os₁ rows test' q p') : Answered s os₀ os₁ rows (fun b => test b ∨ test' b) p p' :=
  (LinearProgram.Adds.trans h h').congr (fun hplain => ⟨hplain, hplain⟩)
    (fun _ hx r hr htest => htest.elim (hx.1 r hr) (hx.2 r hr))
    fun _ _ hx => ⟨fun r hr htest => hx r hr (.inl htest), fun r hr htest => hx r hr (.inr htest)⟩

/-- **Adding the answers for the marked rows** of one sort. -/
theorem ensures_injectRows (hs : s.WellFormed) (test : Bool → Bool) (marked : List (MixedRow Rat ExtRat × Bool))
    (p : LinearProgram Rat ExtRat) : Ensures right (((marked.filter fun e => test e.2).map (·.1)).foldlM injectRow p)
      (fun os => ReadyFor s tolerance drawn os₀ os₁ rows os ∧ marked = marks os₀ rows ∧ p.rows.Aligned) fun p' os =>
        ReadyFor s tolerance drawn os₀ os₁ rows os ∧ marked = marks os₀ rows
          ∧ Answered s os₀ os₁ rows (fun b => test b = true) p p' := by
  refine (ensures_adding (ensures_injectRow hs) _ p).keep.mono (fun _ h => h) ?_
  rintro p' os ⟨⟨hready, hadds⟩, rfl, haligned⟩
  have hadds := hadds haligned
  rw [map_filter_marks] at hadds
  refine ⟨hready, rfl, hadds.congr (fun hplain r hr => ?_) (fun x hx r hr htest => ?_) fun _ x hx r hr _ => ?_⟩
  · exact ⟨(List.mem_filter.mp hr).1, hplain r (List.mem_filter.mp hr).1⟩
  · exact hx r (List.mem_filter.mpr ⟨hr, htest⟩) hr
  · exact hx r (List.mem_filter.mp hr).1 (List.mem_filter.mp hr).2

/-- **Reformulating** leaves the rows of separating oracles, and adds what the oracles answer: for all rows, or only for those
of dualizing oracles if no rows at nominal points were asked for. -/
theorem ensures_reformulateRows (tolerance : Option Rat) (drawn : List Rat → Prop) (os₀ os₁ : List (Oracle Rat ExtRat))
    (options : RobustOptions Rat) (hs : s.WellFormed) {p : LinearProgram Rat ExtRat} :
    Ensures right (RobustSolve.reformulate options p rows)
      (fun os => ReadyFor s tolerance drawn os₀ os₁ rows os ∧ p.rows.Aligned)
      fun a os => ReadyFor s tolerance drawn os₀ os₁ rows os ∧ a.2.2 = rows.filter (separatesRow os₀)
        ∧ Answered s os₀ os₁ rows (fun b => b = false ∨ options.nominalCuts = true) p a.1 := by
  unfold RobustSolve.reformulate
  refine .bind ensures_mark.keep fun marked => ?_
  dsimp only
  refine .bind ((ensures_injectRows hs (fun b => !b) marked p).mono (fun os h => ⟨h.1.1, h.1.2, h.2⟩) fun _ _ h => h)
    fun q => ?_
  have hend : ∀ (p' : LinearProgram Rat ExtRat) (n : Nat),
      Ensures right (pure (p', n, (marked.filter (·.2)).map (·.1))) (fun os => ReadyFor s tolerance drawn os₀ os₁ rows os
        ∧ marked = marks os₀ rows ∧ Answered s os₀ os₁ rows (fun b => b = false ∨ options.nominalCuts = true) p p') fun a os =>
          ReadyFor s tolerance drawn os₀ os₁ rows os ∧ a.2.2 = rows.filter (separatesRow os₀)
            ∧ Answered s os₀ os₁ rows (fun b => b = false ∨ options.nominalCuts = true) p a.1 := by
    refine fun p' n => .pure ?_
    rintro os ⟨hready, rfl, hanswered⟩
    exact ⟨hready, map_filter_marks id, hanswered⟩
  split
  next hnominal =>
    refine .bind ((ensures_injectRows hs id marked q).keep.mono
      (fun os h => ⟨⟨h.1, h.2.1, h.2.2.aligned⟩, h.2.2⟩) ?_) fun p' => hend p' _
    rintro p' os ⟨⟨hready, hmarked, hseparated⟩, hdirect⟩
    refine ⟨hready, hmarked, (hdirect.trans hseparated).congr fun b => ?_⟩
    cases b <;> simp [hnominal]
  next hnominal =>
    refine .bind (.pure ?_) fun p' => hend p' _
    rintro os ⟨hready, hmarked, hdirect⟩
    refine ⟨hready, hmarked, hdirect.congr fun b => ?_⟩
    cases b <;> simp [hnominal]

end

end RobustSolve

end RobustLP
