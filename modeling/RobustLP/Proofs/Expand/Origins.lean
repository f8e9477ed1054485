import RobustLP.Proofs.Expand.Sources
import RobustLP.Proofs.Program

/-!
# Rows of one source

The mixed rows of an expanded working model are the uncertain constraints, then the rows of the program that mention adaptive
variables, the bounds of adaptive variables, and the objective (`Expander.sources_of_apply`). The first are known by their
positions, the lifted ones by what they are called. So two rows have the same source exactly when two lifted rows have the same
name, or two adaptive variables with bounds have (`RowSource.nodup_all_iff`).
-/

namespace RobustLP

open Edit

variable {K B : Type}

/-- The sources of the mixed rows. -/
def WorkingModel.sources (wm : WorkingModel K B) : List RowSource := wm.rows.map (·.source)

/-- The source of a row of the program that was lifted. -/
def RowSource.lifted (name : String) : RowSource := .label ("lifted:" ++ name)

/-- The source of bounds that were lifted. -/
def RowSource.bounds (name : String) : RowSource := .label ("bounds:" ++ name)

/-! ## Sources of different sorts -/

namespace RowSource

theorem lifted_injective : Function.Injective lifted := by
  intro a b h
  have htext := congrArg String.toList (label.inj h)
  rw [String.toList_append, String.toList_append, List.append_right_inj] at htext
  exact String.toList_inj.mp htext

theorem bounds_injective : Function.Injective bounds := by
  intro a b h
  have htext := congrArg String.toList (label.inj h)
  rw [String.toList_append, String.toList_append, List.append_right_inj] at htext
  exact String.toList_inj.mp htext

theorem lifted_ne_bounds (a b : String) : lifted a ≠ bounds b := by
  intro h
  have htext := congrArg String.toList (label.inj h)
  rw [String.toList_append, String.toList_append] at htext
  exact absurd (List.cons.inj htext).1 (by decide)

theorem lifted_ne_objective (a : String) : lifted a ≠ label "objective" := by
  intro h
  have htext := congrArg String.toList (label.inj h)
  rw [String.toList_append] at htext
  exact absurd (List.cons.inj htext).1 (by decide)

theorem bounds_ne_objective (a : String) : bounds a ≠ label "objective" := by
  intro h
  have htext := congrArg String.toList (label.inj h)
  rw [String.toList_append] at htext
  exact absurd (List.cons.inj htext).1 (by decide)

/-- The sources of some constraints, lifted rows and lifted bounds, and of the objective if it is a row. -/
def all (constraints : Nat) (rows columns : List String) (objective : Bool) : List RowSource :=
  (List.range constraints).map (fun (i : Nat) => .index i) ++ (rows.map lifted ++ (columns.map bounds
    ++ if objective then [.label "objective"] else []))

/-- **Sources are only repeated where names are.** -/
theorem nodup_all_iff {constraints : Nat} {rows columns : List String} {objective : Bool} :
    (all constraints rows columns objective).Nodup ↔ rows.Nodup ∧ columns.Nodup := by
  have hindex : ((List.range constraints).map fun (i : Nat) => RowSource.index i).Nodup :=
    List.nodup_range.map fun i j h => by simpa using h
  have hobjective : (if objective then [RowSource.label "objective"] else []).Nodup := by
    cases objective <;> simp
  have hlabel : ∀ s ∈ rows.map lifted ++ (columns.map bounds ++ if objective then [.label "objective"] else []),
      ∃ text, s = label text := by
    intro s hs
    rcases List.mem_append.mp hs with hs | hs
    · obtain ⟨a, -, rfl⟩ := List.mem_map.mp hs
      exact ⟨_, rfl⟩
    · rcases List.mem_append.mp hs with hs | hs
      · obtain ⟨b, -, rfl⟩ := List.mem_map.mp hs
        exact ⟨_, rfl⟩
      · cases objective with
        | false => cases hs
        | true => exact ⟨_, List.mem_singleton.mp hs⟩
  have hmem : ∀ s ∈ (if objective then [RowSource.label "objective"] else []), s = .label "objective" := by
    cases objective <;> simp
  unfold all
  rw [List.nodup_append', List.nodup_append', List.nodup_append', List.nodup_map_iff lifted_injective,
    List.nodup_map_iff bounds_injective]
  constructor
  · rintro ⟨-, ⟨hrows, ⟨hcolumns, -, -⟩, -⟩, -⟩
    exact ⟨hrows, hcolumns⟩
  · rintro ⟨hrows, hcolumns⟩
    refine ⟨hindex, ⟨hrows, ⟨hcolumns, hobjective, ?_⟩, ?_⟩, ?_⟩
    · intro s hs hs'
      obtain ⟨b, -, rfl⟩ := List.mem_map.mp hs
      exact bounds_ne_objective b (hmem _ hs')
    · intro s hs hs'
      obtain ⟨a, -, rfl⟩ := List.mem_map.mp hs
      rcases List.mem_append.mp hs' with hs' | hs'
      · obtain ⟨b, -, hb⟩ := List.mem_map.mp hs'
        exact lifted_ne_bounds a b hb.symm
      · exact lifted_ne_objective a (hmem _ hs')
    · intro s hs hs'
      obtain ⟨i, -, rfl⟩ := List.mem_map.mp hs
      obtain ⟨text, htext⟩ := hlabel _ hs'
      cases htext

end RowSource

variable [Bound B] [Scalar K B] {wm wm' : WorkingModel K B}

/-! ## Steps of an expansion -/

omit [Bound B] [Scalar K B] in
/-- Lists whose entries agree entry by entry. -/
theorem map_eq_of_forall₂ {α β γ : Type} {f : α → γ} {g : β → γ} {as : List α} {bs : List β}
    (h : List.Forall₂ (fun a b => g b = f a) as bs) : bs.map g = as.map f := by
  induction h with
  | nil => rfl
  | cons hab _ ih => rw [List.map_cons, List.map_cons, hab, ih]

omit [Bound B] [Scalar K B] in
theorem WorkingModel.exists_of_run_editProgram {α : Type} {ed : Edit (LinearProgram K B) α} {a : α}
    (h : (editProgram ed).run wm = (.ok a, wm')) :
    ∃ p, ed.run wm.program = (.ok a, p) ∧ wm' = { wm with program := p } := by
  unfold editProgram at h
  rw [run_bind_of_ok (run_get wm)] at h
  rcases hrun : ed.run wm.program with ⟨r, p⟩
  rw [hrun] at h
  obtain ⟨⟨⟩, s₁, hset, h⟩ := run_bind_eq_ok.mp h
  cases hset
  obtain ⟨rfl, rfl⟩ := run_lift_eq_ok.mp h
  exact ⟨p, rfl, rfl⟩

/-- The uncertain constraints of a model are known by their positions. -/
theorem WorkingModel.sources_ofModel [Written K] [Written B] {naming : Naming} {m : Model K B}
    (h : WorkingModel.ofModel naming m = .ok wm) : wm.sources = (List.range m.uncertain.length).map fun (i : Nat) => .index i := by
  unfold WorkingModel.ofModel at h
  dsimp only at h
  split at h
  next => cases h
  next p hbuild =>
    obtain ⟨rows, hrows, h⟩ := bind_eq_ok.mp h
    obtain ⟨objective, -, h⟩ := bind_eq_ok.mp h
    cases h
    have hsource : List.Forall₂ (fun (c : (Constraint K B × Option OracleId) × Nat) (r : MixedRow K B) =>
        r.source = .index c.2) m.uncertain.zipIdx rows := by
      refine (mapM_eq_ok_iff.mp hrows).imp ?_
      rintro ⟨⟨c, oracle⟩, i⟩ r hrow
      obtain ⟨form, -, hrow⟩ := bind_eq_ok.mp hrow
      obtain ⟨name, -, hrow⟩ := bind_eq_ok.mp hrow
      cases hrow
      rfl
    rw [WorkingModel.sources, map_eq_of_forall₂ hsource]
    show m.uncertain.zipIdx.map ((fun (i : Nat) => RowSource.index i) ∘ (·.2)) = _
    rw [← List.map_map, List.zipIdx_map_snd, List.range_eq_range']

namespace Expander

variable (e : Expander)

/-- The names of the rows of the program that mention adaptive variables. -/
def liftedNames (wm : WorkingModel K B) : List String :=
  (wm.program.rows.coefs.zipIdx.filter fun (row, _) => row.any fun t => e.isAdaptive t.1).filterMap fun q =>
    wm.program.rows.names[q.2]?

/-- The name of a column that has a bound. -/
def boundedName (columns : List (Column B)) (j : Nat) : Option String :=
  (columns[j]?.filter fun c => Bound.isLower c.lower || Bound.isUpper c.upper).map (·.name)

/-- The names of the adaptive variables that have a bound. -/
def boundedNames (wm : WorkingModel K B) : List String :=
  ((e.policies.map (·.1)).mergeSort (· ≤ ·)).filterMap (boundedName wm.program.columns)

/-- The objective becomes a row. -/
def liftsObjective (wm : WorkingModel K B) : Bool :=
  !(wm.objective.isDeterministic && !wm.objective.linear.any fun t => e.isAdaptive t.1)

omit [Bound B] in
theorem source_of_liftedRow {i : Nat} {row : List (Nat × K)} {r : MixedRow K B} (h : e.liftedRow wm i row = .ok r) :
    ∃ name, wm.program.rows.names[i]? = some name ∧ r.source = .lifted name := by
  obtain ⟨lower, -, h⟩ := bind_eq_ok.mp h
  obtain ⟨upper, -, h⟩ := bind_eq_ok.mp h
  obtain ⟨name, hname, h⟩ := bind_eq_ok.mp h
  cases h
  refine ⟨name, ?_, rfl⟩
  unfold Lookup.ofList at hname
  split at hname
  next x hx => rw [hx, Except.ok.inj hname]
  next => cases hname

omit [Bound B] in
/-- **Lifted rows** are known by their names. -/
theorem sources_of_run_liftRows (h : (e.liftRows).run wm = (.ok ⟨⟩, wm')) :
    wm'.sources = wm.sources ++ (e.liftedNames wm).map .lifted ∧ wm'.program.columns = wm.program.columns
      ∧ wm'.objective = wm.objective := by
  unfold liftRows at h
  rw [run_bind_of_ok (run_get wm)] at h
  obtain ⟨rows, s₁, hrows, h⟩ := run_bind_eq_ok.mp h
  obtain ⟨⟨⟩, s₂, hmodify, h⟩ := run_bind_eq_ok.mp h
  cases hmodify
  obtain ⟨p, hremove, rfl⟩ := WorkingModel.exists_of_run_editProgram h
  have hlift : ∀ q : List (Nat × K) × Nat, Yields (· = wm) (Edit.liftFault (e.liftedRow wm q.2 q.1))
      fun r => ∃ name, wm.program.rows.names[q.2]? = some name ∧ r.source = .lifted name :=
    fun q => Yields.liftFault.mono fun r hr => e.source_of_liftedRow hr
  obtain ⟨rfl, hall⟩ := Yields.mapM hlift wm s₁ rows rfl hrows
  have hnames : ∀ {qs : List (List (Nat × K) × Nat)} {rs : List (MixedRow K B)},
      List.Forall₂ (fun q r => ∃ name, s₁.program.rows.names[q.2]? = some name ∧ r.source = .lifted name) qs rs →
        rs.map (·.source) = (qs.filterMap fun q => s₁.program.rows.names[q.2]?).map RowSource.lifted := by
    intro qs rs hqs
    induction hqs with
    | nil => rfl
    | cons hqr _ ih =>
      obtain ⟨name, hname, hsource⟩ := hqr
      rw [List.map_cons, List.filterMap_cons, hname, List.map_cons, hsource, ih]
  refine ⟨?_, ?_, rfl⟩
  · show (s₁.rows ++ rows).map (·.source) = _
    rw [List.map_append, hnames hall]
    rfl
  · rw [LinearProgram.run_removeRows_eq] at hremove
    rw [← (Prod.mk.inj hremove).2]

/-- The bounds of a column are known by its name, if it has any. -/
theorem sources_of_run_liftBoundsOf {j : Nat} (h : (e.liftBoundsOf j).run wm = (.ok ⟨⟩, wm')) :
    wm'.sources = wm.sources ++ (boundedName wm.program.columns j).toList.map .bounds ∧ wm'.objective = wm.objective
      ∧ ∀ k, k ≠ j → wm'.program.columns[k]? = wm.program.columns[k]? := by
  unfold liftBoundsOf at h
  rw [run_bind_of_ok (run_get wm)] at h
  cases hc : wm.program.columns[j]? with
  | none =>
    rw [hc] at h
    cases h
  | some c =>
    rw [hc] at h
    dsimp only at h
    unfold boundedName
    rw [hc, Option.filter_some]
    split at h
    next hbound =>
      obtain ⟨⟨⟩, s₁, hmodify, h⟩ := run_bind_eq_ok.mp h
      cases hmodify
      cases h
      rw [if_pos hbound]
      refine ⟨?_, rfl, fun k hk => List.getElem?_set_ne hk.symm⟩
      show List.map MixedRow.source (wm.rows ++ [e.boundsRow j c]) = _
      rw [List.map_append]
      rfl
    next hbound =>
      cases h
      rw [if_neg hbound]
      exact ⟨(List.append_nil _).symm, rfl, fun k hk => List.getElem?_set_ne hk.symm⟩

/-- **Lifted bounds** are known by the names of their columns. -/
theorem sources_of_run_liftBounds : ∀ {js : List Nat} {wm wm' : WorkingModel K B}, js.Nodup →
    (js.forM e.liftBoundsOf).run wm = (.ok ⟨⟩, wm') →
      wm'.sources = wm.sources ++ (js.filterMap (boundedName wm.program.columns)).map .bounds ∧ wm'.objective = wm.objective
  | [], wm, wm', _, h => by
    cases h
    exact ⟨(List.append_nil _).symm, rfl⟩
  | j :: js, wm, wm', hjs, h => by
    obtain ⟨⟨⟩, s₁, hj, h⟩ := run_bind_eq_ok.mp h
    rw [List.nodup_cons] at hjs
    obtain ⟨hsources, hobjective, hcolumns⟩ := e.sources_of_run_liftBoundsOf hj
    obtain ⟨hsources', hobjective'⟩ := sources_of_run_liftBounds hjs.2 h
    -- the columns of the other variables are as before
    have hothers : js.filterMap (boundedName s₁.program.columns) = js.filterMap (boundedName wm.program.columns) := by
      refine List.filterMap_congr fun k hk => ?_
      unfold boundedName
      rw [hcolumns k fun hkj => hjs.1 (hkj ▸ hk)]
    refine ⟨?_, hobjective'.trans hobjective⟩
    rw [hsources', hsources, hothers, List.append_assoc, ← List.map_append, List.filterMap_cons]
    cases boundedName wm.program.columns j <;> rfl

theorem sources_of_run_liftObjective (h : (e.liftObjective).run wm = (.ok ⟨⟩, wm')) :
    wm'.sources = wm.sources ++ if e.liftsObjective wm then [.label "objective"] else [] := by
  unfold liftObjective at h
  rw [run_bind_of_ok (run_get wm), run_bind_of_ok (run_get wm)] at h
  dsimp only at h
  unfold liftsObjective
  split at h
  next hdirect =>
    obtain ⟨p, -, rfl⟩ := WorkingModel.exists_of_run_editProgram h
    rw [hdirect]
    exact (List.append_nil _).symm
  next hdirect =>
    obtain ⟨t, s₁, hcolumn, h⟩ := run_bind_eq_ok.mp h
    obtain ⟨p, -, rfl⟩ := WorkingModel.exists_of_run_editProgram hcolumn
    obtain ⟨⟨⟩, s₂, hmodify, h⟩ := run_bind_eq_ok.mp h
    cases hmodify
    obtain ⟨p', -, rfl⟩ := WorkingModel.exists_of_run_editProgram h
    rw [Bool.eq_false_iff.mpr hdirect]
    show (wm.rows ++ [e.epigraphRow t wm.objective wm.program.objective.sense]).map (·.source) = _
    rw [List.map_append]
    rfl

/-- Substituting keeps the sources. -/
theorem sources_of_run_substituteRows (h : (e.substituteRows).run wm = (.ok ⟨⟩, wm')) : wm'.sources = wm.sources := by
  unfold substituteRows at h
  rw [run_bind_of_ok (run_get wm)] at h
  obtain ⟨rows, s₁, hrows, h⟩ := run_bind_eq_ok.mp h
  cases h
  have hrow : ∀ r : MixedRow K B, Yields (fun _ : WorkingModel K B => True)
      (do return { r with form := ← e.substitute r.name r.form }) fun r' => r'.source = r.source :=
    fun r => .bind (Q := fun _ => True) (fun _ _ _ _ _ => ⟨trivial, trivial⟩) fun f _ => .pure rfl
  exact map_eq_of_forall₂ (Yields.mapM hrow wm s₁ rows trivial hrows).2

omit [Scalar K B] in
/-- Without policies nothing is adaptive. -/
theorem names_of_isEmpty (h : e.policies.isEmpty = true) (wm : WorkingModel K B) :
    e.liftedNames wm = [] ∧ e.boundedNames wm = [] := by
  have hnone : e.policies = [] := List.isEmpty_iff.mp h
  constructor
  · unfold liftedNames isAdaptive
    rw [hnone]
    simp
  · unfold boundedNames
    rw [hnone]
    simp

/-- **The sources of an expanded working model,** in the order of its rows. -/
theorem sources_of_apply {n : Nat} (hnodup : (e.policies.map (·.1)).Nodup)
    (hwm : wm.sources = (List.range n).map fun (i : Nat) => .index i) (h : e.apply wm = .ok wm') :
    wm'.sources = RowSource.all n (e.liftedNames wm) (e.boundedNames wm) (e.liftsObjective wm) := by
  have hsorted : ((e.policies.map (·.1)).mergeSort (· ≤ ·)).Nodup := (List.mergeSort_perm _ _).nodup_iff.mpr hnodup
  have hrest : ∀ {s s' : WorkingModel K B}, s.objective = wm.objective →
      s.sources = wm.sources ++ ((e.liftedNames wm).map .lifted ++ (e.boundedNames wm).map .bounds) →
      (do e.liftObjective; e.substituteRows : Edit (WorkingModel K B) Unit).run s = (.ok ⟨⟩, s') →
        s'.sources = RowSource.all n (e.liftedNames wm) (e.boundedNames wm) (e.liftsObjective wm) := by
    intro s s' hobjective hs hrun
    obtain ⟨⟨⟩, s₁, hlift, hrun⟩ := run_bind_eq_ok.mp hrun
    rw [e.sources_of_run_substituteRows hrun, e.sources_of_run_liftObjective hlift, hs, hwm, RowSource.all]
    unfold liftsObjective
    rw [hobjective, List.append_assoc, List.append_assoc]
  unfold apply at h
  dsimp only at h
  split at h
  next wm₁ hrun =>
    cases h
    split at hrun
    next =>
      obtain ⟨⟨⟩, s₁, hrows, hrun⟩ := run_bind_eq_ok.mp hrun
      obtain ⟨⟨⟩, s₂, hbounds, hrun⟩ := run_bind_eq_ok.mp hrun
      obtain ⟨hsources, hcolumns, hobjective⟩ := e.sources_of_run_liftRows hrows
      obtain ⟨hsources', hobjective'⟩ := e.sources_of_run_liftBounds hsorted hbounds
      refine hrest (hobjective'.trans hobjective) ?_ hrun
      rw [hsources', hsources, hcolumns, List.append_assoc]
      rfl
    next hempty =>
      obtain ⟨hrows, hbounds⟩ := e.names_of_isEmpty (by simpa using hempty) wm
      refine hrest rfl ?_ hrun
      rw [hrows, hbounds]
      exact (List.append_nil _).symm
  next => cases h

end Expander

end RobustLP
