import RobustLP.Proofs.Growth
import RobustLP.Proofs.Solve.Trail

/-!
# What the stages before the loop ask and add

Rows without parameters go to the program as they are. Every oracle of another row is set up once; the rows of oracles that do not
separate are then reformulated, and those of separating oracles as well if nominal cuts are wanted. `Launch.Prepared` says all
this of the state in which the loop begins, with the requests in their order (`prepared_of_run_launch`).
-/

namespace RobustLP

open Run

variable {K B : Type} {sorts : List Bool}

namespace RobustSolve

/-- The oracle of a row is driven by separation. -/
def separatedBy (sorts : List Bool) (row : MixedRow K B) : Bool := row.oracle.any fun o => sorts[o]? == some true

/-- The rows that involve parameters. -/
def Launch.uncertain (l : Launch K B) : List (MixedRow K B) := l.working.rows.filter fun r => !isDeterministic r

/-- A request to reformulate a row, made to its oracle. -/
def Reformulates (row : MixedRow K B) (q : OracleCall K B) : Prop := ∃ o, row.oracle = some o ∧ q = .reformulate o row

/-- A row of a program is a mixed row that involves no parameters. -/
def Certain [Scalar K B] (row : MixedRow K B) (t : TableRow K B) : Prop :=
  row.At noParameters t ∧ ∀ n, row.name = some n → t.name = n

theorem answers_editing {α : Type} (e : Edit (LinearProgram K B) α) (p : LinearProgram K B) :
    Answers sorts (editing e p) fun p' qs => qs = [] ∧ ∃ a, e.run p = (.ok a, p') := by
  unfold editing
  split
  next a p' hrun => exact .pure ⟨rfl, a, hrun⟩
  next => exact .throw _

theorem answers_isSeparated (row : MixedRow K B) : Answers sorts (isSeparated row) fun b qs =>
    qs = [] ∧ ∃ o, row.oracle = some o ∧ sorts[o]? = some b := by
  unfold isSeparated
  cases hrow : row.oracle with
  | none => exact .throw _
  | some o =>
    exact Asks.oracleOf_bind (fun a ha => Answers.pure ⟨rfl, o, rfl, ha⟩) fun _ _ h => nomatch h

/-- Which rows are separated is known from the sorts of their oracles. -/
theorem answers_marked (rows : List (MixedRow K B)) :
    Answers sorts (rows.mapM fun row => do return (row, ← isSeparated row)) fun marked qs =>
      qs = [] ∧ marked = rows.map (fun row => (row, separatedBy sorts row))
        ∧ ∀ row ∈ rows, ∃ o b, row.oracle = some o ∧ sorts[o]? = some b := by
  refine (Answers.mapM (I := fun row (e : MixedRow K B × Bool) => e = (row, separatedBy sorts row)
    ∧ ∃ o b, row.oracle = some o ∧ sorts[o]? = some b) fun row => ?_).mono fun marked qs h => ?_
  · refine .bind (answers_isSeparated row) fun b qs h => .pure ?_
    obtain ⟨rfl, o, ho, hb⟩ := h
    refine ⟨rfl, ?_, o, b, ho, hb⟩
    rw [separatedBy, ho, Option.any_some, hb]
    cases b <;> rfl
  · obtain ⟨rfl, hall⟩ := h
    refine ⟨rfl, ?_, fun row hrow => ?_⟩
    · induction hall with
      | nil => rfl
      | cons he _ ih => rw [List.map_cons, ← ih, ← he.1]
    · obtain ⟨e, -, -, horacle⟩ := exists_right_of_forall₂ hall hrow
      exact horacle

theorem silent_logIntro (options : RobustOptions K) : Silent sorts (logIntro options : Run K B Unit) := by
  refine .bind (silent_progress _) fun _ => .bind (silent_progress _) fun _ => .bind (silent_progress _) fun _ => ?_
  exact .bind (silent_progress _) fun _ => .bind (.forM fun _ _ => silent_progress _) fun _ => silent_progress _

theorem silent_logStatistics (m : Model K B) (wm : WorkingModel K B) : Silent sorts (logStatistics m wm) :=
  .bind (silent_progress _) fun _ => .bind (.forM fun _ _ => silent_progress _) fun _ => silent_progress _

variable [Bound B] [Scalar K B]

/-- **Rows without parameters** are added one after the other, and no oracle hears of them. -/
theorem answers_addDeterministic (p : LinearProgram K B) (rows : List (MixedRow K B)) :
    Answers sorts (rows.foldlM addDeterministic p) fun p' qs =>
      qs = [] ∧ ∃ fixed, p' = p.grow [] fixed ∧ List.Forall₂ Certain rows fixed := by
  refine Answers.foldlM (I := fun done p' qs => qs = [] ∧ ∃ fixed, p' = p.grow [] fixed ∧ List.Forall₂ Certain done fixed)
    ⟨rfl, [], p.grow_nil.symm, .nil⟩ fun done row q qs hI => ?_
  obtain ⟨rfl, fixed, rfl, hall⟩ := hI
  refine (answers_editing _ _).mono fun p' qs' hadd => ?_
  obtain ⟨rfl, i, hrun⟩ := hadd
  obtain ⟨t, rfl, hat, hname⟩ := WorkingModel.eq_grow_of_run_addCutTo hrun
  refine ⟨rfl, fixed ++ [t], LinearProgram.grow_grow .., ?_⟩
  exact List.rel_append hall (.cons ⟨hat, hname⟩ .nil)

/-- A program with the columns and rows of some reformulations. -/
def Reformulated (p p' : LinearProgram K B) (fs : List (Reformulation K B)) : Prop :=
  ∃ columns rows, p' = p.grow columns rows ∧ columns.length = (fs.map (·.auxiliaries.length)).sum
    ∧ rows.length = (fs.map (·.constraints.length)).sum

omit [Bound B] [Scalar K B] in
theorem Reformulated.refl (p : LinearProgram K B) : Reformulated p p [] := ⟨[], [], p.grow_nil.symm, rfl, rfl⟩

omit [Bound B] [Scalar K B] in
theorem Reformulated.trans {p p' p'' : LinearProgram K B} {fs fs' : List (Reformulation K B)} (h : Reformulated p p' fs)
    (h' : Reformulated p' p'' fs') : Reformulated p p'' (fs ++ fs') := by
  obtain ⟨columns, rows, rfl, hcolumns, hrows⟩ := h
  obtain ⟨columns', rows', rfl, hcolumns', hrows'⟩ := h'
  refine ⟨columns ++ columns', rows ++ rows', LinearProgram.grow_grow .., ?_, ?_⟩
  · rw [List.length_append, hcolumns, hcolumns', List.map_append, List.sum_append]
  · rw [List.length_append, hrows, hrows', List.map_append, List.sum_append]

/-- **Rows are reformulated** one after the other; each request has one answer, and the answers are added. -/
theorem answers_injectRows (p : LinearProgram K B) (rows : List (MixedRow K B)) :
    Answers sorts (rows.foldlM injectRow p) fun p' qs =>
      List.Forall₂ Reformulates rows qs ∧ ∃ fs, fs.length = qs.length ∧ Reformulated p p' fs := by
  refine Answers.foldlM (I := fun done p' qs => List.Forall₂ Reformulates done qs
    ∧ ∃ fs, fs.length = qs.length ∧ Reformulated p p' fs) ⟨.nil, [], rfl, .refl p⟩ fun done row q qs hI => ?_
  obtain ⟨hall, fs, hlength, hadded⟩ := hI
  unfold injectRow
  cases hrow : row.oracle with
  | none => exact .throw _
  | some o =>
    refine .bind ((asks_reformulate o row).mono fun _ _ hqs _ _ => hqs) fun f qs' hqs' => ?_
    refine (answers_editing _ _).mono fun p' qs'' hadd => ?_
    obtain ⟨rfl, cols, hrun⟩ := hadd
    obtain ⟨columns, added, hcolumns, hrows, hp'⟩ := WorkingModel.eq_grow_of_run_injectInto hrun
    have hone : Reformulated q p' [f] := ⟨columns, added, hp', by simp [hcolumns], by simp [hrows]⟩
    rw [hqs', List.append_nil]
    exact ⟨List.rel_append hall (.cons ⟨o, hrow, rfl⟩ .nil), fs ++ [f], by simp [hlength], hadded.trans hone⟩

/-! ## Stages -/

/-- **Reformulating** asks for the rows that are not separated, and then for the others if nominal cuts are wanted. -/
theorem answers_reformulate (options : RobustOptions K) (p : LinearProgram K B) (rows : List (MixedRow K B)) :
    Answers sorts (RobustSolve.reformulate options p rows) fun a qs => a.2.2 = rows.filter (separatedBy sorts)
      ∧ (∀ row ∈ rows, ∃ o b, row.oracle = some o ∧ sorts[o]? = some b)
      ∧ ∃ direct nominal, qs = direct ++ nominal ∧ List.Forall₂ Reformulates (rows.filter fun r => !separatedBy sorts r) direct
        ∧ List.Forall₂ Reformulates (if options.nominalCuts then a.2.2 else []) nominal
        ∧ ∃ fs, fs.length = qs.length ∧ Reformulated p a.1 fs := by
  unfold RobustSolve.reformulate
  refine .bind (answers_marked rows) fun marked qs hmarked => ?_
  obtain ⟨rfl, hmarked, horacles⟩ := hmarked
  have hdirect : (marked.filter fun e => !e.2).map (·.1) = rows.filter fun r => !separatedBy sorts r := by
    rw [hmarked, List.filter_map, List.map_map]
    exact List.map_id _
  have hseparated : (marked.filter (·.2)).map (·.1) = rows.filter (separatedBy sorts) := by
    rw [hmarked, List.filter_map, List.map_map]
    exact List.map_id _
  dsimp only
  rw [hdirect, hseparated]
  refine .bind (answers_injectRows p _) fun q direct hinject => ?_
  obtain ⟨hdirect, fs, hlength, hadded⟩ := hinject
  split
  next hnominal =>
    refine .bind (answers_injectRows _ _) fun q' nominal hinject' => .pure ?_
    obtain ⟨hall, fs', hlength', hadded'⟩ := hinject'
    exact ⟨rfl, horacles, direct, nominal, by simp, hdirect, hall, fs ++ fs', by simp [hlength, hlength'], hadded.trans hadded'⟩
  next hnominal =>
    refine .bind (.pure (A := fun q' qs => q' = q ∧ qs = []) ⟨rfl, rfl⟩) fun q' qs h => .pure ?_
    obtain ⟨rfl, rfl⟩ := h
    exact ⟨rfl, horacles, direct, [], by simp, hdirect, .nil, fs, by simp [hlength], hadded⟩

variable [Written K] [Written B]

theorem answers_prepare (naming : Naming) (options : RobustOptions K) (m : Model K B) (wm : WorkingModel K B) :
    Answers sorts (prepare naming options m wm) fun a qs => a.2 = wm.rows.filter (fun r => !isDeterministic r)
      ∧ qs = (SolveLoop.oraclesOf a.2).map .setup
      ∧ ∃ fixed, a.1 = wm.program.grow [] fixed ∧ List.Forall₂ Certain (wm.rows.filter isDeterministic) fixed := by
  unfold prepare
  refine .silent_bind (.lift _) fun set => .bind (answers_addDeterministic _ _) fun p qs hadd => ?_
  obtain ⟨rfl, hfixed⟩ := hadd
  refine .bind (.forM fun o => asks_setUp o set options.forOracles) fun _ qs hqs => .pure ⟨rfl, ?_, hfixed⟩
  rw [hqs, List.append_nil]
  rfl

theorem answers_expand (naming : Naming) (m : Model K B) : Answers sorts (expand naming m) fun wm qs =>
    qs = [] ∧ (WorkingModel.ofModel naming m >>= (Expander.ofModel m).apply) = .ok wm := by
  unfold expand
  refine .bind (.lift _) fun wm₀ qs h₀ => .bind (.lift _) fun wm qs' h => .bind (silent_detail _ _).answers fun _ qs'' h' =>
    .pure ⟨?_, bind_eq_ok.mpr ⟨wm₀, h₀.2, h.2⟩⟩
  rw [h₀.1, h.1, h']
  rfl

/-! ## The state in which the loop begins -/

/-- **What the stages before the loop leave,** and what they asked. -/
structure Prepared (naming : Naming) (options : RobustOptions K) (m : Model K B) (sorts : List Bool) (l : Launch K B)
    (qs : List (OracleCall K B)) : Prop where
  expanded : (WorkingModel.ofModel naming m >>= (Expander.ofModel m).apply) = .ok l.working
  separated : l.separated = l.uncertain.filter (separatedBy sorts)
  oracles : ∀ row ∈ l.uncertain, ∃ o b, row.oracle = some o ∧ sorts[o]? = some b
  requests : ∃ direct nominal, qs = (SolveLoop.oraclesOf l.uncertain).map .setup ++ (direct ++ nominal)
    ∧ List.Forall₂ Reformulates (l.uncertain.filter fun r => !separatedBy sorts r) direct
    ∧ List.Forall₂ Reformulates (if options.nominalCuts then l.separated else []) nominal
    -- the program has the rows without parameters, and what was answered to each request
    ∧ ∃ fixed fs, List.Forall₂ Certain (l.working.rows.filter isDeterministic) fixed ∧ fs.length = (direct ++ nominal).length
      ∧ Reformulated (l.working.program.grow [] fixed) l.program fs

theorem answers_launch (naming : Naming) (options : RobustOptions K) (m : Model K B) :
    Answers sorts (launch naming options m) fun l qs => Prepared naming options m sorts l qs := by
  unfold launch
  refine .ite (fun _ => .throw_bind _) fun _ => .silent_bind silent_now fun now => ?_
  refine .silent_bind (silent_logIntro options) fun _ => .bind (.timed (answers_expand naming m)) fun (wm, t) qs hexpand => ?_
  refine .silent_bind (silent_logStatistics m wm) fun _ => ?_
  refine .bind (.timed (answers_prepare naming options m wm)) fun ((p, rows), t) qs' hprepare => ?_
  refine .bind (.timed (answers_reformulate options p rows)) fun ((q, n, separated), timing) qs'' hreformulate => ?_
  refine .silent_bind (silent_progress _) fun _ => .silent_bind (.liftFault _) fun _ =>
    .silent_bind (silent_detail _ _) fun _ => .pure ?_
  obtain ⟨rfl, hexpanded⟩ := hexpand
  obtain ⟨hrows, hqs', fixed, hp, hfixed⟩ := hprepare
  obtain ⟨hseparated, horacles, direct, nominal, hqs'', hdirect, hnominal, fs, hlength, hadded⟩ := hreformulate
  dsimp only at hrows hqs' hp hseparated hnominal hadded
  subst hrows
  rw [hp] at hadded
  rw [hqs''] at hlength
  exact {
    expanded := hexpanded
    separated := hseparated
    oracles := horacles
    requests := ⟨direct, nominal, by simp [hqs', hqs'', Launch.uncertain], hdirect, hnominal, fixed, fs, hfixed, hlength, hadded⟩ }

/-- **The stages before the loop** leave what they have to, and ask for it in their order. -/
theorem prepared_of_run_launch {naming : Naming} {options : RobustOptions K} {m : Model K B} {l : Launch K B}
    {env env' : Environment K B} (h : (launch naming options m).run env = (.ok l, env')) :
    ∃ qs, env.Asked qs env' ∧ Prepared naming options m env.sorts l qs := by
  obtain ⟨qs, hasked, hprepared⟩ := (answers_launch naming options m).of_run rfl h
  exact ⟨qs, hasked, hprepared l rfl⟩

end RobustSolve

end RobustLP
