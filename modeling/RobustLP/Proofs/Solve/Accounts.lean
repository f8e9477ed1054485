import RobustLP.Proofs.Expand.Sources
import RobustLP.Proofs.Solve.Launch
import RobustLP.Proofs.Solve.Preparation

/-!
# The accounts of cuts

A round in which all rows were separated adds one row for each realization that was found, and nothing else; the cuts are added
after the last of the separations. One step of this keeps the accounts (`Accounts.addCut`), so a round does (`Accounts.judge`),
and so does the whole loop: the program of each round is the first one with the cuts of the rounds before it, as many as the table
of cuts counts, under names no two of which are the same (`RobustSolve.launch_accounts`).
-/

namespace RobustLP

open Run

variable {K B : Type}

/-- A row of a program is the cut of a finding. -/
def IsCut [Scalar K B] (c : Finding K B) (t : TableRow K B) : Prop := c.1.At (Lookup.ofList c.2.point) t

namespace SolveLoop

variable [Bound B] [Scalar K B]

/-- **The accounts of some cuts:** the program has one more row for each of them, and the table holds them. -/
structure Accounts (p : LinearProgram K B) (cuts : List (Finding K B)) (added : List (TableRow K B)) (s : LoopState K B) :
    Prop where
  program : s.program = p.grow [] added
  rows : List.Forall₂ IsCut cuts added
  names : added.map (·.name) = cutNames [] cuts
  table : CutTable.Tallies s.cuts cuts

variable {p : LinearProgram K B} {cuts : List (Finding K B)} {added : List (TableRow K B)} {s s' : LoopState K B}

omit [Bound B] in
theorem Accounts.congr (h : Accounts p cuts added s) (hprogram : s'.program = s.program) (hcuts : s'.cuts = s.cuts) :
    Accounts p cuts added s' :=
  ⟨hprogram.trans h.program, h.rows, h.names, hcuts ▸ h.table⟩

omit [Bound B] in
/-- The table counts the rows that were added. -/
theorem Accounts.size_eq (h : Accounts p cuts added s) : CutTable.size s.cuts = added.length :=
  h.table.size.trans h.rows.length_eq

/-- **Adding a cut** keeps the accounts. -/
theorem Accounts.addCut (h : Accounts p cuts added s) {row : MixedRow K B} {r : Realization K B}
    (hcut : addCut s row r = .ok s') : ∃ t, IsCut (row, r) t ∧ Accounts p (cuts ++ [(row, r)]) (added ++ [t]) s' := by
  unfold SolveLoop.addCut at hcut
  split at hcut
  next i q hrun =>
    cases hcut
    obtain ⟨t, rfl, hat, hname⟩ := WorkingModel.eq_grow_of_run_addCutTo hrun
    refine ⟨t, hat, ⟨?_, List.rel_append h.rows (.cons hat .nil), ?_, h.table.record row r⟩⟩
    · rw [h.program, LinearProgram.grow_grow]
      rfl
    · -- the number in the name is the number of earlier cuts of the source
      have hnumber : (CutTable.of row.source s.cuts).length = cuts.countP (·.1.source == row.source) := by
        rw [h.table.of, List.length_map, List.countP_eq_length_filter]
      rw [List.map_append, h.names, cutNames_append, List.map_singleton, hname _ rfl]
      rw [cutName, hnumber]
      rfl
  next => cases hcut

/-- Adding several cuts keeps the accounts. -/
theorem Accounts.foldlM {vs : List (Finding K B)} (h : Accounts p cuts added s)
    (hcuts : vs.foldlM (fun s v => SolveLoop.addCut s v.1 v.2) s = .ok s') :
    ∃ ts, List.Forall₂ IsCut vs ts ∧ Accounts p (cuts ++ vs) (added ++ ts) s' := by
  induction vs generalizing cuts added s with
  | nil =>
    cases hcuts
    exact ⟨[], .nil, by rwa [List.append_nil, List.append_nil]⟩
  | cons v vs ih =>
    rw [List.foldlM_cons] at hcuts
    obtain ⟨s₁, hcut, hrest⟩ := bind_eq_ok.mp hcuts
    obtain ⟨t, ht, h₁⟩ := h.addCut hcut
    obtain ⟨ts, hall, h'⟩ := ih h₁ hrest
    refine ⟨t :: ts, .cons ht hall, ?_⟩
    rwa [List.append_assoc, List.append_assoc] at h'

omit [Bound B] [Scalar K B] in
theorem mem_of_mem_violated {rows : List (MixedRow K B)} {found : List (Option (Realization K B))} {v : Finding K B}
    (hv : v ∈ violated rows found) : v.1 ∈ rows := by
  obtain ⟨⟨row, r⟩, hzip, hr⟩ := List.mem_filterMap.mp hv
  obtain ⟨z, -, rfl⟩ := Option.map_eq_some_iff.mp hr
  exact (List.of_mem_zip hzip).1

omit [Bound B] [Scalar K B] in
theorem mem_of_mem_finds {rows : List (MixedRow K B)} {r : Round K B} {v : Finding K B} (hv : v ∈ r.finds rows) :
    v.1 ∈ rows := by
  unfold Round.finds at hv
  split at hv
  next => exact mem_of_mem_violated hv
  next => cases hv

variable [Written K] [Written B] {options : LoopOptions K} {rows : List (MixedRow K B)} {env env' : Environment K B}
  {ending : Option (LoopEnd K B)}

theorem Accounts.conclude {answer : SolverResults K} {found : List (Option (Realization K B))} (h : Accounts p cuts added s)
    (hrun : (conclude options rows answer found s).run env = (.ok (s', ending), env')) :
    ∃ ts, List.Forall₂ IsCut (violated rows found) ts ∧ Accounts p (cuts ++ violated rows found) (added ++ ts) s' := by
  obtain ⟨s₁, env₁, hlift, hrun⟩ := Edit.run_bind_eq_ok.mp hrun
  obtain ⟨⟨⟩, env₂, hlog, hrun⟩ := Edit.run_bind_eq_ok.mp hrun
  have hcuts : (violated rows found).foldlM (fun s v => SolveLoop.addCut s v.1 v.2) { s with best := some (better s.best
      { violation := largestViolation (violated rows found), point := answer.point, results := answer }) } = .ok s₁ :=
    (Edit.run_lift_eq_ok.mp hlift).1
  -- whether the loop ends or goes on, the state stays as it is
  have hstate : s₁ = s' := by
    split at hrun
    next => exact (Prod.mk.inj (Edit.run_pure_eq_ok.mp hrun).1).1
    next =>
      obtain ⟨spent, env₃, -, hrun⟩ := Edit.run_bind_eq_ok.mp hrun
      split at hrun
      next => exact (Prod.mk.inj (Edit.run_pure_eq_ok.mp hrun).1).1
      next =>
        obtain ⟨late, env₄, -, hrun⟩ := Edit.run_bind_eq_ok.mp hrun
        split at hrun
        next => exact (Prod.mk.inj (Edit.run_pure_eq_ok.mp hrun).1).1
        next => exact (Prod.mk.inj (Edit.run_pure_eq_ok.mp hrun).1).1
  have hbegin : Accounts p cuts added { s with best := some (better s.best
      { violation := largestViolation (violated rows found), point := answer.point, results := answer }) } := h.congr rfl rfl
  obtain ⟨ts, hall, h₁⟩ := hbegin.foldlM hcuts
  exact ⟨ts, hall, hstate ▸ h₁⟩

/-- **What follows from a round** keeps the accounts: each realization of the round is a cut now. -/
theorem Accounts.judge {r : Round K B} (h : Accounts p cuts added s)
    (hfound : Outcome.ofTermination r.answer.termination ≠ .optimal → r.found = none)
    (hrun : (judge options rows r s).run env = (.ok (s', ending), env')) :
    ∃ ts, List.Forall₂ IsCut (r.finds rows) ts ∧ Accounts p (cuts ++ r.finds rows) (added ++ ts) s' := by
  have hstay : r.finds rows = [] → s' = s →
      ∃ ts, List.Forall₂ IsCut (r.finds rows) ts ∧ Accounts p (cuts ++ r.finds rows) (added ++ ts) s' := by
    rintro hnone rfl
    rw [hnone]
    exact ⟨[], .nil, by rwa [List.append_nil, List.append_nil]⟩
  unfold SolveLoop.judge at hrun
  dsimp only at hrun
  split at hrun
  next hoptimal =>
    split at hrun
    next hnone =>
      obtain ⟨⟨⟩, env₁, -, hrun⟩ := Edit.run_bind_eq_ok.mp hrun
      cases hrun
      exact hstay (by rw [Round.finds, hnone]) rfl
    next found hsome =>
      split at hrun
      next hempty =>
        obtain ⟨⟨⟩, env₁, -, hrun⟩ := Edit.run_bind_eq_ok.mp hrun
        cases hrun
        refine hstay ?_ rfl
        rw [Round.finds, hsome, List.isEmpty_iff.mp hempty]
        rfl
      next =>
        rw [Round.finds, hsome]
        exact h.conclude hrun
  next outcome hne =>
    have hnone : r.finds rows = [] := by rw [Round.finds, hfound hne]
    obtain ⟨⟨⟩, env₁, -, hrun⟩ := Edit.run_bind_eq_ok.mp hrun
    split at hrun
    next =>
      cases hrun
      exact hstay hnone rfl
    next =>
      cases hrun
      exact hstay hnone rfl

/-- **The rounds of a loop and the rows that they added,** round by round. -/
structure Accounted (p : LinearProgram K B) (rows : List (MixedRow K B)) (laps : List (Lap K B)) (s : LoopState K B)
    (added : List (List (TableRow K B))) : Prop where
  /-- each realization of a round was added as a row, in the order of the rows -/
  rounds : List.Forall₂ (fun lap ts => List.Forall₂ IsCut (lap.round.finds rows) ts) laps added
  /-- the solver was handed the first program with the cuts of the earlier rounds -/
  handed : ∀ k lap, laps[k]? = some lap → lap.round.program = p.grow [] (added.take k).flatten
    ∧ ∃ c rest, lap.consulted.calls = lap.before.calls ++ c :: rest ∧ c.program = lap.round.program
  /-- oracles are not asked any more once the first cut of a round is added -/
  collected : ∀ lap ∈ laps, lap.after.questions = lap.consulted.questions
  program : s.program = p.grow [] added.flatten
  count : CutTable.size s.cuts = added.flatten.length
  /-- this holds also while the cuts of a round are being added -/
  underway : ∀ vs s₀ s₁, (∀ v ∈ vs, v.1 ∈ rows) → s₀.program = s.program → s₀.cuts = s.cuts →
    vs.foldlM (fun s v => SolveLoop.addCut s v.1 v.2) s₀ = .ok s₁ → ∃ ts, List.Forall₂ IsCut vs ts
      ∧ s₁.program = p.grow [] (added.flatten ++ ts) ∧ CutTable.size s₁.cuts = (added.flatten ++ ts).length
      ∧ ((added.flatten ++ ts).map (·.name)).Nodup
  names : (added.flatten.map (·.name)).Nodup

theorem Trail.accounts {laps : List (Lap K B)} (h : Trail options rows s env laps s' env' ending) (hcuts : s.cuts = []) :
    ∃ added : List (List (TableRow K B)),
      Accounts s.program (laps.flatMap fun lap => lap.round.finds rows) added.flatten s'
      ∧ List.Forall₂ (fun lap ts => List.Forall₂ IsCut (lap.round.finds rows) ts) laps added
      ∧ ∀ k lap, laps[k]? = some lap → lap.round.program = s.program.grow [] (added.take k).flatten := by
  induction h with
  | start env =>
    refine ⟨[], ⟨s.program.grow_nil.symm, .nil, rfl, ?_⟩, .nil, fun k lap hk => nomatch hk⟩
    rw [hcuts]
    exact CutTable.tallies_nil
  | @next s' env laps lap ending _ hlap ih =>
    obtain ⟨added, hstate, hrounds, hprograms⟩ := ih
    obtain ⟨hprogram, t, env₁, -, hanswer⟩ := exists_solving_of_run_consult hlap.consult
    have hfound : Outcome.ofTermination lap.round.answer.termination ≠ .optimal → lap.round.found = none := by
      intro hne
      rcases hanswer with ⟨-, hnone, -⟩ | ⟨hoptimal, -⟩
      · exact hnone
      · exact absurd hoptimal hne
    have hbegin : Accounts s.program (laps.flatMap fun lap => lap.round.finds rows) added.flatten
        { lap.state with iterations := lap.state.iterations + 1, timing := lap.timing } := hstate.congr rfl rfl
    obtain ⟨ts, hall, hstate'⟩ := hbegin.judge hfound hlap.judge
    refine ⟨added ++ [ts], ?_, List.rel_append hrounds (.cons hall .nil), fun k lap' hk => ?_⟩
    · rw [List.flatMap_append, List.flatten_append, List.flatMap_singleton, List.flatten_singleton]
      exact hstate'
    · have hlength : laps.length = added.length := hrounds.length_eq
      rw [List.getElem?_append] at hk
      split at hk
      next hlt =>
        rw [List.take_append_of_le_length (by omega)]
        exact hprograms k lap' hk
      next hle =>
        -- the last round was handed the program of the state before it
        have hzero : k = laps.length := by
          have hlt := (List.getElem?_eq_some_iff.mp hk).1
          simp only [List.length_singleton] at hlt
          omega
        subst hzero
        rw [Nat.sub_self] at hk
        cases hk
        rw [hprogram, hstate.program, hlength, List.take_left]

/-- **The accounts of a whole trail,** if the sources of the rows can be told apart. -/
theorem Trail.accounted {laps : List (Lap K B)} (h : Trail options rows s env laps s' env' ending) (hcuts : s.cuts = [])
    (hrows : ∀ row ∈ rows, row.source.Regular) : ∃ added, Accounted s.program rows laps s' added := by
  obtain ⟨added, hstate, hrounds, hprograms⟩ := h.accounts hcuts
  have hregular : ∀ v ∈ laps.flatMap fun lap => lap.round.finds rows, v.1.source.Regular := by
    intro v hv
    obtain ⟨lap, -, hv⟩ := List.mem_flatMap.mp hv
    exact hrows v.1 (mem_of_mem_finds hv)
  refine ⟨added, hrounds, fun k lap hk => ⟨hprograms k lap hk, ?_⟩, fun lap hlap => ?_, hstate.program, hstate.size_eq,
    fun vs s₀ s₁ hvs hprogram hcuts₀ hadd => ?_, ?_⟩
  · obtain ⟨s₁, ending₁, hlap⟩ := h.succeeds (List.mem_of_getElem? hk)
    obtain ⟨hprogram, t, env₁, hsolving, hanswer⟩ := exists_solving_of_run_consult hlap.consult
    obtain ⟨c, hcalls, hc⟩ := calls_of_run_solving hsolving
    obtain ⟨rest, hrest⟩ : env₁.calls <+: lap.consulted.calls := by
      rcases hanswer with ⟨-, -, henv⟩ | ⟨hoptimal, hexamine⟩
      · rw [henv]
      · obtain ⟨qs, hasked, -⟩ := exists_requests_of_run_examine hoptimal hsolving hexamine
        exact hasked.calls
    refine ⟨c, rest, ?_, hc.trans hprogram.symm⟩
    rw [← hrest, hcalls, List.append_assoc]
    rfl
  · obtain ⟨s₁, ending₁, hsucceeds⟩ := h.succeeds hlap
    obtain ⟨qs, hasked, rfl⟩ := (silent_judge _ _).of_run rfl hsucceeds.judge
    rw [hasked.questions, List.append_nil]
  · obtain ⟨ts, hall, h₁⟩ := (hstate.congr hprogram hcuts₀).foldlM hadd
    refine ⟨ts, hall, h₁.program, h₁.size_eq, ?_⟩
    rw [h₁.names]
    refine nodup_cutNames fun v hv => ?_
    rcases List.mem_append.mp hv with hv | hv
    · exact hregular v hv
    · exact hrows v.1 (hvs v hv)
  · rw [hstate.names]
    exact nodup_cutNames hregular

end SolveLoop

namespace RobustSolve

open SolveLoop

variable [Bound B] [Scalar K B] [Written K] [Written B]

/-- **Programs grow by cuts alone.** Every run of the loop on a model, also one that fails, goes through rounds; and whatever
rounds a loop goes through, the solver is handed the first program with one row for each realization of the earlier rounds, and
each of these rows is known to the table of cuts and has a name of its own. -/
theorem launch_accounts {naming : Naming} {options : RobustOptions K} {m : Model K B} {l : Launch K B}
    {env env₀ : Environment K B} (hlaunch : (launch naming options m).run env = (.ok l, env₀)) :
    (∀ fuel env₁, ∃ laps s env₂ ending, Passes fuel options.forLoop l.separated l.start env₁ laps s env₂ ending)
    ∧ ∀ env₁ laps s env₂ ending, Trail options.forLoop l.separated l.start env₁ laps s env₂ ending →
      ∃ added, Accounted l.program l.separated laps s added := by
  obtain ⟨qs, -, hprepared⟩ := prepared_of_run_launch hlaunch
  obtain ⟨wm, hwm, happly⟩ := bind_eq_ok.mp hprepared.expanded
  have hregular : l.working.Regular := Expander.regular_of_apply _ happly (WorkingModel.regular_of_ofModel hwm)
  have hrows : ∀ row ∈ l.separated, row.source.Regular := by
    intro row hrow
    rw [hprepared.separated] at hrow
    exact hregular row (List.mem_filter.mp (List.mem_filter.mp hrow).1).1
  exact ⟨fun fuel env₁ => exists_passes_of_run fuel options.forLoop l.separated l.start env₁,
    fun env₁ laps s env₂ ending htrail => htrail.accounted rfl hrows⟩

/-- A solve in which one cut is added. -/
theorem launch_accounts_cover : ∃ (l : Launch Rat ExtRat) (env₀ env₁ env₂ : Environment Rat ExtRat) (laps : List (Lap Rat ExtRat))
      (s : LoopState Rat ExtRat) (ending : Option (LoopEnd Rat ExtRat)) (t : TableRow Rat ExtRat),
    (launch (Catalog.naming [coverModel]) (exactOptions true) coverModel).run coverEnvironment = (.ok l, env₀)
    ∧ Trail (exactOptions true).forLoop l.separated l.start env₁ laps s env₂ ending
    ∧ s.program = l.program.grow [] [t] ∧ CutTable.size s.cuts = 1 := by
  have hcount : ((launch (Catalog.naming [coverModel]) (exactOptions true) coverModel >>= fun l =>
      SolveLoop.run 9 (exactOptions true).forLoop l.separated l.start).run coverEnvironment).1.toOption.map
        (fun a => CutTable.size a.1.cuts) = some 1 := by decide +kernel
  rcases hlaunch : (launch (Catalog.naming [coverModel]) (exactOptions true) coverModel).run coverEnvironment with ⟨r, env₀⟩
  cases r with
  | error e =>
    rw [Edit.run_bind_of_error hlaunch] at hcount
    cases hcount
  | ok l =>
    rw [Edit.run_bind_of_ok hlaunch] at hcount
    obtain ⟨hruns, hall⟩ := launch_accounts hlaunch
    obtain ⟨laps, s, env₂, ending, hpasses⟩ := hruns 9 env₀
    obtain ⟨env₁, -, htrail⟩ := hpasses.trail
    have hleaves := hpasses.leaves
    obtain ⟨added, haccounted⟩ := hall env₁ laps s env₂ ending htrail
    have hsize : CutTable.size s.cuts = 1 := by
      generalize (SolveLoop.run 9 (exactOptions true).forLoop l.separated l.start).run env₀ = run at hleaves hcount
      cases hleaves with
      | ok => exact Option.some.inj hcount
      | error => cases hcount
    obtain ⟨t, ht⟩ := List.length_eq_one_iff.mp (haccounted.count.symm.trans hsize)
    exact ⟨l, env₀, env₁, env₂, laps, s, ending, t, rfl, htrail, ht ▸ haccounted.program, hsize⟩

end RobustSolve

end RobustLP
