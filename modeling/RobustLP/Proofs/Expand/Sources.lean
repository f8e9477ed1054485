import RobustLP.Proofs.Solve.Tally

/-!
# Where the rows of a working model come from

A row of a working model is an uncertain constraint of the model, known by its position, or it was made while decision rules were
substituted, and then its label says from what. Substituting a rule changes the form of a row and nothing else of it. So the
texts of the sources tell all rows of different origin apart, in whatever way the model names its variables and constraints
(`regular_of_apply`).
-/

namespace RobustLP

/-! ## Steps that keep an invariant -/

namespace Edit

variable {σ α β γ : Type} {I : σ → Prop} {m : Edit σ α} {f : α → Edit σ β} {Q : α → Prop} {R : β → Prop}

/-- A step that keeps an invariant if it succeeds, and what it answers. -/
def Yields (I : σ → Prop) (m : Edit σ α) (Q : α → Prop) : Prop :=
  ∀ s s' a, I s → m.run s = (.ok a, s') → I s' ∧ Q a

theorem Yields.mono {Q' : α → Prop} (h : Yields I m Q) (hQ : ∀ a, Q a → Q' a) : Yields I m Q' :=
  fun s s' a hI hrun => ⟨(h s s' a hI hrun).1, hQ a (h s s' a hI hrun).2⟩

theorem Yields.pure {a : α} (h : Q a) : Yields I (pure a) Q := by
  intro s s' b hI hrun
  cases hrun
  exact ⟨hI, h⟩

theorem Yields.throw (e : Error) : Yields I (throw e) Q := by
  intro s s' a _ hrun
  cases hrun

theorem Yields.bind (h : Yields I m Q) (hf : ∀ a, Q a → Yields I (f a) R) : Yields I (m >>= f) R := by
  intro s s' b hI hrun
  obtain ⟨a, s₁, hm, hrun⟩ := run_bind_eq_ok.mp hrun
  obtain ⟨hI₁, hQ⟩ := h s s₁ a hI hm
  exact hf a hQ s₁ s' b hI₁ hrun

theorem Yields.get : Yields I (get : Edit σ σ) I := by
  intro s s' a hI hrun
  cases hrun
  exact ⟨hI, hI⟩

theorem Yields.modify {g : σ → σ} (h : ∀ s, I s → I (g s)) : Yields I (modify g : Edit σ PUnit) fun _ => True := by
  intro s s' a hI hrun
  cases hrun
  exact ⟨h s hI, trivial⟩

theorem Yields.lift {r : Except Error α} : Yields I (Edit.lift r) fun a => r = .ok a := by
  intro s s' a hI hrun
  obtain ⟨hr, rfl⟩ := run_lift_eq_ok.mp hrun
  exact ⟨hI, hr⟩

theorem Yields.liftFault {r : Except Fault α} : Yields I (Edit.liftFault r) fun a => r = .ok a := by
  intro s s' a hI hrun
  obtain ⟨hr, rfl⟩ := run_liftFault_eq_ok.mp hrun
  exact ⟨hI, hr⟩

theorem Yields.mapM {k : γ → Edit σ α} {Q : γ → α → Prop} (h : ∀ c, Yields I (k c) (Q c)) :
    ∀ {cs : List γ}, Yields I (cs.mapM k) fun as => List.Forall₂ Q cs as
  | [] => .pure .nil
  | c :: cs => by
    rw [List.mapM_cons]
    exact .bind (h c) fun a ha => .bind (Yields.mapM h) fun as has => .pure (.cons ha has)

theorem Yields.forM {k : γ → Edit σ PUnit} (h : ∀ c, Yields I (k c) fun _ => True) :
    ∀ {cs : List γ}, Yields I (cs.forM k) fun _ => True
  | [] => .pure trivial
  | c :: _ => .bind (h c) fun _ _ => Yields.forM h

theorem Yields.foldlM {k : α → γ → Edit σ α} (h : ∀ a c, Yields I (k a c) fun _ => True) :
    ∀ {cs : List γ} {a : α}, Yields I (cs.foldlM k a) fun _ => True
  | [], a => .pure trivial
  | c :: cs, a => by
    rw [List.foldlM_cons]
    exact .bind (h a c) fun a' _ => Yields.foldlM h

end Edit

/-! ## Rows of working models -/

open Edit

variable {K B : Type}

/-- The sources of all rows can be told apart by their texts. -/
def WorkingModel.Regular (wm : WorkingModel K B) : Prop := ∀ r ∈ wm.rows, r.source.Regular

variable {wm wm' : WorkingModel K B}

theorem WorkingModel.Regular.append (h : wm.Regular) {rows : List (MixedRow K B)} (hrows : ∀ r ∈ rows, r.source.Regular) :
    WorkingModel.Regular { wm with rows := wm.rows ++ rows } := by
  intro r hr
  rcases List.mem_append.mp hr with hr | hr
  · exact h r hr
  · exact hrows r hr

/-- Editing the program leaves the rows alone. -/
theorem yields_editProgram {α : Type} (e : Edit (LinearProgram K B) α) :
    Yields WorkingModel.Regular (WorkingModel.editProgram e) fun _ => True := by
  unfold WorkingModel.editProgram
  refine .bind .get fun wm hwm => ?_
  dsimp only
  intro s s' a _ hrun
  obtain ⟨⟨⟩, s₁, hset, hrun⟩ := Edit.run_bind_eq_ok.mp hrun
  cases hset
  rw [(Edit.run_lift_eq_ok.mp hrun).2]
  exact ⟨hwm, trivial⟩

variable [Bound B] [Scalar K B]

/-- The rows of a model are known by their positions. -/
theorem WorkingModel.regular_of_ofModel [Written K] [Written B] {naming : Naming} {m : Model K B}
    (h : WorkingModel.ofModel naming m = .ok wm) : wm.Regular := by
  unfold WorkingModel.ofModel at h
  dsimp only at h
  split at h
  next => cases h
  next p hbuild =>
    obtain ⟨rows, hrows, h⟩ := bind_eq_ok.mp h
    obtain ⟨objective, -, h⟩ := bind_eq_ok.mp h
    cases h
    intro r hr
    obtain ⟨⟨⟨c, oracle⟩, i⟩, -, hrow⟩ := exists_left_of_forall₂ (mapM_eq_ok_iff.mp hrows) hr
    obtain ⟨form, -, hrow⟩ := bind_eq_ok.mp hrow
    obtain ⟨name, -, hrow⟩ := bind_eq_ok.mp hrow
    cases hrow
    exact .index i

namespace Expander

variable (e : Expander)

omit [Bound B] in
theorem yields_liftRows : Yields WorkingModel.Regular (e.liftRows : Edit (WorkingModel K B) Unit) fun _ => True := by
  have hrow : ∀ (wm : WorkingModel K B) (entry : List (Nat × K) × Nat), Yields WorkingModel.Regular
      (Edit.liftFault (e.liftedRow wm entry.2 entry.1) : Edit (WorkingModel K B) (MixedRow K B)) fun r => r.source.Regular := by
    intro wm entry
    refine Yields.mono .liftFault fun r hr => ?_
    obtain ⟨lower, -, hr⟩ := bind_eq_ok.mp hr
    obtain ⟨upper, -, hr⟩ := bind_eq_ok.mp hr
    obtain ⟨name, -, hr⟩ := bind_eq_ok.mp hr
    cases hr
    exact .lifted name
  unfold liftRows
  refine .bind .get fun wm _ => .bind (.mapM (hrow wm)) fun rows hrows =>
    .bind (.modify fun s hs => hs.append fun r hr => ?_) fun _ _ => yields_editProgram _
  obtain ⟨c, -, hc⟩ := exists_left_of_forall₂ hrows hr
  exact hc

theorem yields_liftBounds : Yields WorkingModel.Regular (e.liftBounds : Edit (WorkingModel K B) Unit) fun _ => True := by
  refine .forM fun j => ?_
  unfold liftBoundsOf
  refine .bind .get fun wm _ => ?_
  split
  next => exact .throw _
  next c _ =>
    have hcolumns : Yields WorkingModel.Regular (modify fun wm : WorkingModel K B => { wm with
        program := { wm.program with
          columns := wm.program.columns.set j { c with lower := Bound.negInf, upper := Bound.posInf } } }) fun _ => True :=
      .modify fun _ hs => hs
    dsimp only
    split
    next =>
      refine .bind (.modify fun s hs => hs.append fun r hr => ?_) fun _ _ => hcolumns
      rw [List.mem_singleton.mp hr]
      exact .bounds c.name
    next => exact hcolumns

theorem yields_liftObjective : Yields WorkingModel.Regular (e.liftObjective : Edit (WorkingModel K B) Unit) fun _ => True := by
  unfold liftObjective
  refine .bind .get fun wm _ => .bind .get fun _ _ => ?_
  dsimp only
  split
  next => exact yields_editProgram _
  next =>
    refine .bind (yields_editProgram _) fun t _ => .bind (.modify fun s hs => ?_) fun _ _ => yields_editProgram _
    have hs' : WorkingModel.Regular { s with epigraphColumn := some t } := hs
    refine hs'.append fun r hr => ?_
    rw [List.mem_singleton.mp hr]
    exact .objective

theorem yields_substitute (name : Option String) (f : MixedForm K) :
    Yields WorkingModel.Regular (e.substitute name f : Edit (WorkingModel K B) (MixedForm K)) fun _ => True := by
  have haux : ∀ j k, Yields WorkingModel.Regular (e.auxColumn j k : Edit (WorkingModel K B) Nat) fun _ => True := by
    intro j k
    unfold auxColumn
    refine .bind .get fun wm _ => ?_
    split
    next => exact .pure trivial
    next =>
      refine .bind .liftFault fun _ _ => .bind .liftFault fun _ _ => .bind (yields_editProgram _) fun col _ => ?_
      exact .bind (.modify fun s hs => hs) fun _ _ => .pure trivial
  refine .foldlM fun f j => ?_
  unfold substituteVariable
  split
  next => exact .pure trivial
  next c _ =>
    have hfold : Yields WorkingModel.Regular
        ((e.dependsOn j).foldlM (fun f k => do return addProduct (← e.auxColumn j k) k c.constant f) f) fun _ => True :=
      .foldlM fun f k => .bind (haux j k) fun _ _ => .pure trivial
    dsimp only
    split
    next =>
      refine .bind .get fun _ _ => .bind .liftFault fun _ _ => ?_
      exact .bind (Q := fun _ => True) (.throw _) fun _ _ => hfold
    next => exact hfold

theorem yields_substituteRows : Yields WorkingModel.Regular (e.substituteRows : Edit (WorkingModel K B) Unit) fun _ => True := by
  -- a row keeps its source while its form is changed
  have hrow : ∀ r : MixedRow K B, Yields WorkingModel.Regular
      (do return { r with form := ← e.substitute r.name r.form } : Edit (WorkingModel K B) (MixedRow K B))
      fun r' => r'.source = r.source := by
    intro r
    exact .bind (yields_substitute e r.name r.form) fun f _ => .pure rfl
  unfold substituteRows
  refine .bind .get fun wm hwm => .bind (.mapM hrow) fun rows hrows => .modify fun s _ r hr => ?_
  obtain ⟨r₀, hr₀, hsource⟩ := exists_left_of_forall₂ hrows hr
  rw [hsource]
  exact hwm r₀ hr₀

/-- **Substituting decision rules** makes rows whose sources can be told apart. -/
theorem regular_of_apply (h : e.apply wm = .ok wm') (hwm : wm.Regular) : wm'.Regular := by
  unfold apply at h
  have hsteps : Yields WorkingModel.Regular (do
      if !e.policies.isEmpty then
        e.liftRows
        e.liftBounds
      e.liftObjective
      e.substituteRows : Edit (WorkingModel K B) Unit) fun _ => True := by
    have hrest : Yields WorkingModel.Regular (do
        e.liftObjective
        e.substituteRows : Edit (WorkingModel K B) Unit) fun _ => True :=
      .bind (yields_liftObjective e) fun _ _ => yields_substituteRows e
    split
    next => exact .bind (yields_liftRows e) fun _ _ => .bind (yields_liftBounds e) fun _ _ => hrest
    next => exact hrest
  dsimp only at h
  split at h
  next wm₁ hrun =>
    cases h
    exact (hsteps wm wm' _ hwm hrun).1
  next => cases h

end Expander

end RobustLP
