import RobustLP.Proofs.Algebra.Owners
import RobustLP.Proofs.Model.Grows
import RobustLP.Working.Expand

/-!
# Sound models

A model is sound when what it holds fits together (`Model.Sound`): bounds do not contradict each other, constraints are over the
tables of the model, and policies are those of variables that can have one. A model that is worked on by calls, whether these
succeed or fail, stays sound (`Model.Worked.sound`).

What calls are given is formed by the operations of the library from handles, and a handle is answered when its symbol is declared
(`Model.Call.Given`, `Model.Worked`). That the handle of a parameter stands for a position of the table is therefore proved and not
required (`Model.Worked.handles_eq`). Handles of other models may be among the arguments; they are found by the owner that an
expression notes.
-/

namespace RobustLP

open Edit

namespace Model

variable {K B : Type} [Bound B] [Scalar K B]

/-! ## What a model may rely on -/

/-- **An expression over the tables of a model:** its symbols belong to the model and stand in the tables. -/
structure Owns (i : ModelId) (m : Model K B) (e : Expr K) : Prop where
  decisions : ∀ v ∈ e.allVariables, v.model = i ∧ v.index < m.decisions.length
  parameters : ∀ u ∈ e.allParameters, u.model = i ∧ u.index < m.parameters.length

/-- **A sound model:** no bounds contradict each other, each table of constraints holds those of its kind, over the tables of the
model, and a variable has at most one policy, which the tables allow. -/
structure Sound (i : ModelId) (m : Model K B) : Prop where
  decisions : ∀ d ∈ m.decisions, d.Ordered
  parameters : ∀ d ∈ m.parameters, d.Ordered
  constraints : ∀ c ∈ m.constraints, m.Owns i c.body ∧ c.kind = .linear
  setConstraints : ∀ c ∈ m.setConstraints, m.Owns i c.body ∧ c.kind = .uncertain
  uncertain : ∀ c ∈ m.uncertain, m.Owns i c.1.body ∧ c.1.kind = .full
  objective : m.Owns i m.objective
  distinct : (keys m.affine).Nodup
  policies : ∀ p ∈ m.affine, m.AllowsPolicy p

variable {self : ModelId} {m m' : Model K B}

theorem sound_empty (name : String) (robust : Bool) (oracle : OracleId) : (empty name robust oracle : Model K B).Sound self where
  decisions := List.forall_mem_nil _
  parameters := List.forall_mem_nil _
  constraints := List.forall_mem_nil _
  setConstraints := List.forall_mem_nil _
  uncertain := List.forall_mem_nil _
  objective := ⟨List.forall_mem_nil _, List.forall_mem_nil _⟩
  distinct := List.nodup_nil
  policies := List.forall_mem_nil _

omit [Scalar K B] in
theorem Grows.owns {Q : Expr K → Prop} (h : m.Grows Q m') {e : Expr K} (he : m.Owns self e) : m'.Owns self e where
  decisions v hv := (he.decisions v hv).imp_right fun h' => h'.trans_le h.length
  parameters u hu := (he.parameters u hu).imp_right fun h' => h'.trans_le h.parameters

omit [Scalar K B] in
/-- **A model stays sound when it grows.** -/
theorem Sound.grow (hm : m.Sound self) (h : m.Grows (m.Owns self) m') : m'.Sound self where
  decisions := h.orderedDecisions hm.decisions
  parameters := h.orderedParameters hm.parameters
  constraints c hc := ((h.constraints c hc).elim (hm.constraints c) id).imp_left h.owns
  setConstraints c hc := ((h.setConstraints c hc).elim (hm.setConstraints c) id).imp_left h.owns
  uncertain c hc := ((h.uncertain c hc).elim (hm.uncertain c) id).imp_left h.owns
  objective := h.owns (h.objective.elim (fun heq => heq ▸ hm.objective) id)
  distinct := (h.policies hm.distinct).1
  policies p hp := h.allowsPolicy (((h.policies hm.distinct).2 p hp).elim (hm.policies p) id)

/-! ## Handles -/

/-- The handle of a position. -/
def handle (self : ModelId) (k : Nat) : Parameter := { model := self, index := k }

/-- The handles of parameters that a call answers. -/
def Call.handles [Written B] (self : ModelId) (m : Model K B) : Call K B → List Parameter
  | .addParameter d => match ((Model.addParameter d).run m).1 with
    | .ok k => [handle self k]
    | .error _ => []
  | .addParameters n d => match ((Model.addParameters n d).run m).1 with
    | .ok ks => ks.map (handle self)
    | .error _ => []
  | _ => []

/-- The symbols of the model `i` in an expression are variables that are in its table, and parameters of which the handles were
answered. -/
structure Known (i : ModelId) (m : Model K B) (us : List Parameter) (e : Expr K) : Prop where
  decisions : ∀ v ∈ e.allVariables, v.model = i → v.index < m.decisions.length
  parameters : ∀ u ∈ e.allParameters, u.model = i → u ∈ us

/-- **A call with expressions that the operations form, and with handles that were answered.** Symbols of other models may occur;
it is for the call to refuse them. -/
def Call.Given (self : ModelId) (m : Model K B) (us : List Parameter) : Call K B → Prop
  | .addConstraint (.constraint c) _ => (Quantity.expr c.body).Formed ∧ Known self m us c.body
  | .setObjective (.ok q) _ => q.Formed ∧ Known self m us (Quantity.objective q)
  | .setPolicy adapted _ dependsOn => (∀ j, .decision { model := self, index := j } ∈ adapted → j < m.decisions.length)
    ∧ ∀ k, .parameter (handle self k) ∈ dependsOn → handle self k ∈ us
  | _ => True

variable [Written K] [Written B]

/-- **The models that calls lead to, with the handles of parameters that they answered,** in order. Calls that failed count, too. -/
inductive Worked (self : ModelId) : Model K B → List Parameter → Prop
  | start (name : String) (robust : Bool) (oracle : OracleId) : Worked self (empty name robust oracle) []
  | call {m : Model K B} {us : List Parameter} (naming : Naming) (c : Call K B) : Worked self m us → c.Given self m us →
    Worked self ((c.edit naming self).run m).2 (us ++ c.handles self m)

omit [Bound B] [Scalar K B] [Written K] [Written B] in
/-- What the operations form of handles that were answered, and the model accepts, is over the tables of the model. -/
theorem Known.owns {us : List Parameter} {e : Expr K} (h : Known self m us e) (hus : ∀ u ∈ us, u.index < m.parameters.length)
    (he : e.Attributed) (hown : Owned self e.owner) : m.Owns self e := by
  have hmodel : ∀ i, e.owner = some i → i = self := fun i hi => (hi ▸ hown).eq_of_some
  -- the note is right, so a symbol of another model would have been refused
  refine ⟨fun v hv => ?_, fun u hu => ?_⟩
  · have hv' := hmodel _ (he.owner_of_variable hv)
    exact ⟨hv', h.decisions v hv hv'⟩
  · have hu' := hmodel _ (he.owner_of_parameter hu)
    exact ⟨hu', hus u (h.parameters u hu hu')⟩

omit [Bound B] [Written K] [Written B] in
theorem Quantity.attributed_objective {q : Quantity K} (h : q.Formed) : (Quantity.objective q).Attributed := by
  cases q with
  | number x => exact Affine.of_nil
  | expr e => exact h.attributed

omit [Bound B] [Written K] [Written B] in
theorem Call.Given.mentions {c : Call K B} {us : List Parameter} (hc : c.Given self m us)
    (hus : ∀ u ∈ us, u.index < m.parameters.length) : c.Mentions (m.Owns self) self m := by
  unfold Mentions
  split
  next c oracle => exact hc.2.owns hus hc.1.attributed
  next q sense => exact hc.2.owns hus (Quantity.attributed_objective hc.1)
  next => exact ⟨hc.1, fun k hk => hus _ (hc.2 k hk)⟩
  next => trivial

/-! ## Steps -/

omit [Written K] in
/-- Several parameters get positions in a row. -/
theorem run_mapM_addParameter {α : Type} {f : α → Declaration K B} : ∀ {l : List α} {m m' : Model K B} {ks : List Nat},
    (l.mapM fun a => addParameter (f a)).run m = (.ok ks, m') →
      ks = List.range' m.parameters.length l.length ∧ m'.parameters.length = m.parameters.length + l.length
  | [], m, m', ks, h => by
    cases h
    exact ⟨rfl, rfl⟩
  | a :: l, m, m', ks, h => by
    rw [List.mapM_cons] at h
    obtain ⟨k, m₁, hfirst, h⟩ := run_bind_eq_ok.mp h
    obtain ⟨ks', m₂, hrest, h⟩ := run_bind_eq_ok.mp h
    cases h
    obtain ⟨hk, hdone⟩ : k = m.parameters.length ∧ (Call.addParameter (f a)).Done 0 m m₁ :=
      (ends_addParameter (f a)).done k m₁ hfirst
    have hlength : m₁.parameters.length = m.parameters.length + 1 := by
      cases hdone
      exact List.length_append
    obtain ⟨rfl, hlength'⟩ := run_mapM_addParameter hrest
    rw [hlength] at hlength' ⊢
    exact ⟨by rw [hk, List.length_cons, List.range'_succ], by rw [hlength', List.length_cons]; omega⟩

/-- Parameters are entered by two of the calls only. -/
def Call.entersParameters : Call K B → Bool
  | .addParameter _ | .addParameters _ _ => true
  | _ => false

omit [Written K] [Written B] in
theorem Call.Done.length_parameters {c : Call K B} (h : c.Done self m m') (hc : c.entersParameters = false) :
    m'.parameters.length = m.parameters.length := by
  cases h with
  | addParameter | addParameters => cases hc
  | renameParameter | setParameterLower | setParameterUpper => exact List.length_modify ..
  | _ => rfl

omit [Written K] [Written B] in
theorem Call.Torn.length_parameters {c : Call K B} (h : c.Torn self m m') : m'.parameters.length = m.parameters.length := by
  cases h <;> rfl

theorem Call.length_parameters (naming : Naming) (self : ModelId) (m : Model K B) {c : Call K B}
    (hc : c.entersParameters = false) : ((c.edit naming self).run m).2.parameters.length = m.parameters.length := by
  have hends : Edit.Ends (c.edit naming self) m (fun _ m' => m'.parameters.length = m.parameters.length)
      (fun m' => m'.parameters.length = m.parameters.length) :=
    (c.ends naming self m).mono (fun _ _ h => h.length_parameters hc) fun _ h => h.length_parameters
  exact hends.leaves rfl

/-- **The handles that a call answers are those of the parameters that it enters,** in order. -/
theorem Call.handles_eq (naming : Naming) (self : ModelId) (m : Model K B) (c : Call K B) : ∃ n,
    c.handles self m = (List.range' m.parameters.length n).map (handle self)
      ∧ ((c.edit naming self).run m).2.parameters.length = m.parameters.length + n := by
  cases c with
  | addParameter d =>
    have hends : Edit.Ends (Model.addParameter d) m
        (fun k m' => k = m.parameters.length ∧ (Call.addParameter d).Done self m m') ((Call.addParameter d).Torn self m) :=
      ends_addParameter d
    unfold handles edit
    dsimp only
    rw [snd_run_discard]
    rcases hrun : (Model.addParameter d).run m with ⟨r, m'⟩
    rcases r with e | k
    · rcases hends.failed e m' hrun with rfl | htorn
      · exact ⟨0, rfl, rfl⟩
      · cases htorn
    · obtain ⟨rfl, hdone⟩ := hends.done k m' hrun
      cases hdone
      exact ⟨1, rfl, List.length_append⟩
  | addParameters n d =>
    have hends : Edit.Ends (Model.addParameters n d) m (fun _ m' => (Call.addParameters n d).Done self m m')
        ((Call.addParameters n d).Torn self m) := ends_addParameters n d
    unfold handles edit
    dsimp only
    rw [snd_run_discard]
    rcases hrun : (Model.addParameters n d).run m with ⟨r, m'⟩
    rcases r with e | ks
    · rcases hends.failed e m' hrun with rfl | htorn
      · exact ⟨0, rfl, rfl⟩
      · cases htorn
    · obtain ⟨rfl, hlength⟩ := run_mapM_addParameter hrun
      exact ⟨n, by rw [List.length_range], by rw [hlength, List.length_range]⟩
  | _ => exact ⟨0, rfl, Call.length_parameters naming self m rfl⟩

/-- **The handles that were answered are those of the positions of the table,** in order. -/
theorem Worked.handles_eq {us : List Parameter} (h : m.Worked self us) :
    us = (List.range m.parameters.length).map (handle self) := by
  induction h with
  | start name robust oracle => rfl
  | @call m us naming c _ _ ih =>
    obtain ⟨n, hhandles, hlength⟩ := c.handles_eq naming self m
    rw [hhandles, hlength, ih, List.range_add, List.map_append, List.range'_eq_map_range]

/-- **Every model that is worked on is sound.** -/
theorem Worked.sound {us : List Parameter} (h : m.Worked self us) : m.Sound self := by
  induction h with
  | start name robust oracle => exact sound_empty name robust oracle
  | @call m us naming c hm hc ih =>
    refine ih.grow (Call.grows naming (hc.mentions fun u hu => ?_))
    -- a handle that was answered is that of a position of the table
    obtain ⟨k, hk, rfl⟩ := List.mem_map.mp (hm.handles_eq ▸ hu)
    exact List.mem_range.mp hk

/-! ## Policies -/

end Model

end RobustLP
