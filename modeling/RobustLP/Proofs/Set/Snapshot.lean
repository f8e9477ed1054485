import RobustLP.Proofs.Model.Sound
import RobustLP.Proofs.Set.Views
import RobustLP.Scalar.Double

/-!
# The set of a sound model

The uncertainty set of a model is a snapshot of its parameters and of the constraints over them. For a sound model the snapshot can
be made, with one entry for each parameter, and its bounds are never refused (`Model.Sound.ofModel_cases`). What is left that may
fail are the sums of coefficients in a constraint: never those of rational numbers, and those of doubles where they are too large
or undefined (`SumFails.eq_of_doubles`).

Together with the soundness of all models that calls lead to, this is the main result about calls (`Model.Worked.stays_sound`).
-/

namespace RobustLP

open UncertaintySet

/-! ## Sums that fail -/

section

variable {S K B : Type} [Symbol S] [Scalar K B]

/-- A sum of coefficients fails so. -/
def SumFails (K : Type) {B : Type} [Scalar K B] (f : Fault) : Prop := ∃ xs : List K, Scalar.sum xs = .error f

theorem sumFails_of_collapse {terms : List (S × K)} {f : Fault} (h : collapse terms = .error f) : SumFails K f := by
  rcases bind_eq_error.mp h with hall | ⟨all, -, h⟩
  · obtain ⟨p, -, hp⟩ := exists_mem_of_mapM_eq_error hall
    rcases bind_eq_error.mp hp with hcs | ⟨c, -, hp⟩
    · unfold sumCoefs at hcs
      split at hcs
      next => cases hcs
      next => exact ⟨p.2, hcs⟩
    · cases hp
  · cases h

/-- Normalising fails only where a sum of coefficients does. -/
theorem Affine.sumFails_of_normalized {e : Affine S K} {f : Fault} (h : e.normalized = .error f) : SumFails K f := by
  rcases bind_eq_error.mp h with hterms | ⟨terms, -, h⟩
  · exact sumFails_of_collapse hterms
  · rcases bind_eq_error.mp h with hconstant | ⟨c, -, h⟩
    · unfold exactConstant at hconstant
      split at hconstant
      next => cases hconstant
      next parts _ => exact ⟨parts, hconstant⟩
    · cases h

end

/-- Sums of rational numbers never fail. -/
theorem not_sumFails_exact (f : Fault) : ¬SumFails Rat f := fun ⟨_, h⟩ => nomatch h

/-- A sum of doubles is too large, or undefined. -/
theorem SumFails.eq_of_doubles {f : Fault} (h : SumFails Float f) : f = .overflow ∨ f = .badValue := by
  have hadd : ∀ (s : Decimal.Partials) (x : Float), (∃ s', s.add x = .ok s' ∧ True) ∨ ∃ f, s.add x = .error f ∧ f = .overflow := by
    intro s x
    unfold Decimal.Partials.add
    dsimp only
    split
    next => exact .inl ⟨_, rfl, trivial⟩
    next =>
      split
      next => exact .inl ⟨_, rfl, trivial⟩
      next =>
        split
        next => exact .inr ⟨_, rfl, rfl⟩
        next => exact .inl ⟨_, rfl, trivial⟩
  obtain ⟨xs, hxs⟩ := h
  rcases bind_eq_error.mp hxs with hfold | ⟨s, -, hxs⟩
  · rcases foldlM_cases (fun s x _ _ => hadd s x) trivial with ⟨s, hs, -⟩ | ⟨f', hf, rfl⟩
    · cases hfold.symm.trans hs
    · exact .inl (Except.error.inj (hfold.symm.trans hf))
  · split at hxs
    next =>
      split at hxs
      next => exact .inr (Except.error.inj hxs).symm
      next => cases hxs
    next => cases hxs

/-! ## Constraints of the set -/

section

variable {K B : Type} [Scalar K B] [Written K] {naming : Naming}

/-- The form of an expression in the parameters is that of its normal form. -/
theorem Quantity.uncertainForm_uncertain {e n : Affine Parameter K} (h : e.normalized = .ok n) :
    uncertainForm naming (.expr (.uncertain e)) = .ok n.form := by
  unfold uncertainForm Expr.normalized
  dsimp only
  rw [h]
  rfl

theorem Quantity.uncertainForm_uncertain_of_error {e : Affine Parameter K} {f : Fault} (h : e.normalized = .error f) :
    uncertainForm naming (.expr (.uncertain e)) = .error (.fault f) := by
  unfold uncertainForm Expr.normalized
  dsimp only
  rw [h]
  rfl

end

namespace UncertaintySet

variable {K B : Type} [Bound B] [Scalar K B]

/-- **The tables of a set are those of the parameters of a model.** -/
structure Snapshot (m : Model K B) (s : UncertaintySet K B) : Prop where
  lower : s.lower = m.parameters.map (·.lower.value)
  upper : s.upper = m.parameters.map (·.upper.value)
  integer : s.integer = m.parameters.map (·.domain.isInteger)
  names : s.names = (List.range m.parameters.length).map m.parameterName

theorem Snapshot.addConstraint {m : Model K B} {s : UncertaintySet K B} (h : s.Snapshot m) (row : List K) (lower upper : B) :
    (s.addConstraint row lower upper).Snapshot m := by
  unfold UncertaintySet.addConstraint
  split
  next => exact ⟨h.lower, h.upper, h.integer, h.names⟩
  next =>
    dsimp only
    split <;> split <;> exact ⟨h.lower, h.upper, h.integer, h.names⟩

end UncertaintySet

namespace Model

variable {K B : Type} [Bound B] [Scalar K B] [Written K] {self : ModelId} {m : Model K B}

/-- A constraint of the set of a sound model has a form, over the parameters of the model, unless a sum fails. -/
theorem Sound.uncertainForm_cases (hm : m.Sound self) (naming : Naming) {c : Constraint K B} (hc : c ∈ m.setConstraints) :
    (∃ f, Quantity.uncertainForm naming (.expr c.body) = .ok f ∧ ∀ t ∈ f.linear, t.1 < m.parameters.length)
      ∨ ∃ f, Quantity.uncertainForm naming (.expr c.body) = .error (.fault f) ∧ SumFails K f := by
  obtain ⟨howns, hkind⟩ := hm.setConstraints c hc
  obtain ⟨e, he⟩ : ∃ e, c.body = .uncertain e := by
    cases hbody : c.body with
    | uncertain e => exact ⟨e, rfl⟩
    | linear e =>
      rw [Constraint.kind, hbody] at hkind
      cases hkind
    | full e =>
      rw [Constraint.kind, hbody] at hkind
      cases hkind
  rw [he] at howns ⊢
  cases hn : e.normalized with
  | error f => exact .inr ⟨f, Quantity.uncertainForm_uncertain_of_error hn, Affine.sumFails_of_normalized hn⟩
  | ok n =>
    refine .inl ⟨n.form, Quantity.uncertainForm_uncertain hn, fun t ht => ?_⟩
    obtain ⟨s, hs, rfl⟩ := List.mem_map.mp ht
    obtain ⟨c, hc⟩ := Affine.exists_mem_of_mem_normalized hn hs
    exact (howns.parameters s.1 (List.mem_map.mpr ⟨(s.1, c), hc, rfl⟩)).2

variable [Written B]

/-- **The set of a sound model** can be made, unless a sum of coefficients fails; its bounds are never refused. -/
theorem Sound.ofModel_cases (hm : m.Sound self) (naming : Naming) :
    (∃ s, UncertaintySet.ofModel naming m = .ok s ∧ s.Snapshot m)
      ∨ ∃ f, UncertaintySet.ofModel naming m = .error (.fault f) ∧ SumFails K f := by
  let start : UncertaintySet K B :=
    { lower := m.parameters.map (·.lower.value), upper := m.parameters.map (·.upper.value)
      integer := m.parameters.map (·.domain.isInteger), names := (List.range m.parameters.length).map m.parameterName }
  have hstart : start.Snapshot m := ⟨rfl, rfl, rfl, rfl⟩
  let step (s : UncertaintySet K B) (c : Constraint K B) : Except Error (UncertaintySet K B) := do
    let f ← Quantity.uncertainForm naming (.expr c.body)
    return s.addConstraint (denseForm m.parameters.length f) (Scalar.shift c.lower f.constant) (Scalar.shift c.upper f.constant)
  have hstep : ∀ s, ∀ c ∈ m.setConstraints, s.Snapshot m →
      (∃ s', step s c = .ok s' ∧ s'.Snapshot m) ∨ ∃ e, step s c = .error e ∧ ∃ f, e = .fault f ∧ SumFails K f := by
    intro s c hc hs
    rcases hm.uncertainForm_cases naming hc with ⟨f, hf, -⟩ | ⟨f, hf, hsum⟩
    · exact .inl ⟨_, bind_eq_ok.mpr ⟨f, hf, rfl⟩, hs.addConstraint _ _ _⟩
    · exact .inr ⟨.fault f, bind_eq_error.mpr (.inl hf), f, rfl, hsum⟩
  -- the bounds are checked last, and they do not contradict each other
  rcases foldlM_cases hstep hstart with ⟨s, hs, hsnapshot⟩ | ⟨e, he, f, rfl, hf⟩
  · refine .inl ⟨s, ?_, hsnapshot⟩
    exact bind_eq_ok.mpr ⟨s, hs, bind_eq_ok.mpr ⟨(), checkBounds_ok hm.parameters, rfl⟩⟩
  · exact .inr ⟨f, bind_eq_error.mpr (.inl he), hf⟩

/-- With doubles, the set of a sound model can be made unless a sum is too large or undefined. -/
theorem Sound.eq_of_ofModel_error {m : Model Float Float} (hm : m.Sound self) {naming : Naming} {e : Error}
    (h : UncertaintySet.ofModel naming m = .error e) : e = .fault .overflow ∨ e = .fault .badValue := by
  rcases hm.ofModel_cases naming with ⟨s, hs, -⟩ | ⟨f, hf, hsum⟩
  · cases h.symm.trans hs
  · obtain rfl := Except.error.inj (h.symm.trans hf)
    exact hsum.eq_of_doubles.imp (congrArg Error.fault) (congrArg Error.fault)

end Model

end RobustLP
