import Mathlib
import RobustLP.Model.Edit

/-!
# Steps that succeed

Computations of this library answer an `Except`, or are an `Edit` that also leaves a state. The lemmas of this module take
a successful computation apart at its binds, and put one together from successful steps; one that fails is followed to the step
that failed.
-/

namespace RobustLP

variable {ε α β σ : Type}

/-! ## Computations without state -/

theorem bind_eq_ok {x : Except ε α} {f : α → Except ε β} {b : β} :
    (x >>= f) = .ok b ↔ ∃ a, x = .ok a ∧ f a = .ok b := by
  cases x with
  | error e =>
    constructor
    · intro h; cases h
    · rintro ⟨a, h, -⟩; cases h
  | ok a =>
    constructor
    · intro h; exact ⟨a, rfl, h⟩
    · rintro ⟨a', ha, h⟩; cases ha; exact h

theorem bind_eq_error {x : Except ε α} {f : α → Except ε β} {e : ε} :
    (x >>= f) = .error e ↔ x = .error e ∨ ∃ a, x = .ok a ∧ f a = .error e := by
  cases x with
  | error e' =>
    constructor
    · intro h; cases h; exact .inl rfl
    · rintro (h | ⟨a, h, -⟩)
      · cases h; rfl
      · cases h
  | ok a =>
    constructor
    · intro h; exact .inr ⟨a, rfl, h⟩
    · rintro (h | ⟨a', ha, h⟩)
      · cases h
      · cases ha; exact h

theorem mapError_eq_ok {ε' : Type} {f : ε → ε'} {x : Except ε α} {a : α} : x.mapError f = .ok a ↔ x = .ok a := by
  cases x with
  | error e => simp [Except.mapError]
  | ok b => simp [Except.mapError]

theorem mapError_eq_error {ε' : Type} {f : ε → ε'} {x : Except ε α} {e : ε'} :
    x.mapError f = .error e ↔ ∃ e', x = .error e' ∧ f e' = e := by
  cases x with
  | error e' => simp [Except.mapError]
  | ok b => simp [Except.mapError]

theorem mapM_eq_ok_iff {f : α → Except ε β} :
    ∀ {l : List α} {bs : List β}, l.mapM f = .ok bs ↔ List.Forall₂ (fun a b => f a = .ok b) l bs
  | [], bs => by
    constructor
    · intro h; cases h; exact .nil
    · intro h; cases h; rfl
  | a :: l, bs => by
    rw [List.mapM_cons, bind_eq_ok]
    constructor
    · rintro ⟨b, hb, h⟩
      obtain ⟨bs', hbs, h⟩ := bind_eq_ok.mp h
      cases h
      exact .cons hb (mapM_eq_ok_iff.mp hbs)
    · intro h
      cases h with
      | cons hb hbs => exact ⟨_, hb, bind_eq_ok.mpr ⟨_, mapM_eq_ok_iff.mpr hbs, rfl⟩⟩

/-- A step that succeeds on every entry succeeds on the list. -/
theorem mapM_ok_map {f : α → Except ε β} {g : α → β} {l : List α} (h : ∀ a ∈ l, f a = .ok (g a)) :
    l.mapM f = .ok (l.map g) := by
  rw [mapM_eq_ok_iff, List.forall₂_map_right_iff, List.forall₂_same]
  exact h

/-- What a list is mapped to, if a function answers every step that succeeds. -/
theorem eq_map_of_mapM_ok {f : α → Except ε β} {g : α → β} {l : List α} {bs : List β}
    (hg : ∀ a ∈ l, ∀ b, f a = .ok b → b = g a) (h : l.mapM f = .ok bs) : bs = l.map g := by
  have hl := mapM_eq_ok_iff.mp h
  induction hl with
  | nil => rfl
  | cons hb _ ih =>
    rw [List.map_cons, ← hg _ List.mem_cons_self _ hb,
      ← ih (fun a ha => hg a (List.mem_cons_of_mem _ ha)) (mapM_eq_ok_iff.mpr (by assumption))]

/-- A list is mapped successfully exactly when each of its entries is. -/
theorem exists_mapM_ok_iff {f : α → Except ε β} :
    ∀ {l : List α}, (∃ bs, l.mapM f = .ok bs) ↔ ∀ a ∈ l, ∃ b, f a = .ok b
  | [] => ⟨fun _ _ h => absurd h List.not_mem_nil, fun _ => ⟨[], rfl⟩⟩
  | a :: l => by
    simp only [List.mapM_cons, bind_eq_ok, List.mem_cons, forall_eq_or_imp]
    rw [← exists_mapM_ok_iff (l := l)]
    constructor
    · rintro ⟨-, b, hb, bs, hbs, -⟩; exact ⟨⟨b, hb⟩, bs, hbs⟩
    · rintro ⟨⟨b, hb⟩, bs, hbs⟩; exact ⟨b :: bs, b, hb, bs, hbs, rfl⟩

/-- A list that cannot be mapped has an entry on which the step fails. -/
theorem exists_mem_of_mapM_eq_error {f : α → Except ε β} {e : ε} : ∀ {l : List α}, l.mapM f = .error e → ∃ a ∈ l, f a = .error e
  | [], h => nomatch h
  | a :: l, h => by
    rw [List.mapM_cons] at h
    rcases bind_eq_error.mp h with ha | ⟨b, -, h⟩
    · exact ⟨a, List.mem_cons_self, ha⟩
    · rcases bind_eq_error.mp h with hrest | ⟨bs, -, h⟩
      · obtain ⟨a', ha', hfail⟩ := exists_mem_of_mapM_eq_error hrest
        exact ⟨a', List.mem_cons_of_mem _ ha', hfail⟩
      · cases h

/-- A fold of which each step succeeds or fails for a reason succeeds or fails for this reason. -/
theorem foldlM_cases {f : β → α → Except ε β} {I : β → Prop} {P : ε → Prop} : ∀ {l : List α} {b : β},
    (∀ b, ∀ a ∈ l, I b → (∃ b', f b a = .ok b' ∧ I b') ∨ ∃ e, f b a = .error e ∧ P e) → I b →
      (∃ b', l.foldlM f b = .ok b' ∧ I b') ∨ ∃ e, l.foldlM f b = .error e ∧ P e
  | [], b, _, hb => .inl ⟨b, rfl, hb⟩
  | a :: l, b, h, hb => by
    rw [List.foldlM_cons]
    rcases h b a List.mem_cons_self hb with ⟨b', hfirst, hb'⟩ | ⟨e, hfirst, he⟩
    · rw [hfirst]
      exact foldlM_cases (fun b a ha => h b a (List.mem_cons_of_mem _ ha)) hb'
    · rw [hfirst]
      exact .inr ⟨e, rfl, he⟩

/-! ## Lists that correspond -/

theorem exists_left_of_forall₂ {R : α → β → Prop} {as : List α} {bs : List β} (h : List.Forall₂ R as bs) {b : β}
    (hb : b ∈ bs) : ∃ a ∈ as, R a b := by
  induction h with
  | nil => cases hb
  | cons hR _ ih =>
    rcases List.mem_cons.mp hb with rfl | hb
    · exact ⟨_, List.mem_cons_self, hR⟩
    · obtain ⟨a, ha, hab⟩ := ih hb
      exact ⟨a, List.mem_cons_of_mem _ ha, hab⟩

theorem exists_right_of_forall₂ {R : α → β → Prop} {as : List α} {bs : List β} (h : List.Forall₂ R as bs) {a : α}
    (ha : a ∈ as) : ∃ b ∈ bs, R a b := exists_left_of_forall₂ h.flip ha

/-- Lists that correspond to a list in between correspond to each other. -/
theorem forall₂_comp {γ : Type} {R : α → β → Prop} {S : β → γ → Prop} {T : α → γ → Prop} {as : List α} {bs : List β}
    {cs : List γ} (h : List.Forall₂ R as bs) (h' : List.Forall₂ S bs cs) (hT : ∀ a b c, R a b → S b c → T a c) :
    List.Forall₂ T as cs := by
  induction h generalizing cs with
  | nil =>
    cases h'
    exact .nil
  | cons hR _ ih =>
    cases h' with
    | cons hS hrest => exact .cons (hT _ _ _ hR hS) (ih hrest)

/-- What is found for each pair of entries that correspond makes a list that corresponds to both. -/
theorem exists_forall₂ {γ : Type} {R : α → β → Prop} {S : α → γ → Prop} {T : β → γ → Prop} {as : List α} {bs : List β}
    (h : List.Forall₂ R as bs) (hstep : ∀ a b, R a b → ∃ c, S a c ∧ T b c) :
    ∃ cs, List.Forall₂ S as cs ∧ List.Forall₂ T bs cs := by
  induction h with
  | nil => exact ⟨[], .nil, .nil⟩
  | cons hR _ ih =>
    obtain ⟨c, hS, hT⟩ := hstep _ _ hR
    obtain ⟨cs, hSs, hTs⟩ := ih
    exact ⟨c :: cs, .cons hS hSs, .cons hT hTs⟩

/-! ## Edits -/

namespace Edit

@[simp] theorem run_pure (a : α) (s : σ) : Edit.run (pure a : Edit σ α) s = (.ok a, s) := rfl

@[simp] theorem run_throw (e : Error) (s : σ) : Edit.run (throw e : Edit σ α) s = (.error e, s) := rfl

@[simp] theorem run_get (s : σ) : Edit.run (get : Edit σ σ) s = (.ok s, s) := rfl

@[simp] theorem run_set (s s' : σ) : Edit.run (set s' : Edit σ PUnit) s = (.ok ⟨⟩, s') := rfl

@[simp] theorem run_modify (f : σ → σ) (s : σ) :
    Edit.run (modify f : Edit σ PUnit) s = (.ok ⟨⟩, f s) := rfl

@[simp] theorem run_lift_ok (a : α) (s : σ) : Edit.run (Edit.lift (.ok a)) s = (.ok a, s) := rfl

@[simp] theorem run_lift_error (e : Error) (s : σ) :
    Edit.run (Edit.lift (.error e) : Edit σ α) s = (.error e, s) := rfl

@[simp] theorem run_liftFault_ok (a : α) (s : σ) : Edit.run (Edit.liftFault (.ok a)) s = (.ok a, s) := rfl

theorem run_bind (e : Edit σ α) (f : α → Edit σ β) (s : σ) :
    Edit.run (e >>= f) s = match e.run s with
      | (.ok a, s') => (f a).run s'
      | (.error err, s') => (.error err, s') := by
  unfold Edit.run
  rw [ExceptT.run_bind, StateT.run_bind]
  rcases h : (ExceptT.run e).run s with ⟨r, s'⟩
  cases r <;> rfl

/-- The second step runs where the first one ended. -/
theorem run_bind_of_ok {e : Edit σ α} {f : α → Edit σ β} {s s' : σ} {a : α} (h : e.run s = (.ok a, s')) :
    Edit.run (e >>= f) s = (f a).run s' := by
  rw [run_bind, h]

/-- A step that fails ends the computation. -/
theorem run_bind_of_error {e : Edit σ α} {f : α → Edit σ β} {s s' : σ} {err : Error}
    (h : e.run s = (.error err, s')) : Edit.run (e >>= f) s = (.error err, s') := by
  rw [run_bind, h]

/-- **A computation of two steps succeeds exactly when both do.** -/
theorem run_bind_eq_ok {e : Edit σ α} {f : α → Edit σ β} {s s'' : σ} {b : β} :
    Edit.run (e >>= f) s = (.ok b, s'') ↔ ∃ a s', e.run s = (.ok a, s') ∧ (f a).run s' = (.ok b, s'') := by
  rcases he : e.run s with ⟨r, s'⟩
  cases r with
  | error err =>
    rw [run_bind_of_error he]
    simp
  | ok a =>
    rw [run_bind_of_ok he]
    simp

/-- What is left does not depend on the answer. -/
theorem snd_run_discard (e : Edit σ α) (s : σ) : (Edit.run (discard e) s).2 = (e.run s).2 := by
  rcases hrun : e.run s with ⟨r, s'⟩
  cases r with
  | ok a => exact congrArg Prod.snd (run_bind_of_ok hrun)
  | error err => exact congrArg Prod.snd (run_bind_of_error hrun)

/-- A result that was mapped comes from one. -/
theorem run_map_eq_ok {e : Edit σ α} {f : α → β} {s s' : σ} {b : β} :
    Edit.run (f <$> e) s = (.ok b, s') ↔ ∃ a, e.run s = (.ok a, s') ∧ f a = b := by
  rw [map_eq_pure_bind, run_bind_eq_ok]
  simp only [run_pure, Prod.mk.injEq, Except.ok.injEq]
  exact ⟨fun ⟨a, s₁, hrun, hb, hs⟩ => ⟨a, hs ▸ hrun, hb⟩, fun ⟨a, hrun, hb⟩ => ⟨a, s', hrun, hb, rfl⟩⟩

theorem run_pure_eq_ok {a b : α} {s s' : σ} : Edit.run (pure a : Edit σ α) s = (.ok b, s') ↔ a = b ∧ s = s' := by
  rw [run_pure, Prod.mk.injEq, Except.ok.injEq]

theorem run_lift_eq_ok {r : Except Error α} {s s' : σ} {a : α} :
    Edit.run (Edit.lift r) s = (.ok a, s') ↔ r = .ok a ∧ s' = s := by
  cases r with
  | error e => simp
  | ok b => simp [eq_comm]

theorem run_liftFault_eq_ok {r : Except Fault α} {s s' : σ} {a : α} :
    Edit.run (Edit.liftFault r) s = (.ok a, s') ↔ r = .ok a ∧ s' = s := by
  cases r with
  | error e => simp [Edit.liftFault]
  | ok b => simp [eq_comm]

/-! ## Loops -/

/-- A loop whose steps answer and leave the state alone. -/
theorem run_mapM_of_ok {f : α → Edit σ β} {s : σ} : ∀ {l : List α}, (∀ a ∈ l, ∃ b, (f a).run s = (.ok b, s)) →
    ∃ bs, (l.mapM f).run s = (.ok bs, s) ∧ List.Forall₂ (fun a b => (f a).run s = (.ok b, s)) l bs
  | [], _ => ⟨[], rfl, .nil⟩
  | a :: l, h => by
    obtain ⟨b, hb⟩ := h a List.mem_cons_self
    obtain ⟨bs, hbs, hall⟩ := run_mapM_of_ok fun c hc => h c (List.mem_cons_of_mem _ hc)
    refine ⟨b :: bs, ?_, .cons hb hall⟩
    rw [List.mapM_cons, run_bind_of_ok hb, run_bind_of_ok hbs, run_pure]

/-- A loop whose steps answer by a function and leave the state alone. -/
theorem run_mapM_ok_map {f : α → Edit σ β} {g : α → β} {s : σ} : ∀ {l : List α}, (∀ a ∈ l, (f a).run s = (.ok (g a), s)) →
    (l.mapM f).run s = (.ok (l.map g), s)
  | [], _ => rfl
  | a :: l, h => by
    rw [List.mapM_cons, run_bind_of_ok (h a List.mem_cons_self),
      run_bind_of_ok (run_mapM_ok_map fun b hb => h b (List.mem_cons_of_mem _ hb)), run_pure, List.map_cons]

/-- What a loop answers whose steps leave the state alone. -/
theorem forall₂_of_run_mapM {f : α → Edit σ β} {R : α → β → Prop}
    (hf : ∀ a b s s', (f a).run s = (.ok b, s') → s' = s ∧ R a b) : ∀ {l : List α} {bs : List β} {s s' : σ},
      (l.mapM f).run s = (.ok bs, s') → s' = s ∧ List.Forall₂ R l bs
  | [], bs, s, s', h => by
    cases h
    exact ⟨rfl, .nil⟩
  | a :: l, bs, s, s', h => by
    rw [List.mapM_cons] at h
    obtain ⟨b, s₁, hb, hrest⟩ := run_bind_eq_ok.mp h
    obtain ⟨bs', s₂, hbs, hpure⟩ := run_bind_eq_ok.mp hrest
    obtain ⟨rfl, hR⟩ := hf a b s s₁ hb
    obtain ⟨rfl, hall⟩ := forall₂_of_run_mapM hf hbs
    cases hpure
    exact ⟨rfl, .cons hR hall⟩

/-- A loop that succeeded keeps what each of its steps keeps. -/
theorem invariant_of_run_forM {f : α → Edit σ PUnit} {I : List α → σ → Prop}
    (hf : ∀ a rest s s', (f a).run s = (.ok ⟨⟩, s') → I (a :: rest) s → I rest s') : ∀ {l : List α} {s s' : σ},
      (l.forM f).run s = (.ok ⟨⟩, s') → I l s → I [] s'
  | [], s, s', h, hI => by
    cases h
    exact hI
  | a :: l, s, s', h, hI => by
    obtain ⟨⟨⟩, s₁, hfirst, h⟩ := run_bind_eq_ok.mp (show ((f a) >>= fun _ => l.forM f).run s = (.ok ⟨⟩, s') from h)
    exact invariant_of_run_forM hf h (hf a l s s₁ hfirst hI)

/-- **What each step of a loop keeps is kept by the loop,** and each step that succeeds lets it go on. -/
theorem run_forM_of_invariant {f : α → Edit σ PUnit} {I : List α → σ → Prop} :
    ∀ {l : List α} {s : σ}, I l s →
      (∀ a rest s, I (a :: rest) s → ∃ s', (f a).run s = (.ok ⟨⟩, s') ∧ I rest s') →
      ∃ s', (l.forM f).run s = (.ok ⟨⟩, s') ∧ I [] s'
  | [], s, h, _ => ⟨s, rfl, h⟩
  | a :: l, s, h, hstep => by
    obtain ⟨s', hrun, hI⟩ := hstep a l s h
    obtain ⟨s'', hrest, hnil⟩ := run_forM_of_invariant hI hstep
    refine ⟨s'', ?_, hnil⟩
    have hcons : (a :: l).forM f = (f a >>= fun _ => l.forM f) := rfl
    rw [hcons, run_bind_of_ok hrun, hrest]

end Edit

end RobustLP
