import RobustLP.Proofs.Outcome

/-!
# Steps that fail

An edit leaves a state also when it fails. `Edit.Steady` is a step that leaves the state as it is whatever comes of it, and
`Edit.Refuses` a step that always fails and does nothing.

`Edit.Ends` says all that a step can do: which answers and states it ends with, and what it leaves behind when it fails. Most
operations check their arguments by steady steps before they write anything, and are taken apart by `Edit.Steady.ends`.
-/

namespace RobustLP

namespace Edit

variable {α β σ : Type} {e : Edit σ α} {f : α → Edit σ β}

/-- A step that leaves the state as it is, whatever comes of it. -/
def Steady (e : Edit σ α) : Prop := ∀ s, (e.run s).2 = s

/-- A step that always fails, and does nothing. -/
def Refuses (e : Edit σ α) : Prop := ∀ s, ∃ err, e.run s = (.error err, s)

/-- A step that keeps a property of the state, whatever comes of it. -/
def Keeps (e : Edit σ α) (I : σ → Prop) : Prop := ∀ s, I s → I (e.run s).2

/-- **What a step can do at a state:** it ends with an answer and a state that are described by `D`, or it fails and leaves the
state as it was, up to the exceptions that are described by `T`. -/
structure Ends (e : Edit σ α) (s : σ) (D : α → σ → Prop) (T : σ → Prop) : Prop where
  done : ∀ a s', e.run s = (.ok a, s') → D a s'
  failed : ∀ err s', e.run s = (.error err, s') → s' = s ∨ T s'

/-! ## Steps that leave the state alone -/

theorem steady_pure (a : α) : Steady (pure a : Edit σ α) := fun _ => rfl

theorem steady_throw (err : Error) : Steady (throw err : Edit σ α) := fun _ => rfl

theorem steady_get : Steady (get : Edit σ σ) := fun _ => rfl

theorem steady_lift (r : Except Error α) : Steady (Edit.lift r : Edit σ α) := by
  intro s
  cases r with
  | ok a => rfl
  | error err => rfl

theorem steady_liftFault (r : Except Fault α) : Steady (Edit.liftFault r : Edit σ α) := by
  intro s
  cases r with
  | ok a => rfl
  | error err => rfl

theorem readBound_eq {B : Type} (absent : B) (b : GivenBound B) :
    (readBound absent b : Edit σ B) = Edit.lift (b.getD (.ok absent)) := by
  cases b with
  | none => rfl
  | some r => rfl

theorem steady_readBound {B : Type} (absent : B) (b : GivenBound B) : Steady (readBound absent b : Edit σ B) := by
  rw [readBound_eq]
  exact steady_lift _

theorem Steady.eq_of_run (he : Steady e) {s s' : σ} {r : Except Error α} (h : e.run s = (r, s')) : s' = s := by
  rw [← he s, h]

theorem Steady.bind (he : Steady e) (hf : ∀ a, Steady (f a)) : Steady (e >>= f) := by
  intro s
  rcases hrun : e.run s with ⟨r, s'⟩
  have hs := he.eq_of_run hrun
  cases r with
  | ok a => rw [run_bind_of_ok hrun, hs, hf a s]
  | error err => rw [run_bind_of_error hrun, hs]

theorem Steady.mapM : ∀ {l : List α}, (∀ a ∈ l, Steady (f a)) → Steady (l.mapM f)
  | [], _ => steady_pure []
  | a :: l, h => by
    rw [List.mapM_cons]
    exact (h a List.mem_cons_self).bind fun b =>
      (Steady.mapM fun c hc => h c (List.mem_cons_of_mem _ hc)).bind fun bs => steady_pure _

theorem Steady.foldlM {g : β → α → Edit σ β} (h : ∀ b a, Steady (g b a)) : ∀ (l : List α) (b : β), Steady (l.foldlM g b)
  | [], b => steady_pure b
  | a :: l, b => by
    rw [List.foldlM_cons]
    exact (h b a).bind fun b' => Steady.foldlM h l b'

/-- What a loop answers whose steps leave a state alone when they succeed there. -/
theorem forall₂_of_run_mapM_at {R : α → β → Prop} {s : σ}
    (hf : ∀ a b s', (f a).run s = (.ok b, s') → s' = s ∧ R a b) : ∀ {l : List α} {bs : List β} {s' : σ},
      (l.mapM f).run s = (.ok bs, s') → List.Forall₂ R l bs
  | [], bs, s', h => by
    cases h
    exact .nil
  | a :: l, bs, s', h => by
    rw [List.mapM_cons] at h
    obtain ⟨b, s₁, hb, hrest⟩ := run_bind_eq_ok.mp h
    obtain ⟨bs', s₂, hbs, hpure⟩ := run_bind_eq_ok.mp hrest
    obtain ⟨rfl, hR⟩ := hf a b s₁ hb
    cases hpure
    exact .cons hR (forall₂_of_run_mapM_at hf hbs)

/-- What each step of a loop keeps of what was gathered holds in the end, if the loop succeeds. -/
theorem invariant_of_run_foldlM {g : β → α → Edit σ β} {I : β → Prop} : ∀ {l : List α} {b b' : β} {s s' : σ},
    (∀ a ∈ l, ∀ b b' s s', (g b a).run s = (.ok b', s') → I b → I b') → (l.foldlM g b).run s = (.ok b', s') → I b → I b'
  | [], b, b', s, s', _, h, hb => by
    cases h
    exact hb
  | a :: l, b, b', s, s', hg, h, hb => by
    rw [List.foldlM_cons] at h
    obtain ⟨b₁, s₁, hfirst, hrest⟩ := run_bind_eq_ok.mp h
    exact invariant_of_run_foldlM (fun c hc => hg c (List.mem_cons_of_mem _ hc)) hrest
      (hg a List.mem_cons_self b b₁ s s₁ hfirst hb)

/-- A loop whose steps each enter one more thing. -/
theorem run_mapM_of_enters {γ : Type} {x : α → γ} (enter : List γ → σ → σ) (hnil : ∀ s, enter [] s = s)
    (happend : ∀ xs ys s, enter ys (enter xs s) = enter (xs ++ ys) s)
    (hf : ∀ a s, ∃ b, (f a).run s = (.ok b, enter [x a] s)) : ∀ (l : List α) (s : σ),
      ∃ bs, (l.mapM f).run s = (.ok bs, enter (l.map x) s)
  | [], s => ⟨[], by rw [List.map_nil, hnil]; rfl⟩
  | a :: l, s => by
    obtain ⟨b, hb⟩ := hf a s
    obtain ⟨bs, hbs⟩ := run_mapM_of_enters enter hnil happend hf l (enter [x a] s)
    refine ⟨b :: bs, ?_⟩
    rw [List.mapM_cons, run_bind_of_ok hb, run_bind_of_ok hbs, run_pure, happend]
    rfl

/-! ## Steps that always fail -/

theorem refuses_throw (err : Error) : Refuses (throw err : Edit σ α) := fun _ => ⟨err, rfl⟩

/-- What comes after a step that always fails is never run. -/
theorem Refuses.bind (he : Refuses e) : Refuses (e >>= f) := by
  intro s
  obtain ⟨err, hrun⟩ := he s
  exact ⟨err, run_bind_of_error hrun⟩

/-- Steady steps may come before. -/
theorem Steady.refuses (he : Steady e) (hf : ∀ a, Refuses (f a)) : Refuses (e >>= f) := by
  intro s
  rcases hrun : e.run s with ⟨r, s'⟩
  obtain rfl := he.eq_of_run hrun
  cases r with
  | ok a =>
    obtain ⟨err, herr⟩ := hf a s'
    exact ⟨err, by rw [run_bind_of_ok hrun, herr]⟩
  | error err => exact ⟨err, run_bind_of_error hrun⟩

/-- A loop whose steps always fail does nothing: it fails, or there is nothing to be done. -/
theorem run_mapM_of_refuses (h : ∀ a, Refuses (f a)) : ∀ l : List α, Refuses (l.mapM f) ∨ l = []
  | [] => .inr rfl
  | a :: l => by
    rw [List.mapM_cons]
    exact .inl (h a).bind

/-- A bound is read or refused whatever the state holds. -/
theorem readBound_cases {B : Type} (absent : B) (b : GivenBound B) :
    (∃ x, b.getD (.ok absent) = .ok x ∧ ∀ s : σ, (readBound absent b : Edit σ B).run s = (.ok x, s)) ∨
      Refuses (readBound absent b : Edit σ B) := by
  rcases b with - | err | x
  · exact .inl ⟨absent, rfl, fun _ => rfl⟩
  · exact .inr fun _ => ⟨err, rfl⟩
  · exact .inl ⟨x, rfl, fun _ => rfl⟩

theorem eq_of_run_readBound {B : Type} {absent x : B} {b : GivenBound B} {s : σ}
    (h : (readBound absent b : Edit σ B).run s = (.ok x, s)) : b.getD (.ok absent) = .ok x := by
  rw [readBound_eq] at h
  exact (run_lift_eq_ok.mp h).1

/-- A bound that cannot be read was given. -/
theorem eq_some_of_getD_eq_error {B : Type} {absent : B} {b : GivenBound B} {err : Error}
    (h : b.getD (.ok absent) = .error err) : b = some (.error err) := by
  cases b with
  | none => cases h
  | some r => exact congrArg some h

/-! ## All that a step can do -/

variable {s : σ} {D : α → σ → Prop} {D' : β → σ → Prop} {T : σ → Prop}

/-- A step of which the outcome is known. -/
theorem ends_of_run {a : α} {s' : σ} (hrun : e.run s = (.ok a, s')) (h : D a s') : Ends e s D T where
  done b s'' hb := by
    rw [hrun] at hb
    cases hb
    exact h
  failed err s'' herr := by
    rw [hrun] at herr
    cases herr

/-- A step that is known to fail. -/
theorem ends_of_error {err : Error} {s' : σ} (hrun : e.run s = (.error err, s')) (h : s' = s ∨ T s') : Ends e s D T where
  done b s'' hb := by
    rw [hrun] at hb
    cases hb
  failed err' s'' herr := by
    rw [hrun] at herr
    cases herr
    exact h

theorem Refuses.ends (he : Refuses e) : Ends e s D T := by
  obtain ⟨err, hrun⟩ := he s
  exact ends_of_error hrun (.inl rfl)

/-- **Steady steps may come first:** where they fail, nothing was done. -/
theorem Steady.ends (he : Steady e) (hf : ∀ a, e.run s = (.ok a, s) → Ends (f a) s D' T) : Ends (e >>= f) s D' T := by
  rcases hrun : e.run s with ⟨r, s'⟩
  obtain rfl := he.eq_of_run hrun
  cases r with
  | ok a =>
    have h := hf a hrun
    refine ⟨fun b s'' hb => h.done b s'' ?_, fun err s'' herr => h.failed err s'' ?_⟩
    · rw [← run_bind_of_ok hrun, hb]
    · rw [← run_bind_of_ok hrun, herr]
  | error err => exact ends_of_error (run_bind_of_error hrun) (.inl rfl)

theorem Ends.mono {E : α → σ → Prop} {T' : σ → Prop} (he : Ends e s D T) (hD : ∀ a s', D a s' → E a s')
    (hT : ∀ s', T s' → T' s') : Ends e s E T' where
  done a s' h := hD a s' (he.done a s' h)
  failed err s' h := (he.failed err s' h).imp_right (hT s')

/-- The rest may be a step that never fails and only reads the answer. -/
theorem Ends.map {g : α → β} (he : Ends e s D T) (h : ∀ a s', D a s' → D' (g a) s') :
    Ends (e >>= fun a => pure (g a)) s D' T := by
  rcases hrun : e.run s with ⟨r, s'⟩
  cases r with
  | ok a => exact ends_of_run (run_bind_of_ok hrun) (h a s' (he.done a s' hrun))
  | error err => exact ends_of_error (run_bind_of_error hrun) (he.failed err s' hrun)

/-! ## What steps keep -/

variable {I : σ → Prop}

theorem Steady.keeps (he : Steady e) : Keeps e I := by
  intro s hs
  rw [he s]
  exact hs

/-- What holds of all that a step can leave, and of the state before it, holds of the state after it. -/
theorem Ends.leaves (he : Ends e s (fun _ => I) I) (hs : I s) : I (e.run s).2 := by
  rcases hrun : e.run s with ⟨r, s'⟩
  cases r with
  | ok a => exact he.done a s' hrun
  | error err =>
    rcases he.failed err s' hrun with rfl | h
    · exact hs
    · exact h

/-- A property is kept if it holds of all that a step can leave. -/
theorem Ends.keeps (he : ∀ s, I s → Ends e s (fun _ => I) I) : Keeps e I := fun s hs => (he s hs).leaves hs

theorem Keeps.bind (he : Keeps e I) (hf : ∀ a, Keeps (f a) I) : Keeps (e >>= f) I := by
  intro s hs
  have hkept := he s hs
  rcases hrun : e.run s with ⟨r, s'⟩
  rw [hrun] at hkept
  cases r with
  | ok a =>
    rw [run_bind_of_ok hrun]
    exact hf a s' hkept
  | error err =>
    rw [run_bind_of_error hrun]
    exact hkept

theorem Keeps.forM {g : α → Edit σ PUnit} (h : ∀ a, Keeps (g a) I) : ∀ l : List α, Keeps (l.forM g) I
  | [] => (steady_pure _).keeps
  | a :: l => (h a).bind fun _ => Keeps.forM h l

end Edit

end RobustLP
