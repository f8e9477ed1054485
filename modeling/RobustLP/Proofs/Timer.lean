import RobustLP.Proofs.Outcome
import RobustLP.Timer.Stage

/-!
# Timers that are nested

A timer that is stopped after it was started, with nothing left running in between, leaves the running timers as they were
(`exists_stop_start`). So the main timer of a solve runs from its start to its stop, and can be read all the time
(`TimerTree.Clocked`).
-/

namespace RobustLP

namespace TimerTree

variable {K B : Type} {t : TimerTree K} {p path : List String} {name : String} {f : TimerEntry K → TimerEntry K} {now : K}

/-! ## Tables -/

theorem find?_update (hf : ∀ e, (f e).path = e.path) :
    (t.update p f).find? path = (t.find? path).map fun e => if e.path == p then f e else e := by
  have hpath : ∀ e : TimerEntry K, ((if e.path == p then f e else e).path == path) = (e.path == path) := by
    intro e
    split
    next => rw [hf]
    next => rfl
  unfold find? update
  rw [List.find?_map]
  simp only [Function.comp_def, hpath]

theorem path_of_find? {e : TimerEntry K} (h : t.find? path = some e) : e.path = path := by
  have hpath := List.find?_some h
  exact beq_iff_eq.mp hpath

/-- A change of a timer is found at its path. -/
theorem find?_update_self {e : TimerEntry K} (hf : ∀ e, (f e).path = e.path) (h : t.find? path = some e) :
    (t.update path f).find? path = some (f e) := by
  rw [find?_update hf, h, Option.map_some, if_pos (beq_iff_eq.mpr (path_of_find? h))]

/-- A change of a timer concerns no other one. -/
theorem find?_update_of_ne (hf : ∀ e, (f e).path = e.path) (hne : path ≠ p) : (t.update p f).find? path = t.find? path := by
  rw [find?_update hf]
  cases h : t.find? path with
  | none => rfl
  | some e => rw [Option.map_some, if_neg fun heq => hne ((path_of_find? h).symm.trans (beq_iff_eq.mp heq))]

variable [Scalar K B]

/-- After a timer was entered there is one at its path, and the others are as before. -/
theorem exists_find?_enter (now : K) (t : TimerTree K) (p : List String) :
    (∃ e, (t.enter now p).find? p = some e) ∧ ∀ path e, t.find? path = some e → (t.enter now p).find? path = some e := by
  unfold enter
  cases h : t.find? p with
  | some e => exact ⟨⟨e, h⟩, fun _ _ h => h⟩
  | none =>
    refine ⟨⟨{ path := p, watch := .reset now, total := Scalar.zero }, ?_⟩, fun path e he => ?_⟩
    · unfold find? at h ⊢
      rw [List.find?_append, h, Option.none_or]
      simp
    · unfold find? at he ⊢
      rw [List.find?_append, he, Option.some_or]

/-! ## Running timers -/

omit [Scalar K B] in
/-- There is a timer at a path, and it runs. -/
def Running (t : TimerTree K) (path : List String) : Prop := ∃ e since, t.find? path = some e ∧ e.watch.last = some since

theorem running_start (now : K) (name : String) (t : TimerTree K) : (t.start now name).Running (t.stack ++ [name]) := by
  obtain ⟨⟨e, he⟩, -⟩ := exists_find?_enter now t (t.stack ++ [name])
  have hcalled : ∀ e : TimerEntry K, (called now e).path = e.path := fun _ => rfl
  exact ⟨called now e, now, find?_update_self hcalled he, rfl⟩

/-- Starting a timer concerns no timer above it. -/
theorem Running.start (h : t.Running path) (hne : path ≠ t.stack ++ [name]) : (t.start now name).Running path := by
  obtain ⟨e, since, he, hsince⟩ := h
  have hcalled : ∀ e : TimerEntry K, (called now e).path = e.path := fun _ => rfl
  exact ⟨e, since, (find?_update_of_ne hcalled hne).trans ((exists_find?_enter now t _).2 path e he), hsince⟩

/-- **The innermost running timer can be stopped;** the other ones run on. -/
theorem exists_stop (now : K) (hstack : t.stack = p ++ [name]) (h : t.Running t.stack) :
    ∃ t', t.stop now name = .ok t' ∧ t'.stack = p ∧ ∀ path, path ≠ t.stack → t.Running path → t'.Running path := by
  obtain ⟨e, since, he, hsince⟩ := h
  have hlast : t.stack.getLast? = some name := by rw [hstack, List.getLast?_concat]
  have hwatch : e.watch.stop now = .ok (now - since,
      { e.watch with last := none, accumulated := e.watch.accumulated + (now - since) }) := by
    unfold Stopwatch.stop
    rw [hsince]
  unfold stop
  rw [if_pos hlast]
  simp only [he]
  rw [hwatch]
  refine ⟨_, rfl, ?_, fun path hne hpath => ?_⟩
  · show t.stack.dropLast = p
    rw [hstack, List.dropLast_concat]
  · obtain ⟨e', since', he', hsince'⟩ := hpath
    refine ⟨e', since', Eq.trans ?_ he', hsince'⟩
    exact find?_update_of_ne (f := fun e' => { e' with
      watch := { e.watch with last := none, accumulated := e.watch.accumulated + (now - since) }
      total := e'.total + (now - since) }) (fun _ => rfl) hne

/-! ## The main timer -/

omit [Scalar K B] in
/-- **The main timer runs,** and no other one. -/
structure Clocked (t : TimerTree K) : Prop where
  stack : t.stack = ["main"]
  running : t.Running ["main"]

theorem clocked_start (now : K) : (TimerTree.empty.startStage now .main : TimerTree K).Clocked := ⟨rfl, running_start now _ _⟩

/-- The main timer can be read while it runs. -/
theorem exists_elapsed (now : K) (h : t.Running ["main"]) : ∃ time, t.elapsed now = .ok time := by
  obtain ⟨e, since, he, -⟩ := h
  have hpath : pathOf Stage.main.name = ["main"] := by decide +kernel
  refine ⟨e.watch.total now, ?_⟩
  unfold elapsed currentTime lookup
  rw [hpath, he]
  rfl

theorem exists_remaining (now : K) (limit : Option K) (h : t.Running ["main"]) : ∃ left, t.remaining now limit = .ok left := by
  obtain ⟨time, htime⟩ := exists_elapsed now h
  unfold remaining
  cases limit with
  | none => exact ⟨none, rfl⟩
  | some l => exact ⟨_, by rw [htime]; rfl⟩

/-- **A stage that was started can be stopped,** and then the main timer runs alone as before. -/
theorem Clocked.exists_stopStage (h : t.Clocked) (now now' : K) (s : Stage) :
    ∃ t', (t.startStage now s).stopStage now' s = .ok t' ∧ t'.Clocked := by
  have hne : ["main"] ≠ t.stack ++ [s.leaf] := by rw [h.stack]; exact nofun
  obtain ⟨t', hstop, hstack, hothers⟩ :=
    exists_stop now' (t := t.startStage now s) (p := t.stack) rfl (running_start now s.leaf t)
  exact ⟨t', hstop, hstack.trans h.stack, hothers _ hne (h.running.start hne)⟩

end TimerTree

end RobustLP
