import RobustLP.Proofs.Timer
import RobustLP.Scalar.Exact

/-!
# The accounts of nested timers

A `TimerTree.Ledger` keeps what calls of nested timers amount to: which timers run since when, all starts, and all closed
intervals. It does not know of any tree. In exact arithmetic, every tree that calls lead to (`TimerTree.Reached`) has the same
accounts as the ledger (`TimerTree.Accounts`): the running timers are the prefixes of its stack, and each timer has counted its
starts and summed up its closed intervals.
-/

namespace RobustLP

/-! ## Stopwatches -/

namespace Stopwatch

variable {w : Stopwatch Rat} {now since : Rat}

theorem total_of_stopped (h : w.last = none) : w.total now = w.accumulated := by
  unfold total
  rw [h]

theorem total_of_running (h : w.last = some since) : w.total now = w.accumulated + (now - since) := by
  unfold total
  rw [h]

/-- A stopwatch that stands is started without any change of its time. -/
theorem start_of_stopped (now : Rat) (h : w.last = none) : w.start now = { w with runs := w.runs + 1, last := some now } := by
  unfold start stop
  rw [h]

theorem stop_of_running (h : w.last = some since) :
    w.stop now = .ok (now - since, { w with last := none, accumulated := w.accumulated + (now - since) }) := by
  unfold stop
  rw [h]

/-- A stopwatch that was started is read without being changed. -/
theorem read_of_started (delta : Bool) (now : Rat) (h : w.runs ≠ 0) : w.read delta now = (w.total now, w) := by
  have haccumulates : w.accumulates = true := by
    unfold accumulates
    rw [bne_iff_ne.mpr h, Bool.true_or]
  unfold read
  rw [if_pos haccumulates]

end Stopwatch

namespace TimerTree

/-! ## Calls and ledgers -/

/-- A call of nested timers. -/
inductive Call where
  | start (name : String)
  | stop (name : String)

/-- The timers after a call. A call that fails leaves them as they were. -/
def Call.run (now : Rat) (t : TimerTree Rat) : Call → TimerTree Rat
  | .start name => t.start now name
  | .stop name => match t.stop now name with
    | .ok t' => t'
    | .error _ => t

/-- **What calls amount to.** -/
structure Ledger where
  /-- the running timers and the times of their starts, outermost first -/
  running : List (String × Rat) := []
  /-- the path of each start -/
  starts : List (List String) := []
  /-- the path, the begin and the end of each closed interval -/
  closed : List (List String × Rat × Rat) := []

namespace Ledger

/-- The path of the running timers. -/
def path (l : Ledger) : List String := l.running.map (·.1)

/-- Enters a call. Only the innermost running timer is stopped. -/
def enter (now : Rat) (l : Ledger) : Call → Ledger
  | .start name => { l with running := l.running ++ [(name, now)], starts := l.starts ++ [l.path ++ [name]] }
  | .stop name => match l.running.getLast? with
    | some (innermost, since) =>
      if innermost = name then
        { l with running := l.running.dropLast, closed := l.closed ++ [(l.path, since, now)] }
      else l
    | none => l

/-- Since when the timer at a path runs. The timers that run are those at the prefixes of the path of the ledger. -/
def since? (l : Ledger) (p : List String) : Option Rat :=
  if p ≠ [] ∧ p <+: l.path then (l.running[p.length - 1]?).map (·.2) else none

/-- The time of the closed intervals of a path. -/
def time (l : Ledger) (p : List String) : Rat := ((l.closed.filter (·.1 = p)).map fun c => c.2.2 - c.2.1).sum

/-- The time of the running interval of a path. -/
def openTime (now : Rat) (l : Ledger) (p : List String) : Rat := ((l.since? p).map (now - ·)).getD 0

variable {l : Ledger} {p : List String} {name : String} {now since : Rat}

theorem isSome_since? (l : Ledger) (p : List String) : (l.since? p).isSome = true ↔ p ≠ [] ∧ p <+: l.path := by
  unfold since?
  by_cases h : p ≠ [] ∧ p <+: l.path
  · have hlength : p.length ≤ l.running.length := by
      have hle := h.2.length_le
      rwa [path, List.length_map] at hle
    have hpos : 0 < p.length := List.length_pos_iff.mpr h.1
    rw [if_pos h, Option.isSome_map, List.getElem?_eq_getElem (by omega)]
    exact iff_of_true rfl h
  · rw [if_neg h]
    exact iff_of_false Bool.false_ne_true h

/-- A timer that is started runs from now on, and all others as before. -/
theorem since?_start (now : Rat) (name : String) (l : Ledger) (p : List String) :
    (l.enter now (.start name)).since? p = if p = l.path ++ [name] then some now else l.since? p := by
  have hpath : (l.enter now (.start name)).path = l.path ++ [name] := List.map_append
  have hrunning : (l.enter now (.start name)).running = l.running ++ [(name, now)] := rfl
  have hlength : l.path.length = l.running.length := List.length_map _
  unfold since?
  rw [hpath, hrunning]
  by_cases hp : p = l.path ++ [name]
  · have hlast : p.length - 1 = l.running.length := by
      rw [hp, List.length_append, List.length_singleton, hlength, Nat.add_sub_cancel]
    rw [if_pos hp, if_pos ⟨by rw [hp]; exact List.concat_ne_nil _ _, by rw [hp]⟩, hlast, List.getElem?_concat_length]
    rfl
  · rw [if_neg hp]
    by_cases hold : p ≠ [] ∧ p <+: l.path
    · have hle := hold.2.length_le
      have hpos : 0 < p.length := List.length_pos_iff.mpr hold.1
      rw [if_pos hold, if_pos ⟨hold.1, hold.2.trans (List.prefix_append _ _)⟩, List.getElem?_append_left (by omega)]
    · rw [if_neg hold, if_neg]
      rintro ⟨hne, hbelow⟩
      exact (List.prefix_concat_iff.mp hbelow).elim hp fun h => hold ⟨hne, h⟩

/-- What a start brings in can be taken out again: a ledger with a running timer is one that was started. -/
theorem since?_of_running {r : List (String × Rat)} (h : l.running = r ++ [(name, since)]) (p : List String) :
    l.since? p = if p = l.path then some since else ({ l with running := r } : Ledger).since? p := by
  have hstart := since?_start since name { l with running := r } p
  have hpath : l.path = r.map (·.1) ++ [name] := by rw [path, h, List.map_append]; rfl
  have heq : ({ l with running := r } : Ledger).path ++ [name] = l.path := hpath.symm
  rw [heq] at hstart
  rw [← hstart]
  unfold since? path
  rw [h]
  rfl

/-- An interval is closed. -/
theorem time_close (running : List (String × Rat)) (l : Ledger) (q p : List String) (since now : Rat) :
    ({ l with running, closed := l.closed ++ [(q, since, now)] } : Ledger).time p
      = l.time p + if q = p then now - since else 0 := by
  unfold time
  rw [List.filter_append, List.map_append, List.sum_append]
  by_cases hq : q = p <;> simp [hq]

/-- A call that stops another timer than the innermost one is not entered. -/
theorem enter_stop_of_ne (now : Rat) (h : l.path.getLast? ≠ some name) : l.enter now (.stop name) = l := by
  rw [path, List.getLast?_map] at h
  unfold enter
  cases hlast : l.running.getLast? with
  | none => rfl
  | some r =>
    rw [hlast] at h
    exact if_neg fun heq => h (congrArg some heq)

/-- The last name of the path is that of the innermost running timer. -/
theorem exists_running (h : l.path.getLast? = some name) : ∃ r since, l.running = r ++ [(name, since)] := by
  rw [path, List.getLast?_map, Option.map_eq_some_iff] at h
  obtain ⟨⟨name, since⟩, hlast, rfl⟩ := h
  obtain ⟨r, hrunning⟩ := List.getLast?_eq_some_iff.mp hlast
  exact ⟨r, since, hrunning⟩

/-- The innermost running timer is stopped. -/
theorem enter_stop {r : List (String × Rat)} (now : Rat) (h : l.running = r ++ [(name, since)]) :
    l.enter now (.stop name) = { l with running := r, closed := l.closed ++ [(l.path, since, now)] } := by
  unfold enter
  rw [h, List.getLast?_concat]
  dsimp only
  rw [if_pos rfl, List.dropLast_concat]

end Ledger

/-! ## Trees with the accounts of a ledger -/

/-- A timer has counted its starts and summed up its closed intervals, and its stopwatch runs since its last start if that is
not closed yet. -/
structure EntryAccounts (l : Ledger) (e : TimerEntry Rat) : Prop where
  calls : e.calls = l.starts.count e.path
  total : e.total = l.time e.path
  accumulated : e.watch.accumulated = e.total
  last : e.watch.last = l.since? e.path
  runs : e.watch.runs = e.calls

/-- **A tree has the accounts of a ledger.** Each path that was started has one timer, and so has each path above it. -/
structure Accounts (l : Ledger) (t : TimerTree Rat) : Prop where
  stack : t.stack = l.path
  nodup : (t.entries.map (·.path)).Nodup
  started : ∀ p, p ∈ t.entries.map (·.path) ↔ p ∈ l.starts
  closed : ∀ c ∈ l.closed, c.1 ∈ l.starts
  nonempty : [] ∉ l.starts
  above : ∀ p ∈ l.starts, ∀ q, q <+: p → q ≠ [] → q ∈ l.starts
  running : ∀ q, q <+: l.path → q ≠ [] → q ∈ l.starts
  entry : ∀ e ∈ t.entries, EntryAccounts l e

variable {l : Ledger} {t : TimerTree Rat} {e : TimerEntry Rat} {p : List String} {name : String} {now : Rat}

/-- With different paths, a timer is found at its own one. -/
theorem find?_eq_some_iff (h : (t.entries.map (·.path)).Nodup) : t.find? p = some e ↔ e ∈ t.entries ∧ e.path = p := by
  constructor
  · exact fun he => ⟨List.mem_of_find?_eq_some he, path_of_find? he⟩
  · rintro ⟨hmem, rfl⟩
    cases hfind : t.find? e.path with
    | none => exact absurd (List.find?_eq_none.mp hfind e hmem) (by simp)
    | some e' => rw [List.inj_on_of_nodup_map h (List.mem_of_find?_eq_some hfind) hmem (path_of_find? hfind)]

theorem paths_update {f : TimerEntry Rat → TimerEntry Rat} (hf : ∀ e, (f e).path = e.path) (q : List String)
    (t : TimerTree Rat) : (t.update q f).entries.map (·.path) = t.entries.map (·.path) := by
  unfold update
  rw [List.map_map]
  refine List.map_congr_left fun e _ => ?_
  rw [Function.comp_apply]
  split
  next => exact hf e
  next => rfl

theorem Accounts.empty : Accounts {} .empty where
  stack := rfl
  nodup := List.nodup_nil
  started _ := Iff.rfl
  closed := nofun
  nonempty := nofun
  above := nofun
  running _ hq hne := absurd (List.prefix_nil.mp hq) hne
  entry := nofun

namespace Accounts

/-- A timer that is entered is new, and was never started. -/
theorem entries_enter (h : Accounts l t) (now : Rat) (p : List String) : ((t.enter now p).entries = t.entries ∧ p ∈ l.starts)
    ∨ ((t.enter now p).entries = t.entries ++ [{ path := p, watch := .reset now, total := 0 }] ∧ p ∉ l.starts) := by
  unfold enter
  cases hfind : t.find? p with
  | some e =>
    obtain ⟨hmem, rfl⟩ := (find?_eq_some_iff h.nodup).mp hfind
    exact .inl ⟨rfl, (h.started _).mp (List.mem_map_of_mem hmem)⟩
  | none =>
    refine .inr ⟨rfl, fun hstarted => ?_⟩
    obtain ⟨e, he, rfl⟩ := List.mem_map.mp ((h.started p).mpr hstarted)
    exact absurd (List.find?_eq_none.mp hfind e he) (by simp)

/-- The timers that are entered have different paths, and these are the new one and those that were started. -/
theorem paths_enter (h : Accounts l t) (now : Rat) (p : List String) : ((t.enter now p).entries.map (·.path)).Nodup
    ∧ ∀ q, q ∈ (t.enter now p).entries.map (·.path) ↔ q ∈ l.starts ∨ q = p := by
  rcases h.entries_enter now p with ⟨hentries, hp⟩ | ⟨hentries, hp⟩
  · rw [hentries]
    refine ⟨h.nodup, fun q => (h.started q).trans ⟨.inl, fun hq => hq.elim id ?_⟩⟩
    rintro rfl
    exact hp
  · rw [hentries, List.map_append, List.map_singleton]
    refine ⟨List.nodup_append.mpr ⟨h.nodup, List.nodup_singleton p, ?_⟩, fun q => ?_⟩
    · rintro q hq p' hp' rfl
      rw [List.mem_singleton.mp hp'] at hq
      exact hp ((h.started p).mp hq)
    · rw [List.mem_append, List.mem_singleton, h.started]

/-- What a start leaves: the timer that is started, which may be a new one, and the others as they were. -/
theorem mem_start (h : Accounts l t) (he : e ∈ (t.start now name).entries) : (e ∈ t.entries ∧ e.path ≠ l.path ++ [name])
    ∨ (∃ e₀ ∈ t.entries, e₀.path = l.path ++ [name] ∧ e = called now e₀)
    ∨ (l.path ++ [name] ∉ l.starts ∧ e = called now { path := l.path ++ [name], watch := .reset now, total := 0 }) := by
  obtain ⟨e₀, he₀, rfl⟩ := List.mem_map.mp he
  rw [h.stack] at he₀ ⊢
  rcases h.entries_enter now (l.path ++ [name]) with ⟨hsame, -⟩ | ⟨hmore, hp⟩
  · rw [hsame] at he₀
    split
    next heq => exact .inr (.inl ⟨e₀, he₀, beq_iff_eq.mp heq, rfl⟩)
    next hne => exact .inl ⟨he₀, fun heq => hne (beq_iff_eq.mpr heq)⟩
  · rw [hmore, List.mem_append, List.mem_singleton] at he₀
    rcases he₀ with he₀ | rfl
    · split
      next heq => exact .inr (.inl ⟨e₀, he₀, beq_iff_eq.mp heq, rfl⟩)
      next hne => exact .inl ⟨he₀, fun heq => hne (beq_iff_eq.mpr heq)⟩
    · rw [if_pos (beq_self_eq_true _)]
      exact .inr (.inr ⟨hp, rfl⟩)

/-- A timer below the running ones does not run. -/
theorem last_of_path (h : EntryAccounts l e) (hp : e.path = l.path ++ [name]) : e.watch.last = none := by
  rw [h.last, ← Option.not_isSome_iff_eq_none, Ledger.isSome_since?, hp]
  rintro ⟨-, hbelow⟩
  have hle := hbelow.length_le
  rw [List.length_append, List.length_singleton] at hle
  omega

/-- A timer that does not run yet is started. -/
theorem entry_called (h : EntryAccounts l e) (hp : e.path = l.path ++ [name]) :
    EntryAccounts (l.enter now (.start name)) (called now e) := by
  have hwatch := Stopwatch.start_of_stopped now (last_of_path h hp)
  refine ⟨?_, h.total, ?_, ?_, ?_⟩
  · show e.calls + 1 = (l.starts ++ [l.path ++ [name]]).count e.path
    rw [List.count_append, hp, List.count_singleton_self, ← hp, ← h.calls]
  · show (e.watch.start now).accumulated = e.total
    rw [hwatch]
    exact h.accumulated
  · show (e.watch.start now).last = _
    rw [hwatch, Ledger.since?_start]
    exact (if_pos hp).symm
  · show (e.watch.start now).runs = e.calls + 1
    rw [hwatch]
    exact congrArg (· + 1) h.runs

/-- A new timer is started. -/
theorem entry_new (h : Accounts l t) (hp : l.path ++ [name] ∉ l.starts) : EntryAccounts (l.enter now (.start name))
    (called now { path := l.path ++ [name], watch := .reset now, total := 0 }) := by
  refine ⟨?_, ?_, rfl, ?_, rfl⟩
  · show 0 + 1 = (l.starts ++ [l.path ++ [name]]).count (l.path ++ [name])
    rw [List.count_append, List.count_singleton_self, List.count_eq_zero_of_not_mem hp]
  · show 0 = (l.enter now (.start name)).time (l.path ++ [name])
    have hnone : l.closed.filter (·.1 = l.path ++ [name]) = [] :=
      List.filter_eq_nil_iff.mpr fun c hc heq => hp (of_decide_eq_true heq ▸ h.closed c hc)
    show 0 = l.time (l.path ++ [name])
    rw [Ledger.time, hnone]
    rfl
  · rw [Ledger.since?_start]
    exact (if_pos rfl).symm

/-- The other timers are as before. -/
theorem entry_other (h : EntryAccounts l e) (hp : e.path ≠ l.path ++ [name]) :
    EntryAccounts (l.enter now (.start name)) e := by
  refine ⟨?_, h.total, h.accumulated, ?_, h.runs⟩
  · show e.calls = (l.starts ++ [l.path ++ [name]]).count e.path
    rw [List.count_append, List.count_singleton, if_neg (by simpa using hp.symm), Nat.add_zero]
    exact h.calls
  · rw [h.last, Ledger.since?_start, if_neg hp]

/-- **A start is accounted for.** -/
theorem start (h : Accounts l t) (now : Rat) (name : String) :
    Accounts (l.enter now (.start name)) (t.start now name) := by
  have hpath : (l.enter now (.start name)).path = l.path ++ [name] := List.map_append
  have hstarts : ∀ q, q ∈ (l.enter now (.start name)).starts ↔ q ∈ l.starts ∨ q = l.path ++ [name] := fun q => by
    show q ∈ l.starts ++ [l.path ++ [name]] ↔ _
    rw [List.mem_append, List.mem_singleton]
  have hnew : t.stack ++ [name] = l.path ++ [name] := by rw [h.stack]
  have habove : ∀ q, q <+: l.path ++ [name] → q ≠ [] → q ∈ (l.enter now (.start name)).starts := by
    intro q hq hne
    rw [hstarts]
    exact (List.prefix_concat_iff.mp hq).symm.imp (fun hq => h.running q hq hne) id
  obtain ⟨hnodup, hmem⟩ := h.paths_enter now (t.stack ++ [name])
  have hentries : (t.start now name).entries.map (·.path) = (t.enter now (t.stack ++ [name])).entries.map (·.path) :=
    paths_update (f := called now) (fun _ => rfl) _ _
  refine ⟨?_, ?_, fun q => ?_, fun c hc => ?_, fun hnil => ?_, fun p hp q hq hne => ?_, ?_, fun e he => ?_⟩
  · rw [hpath, ← h.stack]
    rfl
  · rw [hentries]
    exact hnodup
  · rw [hentries, hmem, hstarts, hnew]
  · exact (hstarts _).mpr (.inl (h.closed c hc))
  · exact ((hstarts []).mp hnil).elim h.nonempty fun heq => List.concat_ne_nil _ _ heq.symm
  · rcases (hstarts p).mp hp with hp | rfl
    · exact (hstarts q).mpr (.inl (h.above p hp q hq hne))
    · exact habove q hq hne
  · rw [hpath]
    exact habove
  · rcases h.mem_start he with ⟨he, hne⟩ | ⟨e₀, he₀, hp, rfl⟩ | ⟨hp, rfl⟩
    · exact entry_other (h.entry e he) hne
    · exact entry_called (h.entry e₀ he₀) hp
    · exact h.entry_new hp

/-! ## Stops -/

/-- A timer with a stopwatch that was stopped, and the interval that this closed. -/
def halted (watch : Stopwatch Rat) (interval : Rat) (e : TimerEntry Rat) : TimerEntry Rat :=
  { e with watch, total := e.total + interval }

/-- A stopwatch that is stopped, and was started at some time. -/
def closedWatch (w : Stopwatch Rat) (since now : Rat) : Stopwatch Rat :=
  { w with last := none, accumulated := w.accumulated + (now - since) }

theorem path_of_running {r : List (String × Rat)} {since : Rat} (hrunning : l.running = r ++ [(name, since)]) :
    l.path = r.map (·.1) ++ [name] := by
  rw [Ledger.path, hrunning, List.map_append]
  rfl

/-- The timer that runs innermost was started. -/
theorem path_mem_starts (h : Accounts l t) {r : List (String × Rat)} {since : Rat}
    (hrunning : l.running = r ++ [(name, since)]) : l.path ∈ l.starts := by
  refine h.running _ (List.prefix_refl _) ?_
  rw [path_of_running hrunning]
  exact List.concat_ne_nil _ _

/-- The innermost running timer and what a stop does to it. -/
theorem run_stop (h : Accounts l t) {r : List (String × Rat)} {since : Rat} (hrunning : l.running = r ++ [(name, since)])
    (now : Rat) : ∃ e ∈ t.entries, e.path = l.path ∧ e.watch.last = some since ∧ t.stop now name
      = .ok { t.update l.path (halted (closedWatch e.watch since now) (now - since)) with stack := r.map (·.1) } := by
  have hpath := path_of_running hrunning
  obtain ⟨e, he, hep⟩ := List.mem_map.mp ((h.started _).mpr (h.path_mem_starts hrunning))
  have hfind : t.find? l.path = some e := (find?_eq_some_iff h.nodup).mpr ⟨he, hep⟩
  have hlast : e.watch.last = some since := by
    rw [(h.entry e he).last, hep, Ledger.since?_of_running hrunning, if_pos rfl]
  refine ⟨e, he, hep, hlast, ?_⟩
  unfold TimerTree.stop
  rw [h.stack, hpath, List.getLast?_concat, if_pos rfl, ← hpath, hfind]
  dsimp only
  rw [Stopwatch.stop_of_running hlast, hpath, List.dropLast_concat]
  rfl

/-- **A stop of another timer than the innermost one** fails. -/
theorem stop_of_ne (h : Accounts l t) (now : Rat) (hname : l.path.getLast? ≠ some name) :
    t.stop now name = .error (.timerNotActive name (pathText t.stack)) := by
  unfold TimerTree.stop
  rw [← h.stack] at hname
  rw [if_neg hname]
  rfl

/-- **A stop is accounted for.** -/
theorem stop (h : Accounts l t) {r : List (String × Rat)} {since : Rat} (hrunning : l.running = r ++ [(name, since)])
    (now : Rat) : Accounts (l.enter now (.stop name)) (Call.run now t (.stop name)) := by
  obtain ⟨e, he, hep, -, hstop⟩ := h.run_stop hrunning now
  have hpath := path_of_running hrunning
  have hpaths := paths_update (f := halted (closedWatch e.watch since now) (now - since)) (fun _ => rfl) l.path t
  have hsince : ({ l with running := r } : Ledger).since? l.path = none := by
    rw [← Option.not_isSome_iff_eq_none, Ledger.isSome_since?]
    rintro ⟨-, hbelow⟩
    have hle : l.path.length ≤ (r.map (·.1)).length := hbelow.length_le
    rw [hpath, List.length_append, List.length_singleton] at hle
    omega
  rw [Ledger.enter_stop now hrunning, Call.run, hstop]
  refine ⟨rfl, ?_, fun q => ?_, fun c hc => ?_, h.nonempty, h.above, fun q hq hne => ?_, fun e' he' => ?_⟩
  · exact hpaths ▸ h.nodup
  · exact hpaths ▸ h.started q
  · rcases List.mem_append.mp hc with hc | hc
    · exact h.closed c hc
    · rw [List.mem_singleton.mp hc]
      exact h.path_mem_starts hrunning
  · exact h.running q (hq.trans (by rw [hpath]; exact List.prefix_append _ _)) hne
  · obtain ⟨e₀, he₀, rfl⟩ := List.mem_map.mp he'
    have hentry := h.entry e₀ he₀
    by_cases hne : e₀.path = l.path
    · obtain rfl : e₀ = e := List.inj_on_of_nodup_map h.nodup he₀ he (hne.trans hep.symm)
      rw [if_pos (beq_iff_eq.mpr hne)]
      refine ⟨hentry.calls, ?_, ?_, ?_, hentry.runs⟩
      · show e₀.total + (now - since)
          = ({ l with running := r, closed := l.closed ++ [(l.path, since, now)] } : Ledger).time e₀.path
        rw [Ledger.time_close, if_pos hne.symm, hentry.total]
      · show e₀.watch.accumulated + (now - since) = e₀.total + (now - since)
        rw [hentry.accumulated]
      · show none = ({ l with running := r } : Ledger).since? e₀.path
        rw [hne, hsince]
    · rw [if_neg fun heq => hne (beq_iff_eq.mp heq)]
      refine ⟨hentry.calls, ?_, hentry.accumulated, ?_, hentry.runs⟩
      · rw [Ledger.time_close, if_neg (Ne.symm hne), hentry.total, add_zero]
      · rw [hentry.last, Ledger.since?_of_running hrunning, if_neg hne]
        rfl

/-- Each call is accounted for. -/
theorem call (h : Accounts l t) (now : Rat) (c : Call) : Accounts (l.enter now c) (c.run now t) := by
  cases c with
  | start name => exact h.start now name
  | stop name =>
    by_cases hname : l.path.getLast? = some name
    · obtain ⟨r, since, hrunning⟩ := Ledger.exists_running hname
      exact h.stop hrunning now
    · rw [Ledger.enter_stop_of_ne now hname, Call.run, h.stop_of_ne now hname]
      exact h

end Accounts

/-! ## Runs -/

/-- The trees that calls lead to at a time, with their ledgers. The clock does not go back. -/
inductive Reached : Rat → Ledger → TimerTree Rat → Prop
  | empty (now : Rat) : Reached now {} .empty
  | wait {now later : Rat} {l : Ledger} {t : TimerTree Rat} : Reached now l t → now ≤ later → Reached later l t
  | call {now : Rat} {l : Ledger} {t : TimerTree Rat} (c : Call) : Reached now l t →
    Reached now (l.enter now c) (c.run now t)

/-- **A tree has the accounts of its ledger,** whatever the calls. -/
theorem Reached.accounts (h : Reached now l t) : Accounts l t := by
  induction h with
  | empty => exact .empty
  | wait _ _ ih => exact ih
  | call c _ ih => exact ih.call _ c

end TimerTree

end RobustLP
