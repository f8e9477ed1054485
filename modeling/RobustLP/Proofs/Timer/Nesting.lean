import RobustLP.Proofs.Timer.Accounts

/-!
# Times of timers and of their children

At most one child of a timer runs, and only while the timer runs itself. So at any moment the times of the children of a timer
sum up to at most its own time (`TimerTree.Reached.within`): calls take no time, and while the clock runs the sum grows only if
the time of the timer grows as much. When all timers are stopped, the time outside of children that the report shows for a
timer is therefore never negative.

`TimerTree.Reached.accounts_exactly` collects what is known of nested timers.
-/

namespace RobustLP

namespace TimerTree

variable {l : Ledger} {t : TimerTree Rat} {e : TimerEntry Rat} {p : List String} {name : String} {now later : Rat}

/-! ## Times of children -/

/-- The time of the children of a path, with that of running intervals. -/
def childTime (now : Rat) (t : TimerTree Rat) (p : List String) : Rat :=
  ((t.children p).map fun e => e.watch.total now).sum

/-- **The children of each timer have at most its own time.** -/
def Within (now : Rat) (t : TimerTree Rat) : Prop := ∀ e ∈ t.entries, t.childTime now e.path ≤ e.watch.total now

/-- Whether a timer is a child of a path. -/
def isChild (p : List String) (e : TimerEntry Rat) : Bool := e.path.dropLast == p && !e.path.isEmpty

theorem isChild_iff : isChild p e = true ↔ e.path.dropLast = p ∧ e.path ≠ [] := by
  unfold isChild
  rw [Bool.and_eq_true, beq_iff_eq, Bool.not_eq_true', List.isEmpty_eq_false_iff]

theorem mem_children : e ∈ t.children p ↔ e ∈ t.entries ∧ e.path.dropLast = p ∧ e.path ≠ [] := by
  rw [← isChild_iff]
  exact List.mem_filter

/-- A change that takes no time does not change the time of children. -/
theorem childTime_update {f : TimerEntry Rat → TimerEntry Rat} (q : List String) (hpath : ∀ e, (f e).path = e.path)
    (htime : ∀ e ∈ t.entries, e.path = q → (f e).watch.total now = e.watch.total now) (p : List String) :
    (t.update q f).childTime now p = t.childTime now p := by
  have hchild : ∀ e : TimerEntry Rat, isChild p (if e.path == q then f e else e) = isChild p e := by
    intro e
    unfold isChild
    split
    next => rw [hpath]
    next => rfl
  show (((t.entries.map fun e => if e.path == q then f e else e).filter (isChild p)).map fun e => e.watch.total now).sum
    = ((t.entries.filter (isChild p)).map fun e => e.watch.total now).sum
  rw [List.filter_map, List.map_map]
  simp only [Function.comp_def, hchild]
  congr 1
  refine List.map_congr_left fun e he => ?_
  split
  next heq => exact htime e (List.mem_filter.mp he).1 (beq_iff_eq.mp heq)
  next => rfl

/-- A new timer has no time yet. -/
theorem childTime_enter (now : Rat) (t : TimerTree Rat) (q p : List String) :
    (t.enter now q).childTime now p = t.childTime now p := by
  unfold enter
  cases t.find? q with
  | some => rfl
  | none =>
    have hzero : (Stopwatch.reset now : Stopwatch Rat).total now = 0 := by
      show (0 : Rat) + (now - now) = 0
      rw [sub_self, add_zero]
    show (((t.entries ++ [_]).filter (isChild p)).map fun e : TimerEntry Rat => e.watch.total now).sum = _
    rw [List.filter_append, List.map_append, List.sum_append]
    conv_rhs => rw [← add_zero (t.childTime now p)]
    congr 1
    rw [List.filter_singleton]
    cases isChild p { path := q, watch := .reset now, total := 0 } with
    | true => exact (add_zero _).trans hzero
    | false => rfl

/-- Nothing is below a path that was never started. -/
theorem Accounts.childTime_of_new (h : Accounts l t) (hp : p ∉ l.starts) (hne : p ≠ []) : t.childTime now p = 0 := by
  have hnone : t.children p = [] := by
    refine List.eq_nil_iff_forall_not_mem.mpr fun e he => hp ?_
    obtain ⟨hmem, rfl, -⟩ := mem_children.mp he
    exact h.above e.path ((h.started _).mp (List.mem_map_of_mem hmem)) _ (List.dropLast_prefix _) hne
  rw [childTime, hnone]
  rfl

/-! ## Calls take no time -/

theorem Accounts.total_called (h : EntryAccounts l e) (hp : e.path = l.path ++ [name]) (now : Rat) :
    (called now e).watch.total now = e.watch.total now := by
  have hlast := last_of_path h hp
  have hwatch : (called now e).watch = _ := Stopwatch.start_of_stopped now hlast
  rw [hwatch, Stopwatch.total_of_running rfl, Stopwatch.total_of_stopped hlast, sub_self, add_zero]

theorem total_closedWatch {w : Stopwatch Rat} {since : Rat} (h : w.last = some since) (now : Rat) :
    (Accounts.closedWatch w since now).total now = w.total now := by
  rw [Stopwatch.total_of_running h]
  exact Stopwatch.total_of_stopped rfl

theorem Within.start (h : t.Within now) (ha : Accounts l t) (name : String) : (t.start now name).Within now := by
  have hsame : ∀ p, (t.start now name).childTime now p = t.childTime now p := by
    intro p
    rw [← childTime_enter now t (t.stack ++ [name]) p]
    refine childTime_update (f := called now) (t.stack ++ [name]) (fun _ => rfl) (fun e he hep => ?_) p
    rw [ha.stack] at he hep
    rcases ha.entries_enter now (l.path ++ [name]) with ⟨hsame, -⟩ | ⟨hmore, -⟩
    · rw [hsame] at he
      exact Accounts.total_called (ha.entry e he) hep now
    · rw [hmore, List.mem_append, List.mem_singleton] at he
      rcases he with he | rfl
      · exact Accounts.total_called (ha.entry e he) hep now
      · rfl
  intro e he
  rw [hsame]
  rcases ha.mem_start he with ⟨he, -⟩ | ⟨e₀, he₀, hep, rfl⟩ | ⟨hp, rfl⟩
  · exact h e he
  · rw [Accounts.total_called (ha.entry e₀ he₀) hep]
    exact h e₀ he₀
  · show t.childTime now (l.path ++ [name]) ≤ (0 : Rat) + (now - now)
    rw [ha.childTime_of_new hp (List.concat_ne_nil _ _), sub_self, add_zero]

theorem Within.stop (h : t.Within now) (ha : Accounts l t) (name : String) : (Call.run now t (.stop name)).Within now := by
  by_cases hname : l.path.getLast? = some name
  · obtain ⟨r, since, hrunning⟩ := Ledger.exists_running hname
    obtain ⟨e, he, hep, hsince, hstop⟩ := ha.run_stop hrunning now
    have htime : ∀ e' ∈ t.entries, e'.path = l.path →
        (Accounts.halted (Accounts.closedWatch e.watch since now) (now - since) e').watch.total now = e'.watch.total now := by
      intro e' he' hep'
      obtain rfl : e' = e := List.inj_on_of_nodup_map ha.nodup he' he (hep'.trans hep.symm)
      exact total_closedWatch hsince now
    rw [Call.run, hstop]
    intro e' he'
    obtain ⟨e₀, he₀, rfl⟩ := List.mem_map.mp he'
    refine (childTime_update (f := Accounts.halted _ _) l.path (fun _ => rfl) htime _).trans_le ?_
    split
    next heq =>
      rw [htime e₀ he₀ (beq_iff_eq.mp heq)]
      exact h e₀ he₀
    next => exact h e₀ he₀
  · rw [Call.run, ha.stop_of_ne now hname]
    exact h

/-! ## Times while the clock runs -/

/-- A stopwatch goes with the clock while it runs. -/
theorem total_later (w : Stopwatch Rat) (now later : Rat) :
    w.total later = w.total now + if w.last.isSome then later - now else 0 := by
  cases hlast : w.last with
  | none => rw [Stopwatch.total_of_stopped hlast, Stopwatch.total_of_stopped hlast]; simp
  | some since =>
    rw [Stopwatch.total_of_running hlast, Stopwatch.total_of_running hlast, Option.isSome_some, if_pos rfl]
    ring

/-- The sum of the times of several timers grows with each of them that runs. -/
theorem sum_total_later (now later : Rat) : ∀ es : List (TimerEntry Rat), (es.map fun e => e.watch.total later).sum
    = (es.map fun e => e.watch.total now).sum + (later - now) * (es.countP fun e => e.watch.last.isSome : Nat)
  | [] => by simp
  | e :: es => by
    rw [List.map_cons, List.map_cons, List.sum_cons, List.sum_cons, List.countP_cons, sum_total_later now later es,
      total_later e.watch now later]
    split <;> push_cast <;> ring

/-- **At most one child of a timer runs,** and only while the timer runs itself. -/
theorem Accounts.countP_children_le (h : Accounts l t) (he : e ∈ t.entries) :
    ((t.children e.path).countP fun c => c.watch.last.isSome) ≤ if e.watch.last.isSome then 1 else 0 := by
  have hruns : ∀ c ∈ t.children e.path, c.watch.last.isSome = true →
      c.path <+: l.path ∧ c.path.length = e.path.length + 1 := by
    intro c hc hsome
    obtain ⟨hmem, hdrop, hne⟩ := mem_children.mp hc
    rw [(h.entry c hmem).last, Ledger.isSome_since?] at hsome
    have hlength := List.length_pos_iff.mpr hne
    rw [← hdrop, List.length_dropLast]
    exact ⟨hsome.2, by omega⟩
  have hnonempty : e.path ≠ [] := fun hnil => h.nonempty (hnil ▸ (h.started _).mp (List.mem_map_of_mem he))
  rw [List.countP_eq_length_filter]
  rcases hfilter : (t.children e.path).filter fun c => c.watch.last.isSome with _ | ⟨c, rest⟩
  · rw [hfilter]
    exact Nat.zero_le _
  · have hrunning : ∀ c' ∈ c :: rest, c' ∈ t.children e.path ∧ c'.watch.last.isSome = true := fun c' hc' =>
      List.mem_filter.mp (hfilter ▸ hc')
    obtain ⟨hc, hcs⟩ := hrunning c List.mem_cons_self
    obtain ⟨hbelow, hlength⟩ := hruns c hc hcs
    have hself : e.watch.last.isSome = true := by
      rw [(h.entry e he).last, Ledger.isSome_since?, ← (mem_children.mp hc).2.1]
      exact ⟨(mem_children.mp hc).2.1 ▸ hnonempty, (List.dropLast_prefix _).trans hbelow⟩
    -- two children that run would have the same path
    have hrest : rest = [] := by
      refine List.eq_nil_iff_forall_not_mem.mpr fun c' hc' => ?_
      obtain ⟨hmem', hcs'⟩ := hrunning c' (List.mem_cons_of_mem _ hc')
      obtain ⟨hbelow', hlength'⟩ := hruns c' hmem' hcs'
      have hpath : c'.path = c.path :=
        (List.prefix_of_prefix_length_le hbelow' hbelow (by omega)).eq_of_length (by omega)
      have hnodup : ((c :: rest).map (·.path)).Nodup :=
        (hfilter ▸ h.nodup.sublist ((List.filter_sublist.trans List.filter_sublist).map _))
      refine (List.nodup_cons.mp hnodup).1 ?_
      show c.path ∈ rest.map (·.path)
      rw [← hpath]
      exact List.mem_map_of_mem hc'
    rw [hfilter, hrest, if_pos hself]
    exact Nat.le_refl 1

theorem Within.wait (h : t.Within now) (ha : Accounts l t) (hle : now ≤ later) : t.Within later := by
  intro e he
  have hnonneg : 0 ≤ later - now := sub_nonneg.mpr hle
  have hcount : (((t.children e.path).countP fun c => c.watch.last.isSome : Nat) : Rat)
      ≤ if e.watch.last.isSome then 1 else 0 := by
    have hle := ha.countP_children_le he
    split
    next hruns =>
      rw [if_pos hruns] at hle
      exact_mod_cast hle
    next hstands =>
      rw [if_neg hstands] at hle
      exact_mod_cast hle
  calc t.childTime later e.path
      = t.childTime now e.path + (later - now) * ((t.children e.path).countP fun c => c.watch.last.isSome : Nat) :=
        sum_total_later now later _
    _ ≤ e.watch.total now + (later - now) * if e.watch.last.isSome then 1 else 0 :=
        add_le_add (h e he) (mul_le_mul_of_nonneg_left hcount hnonneg)
    _ = e.watch.total later := by
        rw [total_later e.watch now later]
        split <;> ring

/-- **The children of a timer never have more than its own time,** whatever the calls. -/
theorem Reached.within (h : Reached now l t) : t.Within now := by
  induction h with
  | empty => exact nofun
  | wait hreached hle ih => exact ih.wait hreached.accounts hle
  | call c hreached ih =>
    cases c with
    | start name => exact ih.start hreached.accounts name
    | stop name => exact ih.stop hreached.accounts name

/-! ## The time outside of children -/

section Report

variable {K B : Type} [Scalar K B]

/-- The time of a timer outside of its children, as the report works it out. -/
def otherTime (t : TimerTree K) (parent : TimerEntry K) : K :=
  (byName (t.children parent.path)).foldl (fun rest c => rest - c.total) parent.total

omit [Scalar K B] in
theorem byName_perm (es : List (TimerEntry K)) : (byName es).Perm es := List.mergeSort_perm _ _

/-- The lines of the children of a timer end with the time outside of them. -/
theorem exists_childLines_eq [Written K] {t : TimerTree K} {parent : TimerEntry K} (hne : t.children parent.path ≠ [])
    (depth indent : Nat) (widths : List Nat) (width : Nat) :
    ∃ rows, t.childLines (depth + 1) indent widths width parent = rows
      ++ [Text.blanks indent ++ reportLine (width - indent) [otherName, "n/a", Written.fixed 3 (t.otherTime parent), "n/a",
            shareText (percent (t.otherTime parent) parent.total)],
          Text.blanks indent ++ Text.rule '=' (width - indent + figureWidth)] := by
  unfold childLines otherTime
  cases hsorted : byName (t.children parent.path) with
  | nil => exact absurd (List.perm_nil.mp (hsorted ▸ byName_perm _).symm) hne
  | cons c cs => exact ⟨_, rfl⟩

end Report

theorem foldl_sub_eq (x : Rat) : ∀ es : List (TimerEntry Rat),
    es.foldl (fun rest c => rest - c.total) x = x - (es.map (·.total)).sum
  | [] => (sub_zero x).symm
  | e :: es => by
    rw [List.foldl_cons, foldl_sub_eq _ es, List.map_cons, List.sum_cons, sub_sub]

/-- The time outside of children is what their times leave. -/
theorem otherTime_eq (t : TimerTree Rat) (parent : TimerEntry Rat) :
    t.otherTime parent = parent.total - ((t.children parent.path).map (·.total)).sum := by
  rw [otherTime, foldl_sub_eq, ((byName_perm _).map _).sum_eq]

/-- The time of a timer is that of its closed intervals and of the one that runs. -/
theorem Accounts.total_eq (h : EntryAccounts l e) (now : Rat) : e.watch.total now = e.total + l.openTime now e.path := by
  unfold Ledger.openTime
  rw [← h.last, ← h.accumulated]
  cases hlast : e.watch.last with
  | none => exact (Stopwatch.total_of_stopped hlast).trans (add_zero _).symm
  | some since => exact Stopwatch.total_of_running hlast

/-- When all timers are stopped, their times are those of the closed intervals. -/
theorem Accounts.total_of_stopped (h : EntryAccounts l e) (hl : l.path = []) (now : Rat) : e.watch.total now = e.total := by
  have hnone : l.since? e.path = none := by
    rw [← Option.not_isSome_iff_eq_none, Ledger.isSome_since?, hl]
    exact fun hp => hp.1 (List.prefix_nil.mp hp.2)
  rw [Accounts.total_eq h, Ledger.openTime, hnone]
  exact add_zero _

/-- **When all timers are stopped, no time outside of children is negative.** -/
theorem Within.otherTime_nonneg (h : t.Within now) (ha : Accounts l t) (hstack : t.stack = []) (he : e ∈ t.entries) :
    0 ≤ t.otherTime e := by
  have hl : l.path = [] := ha.stack.symm.trans hstack
  have hchildren : t.childTime now e.path = ((t.children e.path).map (·.total)).sum := by
    refine congrArg List.sum (List.map_congr_left fun c hc => ?_)
    exact Accounts.total_of_stopped (ha.entry c (mem_children.mp hc).1) hl now
  have hle := h e he
  rw [hchildren, Accounts.total_of_stopped (ha.entry e he) hl] at hle
  rw [otherTime_eq]
  exact sub_nonneg.mpr hle

/-! ## All timers -/

/-- A timer that was started is read without being changed. -/
theorem Accounts.read (h : Accounts l t) (he : e ∈ t.entries) (delta : Bool) (now : Rat) :
    e.watch.read delta now = (e.watch.total now, e.watch) := by
  refine Stopwatch.read_of_started delta now ?_
  rw [(h.entry e he).runs, (h.entry e he).calls]
  exact (List.count_pos_iff.mpr ((h.started _).mp (List.mem_map_of_mem he))).ne'

/-- The innermost running timer can be stopped. -/
theorem Accounts.exists_stop (h : Accounts l t) (hname : l.path.getLast? = some name) (now : Rat) :
    ∃ t', t.stop now name = .ok t' := by
  obtain ⟨r, since, hrunning⟩ := Ledger.exists_running hname
  obtain ⟨_, _, _, _, hstop⟩ := h.run_stop hrunning now
  exact ⟨_, hstop⟩

/-- There is a timer at a path that was started. -/
theorem Accounts.exists_find? (h : Accounts l t) : (∃ e, t.find? p = some e) ↔ p ∈ l.starts := by
  rw [← h.started, List.mem_map]
  exact exists_congr fun e => find?_eq_some_iff h.nodup

/-- The total time of a timer is kept with it. -/
theorem totalTime_eq (he : t.find? (pathOf name) = some e) : t.totalTime name = .ok e.total := by
  unfold totalTime lookup
  rw [he]
  rfl

/-- The current time of a timer is read off its stopwatch. -/
theorem currentTime_eq (he : t.find? (pathOf name) = some e) (now : Rat) :
    t.currentTime now name = .ok (e.watch.total now) := by
  unfold currentTime lookup
  rw [he]
  rfl

/-- **Nested timers account for time exactly,** whatever the calls, as long as the clock does not go back. -/
theorem Reached.accounts_exactly (h : Reached now l t) :
    -- the stack is the path of the running timers, and all of these are in the tree
    (t.stack = l.path ∧ ∀ q, q <+: t.stack → q ≠ [] → ∃ e, t.find? q = some e)
    -- each path that was started has a timer, which has counted its starts and summed up its closed intervals
    ∧ (∀ p, (∃ e, t.find? p = some e) ↔ p ∈ l.starts)
    ∧ (∀ p e, t.find? p = some e → e.calls = l.starts.count p ∧ e.total = l.time p)
    -- the current time is the total time and that of the running interval, and reading it changes no stopwatch
    ∧ (∀ p e, t.find? p = some e → e.watch.total now = e.total + l.openTime now p
      ∧ ∀ delta, e.watch.read delta now = (e.watch.total now, e.watch))
    ∧ (∀ name e, t.find? (pathOf name) = some e →
      t.totalTime name = .ok e.total ∧ t.currentTime now name = .ok (e.watch.total now))
    -- only the innermost running timer can be stopped, and any other stop changes nothing
    ∧ (∀ name, l.path.getLast? = some name → ∃ t', t.stop now name = .ok t')
    ∧ (∀ name, l.path.getLast? ≠ some name → Call.run now t (.stop name) = t
      ∧ ∃ error : Error, t.stop now name = .error error ∧ error.kind = .value)
    -- the children of a timer have at most its own time
    ∧ (∀ p e, t.find? p = some e → ((t.children p).map fun c => c.watch.total now).sum ≤ e.watch.total now)
    -- so the time outside of them, which the report shows below them, is not negative when all timers are stopped
    ∧ (∀ p e, t.find? p = some e → t.otherTime e = e.total - ((t.children p).map (·.total)).sum
      ∧ (t.stack = [] → 0 ≤ t.otherTime e)
      ∧ (t.children p ≠ [] → ∀ depth indent widths width, ∃ rows, t.childLines (depth + 1) indent widths width e = rows
        ++ [Text.blanks indent ++ reportLine (width - indent) [otherName, "n/a", Written.fixed 3 (t.otherTime e), "n/a",
              shareText (percent (t.otherTime e) e.total)],
            Text.blanks indent ++ Text.rule '=' (width - indent + figureWidth)])) := by
  have ha := h.accounts
  have hfind : ∀ p e, t.find? p = some e → e ∈ t.entries ∧ e.path = p := fun p e => (find?_eq_some_iff ha.nodup).mp
  refine ⟨⟨ha.stack, fun q hq hne => ?_⟩, fun p => ha.exists_find?, fun p e he => ?_, fun p e he => ?_,
    fun name e he => ⟨totalTime_eq he, currentTime_eq he now⟩, fun name hname => ha.exists_stop hname now,
    fun name hname => ⟨?_, _, ha.stop_of_ne now hname, rfl⟩, fun p e he => ?_, fun p e he => ?_⟩
  · exact ha.exists_find?.mpr (ha.running q (ha.stack ▸ hq) hne)
  · obtain ⟨hmem, rfl⟩ := hfind p e he
    exact ⟨(ha.entry e hmem).calls, (ha.entry e hmem).total⟩
  · obtain ⟨hmem, rfl⟩ := hfind p e he
    exact ⟨Accounts.total_eq (ha.entry e hmem) now, fun delta => ha.read hmem delta now⟩
  · rw [Call.run, ha.stop_of_ne now hname]
  · obtain ⟨hmem, rfl⟩ := hfind p e he
    exact h.within e hmem
  · obtain ⟨hmem, rfl⟩ := hfind p e he
    exact ⟨otherTime_eq t e, fun hstack => h.within.otherTime_nonneg ha hstack hmem, exists_childLines_eq⟩

/-- Two nested timers, the inner one stopped after a second. -/
theorem Reached.accounts_exactly_nested : ∃ (l : Ledger) (t : TimerTree Rat), Reached 1 l t ∧ t.stack = ["a"]
    ∧ ∃ e, t.find? ["a", "b"] = some e ∧ e.calls = 1 ∧ e.total = 1 := by
  have hreached := (((Reached.empty 0).call (.start "a")).call (.start "b")).wait zero_le_one |>.call (.stop "b")
  obtain ⟨⟨hstack, -⟩, hstarted, hcounted, -⟩ := hreached.accounts_exactly
  obtain ⟨e, he⟩ := (hstarted ["a", "b"]).mpr (by decide)
  obtain ⟨hcalls, htotal⟩ := hcounted _ e he
  exact ⟨_, _, hreached, hstack, e, he, hcalls, htotal.trans (by decide +kernel)⟩

end TimerTree

end RobustLP
