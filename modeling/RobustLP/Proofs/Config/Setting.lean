import RobustLP.Proofs.Config.Regular

/-!
# Declaring, adding and setting

Each operation on options is described by what it does where it succeeds, and by what it leaves behind where it fails. To
declare and to add either enters one option behind the others or does nothing, but for the mark of a declaration.

To set a dictionary checks the names of an update first. Then it sets and adds what the update says (`Config.applyUpdates`), and
where this fails the dictionary is reset and set to the values that it had (`Config.updateOrRepair`). All of it keeps what a
reset brings back (`Config.keeps_setWithin`): this is what makes the repair possible.
-/

namespace RobustLP

open Edit

namespace Config

variable {name path : String} {c c' e : Config} {head : ConfigHead} {entries pre post : List (String × Config)}

/-! ## Declaring and adding -/

/-- An option was entered behind the others under a new name. -/
def Entered (name : String) (e c c' : Config) : Prop :=
  ∃ head entries, c = dict head entries ∧ find? name entries = none ∧ c' = dict head (entries ++ [(name, e)])

theorem ends_enter (path name : String) (e c : Config) :
    Ends (enter path name e) c (fun _ c' => Entered name e c c') (fun _ => False) := by
  refine steady_get.ends fun c₀ hget => ?_
  cases hget
  cases c with
  | option => exact (refuses_throw _).ends
  | dict head entries =>
    dsimp only
    split
    next => exact (refuses_throw _).bind.ends
    next hnew => exact ends_of_run rfl ⟨head, entries, rfl, by simpa using hnew, rfl⟩

theorem run_enter_of_new (path : String) (e : Config) (head : ConfigHead) (hnew : find? name entries = none) :
    (enter path name e).run (dict head entries) = (.ok (), dict head (entries ++ [(name, e)])) := by
  unfold enter
  rw [run_bind_of_ok (run_get _)]
  dsimp only
  rw [hnew]
  rfl

theorem run_enter_of_taken (path : String) (e : Config) (head : ConfigHead) {found : String × Config}
    (hfound : find? name entries = some found) :
    ∃ err, (enter path name e).run (dict head entries) = (.error err, dict head entries) := by
  unfold enter
  rw [run_bind_of_ok (run_get _)]
  dsimp only
  rw [hfound]
  exact ⟨_, rfl⟩

theorem steady_checkOpen (path name : String) : Steady (checkOpen path name) := by
  refine steady_get.bind fun c => ?_
  split
  next => exact steady_pure _
  next => exact steady_throw _

/-- Only open dictionaries pass the check. -/
theorem open_of_run_checkOpen {a : Unit} (h : (checkOpen path name).run c = (.ok a, c')) :
    ∃ head entries, c = dict head entries ∧ head.isOpen = true := by
  cases c with
  | option => cases h
  | dict head entries =>
    cases hopen : head.isOpen with
    | true => exact ⟨head, entries, rfl, hopen⟩
    | false =>
      obtain ⟨sort, isOpen, openDomain, declared, given⟩ := head
      dsimp only at hopen
      subst hopen
      cases h

theorem ends_addEntry (path name : String) (e c : Config) : Ends (addEntry path name e) c
    (fun _ c' => (∃ head entries, c = dict head entries ∧ head.isOpen = true) ∧ Entered name e.asGiven c c')
    (fun _ => False) := by
  refine (steady_checkOpen path name).ends fun _ hopen => ?_
  have h := ends_enter path name e.asGiven c
  exact ⟨fun a c' hrun => ⟨open_of_run_checkOpen hopen, h.done a c' hrun⟩, h.failed⟩

/-- A value is added as an option of the domain for options that were not declared. -/
theorem ends_addValue (path name : String) (v : Value) (c : Config) : Ends (addValue path name v) c
    (fun _ c' => (∃ head entries, c = dict head entries ∧ head.isOpen = true) ∧
      ∃ w, castNamed "" c.openDomain? v = .ok w ∧ Entered name (option w c.openDomain? w true) c c')
    (fun _ => False) := by
  refine (steady_checkOpen path name).ends fun _ hopen => steady_get.ends fun c₀ hget => ?_
  cases hget
  refine (steady_lift _).ends fun made hmade => ?_
  obtain ⟨w, hw, hpure⟩ := bind_eq_ok.mp (run_lift_eq_ok.mp hmade).1
  cases hpure
  have h := ends_enter path name (option w c.openDomain? w false).asGiven c
  exact ⟨fun a c' hrun => ⟨open_of_run_checkOpen hopen, w, hw, h.done a c' hrun⟩, h.failed⟩

/-- Adding a value under a new name to an open dictionary is up to the domain there. -/
theorem run_addValue_of_new (path : String) (v : Value) (hopen : head.isOpen = true) (hnew : find? name entries = none) :
    (addValue path name v).run (dict head entries) = match castNamed "" head.openDomain v with
      | .ok w => (.ok (), dict head (entries ++ [(name, option w head.openDomain w true)]))
      | .error err => (.error err, dict head entries) := by
  have hcheck : (checkOpen path name).run (dict head entries) = (.ok (), dict head entries) := by
    obtain ⟨sort, isOpen, openDomain, declared, given⟩ := head
    dsimp only at hopen
    subst hopen
    rfl
  unfold addValue
  rw [run_bind_of_ok hcheck, run_bind_of_ok (run_get _)]
  show (Edit.lift (make v head.openDomain) >>= _ : Edit Config Unit).run _ = _
  unfold make
  cases castNamed "" head.openDomain v with
  | error err => rfl
  | ok w => exact run_enter_of_new path _ head hnew

/-- What an option is entered in is reset to the same. -/
theorem Entered.resets {r : Config} (h : Entered name e c c') (hc : Resets r c) (hopen : ∃ head entries, c = dict head entries
    ∧ head.isOpen = true) (he : e.Regular) : Resets r c' := by
  obtain ⟨head, entries, rfl, hnew, rfl⟩ := h
  obtain ⟨_, _, heq, hopen⟩ := hopen
  cases heq
  have happend := hc.regular.append hopen hnew he
  exact ⟨happend.regular, by rw [happend.reset, hc.reset]⟩

theorem keeps_addValue (path name : String) (v : Value) (r : Config) : Keeps (addValue path name v) (Resets r) := by
  refine Ends.keeps fun c hc => ?_
  have h := ends_addValue path name v c
  refine ⟨fun a c' hrun => ?_, fun err c' hrun => .inl ((h.failed err c' hrun).resolve_right id)⟩
  obtain ⟨hopen, w, hw, hentered⟩ := h.done a c' hrun
  have hidem : ∀ d ∈ c.openDomain?, d.Idempotent := by
    obtain ⟨head, entries, rfl, -⟩ := hopen
    exact hc.regular.orderly.idempotent
  have hstore := storable_of_castNamed hidem hw
  exact hentered.resets hc hopen (.option hidem hstore hstore)

theorem keeps_addUpdate (path : String) (u : String × Update) (r : Config) : Keeps (addUpdate path u) (Resets r) := by
  obtain ⟨name, u⟩ := u
  cases u with
  | plain v => exact keeps_addValue path name v r
  | options owner c => exact ((steady_checkOpen path name).bind fun _ => steady_throw _).keeps

/-! ## Editing an entry -/

theorem run_onEntry_of_find? {n : String} {e : Edit Config Unit} (hfind : find? name entries = some (n, c)) :
    (onEntry name e).run (dict head entries) = ((e.run c).1, dict head (replace name (e.run c).2 entries)) := by
  unfold onEntry
  rw [run_bind_of_ok (run_get _)]
  dsimp only
  rw [hfind]
  dsimp only
  generalize (e.run c).1 = r
  cases r with
  | ok => rfl
  | error => rfl

/-- An entry is edited in its place. -/
theorem run_onEntry {n : String} (e : Edit Config Unit) (hnodup : (keys (pre ++ (n, c) :: post)).Nodup)
    (hkey : key n = key name) : (onEntry name e).run (dict head (pre ++ (n, c) :: post))
      = ((e.run c).1, dict head (pre ++ (n, (e.run c).2) :: post)) := by
  rw [run_onEntry_of_find? (find?_middle hnodup hkey), replace_middle hnodup hkey]

/-- An edit of an entry keeps what a reset brings back, if it does so of the entry. -/
theorem keeps_onEntry (name : String) {e : Edit Config Unit} (he : ∀ r, Keeps e (Resets r)) (r : Config) :
    Keeps (onEntry name e) (Resets r) := by
  intro c hc
  cases c with
  | option => exact hc
  | dict head entries =>
    cases hfind : find? name entries with
    | none =>
      unfold onEntry
      rw [run_bind_of_ok (run_get _)]
      dsimp only
      rw [hfind]
      exact hc
    | some found =>
      obtain ⟨n, c⟩ := found
      obtain ⟨hkey, pre, post, rfl⟩ := exists_of_find? hfind
      rw [run_onEntry e hc.regular.orderly.nodup hkey]
      have hentry : c.Regular := hc.regular.entry (e := (n, c)) (by simp)
      have hexchange := hc.regular.resets_exchange (he _ c hentry.resets)
      exact ⟨hexchange.regular, hexchange.reset.trans hc.reset⟩

/-! ## Setting -/

/-- Sets an entry that there was before. -/
def setKnown (fuel : Nat) (path : String) (before : Config) (u : String × Update) : Edit Config Unit :=
  match before.child? u.1, find? u.1 before.entries with
  | some _, some (name, _) => onEntry u.1 (setWithin fuel (fullName path name) u.2)
  | _, _ => pure ()

/-- Sets the entries that an update names, and adds the others in the order of their names. -/
def applyUpdates (fuel : Nat) (path : String) (before : Config) (known new : List (String × Update)) : Edit Config Unit := do
  known.forM (setKnown fuel path before)
  (new.mergeSort fun a b => a.1 ≤ b.1).forM (addUpdate path)

/-- Applies an update to a dictionary; where this fails, the dictionary is reset and set to what it held. -/
def updateOrRepair (fuel : Nat) (path : String) (before : Config) (known new : List (String × Update)) :
    Edit Config Unit := do
  let (r, after) := (applyUpdates fuel path before known new).run before
  match r with
  | .ok () => set after.asGiven
  | .error e =>
    let (repaired, restored) := (setWithin fuel path (.plain before.value)).run after.reset
    set restored
    Edit.lift repaired
    throw e

/-- Sets a dictionary, once the names of the update are checked. -/
def setDict (fuel : Nat) (path : String) (u : Update) (before : Config) : Edit Config Unit := do
  let us ← Edit.lift (u.entries path)
  let sorted ← Edit.lift (sortEntries path before us)
  updateOrRepair fuel path before sorted.1 sorted.2

theorem setKnown_of_find? {fuel : Nat} {before : Config} {u : String × Update} {n : String}
    (hfind : find? u.1 before.entries = some (n, c)) :
    setKnown fuel path before u = onEntry u.1 (setWithin fuel (fullName path n) u.2) := by
  unfold setKnown child?
  rw [hfind]
  rfl

theorem run_setWithin_option (fuel : Nat) (path : String) (u : Update) (i : Value) (d : Option OptionDomain) (v : Value)
    (g : Bool) : (setWithin (fuel + 1) path u).run (option i d v g)
      = (Edit.lift (castNamed path d u.toValue) >>= fun w => set (option i d w true) : Edit Config Unit).run
        (option i d v g) := by
  rw [setWithin]
  rfl

theorem run_setWithin_none (fuel : Nat) (path : String) (head : ConfigHead) (entries : List (String × Config)) :
    (setWithin (fuel + 1) path (.plain .none)).run (dict head entries) = (.ok (), dict head entries) := by
  rw [setWithin]
  rfl

theorem run_setWithin_dict {u : Update} (hu : u ≠ .plain .none) (fuel : Nat) (path : String) (head : ConfigHead)
    (entries : List (String × Config)) : (setWithin (fuel + 1) path u).run (dict head entries)
      = (setDict fuel path u (dict head entries)).run (dict head entries) := by
  rw [setWithin]
  cases u with
  | options owner c => rfl
  | plain v =>
    cases v with
    | none => exact absurd rfl hu
    | _ => rfl

/-! ## What setting keeps -/

theorem keeps_applyUpdates {fuel : Nat} (ih : ∀ path u r, Keeps (setWithin fuel path u) (Resets r)) (path : String)
    (before : Config) (known new : List (String × Update)) (r : Config) :
    Keeps (applyUpdates fuel path before known new) (Resets r) := by
  refine (Keeps.forM (fun u => ?_) known).bind fun _ => Keeps.forM (fun u => keeps_addUpdate path u r) _
  unfold setKnown
  split
  next => exact keeps_onEntry u.1 (fun r => ih _ u.2 r) r
  next => exact (steady_pure _).keeps

theorem keeps_updateOrRepair {fuel : Nat} (ih : ∀ path u r, Keeps (setWithin fuel path u) (Resets r)) (path : String)
    {before r : Config} (hbefore : Resets r before) (known new : List (String × Update)) :
    Keeps (updateOrRepair fuel path before known new) (Resets r) := by
  intro c _
  have hafter := keeps_applyUpdates ih path before known new r before hbefore
  rcases hrun : (applyUpdates fuel path before known new).run before with ⟨result, after⟩
  rw [hrun] at hafter
  unfold updateOrRepair
  rw [hrun]
  cases result with
  | ok => exact hafter.asGiven
  | error err =>
    have hrestored := ih path (.plain before.value) r after.reset hafter.reset_self
    dsimp only
    rcases hrepair : (setWithin fuel path (.plain before.value)).run after.reset with ⟨repaired, restored⟩
    rw [hrepair] at hrestored
    cases repaired with
    | ok => exact hrestored
    | error => exact hrestored

/-- **Setting keeps what a reset brings back,** and leaves options in order, whether it succeeds or fails. -/
theorem keeps_setWithin : ∀ (fuel : Nat) (path : String) (u : Update) (r : Config), Keeps (setWithin fuel path u) (Resets r)
  | 0, _, _, _ => (steady_throw _).keeps
  | fuel + 1, path, u, r => by
    intro c hc
    cases c with
    | option i d v g =>
      rw [run_setWithin_option]
      cases hcast : castNamed path d u.toValue with
      | error err => exact hc
      | ok w =>
        cases hc.regular with
        | option hd hi _ =>
          refine ⟨.option hd hi (storable_of_castNamed hd hcast), ?_⟩
          rw [← hc.reset, reset_option]
          exact reset_option i d w true
    | dict head entries =>
      by_cases hu : u = .plain .none
      · rw [hu, run_setWithin_none]
        exact hc
      · rw [run_setWithin_dict hu]
        have hkeeps : Keeps (setDict fuel path u (dict head entries)) (Resets r) :=
          (steady_lift _).keeps.bind fun us => (steady_lift _).keeps.bind fun sorted =>
            keeps_updateOrRepair (keeps_setWithin fuel) path hc sorted.1 sorted.2
        exact hkeeps _ hc

theorem run_assign (path : String) (u : Update) (c : Config) :
    (assign path u).run c = (setWithin (2 * c.depth + 8) path u).run c := run_bind_of_ok (run_get c)

theorem keeps_assign (path : String) (u : Update) (r : Config) : Keeps (assign path u) (Resets r) := by
  intro c hc
  rw [run_assign]
  exact keeps_setWithin _ path u r c hc

theorem keeps_assignEntry (path name : String) (u : Update) (r : Config) : Keeps (assignEntry path name u) (Resets r) := by
  refine steady_get.keeps.bind fun c => ?_
  split
  next => exact keeps_onEntry name (fun r => keeps_assign _ u r) r
  next => exact keeps_addUpdate path (name, u) r

/-! ## Calls -/

/-- The calls that change options. An option that is part of a dictionary already is refused by every other one; of such an
option only the name of its dictionary matters. -/
inductive Call where
  | declare (name : String) (e : Config)
  | declareOwned (name owner : String)
  | addValue (name : String) (v : Value)
  | addEntry (name : String) (e : Config)
  | addOwned (name owner : String)
  | setValue (u : Update)
  | setEntry (name : String) (u : Update)

/-- The operation that a call stands for, on the dictionary of a name. -/
def Call.edit (path : String) : Call → Edit Config Unit
  | .declare name e => Config.declare path name e
  | .declareOwned name owner => do
    markDeclared name
    throw (taken name owner path)
  | .addValue name v => Config.addValue path name v
  | .addEntry name e => Config.addEntry path name e
  | .addOwned name owner => do
    checkOpen path name
    throw (taken name owner path)
  | .setValue u => assign path u
  | .setEntry name u => assignEntry path name u

/-- A call enters options in order only; a mark that is all that a call leaves behind is one of an entry. -/
def Call.Fits (c : Config) : Call → Prop
  | .declare _ e => e.Regular
  | .declareOwned name _ => key name ∈ keys c.entries
  | .addEntry _ e => e.Regular
  | _ => True

/-- A dictionary with the mark of a declaration. -/
def marked (name : String) : Config → Config
  | dict head entries =>
    if head.declared.contains (key name) then dict head entries
    else dict { head with declared := head.declared ++ [key name] } entries
  | c => c

theorem run_markDeclared (name : String) (c : Config) : (markDeclared name).run c = (.ok (), marked name c) := by
  cases c <;> rfl

/-- Only the head of a dictionary is marked. -/
theorem exists_marked (name : String) (head : ConfigHead) (entries : List (String × Config)) :
    ∃ head', (dict head entries).marked name = dict head' entries := by
  rw [marked]
  split
  next => exact ⟨_, rfl⟩
  next => exact ⟨_, rfl⟩

/-- A name without an entry is marked anew. -/
theorem Regular.marked_of_new (h : (Config.dict head entries).Regular) (hnew : find? name entries = none) :
    Config.marked name (.dict head entries) = .dict { head with declared := head.declared ++ [key name] } entries := by
  rw [Config.marked, if_neg]
  intro hmem
  exact find?_eq_none.mp hnew (h.orderly.marked _ (List.contains_iff_mem.mp hmem))

theorem Regular.marked (h : c.Regular) (hname : key name ∈ keys c.entries) : (c.marked name).Regular := by
  cases h with
  | option hd hi hv => exact .option hd hi hv
  | dict horderly hentries =>
    rw [Config.marked]
    split
    next => exact Regular.dict horderly hentries
    next =>
      refine Regular.dict ⟨horderly.nodup, ?_, ?_, horderly.idempotent⟩ hentries
      · intro k hk
        rcases List.mem_append.mp hk with hk | hk
        · exact horderly.marked k hk
        · exact List.mem_singleton.mp hk ▸ hname
      · exact fun hclosed e he => List.mem_append_left _ (horderly.closed hclosed e he)

/-- A declared option is entered under a name that is marked. -/
theorem Regular.declared (h : (Config.dict head entries).Regular) (hnew : find? name entries = none) (he : e.Regular) :
    (Config.dict { head with declared := head.declared ++ [key name] } (entries ++ [(name, e)])).Regular := by
  have ho := h.orderly
  have hnamed : key name ∈ head.declared ++ [key name] := by simp
  refine .dict ⟨nodup_concat ho.nodup hnew, ?_, ?_, ho.idempotent⟩ (forall_mem_concat (fun e he => h.entry he) he)
  · intro k hk
    rw [keys_append]
    rcases List.mem_append.mp hk with hk | hk
    · exact List.mem_append_left _ (ho.marked k hk)
    · exact List.mem_append_right _ hk
  · exact fun hclosed => forall_mem_concat (fun e he => List.mem_append_left _ (ho.closed hclosed e he)) hnamed

/-- What declaring does: it marks the name, and enters the option if the name is new. -/
theorem ends_declare (path name : String) (e c : Config) :
    Ends (declare path name e) c (fun _ c' => Entered name e (c.marked name) c') (· = c.marked name) := by
  have h := ends_enter path name e (c.marked name)
  have hrun : (declare path name e).run c = (enter path name e).run (c.marked name) :=
    run_bind_of_ok (run_markDeclared name c)
  refine ⟨fun a c' hok => h.done a c' (hrun ▸ hok), fun err c' herr => .inr ?_⟩
  exact (h.failed err c' (hrun ▸ herr)).resolve_right id

/-- The options that one can make, by calls on new ones and resets. The entry of a dictionary may be a dictionary that calls
change, too. -/
inductive Reached : Config → Prop
  | option {default : Value} {domain : Option OptionDomain} {c : Config} :
    (∀ d ∈ domain, d.Idempotent) → make default domain = .ok c → Reached c
  | dict {head : ConfigHead} : head.declared = [] → (∀ d ∈ head.openDomain, d.Idempotent) → Reached (.dict head [])
  | call {c : Config} (path : String) (call : Call) : Reached c → call.Fits c → Reached ((call.edit path).run c).2
  | entry {head : ConfigHead} {pre post : List (String × Config)} {n : String} {c c' : Config} :
    Reached (.dict head (pre ++ (n, c) :: post)) → Reached c' → Reached (.dict head (pre ++ (n, c') :: post))
  | reset {c : Config} : Reached c → Reached c.reset

theorem Regular.run {e : Edit Config Unit} (h : c.Regular) (he : ∀ r, Keeps e (Resets r)) : (e.run c).2.Regular :=
  (he c.reset c h.resets).regular

theorem Regular.declare (h : c.Regular) (he : e.Regular) : ((declare path name e).run c).2.Regular := by
  have hrun : (Config.declare path name e).run c = (enter path name e).run (c.marked name) :=
    run_bind_of_ok (run_markDeclared name c)
  cases c with
  | option => exact h
  | dict head entries =>
    cases hfind : find? name entries with
    | none =>
      rw [hrun, h.marked_of_new hfind, run_enter_of_new _ _ _ hfind]
      exact h.declared hfind he
    | some found =>
      have hname : key name ∈ keys entries := by
        by_contra hnot
        rw [find?_eq_none.mpr hnot] at hfind
        cases hfind
      obtain ⟨head', hmarked⟩ := exists_marked name head entries
      obtain ⟨err, herr⟩ := run_enter_of_taken path e head' hfind
      rw [hrun, hmarked, herr, ← hmarked]
      exact h.marked hname

/-- A call leaves options in order, whether it succeeds or fails. -/
theorem Regular.call {call : Call} (h : c.Regular) (hfits : call.Fits c) : ((call.edit path).run c).2.Regular := by
  cases call with
  | declare name e => exact h.declare hfits
  | declareOwned name owner =>
    have hrun : ((Call.declareOwned name owner).edit path).run c = (.error (taken name owner path), c.marked name) :=
      run_bind_of_ok (run_markDeclared name c)
    rw [hrun]
    exact h.marked hfits
  | addValue name v => exact h.run (keeps_addValue path name v)
  | addEntry name e =>
    have hends := ends_addEntry path name e c
    show ((addEntry path name e).run c).2.Regular
    rcases hrun : (addEntry path name e).run c with ⟨r, c'⟩
    cases r with
    | ok a =>
      obtain ⟨hopen, hentered⟩ := hends.done a c' hrun
      exact (hentered.resets h.resets hopen (Regular.asGiven hfits)).regular
    | error err =>
      rw [(hends.failed err c' hrun).resolve_right id]
      exact h
  | addOwned name owner => exact h.run fun r => ((steady_checkOpen path name).bind fun _ => steady_throw _).keeps
  | setValue u => exact h.run (keeps_assign path u)
  | setEntry name u => exact h.run (keeps_assignEntry path name u)

/-- **What one can make is in order.** -/
theorem Reached.regular (h : c.Reached) : c.Regular := by
  induction h with
  | option hd hmake =>
    obtain ⟨w, hw, hpure⟩ := bind_eq_ok.mp hmake
    cases hpure
    have hstore := storable_of_castNamed hd hw
    exact .option hd hstore hstore
  | dict hdeclared hd =>
    refine .dict ⟨List.nodup_nil, ?_, ?_, hd⟩ ?_
    · simp [hdeclared]
    · simp
    · simp
  | call path call _ hfits ih => exact ih.call hfits
  | entry _ _ ih ih' => exact ih.exchange ih'
  | reset _ ih => exact ih.reset

end Config

end RobustLP
