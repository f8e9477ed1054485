import RobustLP.Proofs.Config.Setting

/-!
# Repairs

When the update of a dictionary fails on the way, the dictionary is reset and set to the values that it had. What this leaves is
not the dictionary as it was but `Config.repaired`: everything counts as given, and the entries that were not declared stand
behind the others, sorted by their names, and are plain options whatever they were before. Their values must pass the domain for
options that were not declared; where one does not, the repair fails as well, and what is left are the declared options with
their initial values (`Config.run_updateOrRepair_of_error`).
-/

namespace RobustLP

open Edit

namespace Config

variable {name path : String} {c c' : Config} {head : ConfigHead} {entries pre post : List (String × Config)}

/-! ## What a repair brings back -/

/-- The entries that were not declared. -/
def undeclaredAmong (head : ConfigHead) (entries : List (String × Config)) : List (String × Config) :=
  entries.filter fun e => !head.declared.contains (key e.1)

/-- An entry that was not declared as it is added again: an option of its value, if the domain for these takes it. -/
def addedAgain (head : ConfigHead) (e : String × Config) : Except Error (String × Config) := do
  let w ← castNamed "" head.openDomain e.2.value
  return (e.1, option w head.openDomain w true)

mutual

/-- **Options after a repair,** or the error with which the repair fails. -/
def repaired : Config → Except Error Config
  | option initial domain current _ => .ok (option initial domain current true)
  | dict head entries => do
    let known ← repairedEntries head.declared entries
    let new ← ((undeclaredAmong head entries).mergeSort fun a b => a.1 ≤ b.1).mapM (addedAgain head)
    return dict { head with given := true } (known ++ new)

/-- Declared entries after a repair. -/
def repairedEntries (declared : List String) : List (String × Config) → Except Error (List (String × Config))
  | [] => .ok []
  | (name, c) :: rest =>
    if declared.contains (key name) then do
      let c ← repaired c
      let rest ← repairedEntries declared rest
      return (name, c) :: rest
    else repairedEntries declared rest

end

mutual

/-- Options that count as given at every level. -/
def allGiven : Config → Config
  | option initial domain current _ => option initial domain current true
  | dict head entries => dict { head with given := true } (allGivenOf entries)

/-- Entries that count as given at every level. -/
def allGivenOf : List (String × Config) → List (String × Config)
  | [] => []
  | (name, c) :: rest => (name, allGiven c) :: allGivenOf rest

end

/-- A declared entry after a repair. -/
def repairedEntry (e : String × Config) : Except Error (String × Config) := do return (e.1, ← e.2.repaired)

theorem repairedEntries_eq (declared : List String) : ∀ entries : List (String × Config), repairedEntries declared entries
    = (entries.filter fun e => declared.contains (key e.1)).mapM repairedEntry
  | [] => by rw [repairedEntries]; rfl
  | (name, c) :: rest => by
    rw [repairedEntries, repairedEntries_eq declared rest, List.filter_cons]
    split
    next =>
      rw [List.mapM_cons, repairedEntry]
      cases c.repaired <;> rfl
    next => rfl

theorem repaired_option (i : Value) (d : Option OptionDomain) (v : Value) (g : Bool) :
    (option i d v g).repaired = .ok (option i d v true) := by rw [repaired]

/-- The entries of a dictionary after a repair, first those that were declared. -/
def entriesAgain (head : ConfigHead) (entries : List (String × Config)) : Except Error (List (String × Config)) := do
  let known ← (declaredAmong head entries).mapM repairedEntry
  let new ← ((undeclaredAmong head entries).mergeSort fun a b => a.1 ≤ b.1).mapM (addedAgain head)
  return known ++ new

theorem repaired_dict (head : ConfigHead) (entries : List (String × Config)) :
    (dict head entries).repaired = do return dict { head with given := true } (← entriesAgain head entries) := by
  rw [repaired, repairedEntries_eq, entriesAgain, declaredAmong]
  simp only [bind_assoc, pure_bind]

theorem allGiven_option (i : Value) (d : Option OptionDomain) (v : Value) (g : Bool) :
    (option i d v g).allGiven = option i d v true := by rw [allGiven]

theorem allGivenOf_eq : ∀ entries : List (String × Config), allGivenOf entries = entries.map fun e => (e.1, e.2.allGiven)
  | [] => by rw [allGivenOf]; rfl
  | (name, c) :: rest => by
    rw [allGivenOf, allGivenOf_eq rest]
    rfl

theorem allGiven_dict (head : ConfigHead) (entries : List (String × Config)) : (dict head entries).allGiven
    = dict { head with given := true } (entries.map fun e => (e.1, e.2.allGiven)) := by
  rw [allGiven, allGivenOf_eq]

/-! ## Snapshots -/

theorem value_option (i : Value) (d : Option OptionDomain) (v : Value) (g : Bool) : (option i d v g).value = v := by
  rw [value]

theorem valuesOf_eq : ∀ entries : List (String × Config),
    valuesOf entries = entries.map fun e => (.text e.1, e.2.value)
  | [] => by rw [valuesOf]; rfl
  | (name, c) :: rest => by
    rw [valuesOf, valuesOf_eq rest]
    rfl

theorem value_dict (head : ConfigHead) (entries : List (String × Config)) :
    (dict head entries).value = .dict (entries.map fun e => (.text e.1, e.2.value)) := by
  rw [value, valuesOf_eq]

theorem depthOf_le {n : Nat} : ∀ {entries : List (String × Config)}, (∀ e ∈ entries, e.2.depth ≤ n) →
    depthOf entries ≤ n
  | [], _ => by rw [depthOf]; exact Nat.zero_le n
  | (_, c) :: rest, h => by
    rw [depthOf]
    exact max_le (h _ List.mem_cons_self) (depthOf_le fun e he => h e (List.mem_cons_of_mem _ he))

theorem depth_le_depthOf : ∀ {entries : List (String × Config)} {e : String × Config}, e ∈ entries →
    e.2.depth ≤ depthOf entries
  | (n, c) :: rest, e, he => by
    rw [depthOf]
    rcases List.mem_cons.mp he with rfl | he
    · exact le_max_left _ _
    · exact (depth_le_depthOf he).trans (le_max_right _ _)

/-- The update that sets an entry to the value it has. -/
def snapshotOf (e : String × Config) : String × Update := (e.1, .plain e.2.value)

theorem entries_value (path : String) (head : ConfigHead) (entries : List (String × Config)) :
    (Update.plain (dict head entries).value).entries path = .ok (entries.map snapshotOf) := by
  rw [value_dict]
  show Except.ok ((entries.map fun e => (Value.text e.1, e.2.value)).map fun e => (e.1.display, Update.plain e.2)) = _
  rw [List.map_map]
  rfl

/-! ## Steps of a repair -/

/-- A step that ends in a state as computed, or fails with the error that was computed. -/
inductive Yields : Except Error Unit × Config → Except Error Config → Prop
  | ok (c : Config) : Yields (.ok (), c) (.ok c)
  | error (err : Error) (c : Config) : Yields (.error err, c) (.error err)

theorem Yields.of_ok {result : Except Error Unit × Config} (h : Yields result (.ok c)) : result = (.ok (), c) := by
  cases h with
  | ok => rfl

theorem Yields.of_error {result : Except Error Unit × Config} {err : Error} (h : Yields result (.error err)) :
    ∃ c, result = (.error err, c) := by
  cases h with
  | error err c => exact ⟨c, rfl⟩

/-- One step after another. -/
theorem Yields.bind {α : Type} {first : Edit Config Unit} {second : Unit → Edit Config Unit} {x : Except Error α}
    {state : α → Config} {wanted : α → Except Error Config} (h : Yields (first.run c) (do return state (← x)))
    (hnext : ∀ a, x = .ok a → Yields ((second ()).run (state a)) (wanted a)) :
    Yields (Edit.run (first >>= second) c) (x >>= wanted) := by
  cases x with
  | error err =>
    obtain ⟨c', hrun⟩ := h.of_error
    rw [run_bind_of_error hrun]
    exact .error err c'
  | ok a =>
    rw [run_bind_of_ok h.of_ok]
    exact hnext a rfl

/-- A step in an entry. -/
theorem Yields.onEntry {n : String} {e : Edit Config Unit} {x : Except Error Config} (h : Yields (e.run c) x)
    (head : ConfigHead) (hnodup : (keys (pre ++ (n, c) :: post)).Nodup) (hkey : key n = key name) :
    Yields ((onEntry name e).run (dict head (pre ++ (n, c) :: post))) (do return dict head (pre ++ (n, ← x) :: post)) := by
  rw [run_onEntry e hnodup hkey]
  generalize e.run c = result at h
  cases h with
  | ok c' => exact .ok _
  | error err c' => exact .error err _

/-- An option that is added again. -/
theorem yields_addUpdate (path : String) {e : String × Config} (hopen : head.isOpen = true) (hnew : find? e.1 entries = none) :
    Yields ((addUpdate path (snapshotOf e)).run (dict head entries))
      (do return dict head (entries ++ [← addedAgain head e])) := by
  have hrun := run_addValue_of_new path e.2.value hopen hnew
  show Yields ((addValue path e.1 e.2.value).run _) _
  rw [hrun, addedAgain]
  cases castNamed "" head.openDomain e.2.value with
  | error err => exact .error err _
  | ok w => exact .ok _

theorem mem_undeclaredAmong {e : String × Config} :
    e ∈ undeclaredAmong head entries ↔ e ∈ entries ∧ key e.1 ∉ head.declared := by
  simp [undeclaredAmong]

/-- Only open dictionaries have entries that were not declared. -/
theorem Regular.isOpen_of_mem (h : (Config.dict head entries).Regular) {e : String × Config}
    (he : e ∈ undeclaredAmong head entries) : head.isOpen = true := by
  obtain ⟨hmem, hnot⟩ := mem_undeclaredAmong.mp he
  by_contra hclosed
  exact hnot (h.orderly.closed (Bool.not_eq_true _ ▸ hclosed) e hmem)

/-- A reset keeps the entries that were declared. -/
theorem isSome_child?_reset {e : String × Config} (he : e ∈ entries) :
    (child? e.1 (dict head entries).reset).isSome = head.declared.contains (key e.1) := by
  have hkeys : key e.1 ∈ keys ((declaredAmong head entries).map fun e => (e.1, e.2.reset)) ↔ key e.1 ∈ head.declared := by
    rw [keys_map]
    constructor
    · intro hmem
      obtain ⟨e', he', hkey⟩ := List.mem_map.mp hmem
      exact hkey ▸ (mem_declaredAmong.mp he').2
    · exact fun hmem => List.mem_map_of_mem (mem_declaredAmong.mpr ⟨he, hmem⟩)
  rw [reset_dict, child?, Option.isSome_map, Bool.eq_iff_iff, List.contains_iff_mem, ← hkeys, ← not_iff_not,
    ← find?_eq_none, Bool.not_eq_true, Option.isSome_eq_false_iff, Option.isNone_iff_eq_none]
  rfl

/-- The names of a snapshot are sorted into those that a reset keeps and those that it drops. -/
theorem Regular.sortEntries_snapshot (h : (Config.dict head entries).Regular) (path : String) :
    sortEntries path (Config.dict head entries).reset (entries.map snapshotOf)
      = .ok ((declaredAmong head entries).map snapshotOf, (undeclaredAmong head entries).map snapshotOf) := by
  have hknown : (entries.map snapshotOf).filter (fun u => (child? u.1 (Config.dict head entries).reset).isSome)
      = (declaredAmong head entries).map snapshotOf := by
    rw [List.filter_map]
    exact congrArg _ (List.filter_congr fun e he => isSome_child?_reset he)
  have hnew : (entries.map snapshotOf).filter (fun u => !(child? u.1 (Config.dict head entries).reset).isSome)
      = (undeclaredAmong head entries).map snapshotOf := by
    rw [List.filter_map]
    exact congrArg _ (List.filter_congr fun e he => congrArg (!·) (isSome_child?_reset he))
  unfold sortEntries
  dsimp only
  split
  next hclosed hfind =>
    -- a closed dictionary has declared entries only
    rename_i name u
    have hmissing := List.find?_some hfind
    have hmem : (name, u) ∈ (undeclaredAmong head entries).map snapshotOf := by
      rw [← hnew]
      exact List.mem_filter.mpr ⟨List.mem_of_find?_eq_some hfind, hmissing⟩
    obtain ⟨e, he, -⟩ := List.mem_map.mp hmem
    have hopen := h.isOpen_of_mem he
    simp only [reset_dict, Config.dict.injEq, ConfigHead.mk.injEq] at hclosed
    rw [hclosed.1.2.1] at hopen
    cases hopen
  next =>
    rw [hknown, hnew]
    rfl

/-- The entries that were declared are set one after another. The induction is on those that are still to be set; before them
stand those that were set, under the keys of the entries that are done. -/
theorem yields_forM_setKnown {fuel : Nat} (path : String) {declared : List (String × Config)} (before : Config)
    (head : ConfigHead) (hbefore : before.entries = declared.map fun e => (e.1, e.2.reset)) (hnodup : (keys declared).Nodup)
    (hset : ∀ e ∈ declared, ∀ path, Yields ((setWithin fuel path (.plain e.2.value)).run e.2.reset) e.2.repaired) :
    ∀ todo {done set : List (String × Config)}, declared = done ++ todo → keys set = keys done →
      Yields (((todo.map snapshotOf).forM (setKnown fuel path before)).run
        (dict head (set ++ todo.map fun e => (e.1, e.2.reset)))) (do
          let rest ← todo.mapM repairedEntry
          return dict head (set ++ rest)) := by
  intro todo
  induction todo with
  | nil =>
    intro done set heq hkeys
    exact .ok _
  | cons e todo ih =>
    intro done set heq hkeys
    obtain ⟨n, c⟩ := e
    have hfind : find? n before.entries = some (n, c.reset) := by
      rw [hbefore, heq, List.map_append, List.map_cons]
      refine find?_middle ?_ rfl
      have hkeys := keys_map (fun e => e.2.reset) (done ++ (n, c) :: todo)
      rw [List.map_append, List.map_cons] at hkeys
      rw [hkeys, ← heq]
      exact hnodup
    have hmiddle : (keys (set ++ (n, c.reset) :: todo.map fun e => (e.1, e.2.reset))).Nodup := by
      rw [keys_append, keys_cons, keys_map, hkeys]
      rw [heq, keys_append, keys_cons] at hnodup
      exact hnodup
    have hstep := (hset (n, c) (by simp [heq]) (fullName path n)).onEntry head hmiddle rfl
    show Yields ((setKnown fuel path before (n, .plain c.value) >>= fun _ =>
      (todo.map snapshotOf).forM (setKnown fuel path before)).run _) _
    rw [List.mapM_cons, repairedEntry, setKnown_of_find? (u := (n, .plain c.value)) hfind]
    simp only [bind_assoc, pure_bind]
    refine hstep.bind fun c' _ => ?_
    have hrest := ih (show declared = (done ++ [(n, c)]) ++ todo by simpa using heq)
      (show keys (set ++ [(n, c')]) = keys (done ++ [(n, c)]) by simp [hkeys])
    simpa only [List.append_assoc, List.singleton_append] using hrest

/-- The entries that were not declared are added one after another. -/
theorem yields_forM_addUpdate (path : String) (head : ConfigHead) : ∀ new entries : List (String × Config),
    (keys (entries ++ new)).Nodup → (∀ e ∈ new, head.isOpen = true) →
    Yields (((new.map snapshotOf).forM (addUpdate path)).run (dict head entries)) (do
      let added ← new.mapM (addedAgain head)
      return dict head (entries ++ added)) := by
  intro new
  induction new with
  | nil =>
    intro entries _ _
    rw [List.mapM_nil]
    show Yields (.ok (), dict head entries) (.ok (dict head (entries ++ [])))
    rw [List.append_nil]
    exact .ok _
  | cons e new ih =>
    intro entries hnodup hopen
    have hfresh : find? e.1 entries = none := by
      rw [find?_eq_none]
      rw [keys_append, keys_cons, List.nodup_append] at hnodup
      exact fun hmem => hnodup.2.2 _ hmem _ List.mem_cons_self rfl
    have hstep := yields_addUpdate path (hopen e List.mem_cons_self) hfresh
    show Yields ((addUpdate path (snapshotOf e) >>= fun _ => (new.map snapshotOf).forM (addUpdate path)).run _) _
    rw [List.mapM_cons]
    simp only [bind_assoc, pure_bind]
    refine hstep.bind fun e' he' => ?_
    obtain ⟨w, -, hpure⟩ := bind_eq_ok.mp he'
    have hrest := ih (entries ++ [e']) (by cases hpure; simpa using hnodup)
      fun e' he' => hopen e' (List.mem_cons_of_mem e he')
    simpa only [List.append_assoc, List.singleton_append] using hrest

/-- What is declared and what is not, in the order in which a repair sets and adds it. -/
theorem perm_again (head : ConfigHead) (entries : List (String × Config)) :
    (declaredAmong head entries ++ (undeclaredAmong head entries).mergeSort fun a b => a.1 ≤ b.1).Perm entries :=
  ((List.Perm.refl _).append (List.mergeSort_perm _ _)).trans (List.filter_append_perm _ entries)

theorem keys_of_mapM_repairedEntry {known : List (String × Config)} (h : entries.mapM repairedEntry = .ok known) :
    keys known = keys entries := by
  have hall := mapM_eq_ok_iff.mp h
  clear h
  induction hall with
  | nil => rfl
  | @cons e e' _ _ he _ ih =>
    obtain ⟨c, -, hpure⟩ := bind_eq_ok.mp he
    cases hpure
    rw [keys_cons, keys_cons, ih]

/-- Setting a dictionary that was reset to the values that it had does what `repaired` computes, but for the mark that the
dictionary was given as a whole. -/
theorem yields_applyUpdates {fuel : Nat} (path : String) (h : (dict head entries).Regular)
    (hset : ∀ e ∈ declaredAmong head entries, ∀ path,
      Yields ((setWithin fuel path (.plain e.2.value)).run e.2.reset) e.2.repaired) :
    Yields ((applyUpdates fuel path (dict head entries).reset ((declaredAmong head entries).map snapshotOf)
      ((undeclaredAmong head entries).map snapshotOf)).run (dict head entries).reset)
      (do return dict { head with given := false } (← entriesAgain head entries)) := by
  have hdeclared : (keys (declaredAmong head entries)).Nodup := h.orderly.nodup.sublist (List.filter_sublist.map _)
  have hknown := yields_forM_setKnown path (dict head entries).reset { head with given := false } (by rw [reset_dict]; rfl)
    hdeclared hset (declaredAmong head entries) rfl (Eq.refl (keys []))
  have hsorted : ((undeclaredAmong head entries).map snapshotOf).mergeSort (fun a b => a.1 ≤ b.1)
      = ((undeclaredAmong head entries).mergeSort fun a b => a.1 ≤ b.1).map snapshotOf :=
    (List.map_mergeSort (f := snapshotOf) fun _ _ _ _ => rfl).symm
  rw [List.nil_append] at hknown
  rw [reset_dict] at hknown ⊢
  unfold applyUpdates entriesAgain
  rw [hsorted]
  simp only [bind_assoc, pure_bind]
  refine hknown.bind fun known hmapM => ?_
  have hnodup : (keys (known ++ (undeclaredAmong head entries).mergeSort fun a b => a.1 ≤ b.1)).Nodup := by
    rw [keys_append, keys_of_mapM_repairedEntry hmapM, ← keys_append]
    exact ((perm_again head entries).map _).nodup_iff.mpr h.orderly.nodup
  exact yields_forM_addUpdate path { head with given := false } _ _ hnodup fun e he =>
    h.isOpen_of_mem (List.mem_mergeSort.mp he)

/-! ## Outcomes of a repair -/

/-- All options were declared, at every level. -/
inductive AllDeclared : Config → Prop
  | option {initial : Value} {domain : Option OptionDomain} {current : Value} {given : Bool} :
    AllDeclared (option initial domain current given)
  | dict {head : ConfigHead} {entries : List (String × Config)} :
    (∀ e ∈ entries, key e.1 ∈ head.declared) → (∀ e ∈ entries, AllDeclared e.2) → AllDeclared (dict head entries)

/-- Options that were declared count as given after a repair, and are otherwise the same. -/
theorem AllDeclared.repaired_eq (h : c.AllDeclared) : c.repaired = .ok c.allGiven := by
  induction h with
  | option => rw [repaired_option, allGiven_option]
  | @dict head entries hdeclared _ ih =>
    have hall : declaredAmong head entries = entries :=
      List.filter_eq_self.mpr fun e he => List.contains_iff_mem.mpr (hdeclared e he)
    have hnone : undeclaredAmong head entries = [] :=
      List.filter_eq_nil_iff.mpr fun e he => by simpa using hdeclared e he
    have hknown : entries.mapM repairedEntry = .ok (entries.map fun e => (e.1, e.2.allGiven)) := by
      refine mapM_ok_map fun e he => ?_
      rw [repairedEntry, ih e he]
      rfl
    have hagain : entriesAgain head entries = .ok (entries.map fun e => (e.1, e.2.allGiven)) := by
      unfold entriesAgain
      rw [hall, hknown, hnone, List.mergeSort_nil, List.mapM_nil]
      exact congrArg Except.ok (List.append_nil _)
    rw [repaired_dict, allGiven_dict, hagain]
    rfl

theorem AllDeclared.allGiven_allGiven (h : c.AllDeclared) : c.allGiven.allGiven = c.allGiven := by
  induction h with
  | option => rw [allGiven_option, allGiven_option]
  | @dict head entries _ _ ih =>
    rw [allGiven_dict, allGiven_dict, List.map_map]
    exact congrArg _ (List.map_congr_left fun e he => Prod.ext rfl (ih e he))

/-- A reset brings back declared options only. -/
theorem Regular.allDeclared_reset (h : c.Regular) : c.reset.AllDeclared := by
  induction h with
  | option =>
    rw [reset_option]
    exact .option
  | @dict head entries _ _ ih =>
    rw [reset_dict]
    refine .dict ?_ ?_
    · simp only [List.forall_mem_map]
      exact fun e he => (mem_declaredAmong.mp he).2
    · simp only [List.forall_mem_map]
      exact fun e he => ih e (mem_declaredAmong.mp he).1

theorem Regular.depth_reset_le (h : c.Regular) : c.reset.depth ≤ c.depth := by
  induction h with
  | option => rw [reset_option, depth, depth]
  | @dict head entries _ _ ih =>
    rw [reset_dict, depth, depth]
    refine Nat.succ_le_succ (depthOf_le ?_)
    simp only [List.forall_mem_map]
    intro e he
    have hmem := (mem_declaredAmong.mp he).1
    exact (ih e hmem).trans (depth_le_depthOf hmem)

/-- A dictionary is set to the values that it had. -/
theorem Regular.run_setWithin_snapshot (h : (Config.dict head entries).Regular) (fuel : Nat) (path : String) :
    (setWithin (fuel + 1) path (.plain (Config.dict head entries).value)).run (Config.dict head entries).reset
      = (updateOrRepair fuel path (Config.dict head entries).reset ((declaredAmong head entries).map snapshotOf)
        ((undeclaredAmong head entries).map snapshotOf)).run (Config.dict head entries).reset := by
  have hu : Update.plain (Config.dict head entries).value ≠ .plain .none := by
    rw [value_dict]
    exact fun heq => nomatch heq
  rw [reset_dict, run_setWithin_dict hu, ← reset_dict, setDict, entries_value, run_bind_of_ok (run_lift_ok _ _),
    h.sortEntries_snapshot path, run_bind_of_ok (run_lift_ok _ _)]

/-- **The repair does what `repaired` computes.** -/
theorem run_setWithin_value_of_ok (h : c.Regular) : ∀ {fuel : Nat} (path : String) {c' : Config}, c.depth ≤ fuel →
    c.repaired = .ok c' → (setWithin fuel path (.plain c.value)).run c.reset = (.ok (), c') := by
  induction h with
  | @option i d v g _ _ hv =>
    intro fuel path c' hfuel hrepaired
    obtain ⟨fuel, rfl⟩ : ∃ n, fuel = n + 1 := ⟨fuel - 1, by rw [depth] at hfuel; omega⟩
    rw [repaired_option] at hrepaired
    cases hrepaired
    rw [reset_option, run_setWithin_option, value_option]
    show (Edit.lift (castNamed path d v) >>= _ : Edit Config Unit).run _ = _
    rw [hv path]
    rfl
  | @dict head entries horderly hentries ih =>
    intro fuel path c' hfuel hrepaired
    obtain ⟨fuel, rfl⟩ : ∃ n, fuel = n + 1 := ⟨fuel - 1, by rw [depth] at hfuel; omega⟩
    rw [depth] at hfuel
    have h : (Config.dict head entries).Regular := .dict horderly hentries
    rw [repaired_dict] at hrepaired
    obtain ⟨es, hagain, hpure⟩ := bind_eq_ok.mp hrepaired
    cases hpure
    obtain ⟨known, hknown, -⟩ := bind_eq_ok.mp hagain
    have hset : ∀ e ∈ declaredAmong head entries, ∀ path,
        Yields ((setWithin fuel path (.plain e.2.value)).run e.2.reset) e.2.repaired := by
      intro e he path
      obtain ⟨e', -, he'⟩ := exists_right_of_forall₂ (mapM_eq_ok_iff.mp hknown) he
      obtain ⟨c', hc', -⟩ := bind_eq_ok.mp he'
      have hmem := (mem_declaredAmong.mp he).1
      rw [ih e hmem path ((depth_le_depthOf hmem).trans (by omega)) hc', hc']
      exact .ok c'
    have hupdates := yields_applyUpdates path h hset
    rw [hagain] at hupdates
    rw [h.run_setWithin_snapshot, updateOrRepair, hupdates.of_ok]
    rfl

/-- When an update fails, its error is reported once the repair succeeds. -/
theorem run_updateOrRepair_of_ok {fuel : Nat} {known new : List (String × Update)} {after s : Config} {err : Error}
    (h : c.Regular) (hdepth : c.depth ≤ fuel) (hrepaired : c.repaired = .ok c')
    (hrun : (applyUpdates fuel path c known new).run c = (.error err, after)) :
    (updateOrRepair fuel path c known new).run s = (.error err, c') := by
  have hafter := keeps_applyUpdates (keeps_setWithin fuel) path c known new c.reset c h.resets
  rw [hrun] at hafter
  unfold updateOrRepair
  rw [hrun]
  dsimp only
  rw [hafter.reset, run_setWithin_value_of_ok h path hdepth hrepaired]
  rfl

/-- **A repair that fails leaves what a reset brought back.** -/
theorem run_setWithin_value_of_error (h : c.Regular) : ∀ {fuel : Nat} (path : String) {err : Error}, c.depth < fuel →
    c.repaired = .error err → (setWithin fuel path (.plain c.value)).run c.reset = (.error err, c.reset.allGiven) := by
  induction h with
  | option =>
    intro fuel path err _ hrepaired
    rw [repaired_option] at hrepaired
    cases hrepaired
  | @dict head entries horderly hentries ih =>
    intro fuel path err hfuel hrepaired
    obtain ⟨fuel, rfl⟩ : ∃ n, fuel = n + 1 := ⟨fuel - 1, by omega⟩
    have h : (Config.dict head entries).Regular := .dict horderly hentries
    have hset : ∀ e ∈ declaredAmong head entries, ∀ path,
        Yields ((setWithin fuel path (.plain e.2.value)).run e.2.reset) e.2.repaired := by
      intro e he path
      have hmem := (mem_declaredAmong.mp he).1
      have hdepth : e.2.depth < fuel := by
        have hle := depth_le_depthOf hmem
        rw [depth] at hfuel
        omega
      cases hresult : e.2.repaired with
      | ok c' =>
        rw [run_setWithin_value_of_ok (hentries e hmem) path hdepth.le hresult]
        exact .ok c'
      | error err' =>
        rw [ih e hmem path hdepth hresult]
        exact .error err' _
    have hupdates := yields_applyUpdates path h hset
    have hagain : entriesAgain head entries = .error err := by
      rw [repaired_dict] at hrepaired
      cases hes : entriesAgain head entries with
      | ok es =>
        rw [hes] at hrepaired
        cases hrepaired
      | error err' =>
        rw [hes] at hrepaired
        cases hrepaired
        rfl
    rw [hagain] at hupdates
    obtain ⟨after, hrun⟩ := hupdates.of_error
    rw [h.run_setWithin_snapshot]
    -- the dictionary that was reset is repaired once more, and all that is in it was declared
    exact run_updateOrRepair_of_ok h.reset (h.depth_reset_le.trans (by omega)) h.allDeclared_reset.repaired_eq hrun

/-- **What is left when an update fails,** and which error is reported. -/
theorem run_updateOrRepair_of_error {fuel : Nat} {known new : List (String × Update)} {after s : Config} {err : Error}
    (h : c.Regular) (hdepth : c.depth < fuel) (hrun : (applyUpdates fuel path c known new).run c = (.error err, after)) :
    (updateOrRepair fuel path c known new).run s = match c.repaired with
      | .ok c' => (.error err, c')
      | .error err' => (.error err', c.reset.allGiven) := by
  cases hrepaired : c.repaired with
  | ok c' => exact run_updateOrRepair_of_ok h hdepth.le hrepaired hrun
  | error err' =>
    have hafter := keeps_applyUpdates (keeps_setWithin fuel) path c known new c.reset c h.resets
    rw [hrun] at hafter
    unfold updateOrRepair
    rw [hrun]
    dsimp only
    rw [hafter.reset, run_setWithin_value_of_error h path hdepth hrepaired]
    rfl

end Config

end RobustLP
