import RobustLP.Proofs.Config.Repair

/-!
# Calls that fail

`Config.Call.rolls_back` says what each call leaves behind that fails. But for the marks that a declaration leaves, a reset
brings back the same as before; and all values are the same up to the order of entries where options that were not declared
hold values of the domain for these (`Config.Repairable`).
-/

namespace RobustLP

open Edit

namespace Value

mutual

/-- The same value up to the order of the entries of dictionaries. -/
inductive Reordered : Value → Value → Prop
  | refl (v : Value) : Reordered v v
  | dict {es fs gs : List (Value × Value)} : es.Perm fs → ReorderedEntries fs gs → Reordered (.dict es) (.dict gs)

/-- Entries with the same keys in the same order, and with the same values up to the order of entries in these. -/
inductive ReorderedEntries : List (Value × Value) → List (Value × Value) → Prop
  | nil : ReorderedEntries [] []
  | cons {k v w : Value} {es fs : List (Value × Value)} : Reordered v w → ReorderedEntries es fs →
    ReorderedEntries ((k, v) :: es) ((k, w) :: fs)

end

theorem ReorderedEntries.refl : ∀ es : List (Value × Value), ReorderedEntries es es
  | [] => .nil
  | _ :: es => .cons (.refl _) (ReorderedEntries.refl es)

theorem ReorderedEntries.append {es fs : List (Value × Value)} : ∀ {gs hs : List (Value × Value)}, ReorderedEntries es fs →
    ReorderedEntries gs hs → ReorderedEntries (es ++ gs) (fs ++ hs)
  | _, _, .nil, h => h
  | _, _, .cons hv hes, h => .cons hv (hes.append h)

theorem reorderedEntries_exchange {k v w : Value} (h : Reordered v w) (post : List (Value × Value)) :
    ∀ pre : List (Value × Value), ReorderedEntries (pre ++ (k, v) :: post) (pre ++ (k, w) :: post)
  | [] => .cons h (.refl post)
  | _ :: pre => .cons (.refl _) (reorderedEntries_exchange h post pre)

end Value

namespace Config

variable {name path : String} {c c' : Config} {head : ConfigHead} {entries : List (String × Config)}

/-! ## What a failed call leaves behind -/

/-- **An update of a dictionary was begun and undone:** what the repair makes of the dictionary is left, and if the repair fails,
too, what a reset brings back; then its error is reported. -/
inductive RolledBack (path : String) (u : Update) : Config → Error → Config → Prop
  | repaired {head : ConfigHead} {entries : List (String × Config)} {us : List (String × Update)}
    {sorted : List (String × Update) × List (String × Update)} {err : Error} {c' : Config} :
    u.entries path = .ok us → sortEntries path (dict head entries) us = .ok sorted →
    (dict head entries).repaired = .ok c' → RolledBack path u (dict head entries) err c'
  | lost {head : ConfigHead} {entries : List (String × Config)} {us : List (String × Update)}
    {sorted : List (String × Update) × List (String × Update)} {err : Error} :
    u.entries path = .ok us → sortEntries path (dict head entries) us = .ok sorted →
    (dict head entries).repaired = .error err →
    RolledBack path u (dict head entries) err (dict head entries).reset.allGiven

/-- **What a call leaves behind that fails with an error,** if it does not leave everything as it was. -/
inductive Call.Left (path : String) : Call → Config → Error → Config → Prop
  | declare {name : String} {e c : Config} {err : Error} : Left path (.declare name e) c err (c.marked name)
  | declareOwned {name owner : String} {c : Config} {err : Error} : Left path (.declareOwned name owner) c err (c.marked name)
  | setValue {u : Update} {c c' : Config} {err : Error} : RolledBack path u c err c' → Left path (.setValue u) c err c'
  | setEntry {name n : String} {u : Update} {head : ConfigHead} {pre post : List (String × Config)} {c c' : Config}
    {err : Error} : key n = key name → RolledBack (fullName path n) u c err c' →
    Left path (.setEntry name u) (dict head (pre ++ (n, c) :: post)) err (dict head (pre ++ (n, c') :: post))

/-- Calls that declare an option. -/
def Call.Declares : Call → Prop
  | .declare .. | .declareOwned .. => True
  | _ => False

theorem rolledBack_of_run_updateOrRepair {fuel : Nat} {u : Update} {us : List (String × Update)}
    {sorted : List (String × Update) × List (String × Update)} {err : Error} (h : (Config.dict head entries).Regular)
    (hdepth : (Config.dict head entries).depth < fuel) (hus : u.entries path = .ok us)
    (hsorted : sortEntries path (Config.dict head entries) us = .ok sorted)
    (hrun : (updateOrRepair fuel path (dict head entries) sorted.1 sorted.2).run (dict head entries) = (.error err, c')) :
    RolledBack path u (dict head entries) err c' := by
  rcases happly : (applyUpdates fuel path (dict head entries) sorted.1 sorted.2).run (dict head entries) with ⟨r, after⟩
  cases r with
  | ok =>
    unfold updateOrRepair at hrun
    rw [happly] at hrun
    cases hrun
  | error e =>
    rw [run_updateOrRepair_of_error h hdepth happly] at hrun
    cases hrepaired : (dict head entries).repaired with
    | ok c₁ =>
      rw [hrepaired] at hrun
      cases hrun
      exact .repaired hus hsorted hrepaired
    | error err₁ =>
      rw [hrepaired] at hrun
      cases hrun
      exact .lost hus hsorted hrepaired

/-- Setting that fails changes nothing before the names of the update are checked. -/
theorem rolledBack_of_run_setWithin {fuel : Nat} {u : Update} {err : Error} (h : c.Regular) (hdepth : c.depth < fuel)
    (hrun : (setWithin (fuel + 1) path u).run c = (.error err, c')) : c' = c ∨ RolledBack path u c err c' := by
  cases c with
  | option i d v g =>
    rw [run_setWithin_option] at hrun
    cases hcast : castNamed path d u.toValue with
    | ok w =>
      rw [hcast] at hrun
      cases hrun
    | error e =>
      rw [hcast] at hrun
      cases hrun
      exact .inl rfl
  | dict head entries =>
    by_cases hu : u = .plain .none
    · rw [hu, run_setWithin_none] at hrun
      cases hrun
    rw [run_setWithin_dict hu, setDict] at hrun
    cases hus : u.entries path with
    | error e =>
      rw [hus] at hrun
      cases hrun
      exact .inl rfl
    | ok us =>
      rw [hus, run_bind_of_ok (run_lift_ok _ _)] at hrun
      cases hsorted : sortEntries path (dict head entries) us with
      | error e =>
        rw [hsorted] at hrun
        cases hrun
        exact .inl rfl
      | ok sorted =>
        rw [hsorted, run_bind_of_ok (run_lift_ok _ _)] at hrun
        exact .inr (rolledBack_of_run_updateOrRepair h hdepth hus hsorted hrun)

theorem rolledBack_of_run_assign {u : Update} {err : Error} (h : c.Regular)
    (hrun : (assign path u).run c = (.error err, c')) : c' = c ∨ RolledBack path u c err c' := by
  rw [run_assign] at hrun
  exact rolledBack_of_run_setWithin h (show c.depth < 2 * c.depth + 7 by omega) hrun

theorem addUpdate_fails {u : String × Update} {err : Error} (hrun : (addUpdate path u).run c = (.error err, c')) :
    c' = c := by
  obtain ⟨name, u⟩ := u
  cases u with
  | plain v => exact ((ends_addValue path name v c).failed err c' hrun).resolve_right id
  | options owner _ => exact ((steady_checkOpen path name).bind fun _ => steady_throw _).eq_of_run hrun

theorem left_of_run_assignEntry {u : Update} {err : Error} (h : c.Regular)
    (hrun : (assignEntry path name u).run c = (.error err, c')) : c' = c ∨ (Call.setEntry name u).Left path c err c' := by
  unfold assignEntry at hrun
  rw [run_bind_of_ok (run_get c)] at hrun
  cases hfind : find? name c.entries with
  | none =>
    rw [hfind] at hrun
    exact .inl (addUpdate_fails hrun)
  | some found =>
    rw [hfind] at hrun
    obtain ⟨n, child⟩ := found
    cases c with
    | option => cases hfind
    | dict head entries =>
      obtain ⟨hkey, pre, post, hentries⟩ := exists_of_find? hfind
      obtain rfl : entries = pre ++ (n, child) :: post := hentries
      have hedit : (onEntry name (assign (fullName path n) u)).run (dict head (pre ++ (n, child) :: post))
          = (.error err, c') := hrun
      rw [run_onEntry _ h.orderly.nodup hkey] at hedit
      rcases hassign : (assign (fullName path n) u).run child with ⟨r, child'⟩
      rw [hassign] at hedit
      cases hedit
      rcases rolledBack_of_run_assign (h.entry (e := (n, child)) (by simp)) hassign with rfl | hback
      · exact .inl rfl
      · exact .inr (.setEntry hkey hback)

/-- A call that fails leaves everything as it was, or what `Call.Left` says. -/
theorem Call.left_of_run {call : Call} {err : Error} (h : c.Regular) (hrun : (call.edit path).run c = (.error err, c')) :
    c' = c ∨ call.Left path c err c' := by
  cases call with
  | declare name e =>
    rcases (ends_declare path name e c).failed err c' hrun with rfl | rfl
    · exact .inl rfl
    · exact .inr .declare
  | declareOwned name owner =>
    have hmarked : ((Call.declareOwned name owner).edit path).run c = (.error (taken name owner path), c.marked name) :=
      run_bind_of_ok (run_markDeclared name c)
    rw [hmarked] at hrun
    cases hrun
    exact .inr .declareOwned
  | addValue name v => exact .inl (((ends_addValue path name v c).failed err c' hrun).resolve_right id)
  | addEntry name e => exact .inl (((ends_addEntry path name e c).failed err c' hrun).resolve_right id)
  | addOwned name owner =>
    have hsteady : Steady ((Call.addOwned name owner).edit path) := (steady_checkOpen path name).bind fun _ => steady_throw _
    exact .inl (hsteady.eq_of_run hrun)
  | setValue u => exact (rolledBack_of_run_assign h hrun).imp_right .setValue
  | setEntry name u => exact left_of_run_assignEntry h hrun

/-! ## What a repair keeps -/

theorem RolledBack.resets {u : Update} {err : Error} (h : RolledBack path u c err c') (hc : c.Regular) :
    Resets c.reset c' := by
  -- what is left is what setting the values after a reset leaves, and all setting keeps what a reset brings back
  have hkept := keeps_setWithin (c.depth + 1) path (.plain c.value) c.reset c.reset hc.resets.reset_self
  cases h with
  | repaired _ _ hrepaired =>
    rw [run_setWithin_value_of_ok hc path (Nat.le_succ _) hrepaired] at hkept
    exact hkept
  | lost _ _ hrepaired =>
    rw [run_setWithin_value_of_error hc path (Nat.lt_succ_self _) hrepaired] at hkept
    exact hkept

theorem Call.Left.reset_eq {call : Call} {err : Error} (h : call.Left path c err c') (hc : c.Regular)
    (hnot : ¬ call.Declares) : c'.reset = c.reset := by
  cases h with
  | declare => exact absurd trivial hnot
  | declareOwned => exact absurd trivial hnot
  | setValue hback => exact (hback.resets hc).reset
  | @setEntry name n u head pre post c c' _ hkey hback =>
    exact (hc.resets_exchange (hback.resets (hc.entry (e := (n, c)) (by simp)))).reset

/-- Options that were not declared hold values that the domain for these stores as they are, at every level. -/
inductive Repairable : Config → Prop
  | option {initial : Value} {domain : Option OptionDomain} {current : Value} {given : Bool} :
    Repairable (option initial domain current given)
  | dict {head : ConfigHead} {entries : List (String × Config)} :
    (∀ e ∈ entries, Repairable e.2) → (∀ e ∈ undeclaredAmong head entries, Storable head.openDomain e.2.value) →
    Repairable (dict head entries)

theorem reorderedEntries_of_mapM {f : String × Config → Except Error (String × Config)} {es fs : List (String × Config)}
    (h : ∀ e ∈ es, ∀ e', f e = .ok e' → e'.1 = e.1 ∧ Value.Reordered e.2.value e'.2.value) (hmapM : es.mapM f = .ok fs) :
    Value.ReorderedEntries (es.map fun e => (.text e.1, e.2.value)) (fs.map fun e => (.text e.1, e.2.value)) := by
  have hall := mapM_eq_ok_iff.mp hmapM
  clear hmapM
  induction hall with
  | nil => exact .nil
  | @cons e e' _ _ he _ ih =>
    obtain ⟨hname, hvalue⟩ := h e List.mem_cons_self e' he
    rw [List.map_cons, List.map_cons, hname]
    exact .cons hvalue (ih fun e he => h e (List.mem_cons_of_mem _ he))

/-- Such options are repaired, with the same values up to the order of entries. -/
theorem Repairable.exists_repaired (h : c.Repairable) :
    ∃ c', c.repaired = .ok c' ∧ Value.Reordered c.value c'.value := by
  induction h with
  | @option i d v g =>
    refine ⟨_, repaired_option i d v g, ?_⟩
    rw [value_option, value_option]
    exact .refl v
  | @dict head entries _ hstore ih =>
    have hdeclared : ∀ e ∈ declaredAmong head entries, ∃ e', repairedEntry e = .ok e' := by
      intro e he
      obtain ⟨c', hc', -⟩ := ih e (mem_declaredAmong.mp he).1
      exact ⟨(e.1, c'), bind_eq_ok.mpr ⟨c', hc', rfl⟩⟩
    have hadded : ∀ e ∈ undeclaredAmong head entries,
        addedAgain head e = .ok (e.1, .option e.2.value head.openDomain e.2.value true) :=
      fun e he => bind_eq_ok.mpr ⟨e.2.value, hstore e he "", rfl⟩
    obtain ⟨known, hknown⟩ := exists_mapM_ok_iff.mpr hdeclared
    obtain ⟨new, hnew⟩ := exists_mapM_ok_iff.mpr
      fun e (he : e ∈ (undeclaredAmong head entries).mergeSort fun a b => a.1 ≤ b.1) =>
        ⟨_, hadded e (List.mem_mergeSort.mp he)⟩
    have hagain : entriesAgain head entries = .ok (known ++ new) :=
      bind_eq_ok.mpr ⟨known, hknown, bind_eq_ok.mpr ⟨new, hnew, rfl⟩⟩
    refine ⟨.dict { head with given := true } (known ++ new), ?_, ?_⟩
    · rw [repaired_dict, hagain]
      rfl
    rw [value_dict, value_dict, List.map_append]
    refine .dict ((perm_again head entries).map _).symm ?_
    rw [List.map_append]
    refine (reorderedEntries_of_mapM (fun e he e' he' => ?_) hknown).append
      (reorderedEntries_of_mapM (fun e he e' he' => ?_) hnew)
    · obtain ⟨c', hc', hvalue⟩ := ih e (mem_declaredAmong.mp he).1
      obtain ⟨c'', hc'', hpure⟩ := bind_eq_ok.mp he'
      cases hpure
      rw [hc'] at hc''
      cases hc''
      exact ⟨rfl, hvalue⟩
    · rw [hadded e (List.mem_mergeSort.mp he)] at he'
      cases he'
      exact ⟨rfl, (value_option _ _ _ _).symm ▸ .refl _⟩

theorem RolledBack.reordered {u : Update} {err : Error} (h : RolledBack path u c err c') (hc : c.Repairable) :
    Value.Reordered c.value c'.value := by
  obtain ⟨c₁, hc₁, hvalue⟩ := hc.exists_repaired
  cases h with
  | repaired _ _ hrepaired =>
    rw [hc₁] at hrepaired
    cases hrepaired
    exact hvalue
  | lost _ _ hrepaired =>
    rw [hc₁] at hrepaired
    cases hrepaired

theorem value_marked (name : String) (c : Config) : (c.marked name).value = c.value := by
  cases c with
  | option => rfl
  | dict head entries =>
    obtain ⟨head', hmarked⟩ := exists_marked name head entries
    rw [hmarked, value_dict, value_dict]

theorem Call.Left.reordered {call : Call} {err : Error} (h : call.Left path c err c') (hc : c.Repairable) :
    Value.Reordered c.value c'.value := by
  cases h with
  | declare =>
    rw [value_marked]
    exact .refl _
  | declareOwned =>
    rw [value_marked]
    exact .refl _
  | setValue hback => exact hback.reordered hc
  | @setEntry name n u head pre post c c' _ hkey hback =>
    cases hc with
    | dict hentries _ =>
      have hentry := hback.reordered (hentries (n, c) (by simp))
      rw [value_dict, value_dict, List.map_append, List.map_append, List.map_cons, List.map_cons]
      exact .dict (.refl _) (Value.reorderedEntries_exchange hentry _ _)

theorem RolledBack.eq_allGiven {u : Update} {err : Error} (h : RolledBack path u c err c') (hc : c.AllDeclared) :
    c' = c.allGiven := by
  have hrepaired' := hc.repaired_eq
  cases h with
  | repaired _ _ hrepaired =>
    rw [hrepaired'] at hrepaired
    cases hrepaired
    rfl
  | lost _ _ hrepaired =>
    rw [hrepaired'] at hrepaired
    cases hrepaired

/-- Where all options were declared, only what counts as given may be different. -/
theorem Call.Left.allGiven_eq {call : Call} {err : Error} (h : call.Left path c err c') (hc : c.AllDeclared)
    (hnot : ¬ call.Declares) : c'.allGiven = c.allGiven ∧ (c.allGiven = c → c' = c) := by
  cases h with
  | declare => exact absurd trivial hnot
  | declareOwned => exact absurd trivial hnot
  | setValue hback =>
    rw [hback.eq_allGiven hc]
    exact ⟨hc.allGiven_allGiven, id⟩
  | @setEntry name n u head pre post c c' _ hkey hback =>
    cases hc with
    | dict _ hentries =>
      have hentry : c.AllDeclared := hentries (n, c) (by simp)
      rw [hback.eq_allGiven hentry, allGiven_dict, allGiven_dict]
      simp only [List.map_append, List.map_cons, hentry.allGiven_allGiven, true_and]
      intro heq
      obtain ⟨-, hlists⟩ := Config.dict.inj heq
      have hsame := (List.cons.inj (List.append_inj hlists (by simp)).2).1
      rw [(Prod.mk.inj hsame).2]

/-- A dictionary of which an update fails on the way. -/
theorem run_assign_of_error (path : String) {u : Update} {us : List (String × Update)}
    {sorted : List (String × Update) × List (String × Update)} {err : Error} {after : Config}
    (h : (Config.dict head entries).Regular) (hu : u ≠ .plain .none) (hus : u.entries path = .ok us)
    (hsorted : sortEntries path (dict head entries) us = .ok sorted)
    (hrun : (applyUpdates (2 * (dict head entries).depth + 7) path (dict head entries) sorted.1 sorted.2).run
      (dict head entries) = (.error err, after)) :
    (assign path u).run (dict head entries) = match (dict head entries).repaired with
      | .ok c' => (.error err, c')
      | .error err' => (.error err', (dict head entries).reset.allGiven) := by
  rw [run_assign, run_setWithin_dict hu, setDict, hus, run_bind_of_ok (run_lift_ok _ _), hsorted,
    run_bind_of_ok (run_lift_ok _ _)]
  exact run_updateOrRepair_of_error h (by omega) hrun

theorem idempotent_bool : OptionDomain.Idempotent .bool := by
  intro v w h
  obtain ⟨b, rfl⟩ : ∃ b, w = .bool b := by
    change castBool v = .ok w at h
    unfold castBool at h
    dsimp only at h
    split at h
    next b =>
      cases h
      exact ⟨b, rfl⟩
    next s =>
      split_ifs at h
      · cases h
        exact ⟨true, rfl⟩
      · cases h
        exact ⟨false, rfl⟩
    next v =>
      split_ifs at h
      · cases h
        exact ⟨false, rfl⟩
      · cases h
        exact ⟨true, rfl⟩
  rfl

theorem regular_bool (b : Bool) : (option (.bool false) (some .bool) (.bool b) false).Regular := by
  refine .option ?_ (fun _ => rfl) fun _ => rfl
  rintro d ⟨⟩
  exact idempotent_bool

/-- A truth value behind a dictionary that was added without a declaration, and what is left of them when the truth value is set
to a word that is none. -/
theorem exists_rolledBack : ∃ (c c' : Config) (err : Error), c.Reached
    ∧ c = dict { isOpen := true, declared := ["tee"] }
      [("sub", dict { given := true } []), ("tee", option (.bool false) (some .bool) (.bool true) false)]
    ∧ ((Call.setValue (.plain (.dict [(.text "tee", .text "maybe")]))).edit "").run c = (.error err, c')
    ∧ c' = dict { isOpen := true, declared := ["tee"], given := true }
      [("tee", option (.bool false) (some .bool) (.bool true) true), ("sub", option (.dict []) none (.dict []) true)] := by
  have hempty : (dict { isOpen := true } []).Reached := .dict rfl nofun
  have hsub : (dict {} []).Reached := .dict rfl nofun
  have hadded := Reached.call "" (.addEntry "sub" (dict {} [])) hempty hsub.regular
  have hreached : (dict { isOpen := true, declared := ["tee"] } [("sub", dict { given := true } []),
      ("tee", option (.bool false) (some .bool) (.bool true) false)]).Reached :=
    .call "" (.declare "tee" _) hadded (regular_bool true)
  have hu : Update.plain (.dict [(.text "tee", .text "maybe")]) ≠ .plain .none := nofun
  have hrun := run_assign_of_error "" hreached.regular hu rfl rfl rfl
  -- the order of the entries that are added again does not compute: a merge sort is by well-founded recursion
  rw [repaired_dict, entriesAgain, show undeclaredAmong _ _ = [("sub", dict { given := true } [])] from rfl,
    List.mergeSort_singleton] at hrun
  exact ⟨_, _, _, hreached, rfl, hrun, rfl⟩

/-- A text that was added to a dictionary of truth values without a declaration, and what is left when another one of them is
set to a word that is no truth value. -/
theorem exists_lost : ∃ (c c' : Config) (err : Error), c.Reached
    ∧ c = dict { isOpen := true, openDomain := some .bool, declared := ["tee"] }
      [("note", option (.text "none") none (.text "none") true), ("tee", option (.bool false) (some .bool) (.bool true) false)]
    ∧ ((Call.setValue (.plain (.dict [(.text "tee", .text "maybe")]))).edit "").run c = (.error err, c')
    ∧ c' = dict { isOpen := true, openDomain := some .bool, declared := ["tee"], given := true }
      [("tee", option (.bool false) (some .bool) (.bool false) true)] := by
  have hempty : (dict { isOpen := true, openDomain := some .bool } []).Reached := by
    refine .dict rfl ?_
    rintro d ⟨⟩
    exact idempotent_bool
  have hnone : ∀ d ∈ (none : Option OptionDomain), d.Idempotent := nofun
  have hnote : (option (.text "none") none (.text "none") false).Regular :=
    .option hnone (storable_undomained _) (storable_undomained _)
  have hadded := Reached.call "" (.addEntry "note" _) hempty hnote
  have hreached : (dict { isOpen := true, openDomain := some .bool, declared := ["tee"] }
      [("note", option (.text "none") none (.text "none") true),
        ("tee", option (.bool false) (some .bool) (.bool true) false)]).Reached :=
    .call "" (.declare "tee" _) hadded (regular_bool true)
  have hu : Update.plain (.dict [(.text "tee", .text "maybe")]) ≠ .plain .none := nofun
  have hrun := run_assign_of_error "" hreached.regular hu rfl rfl rfl
  rw [repaired_dict, entriesAgain,
    show undeclaredAmong _ _ = [("note", option (.text "none") none (.text "none") true)] from rfl,
    List.mergeSort_singleton] at hrun
  exact ⟨_, _, _, hreached, rfl, hrun, rfl⟩

/-- **What a call leaves behind that fails:** everything is as it was, or a declaration left its mark, or the dictionary that was
updated is what the repair made of it. But for the marks a later reset brings back the same as before. All values are the same
up to the order of entries where options that were not declared hold values of the domain for these. Where all options were
declared, entries and their order are the same, too, and at most count as given that did not; and where all of these count as
given already, nothing has changed. -/
theorem Call.rolls_back {call : Call} {err : Error} (h : c.Regular) (hrun : (call.edit path).run c = (.error err, c')) :
    (c' = c ∨ call.Left path c err c') ∧ (¬ call.Declares → c'.reset = c.reset) ∧
    (c.Repairable → Value.Reordered c.value c'.value) ∧
    (c.AllDeclared → ¬ call.Declares → c'.allGiven = c.allGiven ∧ (c.allGiven = c → c' = c)) := by
  rcases left_of_run h hrun with rfl | hleft
  · exact ⟨.inl rfl, fun _ => rfl, fun _ => .refl _, fun _ _ => ⟨rfl, fun _ => rfl⟩⟩
  · exact ⟨.inr hleft, hleft.reset_eq h, hleft.reordered, hleft.allGiven_eq⟩

/-- A truth value that is set to a word that is none. -/
theorem Call.rolls_back_tee : ∃ (c c' : Config) (err : Error), c.Reached ∧
    ((Call.setValue (.plain (.dict [(.text "tee", .text "maybe")]))).edit "").run c = (.error err, c') ∧
    (Call.setValue (.plain (.dict [(.text "tee", .text "maybe")]))).Left "" c err c' ∧
    c'.reset = c.reset ∧ Value.Reordered c.value c'.value := by
  obtain ⟨c, c', err, hreached, rfl, hrun, rfl⟩ := exists_rolledBack
  obtain ⟨hleft, hreset, hvalue, -⟩ := Call.rolls_back hreached.regular hrun
  refine ⟨_, _, err, hreached, hrun, hleft.resolve_left nofun, hreset id, hvalue (.dict ?_ ?_)⟩
  · simp only [List.forall_mem_cons]
    exact ⟨.dict nofun nofun, .option, nofun⟩
  · exact fun e _ => storable_undomained _

/-- **Calls that fail need not leave everything as it was.** After a truth value was set to a word that is none, options count as
given that were not, and a dictionary that was not declared is a plain option and stands behind the others. To declare a name
that is taken keeps its option from being dropped by a reset. And where an option that was not declared holds a value that the
domain for these does not take, a failed call drops this option and sets the other ones to their initial values. -/
theorem Call.rolls_back_given : (∃ (c c₁ c₂ : Config) (err₁ err₂ : Error), c.Reached
      ∧ ((Call.setValue (.plain (.dict [(.text "tee", .text "maybe")]))).edit "").run c = (.error err₁, c₁)
      ∧ c.givenNames "" = ["sub"] ∧ c₁.givenNames "" = ["", "tee", "sub"]
      ∧ c.entries.map (·.1) = ["sub", "tee"] ∧ c₁.entries.map (·.1) = ["tee", "sub"]
      ∧ c.child? "sub" = some (dict { given := true } [])
      ∧ c₁.child? "sub" = some (option (.dict []) none (.dict []) true)
      ∧ ((Call.declare "sub" (dict {} [])).edit "").run c = (.error err₂, c₂)
      ∧ c.reset.entries.map (·.1) = ["tee"] ∧ c₂.reset.entries.map (·.1) = ["sub", "tee"])
    ∧ ∃ (c c' : Config) (err : Error), c.Reached
      ∧ ((Call.setValue (.plain (.dict [(.text "tee", .text "maybe")]))).edit "").run c = (.error err, c')
      ∧ c.value = .dict [(.text "note", .text "none"), (.text "tee", .bool true)]
      ∧ c'.value = .dict [(.text "tee", .bool false)] := by
  constructor
  · obtain ⟨c, c₁, err, hreached, rfl, hrun, rfl⟩ := exists_rolledBack
    exact ⟨_, _, _, err, _, hreached, hrun, rfl, rfl, rfl, rfl, rfl, rfl, rfl, rfl, rfl⟩
  · obtain ⟨c, c', err, hreached, rfl, hrun, rfl⟩ := exists_lost
    exact ⟨_, _, err, hreached, hrun, rfl, rfl⟩

end Config

end RobustLP
