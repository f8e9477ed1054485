import RobustLP.Proofs.Config.Setting
import RobustLP.Script.Options

/-!
# Copies of options

A copy of options has the same entries in the same order, each of the same sort and with the same value; their values are the
initial ones, and none of them was given (`Config.fresh`). Where the domains store what they hold (`Config.Settled`), copying
succeeds, and answers this (`Config.copy_eq`).

Two dictionaries that differ only in initial values and in what was given are `Alike`. An update succeeds for both or fails for
both, and where it succeeds they are alike again (`Config.agree_setWithin`). So to update a copy is to copy what was updated
(`Config.updated_cases`).

`Config.copies_faithful` collects what is known of copies.
-/

namespace RobustLP

open Edit

namespace Config

variable {name path path' : String} {c c' d : Config} {head head' : ConfigHead} {entries entries' : List (String × Config)}

/-! ## What a copy is -/

mutual

/-- Options as a copy has them: the current values are the initial ones, too, and none was given. -/
def fresh : Config → Config
  | option _ domain current _ => option current domain current false
  | dict head entries => dict { head with given := false } (freshEntries entries)

/-- Entries as a copy has them. -/
def freshEntries : List (String × Config) → List (String × Config)
  | [] => []
  | (name, c) :: rest => (name, fresh c) :: freshEntries rest

end

theorem freshEntries_eq : ∀ entries : List (String × Config), freshEntries entries = entries.map fun e => (e.1, e.2.fresh)
  | [] => by rw [freshEntries]; rfl
  | (name, c) :: rest => by rw [freshEntries, freshEntries_eq rest]; rfl

theorem fresh_option (i : Value) (domain : Option OptionDomain) (v : Value) (g : Bool) :
    (option i domain v g).fresh = option v domain v false := by rw [fresh]

theorem fresh_dict (head : ConfigHead) (entries : List (String × Config)) :
    (dict head entries).fresh = dict { head with given := false } (entries.map fun e => (e.1, e.2.fresh)) := by
  rw [fresh, freshEntries_eq]

mutual

/-- A copy has the same values. -/
theorem value_fresh : ∀ c : Config, c.fresh.value = c.value
  | option .. => by rw [fresh, value, value]
  | dict head entries => by rw [fresh, value, value, valuesOf_freshEntries entries]

theorem valuesOf_freshEntries : ∀ entries : List (String × Config), valuesOf (freshEntries entries) = valuesOf entries
  | [] => by rw [freshEntries]
  | (name, c) :: rest => by rw [freshEntries, valuesOf, valuesOf, value_fresh c, valuesOf_freshEntries rest]

end

mutual

/-- No entry of a copy was given. -/
theorem givenNames_fresh : ∀ (name : String) (c : Config), c.fresh.givenNames name = []
  | name, option .. => by rw [fresh, givenNames]; rfl
  | name, dict head entries => by
    rw [fresh, givenNames, givenNamesOf_freshEntries name entries]
    rfl

theorem givenNamesOf_freshEntries : ∀ (name : String) (entries : List (String × Config)),
    givenNamesOf name (freshEntries entries) = []
  | name, [] => by rw [freshEntries, givenNamesOf]
  | name, (n, c) :: rest => by
    rw [freshEntries, givenNamesOf, givenNames_fresh _ c, givenNamesOf_freshEntries name rest]
    rfl

end

mutual

theorem depth_fresh : ∀ c : Config, c.fresh.depth = c.depth
  | option .. => by rw [fresh, depth, depth]
  | dict head entries => by rw [fresh, depth, depth, depthOf_freshEntries entries]

theorem depthOf_freshEntries : ∀ entries : List (String × Config), depthOf (freshEntries entries) = depthOf entries
  | [] => by rw [freshEntries]
  | (name, c) :: rest => by rw [freshEntries, depthOf, depthOf, depth_fresh c, depthOf_freshEntries rest]

end

/-! ## Copying -/

/-- The domains of options store what these hold as it is. -/
inductive Settled : Config → Prop
  | option {initial : Value} {domain : Option OptionDomain} {current : Value} {given : Bool} :
    Storable domain current → Settled (option initial domain current given)
  | dict {head : ConfigHead} {entries : List (String × Config)} : (∀ e ∈ entries, Settled e.2) → Settled (dict head entries)

/-- Options in order are settled. -/
theorem Regular.settled (h : c.Regular) : c.Settled := by
  induction h with
  | option _ _ hv => exact .option hv
  | dict _ _ ih => exact .dict ih

theorem copyEntries_eq (h : ∀ e ∈ entries, e.2.copy = .ok e.2.fresh) : copyEntries entries = .ok (freshEntries entries) := by
  induction entries with
  | nil => rw [copyEntries, freshEntries]
  | cons e rest ih =>
    rw [List.forall_mem_cons] at h
    rw [copyEntries, h.1, ih h.2, freshEntries]
    rfl

/-- **Copying** answers the same entries with the same values. -/
theorem copy_eq (h : c.Settled) : c.copy = .ok c.fresh := by
  induction h with
  | option hv =>
    rw [copy, make, hv, fresh]
    rfl
  | dict _ ih =>
    rw [copy, copyEntries_eq ih, fresh]
    rfl

/-! ## Resetting a copy -/

mutual

/-- Options without those that were not declared. -/
def declaredOnly : Config → Config
  | option i domain v g => option i domain v g
  | dict head entries => dict head (declaredEntries head.declared entries)

/-- The declared ones among entries. -/
def declaredEntries (declared : List String) : List (String × Config) → List (String × Config)
  | [] => []
  | (name, c) :: rest =>
    if declared.contains (key name) then (name, declaredOnly c) :: declaredEntries declared rest
    else declaredEntries declared rest

end

mutual

/-- **A copy is reset to its own values,** of declared entries, and the others are dropped. -/
theorem reset_fresh : ∀ c : Config, c.fresh.reset = c.fresh.declaredOnly
  | option .. => by rw [fresh, reset, declaredOnly]
  | dict head entries => by rw [fresh, reset, declaredOnly, resetEntries_freshEntries head.declared entries]

theorem resetEntries_freshEntries (declared : List String) : ∀ entries : List (String × Config),
    resetEntries declared (freshEntries entries) = declaredEntries declared (freshEntries entries)
  | [] => by rw [freshEntries, resetEntries, declaredEntries]
  | (name, c) :: rest => by
    rw [freshEntries, resetEntries, declaredEntries, reset_fresh c, resetEntries_freshEntries declared rest]

end

mutual

/-- The declared part of a copy is a copy of the declared part. -/
theorem declaredOnly_fresh : ∀ c : Config, c.fresh.declaredOnly = c.declaredOnly.fresh
  | option .. => by rw [fresh, declaredOnly, declaredOnly, fresh]
  | dict head entries => by
    rw [fresh, declaredOnly, declaredOnly, fresh, declaredEntries_freshEntries head.declared entries]

theorem declaredEntries_freshEntries (declared : List String) : ∀ entries : List (String × Config),
    declaredEntries declared (freshEntries entries) = freshEntries (declaredEntries declared entries)
  | [] => by rw [freshEntries, declaredEntries, freshEntries]
  | (name, c) :: rest => by
    rw [freshEntries, declaredEntries, declaredEntries, declaredEntries_freshEntries declared rest, declaredOnly_fresh c]
    split
    next => rw [freshEntries]
    next => rfl

end

theorem Regular.fresh (h : c.Regular) : c.fresh.Regular := by
  induction h with
  | option hd _ hv =>
    rw [Config.fresh]
    exact .option hd hv hv
  | dict horderly _ ih =>
    rw [fresh_dict]
    refine .dict ⟨?_, ?_, ?_, horderly.idempotent⟩ ?_
    · rw [keys_map]
      exact horderly.nodup
    · rw [keys_map]
      exact horderly.marked
    · exact fun hclosed => List.forall_mem_map.mpr fun e he => horderly.closed hclosed e he
    · exact List.forall_mem_map.mpr ih

/-- Updates one after another, whether they succeed or fail. -/
def updates (us : List (String × Update)) (c : Config) : Config := us.foldl (fun c u => ((assign u.1 u.2).run c).2) c

/-- Updates do not change what a copy is reset to. -/
theorem reset_updates (h : c.Regular) (us : List (String × Update)) : (updates us c).reset = c.reset := by
  have hresets : ∀ (us : List (String × Update)) (d : Config), Resets c.reset d → Resets c.reset (updates us d) := by
    intro us
    induction us with
    | nil => exact fun d hd => hd
    | cons u us ih => exact fun d hd => ih _ (keeps_assign u.1 u.2 _ d hd)
  exact (hresets us c h.resets).reset

/-! ## Operations that agree -/

/-- Two outcomes with the same answer and related states, or two failures. -/
inductive Agree {σ α : Type} (R : σ → σ → Prop) : Except Error α × σ → Except Error α × σ → Prop
  | ok {a : α} {s t : σ} : R s t → Agree R (.ok a, s) (.ok a, t)
  | error {e e' : Error} {s t : σ} : Agree R (.error e, s) (.error e', t)

section

variable {σ α β : Type} {R : σ → σ → Prop} {s t : σ}

theorem Agree.bind {e e' : Edit σ α} {f f' : α → Edit σ β} (h : Agree R (e.run s) (e'.run t))
    (hf : ∀ a s' t', R s' t' → Agree R ((f a).run s') ((f' a).run t')) : Agree R ((e >>= f).run s) ((e' >>= f').run t) := by
  rcases hrun : e.run s with ⟨r, s'⟩
  rcases hrun' : e'.run t with ⟨r', t'⟩
  rw [hrun, hrun'] at h
  cases h with
  | ok hR =>
    rw [run_bind_of_ok hrun, run_bind_of_ok hrun']
    exact hf _ _ _ hR
  | error =>
    rw [run_bind_of_error hrun, run_bind_of_error hrun']
    exact .error

theorem Agree.forM {f f' : α → Edit σ PUnit} (hf : ∀ a s t, R s t → Agree R ((f a).run s) ((f' a).run t)) :
    ∀ (l : List α) {s t : σ}, R s t → Agree R (Edit.run (l.forM f) s) (Edit.run (l.forM f') t)
  | [], _, _, h => .ok h
  | a :: l, _, _, h => (hf a _ _ h).bind fun _ _ _ h => Agree.forM hf l h

/-- Answers without effect agree if they are the same or both are failures. -/
theorem Agree.lift {r r' : Except Error α} (hR : R s t) (h : ∀ a, r = .ok a ↔ r' = .ok a) :
    Agree R ((Edit.lift r : Edit σ α).run s) ((Edit.lift r' : Edit σ α).run t) := by
  cases r with
  | ok a =>
    rw [(h a).mp rfl]
    exact .ok hR
  | error e =>
    cases r' with
    | ok a => cases (h a).mpr rfl
    | error e' => exact .error

theorem Agree.throw (e e' : Error) (s t : σ) : Agree R ((throw e : Edit σ α).run s) ((throw e' : Edit σ α).run t) := .error

end

/-! ## Options that are alike -/

/-- Options that differ only in initial values and in what was given: their copies are the same. -/
def Alike (c c' : Config) : Prop := c.fresh = c'.fresh

theorem Alike.value (h : Alike c c') : c.value = c'.value := by rw [← value_fresh c, h, value_fresh]

theorem Alike.depth (h : Alike c c') : c.depth = c'.depth := by rw [← depth_fresh c, h, depth_fresh]

mutual

theorem fresh_fresh : ∀ c : Config, c.fresh.fresh = c.fresh
  | option .. => by rw [fresh, fresh]
  | dict head entries => by rw [fresh, fresh, freshEntries_freshEntries entries]

theorem freshEntries_freshEntries : ∀ entries : List (String × Config),
    freshEntries (freshEntries entries) = freshEntries entries
  | [] => by rw [freshEntries, freshEntries]
  | (name, c) :: rest => by rw [freshEntries, freshEntries, fresh_fresh c, freshEntries_freshEntries rest]

end

/-- Options are like their copies. -/
theorem alike_fresh (c : Config) : Alike c c.fresh := (fresh_fresh c).symm

theorem alike_option {i : Value} {domain : Option OptionDomain} {v : Value} {g : Bool} :
    Alike (option i domain v g) c' ↔ ∃ i' g', c' = option i' domain v g' := by
  unfold Alike
  cases c' with
  | option i' domain' v' g' =>
    rw [fresh_option, fresh_option]
    constructor
    · intro h
      cases h
      exact ⟨i', g', rfl⟩
    · rintro ⟨_, _, h⟩
      cases h
      rfl
  | dict head' entries' =>
    rw [fresh_option, fresh_dict]
    exact ⟨nofun, nofun⟩

/-- Heads of dictionaries that differ in what was given at most. -/
def AlikeHeads (head head' : ConfigHead) : Prop := { head with given := false } = { head' with given := false }

theorem AlikeHeads.isOpen (h : AlikeHeads head head') : head.isOpen = head'.isOpen := (ConfigHead.mk.inj h).2.1

theorem AlikeHeads.openDomain (h : AlikeHeads head head') : head.openDomain = head'.openDomain := (ConfigHead.mk.inj h).2.2.1

/-- The same entries, of options that are alike. -/
def AlikeEntries (entries entries' : List (String × Config)) : Prop :=
  (entries.map fun e => (e.1, e.2.fresh)) = entries'.map fun e => (e.1, e.2.fresh)

theorem alike_dict : Alike (dict head entries) c'
    ↔ ∃ head' entries', c' = dict head' entries' ∧ AlikeHeads head head' ∧ AlikeEntries entries entries' := by
  unfold Alike
  cases c' with
  | option i domain v g =>
    rw [fresh_option, fresh_dict]
    exact ⟨nofun, nofun⟩
  | dict head' entries' =>
    rw [fresh_dict, fresh_dict]
    constructor
    · intro h
      rw [dict.injEq] at h
      exact ⟨head', entries', rfl, h.1, h.2⟩
    · rintro ⟨_, _, h, hhead, hentries⟩
      cases h
      rw [dict.injEq]
      exact ⟨hhead, hentries⟩

theorem Alike.asGiven (h : Alike c c') : Alike c.asGiven c'.asGiven := by
  cases c with
  | option =>
    obtain ⟨i', g', rfl⟩ := alike_option.mp h
    exact alike_option.mpr ⟨i', true, rfl⟩
  | dict head entries =>
    obtain ⟨head', entries', rfl, hhead, hentries⟩ := alike_dict.mp h
    exact alike_dict.mpr ⟨_, _, rfl, hhead, hentries⟩

theorem find?_map_fresh (name : String) (entries : List (String × Config)) :
    find? name (entries.map fun e => (e.1, e.2.fresh)) = (find? name entries).map fun e => (e.1, e.2.fresh) := by
  unfold find?
  rw [List.find?_map]
  rfl

/-- The same names are found among entries that are alike, and what is found is alike. -/
theorem AlikeEntries.find? (h : AlikeEntries entries entries') (name : String) :
    (Config.find? name entries = none ∧ Config.find? name entries' = none)
      ∨ ∃ n c c', Config.find? name entries = some (n, c) ∧ Config.find? name entries' = some (n, c') ∧ Alike c c' := by
  have hfind := congrArg (Config.find? name) h
  rw [find?_map_fresh, find?_map_fresh] at hfind
  cases hentries : Config.find? name entries with
  | none =>
    rw [hentries, Option.map_none, eq_comm, Option.map_eq_none_iff] at hfind
    exact .inl ⟨rfl, hfind⟩
  | some e =>
    rw [hentries, Option.map_some, eq_comm, Option.map_eq_some_iff] at hfind
    obtain ⟨e', he', heq⟩ := hfind
    obtain ⟨n, c⟩ := e
    obtain ⟨n', c'⟩ := e'
    rw [Prod.mk.injEq] at heq
    obtain ⟨rfl, hfresh⟩ := heq
    exact .inr ⟨n', c, c', rfl, he', hfresh.symm⟩

theorem Alike.alikeEntries (h : Alike c c') : AlikeEntries c.entries c'.entries := by
  cases c with
  | option =>
    obtain ⟨i', g', rfl⟩ := alike_option.mp h
    rfl
  | dict head entries =>
    obtain ⟨head', entries', rfl, -, hentries⟩ := alike_dict.mp h
    exact hentries

theorem Alike.isSome_child? (h : Alike c c') (name : String) : (c.child? name).isSome = (c'.child? name).isSome := by
  unfold child?
  rcases h.alikeEntries.find? name with ⟨hnone, hnone'⟩ | ⟨n, d, d', hsome, hsome', -⟩
  · rw [hnone, hnone']
  · rw [hsome, hsome']
    rfl

theorem AlikeEntries.append (h : AlikeEntries entries entries') (name : String) (hc : Alike c c') :
    AlikeEntries (entries ++ [(name, c)]) (entries' ++ [(name, c')]) := by
  unfold AlikeEntries at *
  rw [List.map_append, List.map_append, h, List.map_singleton, List.map_singleton, hc]

theorem AlikeEntries.replace (h : AlikeEntries entries entries') (name : String) (hc : Alike c c') :
    AlikeEntries (Config.replace name c entries) (Config.replace name c' entries') := by
  have hreplace : ∀ (c : Config) (es : List (String × Config)), ((Config.replace name c es).map fun e => (e.1, e.2.fresh))
      = Config.replace name c.fresh (es.map fun e => (e.1, e.2.fresh)) := by
    intro c es
    unfold Config.replace
    rw [List.map_map, List.map_map]
    refine List.map_congr_left fun e _ => ?_
    rw [Function.comp_apply, Function.comp_apply]
    split
    next => rfl
    next => rfl
  unfold AlikeEntries at *
  rw [hreplace, hreplace, h, hc]

/-! ## Updates of options that are alike -/

theorem castNamed_eq_ok {name name' : String} {domain : Option OptionDomain} {v w : Value}
    (h : castNamed name domain v = .ok w) : castNamed name' domain v = .ok w := by
  cases domain with
  | none =>
    rw [storable_undomained] at h ⊢
    exact h
  | some d =>
    by_cases hv : v = .none
    · subst hv
      rw [storable_none] at h ⊢
      exact h
    · rw [castNamed_some hv, mapError_eq_ok] at h ⊢
      exact h

theorem entries_eq_ok {u : Update} {us : List (String × Update)} (h : u.entries path = .ok us) : u.entries path' = .ok us := by
  unfold Update.entries at h ⊢
  split at h
  all_goals first | exact h | cases h

/-- An update may name new entries of an open dictionary only. -/
theorem sortEntries_dict_eq_ok {us : List (String × Update)} {sorted : List (String × Update) × List (String × Update)} :
    sortEntries path (dict head entries) us = .ok sorted
      ↔ (head.isOpen = false → ∀ u ∈ us, (child? u.1 (dict head entries)).isSome = true)
        ∧ sorted = (us.filter fun u => (child? u.1 (dict head entries)).isSome,
            us.filter fun u => !(child? u.1 (dict head entries)).isSome) := by
  obtain ⟨sort, isOpen, openDomain, declared, given⟩ := head
  unfold sortEntries
  cases isOpen with
  | true => exact ⟨fun h => ⟨nofun, (Except.ok.inj h).symm⟩, fun h => congrArg Except.ok h.2.symm⟩
  | false =>
    dsimp only
    split
    next name u hfind =>
      have hmissing := List.find?_some hfind
      refine ⟨nofun, fun h => ?_⟩
      rw [h.1 rfl _ (List.mem_of_find?_eq_some hfind)] at hmissing
      cases hmissing
    next hnone =>
      refine ⟨fun h => ⟨fun _ u hu => ?_, (Except.ok.inj h).symm⟩, fun h => congrArg Except.ok h.2.symm⟩
      by_contra hmissing
      have hnotFound :
          (us.find? fun u => !(child? u.1 (dict ⟨sort, false, openDomain, declared, given⟩ entries)).isSome) ≠ none :=
        fun hfind => List.find?_eq_none.mp hfind u hu (by simpa using hmissing)
      obtain ⟨⟨name, u'⟩, hfind⟩ := Option.ne_none_iff_exists'.mp hnotFound
      exact hnone _ _ _ _ _ name u' rfl hfind

theorem sortEntries_eq_ok {us : List (String × Update)} {sorted : List (String × Update) × List (String × Update)}
    (hc : Alike c c') (h : sortEntries path c us = .ok sorted) : sortEntries path' c' us = .ok sorted := by
  cases c with
  | option =>
    obtain ⟨i', g', rfl⟩ := alike_option.mp hc
    exact h
  | dict head entries =>
    have hchild := hc.isSome_child?
    obtain ⟨head', entries', rfl, hhead, -⟩ := alike_dict.mp hc
    rw [sortEntries_dict_eq_ok] at h ⊢
    simp only [← hchild]
    exact ⟨fun hclosed => h.1 (hhead.isOpen.trans hclosed), h.2⟩

theorem agree_enter (path path' name : String) {e e' : Config} (hc : Alike c c') (he : Alike e e') :
    Agree Alike ((enter path name e).run c) ((enter path' name e').run c') := by
  cases c with
  | option =>
    obtain ⟨i', g', rfl⟩ := alike_option.mp hc
    exact .error
  | dict head entries =>
    obtain ⟨head', entries', rfl, hhead, hentries⟩ := alike_dict.mp hc
    rcases hentries.find? name with ⟨hnone, hnone'⟩ | ⟨n, d, d', hsome, hsome', -⟩
    · rw [run_enter_of_new path e head hnone, run_enter_of_new path' e' head' hnone']
      exact .ok (alike_dict.mpr ⟨_, _, rfl, hhead, hentries.append name he⟩)
    · obtain ⟨err, herr⟩ := run_enter_of_taken path e head hsome
      obtain ⟨err', herr'⟩ := run_enter_of_taken path' e' head' hsome'
      rw [herr, herr']
      exact .error

theorem agree_checkOpen (path path' name : String) (hc : Alike c c') :
    Agree Alike ((checkOpen path name).run c) ((checkOpen path' name).run c') := by
  cases c with
  | option =>
    obtain ⟨i', g', rfl⟩ := alike_option.mp hc
    exact .error
  | dict head entries =>
    obtain ⟨head', entries', rfl, hhead, hentries⟩ := alike_dict.mp hc
    obtain ⟨sort, isOpen, openDomain, declared, given⟩ := head
    obtain ⟨sort', isOpen', openDomain', declared', given'⟩ := head'
    cases hhead
    cases isOpen with
    | true => exact .ok hc
    | false => exact .error

theorem Alike.openDomain? (h : Alike c c') : c.openDomain? = c'.openDomain? := by
  cases c with
  | option =>
    obtain ⟨i', g', rfl⟩ := alike_option.mp h
    rfl
  | dict head entries =>
    obtain ⟨head', entries', rfl, hhead, -⟩ := alike_dict.mp h
    exact hhead.openDomain

theorem agree_addUpdate (path path' : String) (u : String × Update) (hc : Alike c c') :
    Agree Alike ((addUpdate path u).run c) ((addUpdate path' u).run c') := by
  obtain ⟨name, u⟩ := u
  cases u with
  | plain v =>
    refine (agree_checkOpen path path' name hc).bind fun _ d d' hd => ?_
    rw [run_bind_of_ok (run_get d), run_bind_of_ok (run_get d'), hd.openDomain?]
    refine (Agree.lift hd fun _ => Iff.rfl).bind fun e d d' hd => ?_
    exact agree_enter path path' name hd rfl
  | options owner e => exact (agree_checkOpen path path' name hc).bind fun _ _ _ _ => .error

theorem agree_onEntry (name : String) {e e' : Edit Config Unit}
    (h : ∀ c c', Alike c c' → Agree Alike (e.run c) (e'.run c')) (hc : Alike c c') :
    Agree Alike ((onEntry name e).run c) ((onEntry name e').run c') := by
  cases c with
  | option =>
    obtain ⟨i', g', rfl⟩ := alike_option.mp hc
    exact .error
  | dict head entries =>
    obtain ⟨head', entries', rfl, hhead, hentries⟩ := alike_dict.mp hc
    rcases hentries.find? name with ⟨hnone, hnone'⟩ | ⟨n, d, d', hsome, hsome', hd⟩
    · unfold onEntry
      rw [run_bind_of_ok (run_get _), run_bind_of_ok (run_get _)]
      dsimp only
      rw [hnone, hnone']
      exact .error
    · rw [run_onEntry_of_find? hsome, run_onEntry_of_find? hsome']
      have hagree := h d d' hd
      rcases hrun : e.run d with ⟨r, a⟩
      rcases hrun' : e'.run d' with ⟨r', a'⟩
      rw [hrun, hrun'] at hagree
      cases hagree with
      | ok ha => exact .ok (alike_dict.mpr ⟨_, _, rfl, hhead, hentries.replace name ha⟩)
      | error => exact .error

theorem agree_setKnown {fuel : Nat} {before before' : Config} (hbefore : Alike before before') (u : String × Update)
    (h : ∀ path path' c c', Alike c c' → Agree Alike ((setWithin fuel path u.2).run c) ((setWithin fuel path' u.2).run c'))
    (hc : Alike c c') : Agree Alike ((setKnown fuel path before u).run c) ((setKnown fuel path' before' u).run c') := by
  rcases hbefore.alikeEntries.find? u.1 with ⟨hnone, hnone'⟩ | ⟨n, d, d', hsome, hsome', -⟩
  · unfold setKnown child?
    rw [hnone, hnone']
    exact .ok hc
  · rw [setKnown_of_find? hsome, setKnown_of_find? hsome']
    exact agree_onEntry u.1 (h _ _) hc

theorem agree_applyUpdates {fuel : Nat}
    (h : ∀ path path' u c c', Alike c c' → Agree Alike ((setWithin fuel path u).run c) ((setWithin fuel path' u).run c'))
    {before before' : Config} (hbefore : Alike before before') (known new : List (String × Update)) (hc : Alike c c') :
    Agree Alike ((applyUpdates fuel path before known new).run c) ((applyUpdates fuel path' before' known new).run c') := by
  have hknown : Agree Alike (Edit.run (known.forM (setKnown fuel path before)) c)
      (Edit.run (known.forM (setKnown fuel path' before')) c') :=
    Agree.forM (fun u _ _ hc => agree_setKnown hbefore u (fun path path' => h path path' u.2) hc) known hc
  exact hknown.bind fun _ _ _ hc => Agree.forM (fun u _ _ hc => agree_addUpdate path path' u hc) _ hc

/-- Where an update fails, so does the dictionary with its repair. -/
theorem exists_run_updateOrRepair_of_error {fuel : Nat} {before after : Config} {known new : List (String × Update)}
    {err : Error} (h : (applyUpdates fuel path before known new).run before = (.error err, after)) (c : Config) :
    ∃ err' after', (updateOrRepair fuel path before known new).run c = (.error err', after') := by
  unfold updateOrRepair
  rw [h]
  dsimp only
  rcases (setWithin fuel path (.plain before.value)).run after.reset with ⟨repaired, restored⟩
  cases repaired with
  | ok => exact ⟨_, _, rfl⟩
  | error => exact ⟨_, _, rfl⟩

theorem agree_updateOrRepair {fuel : Nat}
    (h : ∀ path path' u c c', Alike c c' → Agree Alike ((setWithin fuel path u).run c) ((setWithin fuel path' u).run c'))
    {before before' : Config} (hbefore : Alike before before') (known new : List (String × Update)) (c c' : Config) :
    Agree Alike ((updateOrRepair fuel path before known new).run c)
      ((updateOrRepair fuel path' before' known new).run c') := by
  have happly : Agree Alike ((applyUpdates fuel path before known new).run before)
      ((applyUpdates fuel path' before' known new).run before') := agree_applyUpdates h hbefore known new hbefore
  rcases hrun : (applyUpdates fuel path before known new).run before with ⟨r, after⟩
  rcases hrun' : (applyUpdates fuel path' before' known new).run before' with ⟨r', after'⟩
  rw [hrun, hrun'] at happly
  cases happly with
  | ok hafter =>
    unfold updateOrRepair
    rw [hrun, hrun']
    exact .ok hafter.asGiven
  | error =>
    obtain ⟨_, _, herr⟩ := exists_run_updateOrRepair_of_error hrun c
    obtain ⟨_, _, herr'⟩ := exists_run_updateOrRepair_of_error hrun' c'
    rw [herr, herr']
    exact .error

/-- **An update succeeds for options that are alike, or fails for both,** and where it succeeds they are alike again. -/
theorem agree_setWithin : ∀ (fuel : Nat) (path path' : String) (u : Update) (c c' : Config), Alike c c' →
    Agree Alike ((setWithin fuel path u).run c) ((setWithin fuel path' u).run c')
  | 0, _, _, _, _, _, _ => .error
  | fuel + 1, path, path', u, c, c', hc => by
    cases c with
    | option i domain v g =>
      obtain ⟨i', g', rfl⟩ := alike_option.mp hc
      rw [run_setWithin_option, run_setWithin_option]
      refine (Agree.lift hc fun w => ⟨castNamed_eq_ok, castNamed_eq_ok⟩).bind fun w _ _ _ => .ok ?_
      exact alike_option.mpr ⟨_, _, rfl⟩
    | dict head entries =>
      obtain ⟨head', entries', rfl, -, -⟩ := alike_dict.mp hc
      by_cases hu : u = .plain .none
      · rw [hu, run_setWithin_none, run_setWithin_none]
        exact .ok hc
      · rw [run_setWithin_dict hu, run_setWithin_dict hu]
        refine (Agree.lift hc fun us => ⟨entries_eq_ok, entries_eq_ok⟩).bind fun us c₁ c₁' hc₁ => ?_
        refine (Agree.lift hc₁ fun sorted => ⟨sortEntries_eq_ok hc, sortEntries_eq_ok hc.symm⟩).bind fun sorted c₂ c₂' _ => ?_
        exact agree_updateOrRepair (agree_setWithin fuel) hc sorted.1 sorted.2 c₂ c₂'

theorem agree_assign (path path' : String) (u : Update) (hc : Alike c c') :
    Agree Alike ((assign path u).run c) ((assign path' u).run c') := by
  rw [run_assign, run_assign, hc.depth]
  exact agree_setWithin _ path path' u c c' hc

/-- **To update a copy is to copy what was updated:** where one of these fails, so does the other one. -/
theorem updated_cases (h : c.Settled) (path : String) (u : Update) :
    (∃ c₁ c₂, (assign path u).run c = (.ok (), c₁) ∧ c.updated u = .ok c₂ ∧ Alike c₁ c₂)
      ∨ ((∃ e c₁, (assign path u).run c = (.error e, c₁)) ∧ ∃ e, c.updated u = .error e) := by
  have hagree := agree_assign path "" u (alike_fresh c)
  unfold updated
  rw [copy_eq h]
  rcases hrun : (assign path u).run c with ⟨r, c₁⟩
  rcases hrun' : (assign "" u).run c.fresh with ⟨r', c₂⟩
  rw [hrun, hrun'] at hagree
  cases hagree with
  | ok hc => exact .inl ⟨c₁, c₂, rfl, by simp only [bind, Except.bind, hrun']; rfl, hc⟩
  | error => exact .inr ⟨⟨_, _, rfl⟩, _, by simp only [bind, Except.bind, hrun']; rfl⟩

end Config

/-! ## Steps that copy -/

namespace Script.Options

variable {α β : Type}

/-- **A step that changes no dictionary:** it puts others behind them at most. -/
def Extends (x : Step α) : Prop := ∀ s, s.roots <+: ((ExceptT.run x).run s).2.roots

theorem Extends.bind {x : Step α} {f : α → Step β} (hx : Extends x) (hf : ∀ a, Extends (f a)) : Extends (x >>= f) := by
  intro s
  have hs := hx s
  have hrun : (ExceptT.run (x >>= f)).run s = match (ExceptT.run x).run s with
      | (.ok a, s') => (ExceptT.run (f a)).run s'
      | (.error e, s') => (.error e, s') := by
    rw [ExceptT.run_bind, StateT.run_bind]
    rcases (ExceptT.run x).run s with ⟨r, s'⟩
    cases r <;> rfl
  rw [hrun]
  rcases hrunx : (ExceptT.run x).run s with ⟨r, s'⟩
  rw [hrunx] at hs
  cases r with
  | ok a => exact hs.trans (hf a s')
  | error => exact hs

theorem extends_pure (a : α) : Extends (pure a) := fun _ => List.prefix_refl _

theorem extends_get : Extends get := fun _ => List.prefix_refl _

theorem extends_throw (e : Failure) : Extends (throw e : Step α) := fun _ => List.prefix_refl _

theorem extends_lift (r : Except Error α) : Extends (lift r) := by
  cases r with
  | ok a => exact extends_pure a
  | error e => exact extends_throw _

theorem extends_place (path : Data) : Extends (place path) := by
  unfold place
  split
  next => exact extends_lift _
  next =>
    refine extends_get.bind fun s => ?_
    split
    next => exact extends_pure _
    next => exact extends_throw _

theorem extends_lookup (p : Nat × List String) : Extends (lookup p) := extends_get.bind fun _ => extends_lift _

theorem extends_put (id : String) (c : Config) : Extends (put id c) := fun _ => List.prefix_append _ _

/-- **To copy changes no dictionary.** -/
theorem extends_copy (d : Data) : Extends (copy d) := by
  refine (extends_place _).bind fun p => (extends_lookup p).bind fun found => ?_
  have hput : ∀ c, Extends (do put (d.word "id") c; return shown c) := fun c => (extends_put _ c).bind fun _ => extends_pure _
  dsimp only
  split
  next => exact (extends_lift _).bind hput
  next => exact (extends_lift _).bind hput

end Script.Options

namespace Config

variable {c : Config}

/-- **Copies of options are faithful,** and to update a copy agrees with updating in place. -/
theorem copies_faithful (h : c.Settled) :
    -- a copy has the same entries in the same order, of the same sorts and with the same values, and none was given
    (c.copy = .ok c.fresh ∧ c.fresh.value = c.value ∧ ∀ name, c.fresh.givenNames name = [])
    -- it is reset to these values of the declared entries, and the others are dropped, also after updates
    ∧ (c.fresh.reset = c.declaredOnly.fresh ∧ c.fresh.reset.value = c.declaredOnly.value)
    ∧ (c.Regular → ∀ us, (updates us c.fresh).reset = c.declaredOnly.fresh)
    -- an update fails for a copy exactly if it fails in place, and otherwise gives the same values
    ∧ (∀ path u, (∃ c₁ c₂, (assign path u).run c = (.ok (), c₁) ∧ c.updated u = .ok c₂ ∧ c₂.value = c₁.value)
      ∨ ((∃ e c₁, (assign path u).run c = (.error e, c₁)) ∧ ∃ e, c.updated u = .error e))
    -- and nothing that is there before changes
    ∧ ∀ (d : Script.Data) (s : Script.Options.Shelf) (i : Nat) (r : Config), s.roots[i]? = some r →
      ((ExceptT.run (Script.Options.copy d)).run s).2.roots[i]? = some r := by
  have hreset : c.fresh.reset = c.declaredOnly.fresh := (reset_fresh c).trans (declaredOnly_fresh c)
  refine ⟨⟨copy_eq h, value_fresh c, fun name => givenNames_fresh name c⟩, ⟨hreset, ?_⟩, fun hregular us => ?_,
    fun path u => ?_, fun d s i r hi => ?_⟩
  · rw [hreset, value_fresh]
  · rw [reset_updates hregular.fresh us, hreset]
  · rcases updated_cases h path u with ⟨c₁, c₂, hrun, hupdated, halike⟩ | hfailed
    · exact .inl ⟨c₁, c₂, hrun, hupdated, halike.value.symm⟩
    · exact .inr hfailed
  · obtain ⟨more, hmore⟩ := Script.Options.extends_copy d s
    obtain ⟨hlength, -⟩ := List.getElem?_eq_some_iff.mp hi
    rw [← hmore, List.getElem?_append_left hlength, hi]

/-- A switch that was declared and set, a nested dictionary, and an option that was not declared. -/
def nested : Config :=
  .dict { isOpen := true, declared := ["tee", "limits"] }
    [("tee", .option (.bool false) (some .bool) (.bool true) true),
     ("limits", .dict { declared := ["rows"] } [("rows", .option .none none (.int 3) true)]),
     ("note", .option (.text "new") none (.text "new") true)]

theorem copies_faithful_nested : ∃ c', nested.copy = .ok c' ∧ c'.value = nested.value
    ∧ nested.givenNames "" = ["tee", "limits.rows", "note"] ∧ c'.givenNames "" = []
    ∧ c'.reset.value = .dict [(.text "tee", .bool true), (.text "limits", .dict [(.text "rows", .int 3)])] := by
  have htee : Storable (some .bool) (.bool true) := fun name => rfl
  have hlimits : Settled (.dict { declared := ["rows"] } [("rows", .option .none none (.int 3) true)]) :=
    .dict (List.forall_mem_singleton.mpr (.option (storable_undomained _)))
  have hsettled : nested.Settled := .dict (List.forall_mem_cons.mpr ⟨.option htee, List.forall_mem_cons.mpr
    ⟨hlimits, List.forall_mem_singleton.mpr (.option (storable_undomained _))⟩⟩)
  obtain ⟨⟨hcopy, hvalue, hgiven⟩, ⟨-, hreset⟩, -⟩ := copies_faithful hsettled
  exact ⟨nested.fresh, hcopy, hvalue, by decide +kernel, hgiven "", hreset.trans (by rfl)⟩

end Config

end RobustLP
