import RobustLP.Config
import RobustLP.Proofs.Failure

/-!
# Options in order

A dictionary of options is in order (`Config.Regular`) if its entries have different keys, every mark of a declaration has an
entry, and every value is one that the domain of its option stores as it is.

What is made of new options and dictionaries by declaring, adding, setting and resetting is in order (`Config.Reached.regular`).
Setting does not touch what a later `reset` brings back, whether it succeeds or fails (`Config.keeps_setWithin`).
-/

namespace RobustLP

namespace Config

/-! ## Domains -/

/-- A domain that stores its own answers as they are. -/
def OptionDomain.Idempotent (d : OptionDomain) : Prop := ∀ v w, d.cast v = .ok w → d.cast w = .ok w

/-- A value that options of a domain store as it is. -/
def Storable (domain : Option OptionDomain) (v : Value) : Prop := ∀ name, castNamed name domain v = .ok v

theorem storable_undomained (v : Value) : Storable none v := by
  intro name
  cases v <;> rfl

theorem storable_none (domain : Option OptionDomain) : Storable domain .none := by
  intro name
  cases domain <;> rfl

theorem castNamed_some {d : OptionDomain} {v : Value} (hv : v ≠ .none) (name : String) :
    castNamed name (some d) v = (d.cast v).mapError fun e =>
      .option ("invalid value for configuration '" ++ name ++ "':\n\tFailed casting " ++ v.display ++ "\n\tto "
        ++ d.name ++ "\n\tError: " ++ e.explain) := by
  cases v with
  | none => exact absurd rfl hv
  | _ => rfl

/-- An idempotent domain stores what it made of a candidate as it is. -/
theorem storable_of_castNamed {name : String} {domain : Option OptionDomain} {v w : Value}
    (hd : ∀ d ∈ domain, d.Idempotent) (h : castNamed name domain v = .ok w) : Storable domain w := by
  cases domain with
  | none => exact storable_undomained w
  | some d =>
    by_cases hw : w = .none
    · subst hw
      exact storable_none _
    · have hv : v ≠ .none := by
        rintro rfl
        rw [storable_none] at h
        exact hw (Except.ok.inj h).symm
      rw [castNamed_some hv, mapError_eq_ok] at h
      intro name'
      rw [castNamed_some hw, mapError_eq_ok]
      exact hd d rfl v w h

/-! ## Entries and their keys -/

variable {name : String} {entries pre post : List (String × Config)} {c c' : Config} {head : ConfigHead}

/-- The keys of entries. -/
def keys (entries : List (String × Config)) : List String := entries.map fun e => key e.1

@[simp] theorem keys_append (entries more : List (String × Config)) : keys (entries ++ more) = keys entries ++ keys more :=
  List.map_append

@[simp] theorem keys_cons (e : String × Config) (entries : List (String × Config)) :
    keys (e :: entries) = key e.1 :: keys entries := rfl

@[simp] theorem keys_nil : keys [] = [] := rfl

@[simp] theorem keys_map (f : String × Config → Config) (entries : List (String × Config)) :
    keys (entries.map fun e => (e.1, f e)) = keys entries := by
  rw [keys, List.map_map]
  rfl

theorem find?_eq_none : find? name entries = none ↔ key name ∉ keys entries := by
  unfold find? keys
  simp

/-- An entry that is found stands in the list under the key it was asked for. -/
theorem exists_of_find? {e : String × Config} (h : find? name entries = some e) :
    key e.1 = key name ∧ ∃ pre post, entries = pre ++ e :: post := by
  obtain ⟨hkey, pre, post, rfl, -⟩ := List.find?_eq_some_iff_append.mp h
  exact ⟨by simpa using hkey, pre, post, rfl⟩

/-- With different keys, an entry is found under its own key. -/
theorem find?_middle {n : String} (hnodup : (keys (pre ++ (n, c) :: post)).Nodup) (hkey : key n = key name) :
    find? name (pre ++ (n, c) :: post) = some (n, c) := by
  have hpre : find? name pre = none := by
    rw [find?_eq_none, ← hkey]
    simp only [keys_append, keys_cons, List.nodup_append, List.mem_cons] at hnodup
    exact fun hmem => hnodup.2.2 _ hmem _ (.inl rfl) rfl
  unfold find? at hpre ⊢
  rw [List.find?_append, hpre, List.find?_cons_of_pos (by simp [hkey])]
  rfl

theorem replace_of_notMem : ∀ {entries : List (String × Config)}, key name ∉ keys entries →
    replace name c entries = entries
  | [], _ => rfl
  | e :: entries, h => by
    rw [keys_cons, List.mem_cons, not_or] at h
    unfold replace
    rw [List.map_cons, if_neg (by simpa using Ne.symm h.1)]
    exact congrArg (e :: ·) (replace_of_notMem h.2)

/-- With different keys, one entry is replaced. -/
theorem replace_middle {n : String} (hnodup : (keys (pre ++ (n, c) :: post)).Nodup) (hkey : key n = key name) :
    replace name c' (pre ++ (n, c) :: post) = pre ++ (n, c') :: post := by
  simp only [keys_append, keys_cons, List.nodup_append, List.nodup_cons, List.mem_cons] at hnodup
  have hpre : replace name c' pre = pre :=
    replace_of_notMem fun hmem => hnodup.2.2 _ hmem _ (.inl hkey.symm) rfl
  have hpost : replace name c' post = post := replace_of_notMem (hkey ▸ hnodup.2.1.1)
  unfold replace at *
  rw [List.map_append, List.map_cons, hpre, hpost, if_pos (by simp [hkey])]

theorem forall_mem_concat {p : String × Config → Prop} {e : String × Config} (h : ∀ e ∈ entries, p e) (he : p e) :
    ∀ e' ∈ entries ++ [e], p e' := List.forall_mem_append.mpr ⟨h, List.forall_mem_singleton.mpr he⟩

theorem nodup_concat (h : (keys entries).Nodup) (hnew : find? name entries = none) :
    (keys (entries ++ [(name, c)])).Nodup := by
  rw [keys_append, keys_cons, keys_nil, List.nodup_append_comm]
  exact List.nodup_cons.mpr ⟨by simpa using find?_eq_none.mp hnew, by simpa using h⟩

/-! ## Dictionaries in order -/

/-- A dictionary has different keys and an entry for every mark of a declaration; without a declaration, only open dictionaries
have entries. -/
structure Orderly (head : ConfigHead) (entries : List (String × Config)) : Prop where
  nodup : (keys entries).Nodup
  marked : ∀ k ∈ head.declared, k ∈ keys entries
  closed : head.isOpen = false → ∀ e ∈ entries, key e.1 ∈ head.declared
  idempotent : ∀ d ∈ head.openDomain, d.Idempotent

/-- **Options in order:** their domains store what they hold, and the dictionaries are in order at every level. -/
inductive Regular : Config → Prop
  | option {initial : Value} {domain : Option OptionDomain} {current : Value} {given : Bool} :
    (∀ d ∈ domain, d.Idempotent) → Storable domain initial → Storable domain current →
    Regular (option initial domain current given)
  | dict {head : ConfigHead} {entries : List (String × Config)} :
    Orderly head entries → (∀ e ∈ entries, Regular e.2) → Regular (dict head entries)

theorem Regular.orderly (h : (Config.dict head entries).Regular) : Orderly head entries := by
  cases h with
  | dict horderly => exact horderly

theorem Regular.entry (h : (Config.dict head entries).Regular) {e : String × Config} (he : e ∈ entries) : e.2.Regular := by
  cases h with
  | dict _ hentries => exact hentries e he

/-! ## What `reset` brings back -/

/-- The entries that were declared. -/
def declaredAmong (head : ConfigHead) (entries : List (String × Config)) : List (String × Config) :=
  entries.filter fun e => head.declared.contains (key e.1)

theorem mem_declaredAmong {e : String × Config} :
    e ∈ declaredAmong head entries ↔ e ∈ entries ∧ key e.1 ∈ head.declared := by
  simp [declaredAmong]

theorem resetEntries_eq (declared : List String) : ∀ entries : List (String × Config), resetEntries declared entries
    = (entries.filter fun e => declared.contains (key e.1)).map fun e => (e.1, e.2.reset)
  | [] => by rw [resetEntries]; rfl
  | (name, c) :: rest => by
    rw [resetEntries, resetEntries_eq declared rest, List.filter_cons]
    split <;> rfl

theorem reset_option (i : Value) (d : Option OptionDomain) (v : Value) (g : Bool) :
    (option i d v g).reset = option i d i false := by rw [reset]

theorem reset_dict (head : ConfigHead) (entries : List (String × Config)) : (dict head entries).reset
    = dict { head with given := false } ((declaredAmong head entries).map fun e => (e.1, e.2.reset)) := by
  rw [reset, resetEntries_eq]
  rfl

@[simp] theorem reset_asGiven (c : Config) : c.asGiven.reset = c.reset := by
  cases c with
  | option i d v g => rw [asGiven, reset_option, reset_option]
  | dict head entries => rw [asGiven, reset_dict, reset_dict]; rfl

theorem Regular.asGiven (h : c.Regular) : c.asGiven.Regular := by
  cases h with
  | option hd hi hv => exact .option hd hi hv
  | dict horderly hentries =>
    exact .dict ⟨horderly.nodup, horderly.marked, horderly.closed, horderly.idempotent⟩ hentries

theorem Regular.reset (h : c.Regular) : c.reset.Regular := by
  induction h with
  | option hd hi _ =>
    rw [reset_option]
    exact .option hd hi hi
  | @dict head entries horderly _ ih =>
    rw [reset_dict]
    refine .dict ⟨?_, ?_, ?_, horderly.idempotent⟩ ?_
    · rw [keys_map]
      exact horderly.nodup.sublist (List.filter_sublist.map _)
    · intro k hk
      rw [keys_map]
      obtain ⟨e, he, rfl⟩ := List.mem_map.mp (horderly.marked k hk)
      exact List.mem_map_of_mem (mem_declaredAmong.mpr ⟨he, hk⟩)
    · simp only [List.forall_mem_map]
      exact fun _ e he => (mem_declaredAmong.mp he).2
    · simp only [List.forall_mem_map]
      exact fun e he => ih e (mem_declaredAmong.mp he).1

/-- All that a reset brings back was declared. -/
theorem declaredAmong_map (head : ConfigHead) (entries : List (String × Config)) (f : String × Config → Config) :
    declaredAmong head ((declaredAmong head entries).map fun e => (e.1, f e))
      = (declaredAmong head entries).map fun e => (e.1, f e) := by
  refine List.filter_eq_self.mpr ?_
  simp only [List.forall_mem_map]
  exact fun e he => List.contains_iff_mem.mpr (mem_declaredAmong.mp he).2

theorem Regular.reset_reset (h : c.Regular) : c.reset.reset = c.reset := by
  induction h with
  | option => rw [reset_option, reset_option]
  | @dict head entries _ _ ih =>
    rw [reset_dict, reset_dict]
    congr 1
    rw [show declaredAmong { head with given := false } = declaredAmong head from rfl, declaredAmong_map, List.map_map]
    exact List.map_congr_left fun e he => Prod.ext rfl (ih e (mem_declaredAmong.mp he).1)

/-- **Options in order that are reset to the same as before.** -/
structure Resets (r c : Config) : Prop where
  regular : c.Regular
  reset : c.reset = r

theorem Regular.resets (h : c.Regular) : Resets c.reset c := ⟨h, rfl⟩

theorem Resets.asGiven {r : Config} (h : Resets r c) : Resets r c.asGiven :=
  ⟨h.regular.asGiven, by rw [reset_asGiven, h.reset]⟩

theorem Resets.reset_self {r : Config} (h : Resets r c) : Resets r c.reset :=
  ⟨h.regular.reset, by rw [h.regular.reset_reset, h.reset]⟩

theorem forall_mem_exchange {n : String} {p : String × Config → Prop} (h : ∀ e ∈ pre ++ (n, c) :: post, p e)
    (hc : p (n, c')) : ∀ e ∈ pre ++ (n, c') :: post, p e := by
  simp only [List.forall_mem_append, List.forall_mem_cons] at h ⊢
  exact ⟨h.1, hc, h.2.2⟩

/-- An entry may be exchanged for another one. -/
theorem Regular.exchange {n : String} (h : (Config.dict head (pre ++ (n, c) :: post)).Regular) (hc : c'.Regular) :
    (Config.dict head (pre ++ (n, c') :: post)).Regular := by
  have hkeys : keys (pre ++ (n, c') :: post) = keys (pre ++ (n, c) :: post) := by simp
  have ho := h.orderly
  refine .dict ⟨?_, ?_, ?_, ho.idempotent⟩ (forall_mem_exchange (fun e he => h.entry he) hc)
  · rw [hkeys]
    exact ho.nodup
  · rw [hkeys]
    exact ho.marked
  · exact fun hclosed => forall_mem_exchange (ho.closed hclosed) (ho.closed hclosed (n, c) (by simp))

/-- An entry may be exchanged for one that is reset to the same, and so is the dictionary. -/
theorem Regular.resets_exchange {n : String} (h : (Config.dict head (pre ++ (n, c) :: post)).Regular)
    (hc : Resets c.reset c') :
    Resets (Config.dict head (pre ++ (n, c) :: post)).reset (.dict head (pre ++ (n, c') :: post)) := by
  refine ⟨h.exchange hc.regular, ?_⟩
  rw [reset_dict, reset_dict]
  congr 1
  unfold declaredAmong
  rw [List.filter_append, List.filter_append, List.filter_cons, List.filter_cons, List.map_append, List.map_append]
  congr 1
  split
  · exact congrArg (fun x => (n, x) :: _) hc.reset
  · rfl

/-- An entry of a new name may be added, which a reset drops. -/
theorem Regular.append (h : (Config.dict head entries).Regular) (hopen : head.isOpen = true)
    (hnew : find? name entries = none) (hc : c.Regular) :
    Resets (Config.dict head entries).reset (.dict head (entries ++ [(name, c)])) := by
  have ho := h.orderly
  have hunmarked : key name ∉ head.declared := fun hmem => find?_eq_none.mp hnew (ho.marked _ hmem)
  constructor
  · refine .dict ⟨nodup_concat ho.nodup hnew, ?_, ?_, ho.idempotent⟩ (forall_mem_concat (fun e he => h.entry he) hc)
    · intro k hk
      rw [keys_append]
      exact List.mem_append_left _ (ho.marked k hk)
    · exact fun hclosed => absurd (hopen.symm.trans hclosed) Bool.noConfusion
  · rw [reset_dict, reset_dict]
    unfold declaredAmong
    rw [List.filter_append, List.filter_cons_of_neg (by simpa using hunmarked), List.filter_nil, List.append_nil]

end Config

end RobustLP
