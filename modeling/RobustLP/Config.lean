import RobustLP.Config.Domain
import RobustLP.Model.Edit

/-!
# Options

A `Config` is an option with its domain, or a dictionary of these. Options of a dictionary are addressed by their names, where
a blank and an underscore are the same (`key`). A dictionary may be open: then it also takes options that were not declared.

`set` updates a dictionary from another one, or from an option string. The options that exist are set first, in the order
given; the new ones are added in the order of their names. When one of these fails, the dictionary is reset and set to what it
held before.

Options keep whether they were given; `reset` brings back what was declared and forgets the rest.
-/

namespace RobustLP

open Config (OptionDomain)

/-- What a dictionary of options is, apart from its options. -/
structure ConfigHead where
  /-- the name of its sort -/
  sort : String := "ConfigDict"
  /-- takes options that were not declared -/
  isOpen : Bool := false
  /-- the domain of options that were not declared -/
  openDomain : Option OptionDomain := none
  /-- the keys of declared options -/
  declared : List String := []
  /-- it was given as a whole -/
  given : Bool := false

/-- An option, or a dictionary of options. -/
inductive Config where
  | option (initial : Value) (domain : Option OptionDomain) (current : Value) (given : Bool)
  | dict (head : ConfigHead) (entries : List (String × Config))

namespace Config

instance : Inhabited Config := ⟨.dict {} []⟩

/-! ## Names -/

/-- The key of a name. -/
def key (name : String) : String := String.ofList (name.toList.map fun c => if c = ' ' then '_' else c)

/-- The full name of an option in a dictionary. -/
def fullName (dict name : String) : String := if dict.isEmpty then name else dict ++ "." ++ name

/-- The entry with a key. -/
def find? (name : String) (entries : List (String × Config)) : Option (String × Config) :=
  entries.find? fun e => key e.1 == key name

/-- Replaces the entry with a key. -/
def replace (name : String) (c : Config) (entries : List (String × Config)) : List (String × Config) :=
  entries.map fun e => if key e.1 == key name then (e.1, c) else e

/-! ## Making -/

/-- Casts a candidate for an option. -/
def castNamed (name : String) (domain : Option OptionDomain) (v : Value) : Except Error Value :=
  match v, domain with
  | .none, _ | _, none => .ok v
  | v, some d => (d.cast v).mapError fun e =>
    .option ("invalid value for configuration '" ++ name ++ "':\n\tFailed casting " ++ v.display ++ "\n\tto "
      ++ d.name ++ "\n\tError: " ++ e.explain)

/-- An option that does not belong to a dictionary yet. -/
def make (default : Value) (domain : Option OptionDomain) : Except Error Config := do
  let v ← castNamed "" domain default
  return option v domain v false

/-! ## Reading -/

mutual

/-- The values of an option or dictionary. -/
def value : Config → Value
  | option _ _ v _ => v
  | dict _ entries => .dict (valuesOf entries)

/-- The values of entries. -/
def valuesOf : List (String × Config) → List (Value × Value)
  | [] => []
  | (name, c) :: rest => (.text name, value c) :: valuesOf rest

end

/-- The name of the domain of an option. -/
def domainName : Config → String
  | option _ (some d) .. => d.name
  | _ => ""

/-- The entries of a dictionary. -/
def entries : Config → List (String × Config)
  | option .. => []
  | dict _ es => es

/-- The entry of a name. -/
def child? (name : String) (c : Config) : Option Config := (find? name c.entries).map (·.2)

mutual

/-- The full names of what was given. -/
def givenNames (name : String) : Config → List String
  | option _ _ _ given => if given then [name] else []
  | dict head entries => (if head.given then [name] else []) ++ givenNamesOf name entries

/-- The full names of what was given among entries. -/
def givenNamesOf (dict : String) : List (String × Config) → List String
  | [] => []
  | (name, c) :: rest => givenNames (fullName dict name) c ++ givenNamesOf dict rest

end

mutual

/-- The lines that show an entry: a line for an option, and the name of a dictionary above its entries. -/
def lines (step level : Nat) (name : String) : Config → List String
  | option _ _ v _ => [Text.blanks (step * level) ++ name ++ ": " ++ v.shown]
  | dict _ entries => (Text.blanks (step * level) ++ name ++ ":") :: linesOf step (level + 1) entries

/-- The lines that show entries. -/
def linesOf (step level : Nat) : List (String × Config) → List String
  | [] => []
  | (name, c) :: rest => lines step level name c ++ linesOf step level rest

end

mutual

/-- How deep dictionaries are nested. -/
def depth : Config → Nat
  | option .. => 1
  | dict _ entries => depthOf entries + 1

/-- How deep the entries are nested. -/
def depthOf : List (String × Config) → Nat
  | [] => 0
  | (_, c) :: rest => max (depth c) (depthOf rest)

end

/-! ## Resetting and copying -/

mutual

/-- Brings back what was declared. -/
def reset : Config → Config
  | option initial domain _ _ => option initial domain initial false
  | dict head entries => dict { head with given := false } (resetEntries head.declared entries)

/-- Brings back the declared entries, and drops the others. -/
def resetEntries (declared : List String) : List (String × Config) → List (String × Config)
  | [] => []
  | (name, c) :: rest =>
    if declared.contains (key name) then (name, reset c) :: resetEntries declared rest else resetEntries declared rest

end

mutual

/-- **A copy,** which starts from the current values. -/
def copy : Config → Except Error Config
  | option _ domain v _ => make v domain
  | dict head entries => do return dict { head with given := false } (← copyEntries entries)

/-- Copies of entries. -/
def copyEntries : List (String × Config) → Except Error (List (String × Config))
  | [] => .ok []
  | (name, c) :: rest => do
    let c ← copy c
    return (name, c) :: (← copyEntries rest)

end

/-! ## Adding -/

/-- The message for an option that another dictionary has already. -/
def taken (name owner dict : String) : Error :=
  .option ("config '" ++ name ++ "' is already assigned to ConfigDict '" ++ owner ++ "'; cannot reassign to '"
    ++ dict ++ "'")

/-- Enters an option under a new name. -/
def enter (path name : String) (c : Config) : Edit Config Unit := do
  match ← get with
  | option .. => throw (.fault .noAttribute)
  | dict head entries =>
    if (find? name entries).isSome then
      throw (.option ("duplicate config '" ++ name ++ "' defined for ConfigDict '" ++ path ++ "'"))
    set (dict head (entries ++ [(name, c)]))

/-- Marks a name as declared. -/
def markDeclared (name : String) : Edit Config Unit :=
  modify fun c => match c with
    | dict head entries =>
      if head.declared.contains (key name) then c
      else dict { head with declared := head.declared ++ [key name] } entries
    | c => c

/-- **Declares an option.** The name counts as declared even if the option cannot be entered. -/
def declare (path name : String) (c : Config) : Edit Config Unit := do
  markDeclared name
  enter path name c

/-- Refuses new options unless the dictionary is open. -/
def checkOpen (path name : String) : Edit Config Unit := do
  match ← get with
  | dict { isOpen := true, .. } _ => pure ()
  | _ => throw (.option ("Key '" ++ name ++ "' not defined in ConfigDict '" ++ path
      ++ "' and Dict disallows implicit entries"))

/-- The domain of options that were not declared. -/
def openDomain? : Config → Option OptionDomain
  | dict head _ => head.openDomain
  | option .. => none

/-- An option or dictionary that counts as given. -/
def asGiven : Config → Config
  | option i d v _ => option i d v true
  | dict head entries => dict { head with given := true } entries

/-- Adds an option to an open dictionary. -/
def addEntry (path name : String) (c : Config) : Edit Config Unit := do
  checkOpen path name
  enter path name c.asGiven

/-- Adds an option with a value to an open dictionary. -/
def addValue (path name : String) (v : Value) : Edit Config Unit := do
  checkOpen path name
  let c ← Edit.lift (make v (openDomain? (← get)))
  enter path name c.asGiven

/-! ## Setting -/

/-- What a dictionary is updated from: a value, or options with the full name of their dictionary. -/
inductive Update where
  | plain (v : Value)
  | options (owner : String) (c : Config)

/-- An update as value of a single option. -/
def Update.toValue : Update → Value
  | plain v => v
  | options _ (dict head _) => .object head.sort head.sort
  | options _ c => c.value

/-- Pairs as entries of a table: a later pair replaces the value of an earlier one. -/
def tableOf {α : Type} (pairs : List (String × α)) : List (String × α) :=
  pairs.foldl (fun t p => if t.any (·.1 == p.1) then t.map fun e => if e.1 == p.1 then p else e else t ++ [p]) []

/-- An entry as update of an entry of that name. -/
def Update.ofEntry (owner : String) : String × Config → String × Update
  | (name, option _ _ v _) => (name, plain v)
  | (name, c) => (name, options owner c)

/-- The entries of an update of a dictionary. -/
def Update.entries (path : String) : Update → Except Error (List (String × Update))
  | plain (.text s) => do return (tableOf (← Words.pairs s)).map fun (k, v) => (k, plain (.text v))
  | plain (.dict es) => .ok (es.map fun (k, v) => (k.display, plain v))
  | options owner c => .ok (c.entries.map (Update.ofEntry owner))
  | plain v =>
    .error (.option ("Expected dict value for " ++ path ++ ".set_value, found " ++ v.typeName))

/-- Edits an entry; what the edit did to it stays when it fails. -/
def onEntry (name : String) (e : Edit Config Unit) : Edit Config Unit := do
  match ← get with
  | option .. => throw (.fault .noAttribute)
  | dict head entries =>
    match find? name entries with
    | none => throw (.fault .noKey)
    | some (_, c) =>
      let (r, c) := e.run c
      set (dict head (replace name c entries))
      Edit.lift r

/-- The entries that exist, and the others; a dictionary that is not open has no others. -/
def sortEntries (path : String) (c : Config) (us : List (String × Update)) :
    Except Error (List (String × Update) × List (String × Update)) := do
  let exists? (u : String × Update) : Bool := (c.child? u.1).isSome
  match c, us.find? fun u => !exists? u with
  | dict { isOpen := false, .. } _, some (name, _) =>
    throw (.option ("key '" ++ name ++ "' not defined for ConfigDict '" ++ path
      ++ "' and implicit (undefined) keys are not allowed"))
  | _, _ => return (us.filter exists?, us.filter fun u => !exists? u)

/-- Adds what an update says of an option that was not declared. -/
def addUpdate (path : String) (u : String × Update) : Edit Config Unit :=
  match u.2 with
  | .plain v => addValue path u.1 v
  | .options owner _ => do
    checkOpen path u.1
    throw (taken u.1 owner path)

/-- Sets an option or dictionary. `fuel` bounds how deep dictionaries are nested and repairs follow each other. -/
def setWithin (fuel : Nat) (path : String) (u : Update) : Edit Config Unit := do
  match fuel with
  | 0 => throw (.fault .overflow)
  | fuel + 1 =>
    match ← get with
    | option initial domain _ _ =>
      let v ← Edit.lift (castNamed path domain u.toValue)
      set (option initial domain v true)
    | before =>
      match u with
      | .plain .none => pure ()
      | u =>
        let us ← Edit.lift (u.entries path)
        let (known, new) ← Edit.lift (sortEntries path before us)
        let update : Edit Config Unit := do
          known.forM fun u => match before.child? u.1, find? u.1 before.entries with
            | some _, some (name, _) => onEntry u.1 (setWithin fuel (fullName path name) u.2)
            | _, _ => pure ()
          (new.mergeSort fun a b => a.1 ≤ b.1).forM (addUpdate path)
        let (r, after) := update.run before
        match r with
        | .ok () => set after.asGiven
        | .error e =>
          let (repaired, restored) := (setWithin fuel path (.plain before.value)).run after.reset
          set restored
          Edit.lift repaired
          throw e

/-- **Sets an option or dictionary.** -/
def assign (path : String) (u : Update) : Edit Config Unit := do
  setWithin (2 * (← get).depth + 8) path u

/-- Sets the entry of a name, or adds it. -/
def assignEntry (path name : String) (u : Update) : Edit Config Unit := do
  match find? name (← get).entries with
  | some (known, _) => onEntry name (assign (fullName path known) u)
  | none => addUpdate path (name, u)

/-- **A copy with some options set.** -/
def updated (c : Config) (u : Update) : Except Error Config := do
  match (assign "" u).run (← c.copy) with
  | (.ok _, c) => return c
  | (.error e, _) => throw e

end Config

end RobustLP
