import RobustLP.Config.Standard
import RobustLP.Script.Data
import RobustLP.Script.Reply

/-!
# Scripts on options

A script makes dictionaries of options, changes and shows them. A dictionary is addressed by the identifier it is bound to and
the names on the way into it. A dictionary that becomes an entry of another one is from then on addressed there, whatever it
was bound to.
-/

namespace RobustLP.Script.Options

open Config (OptionDomain PlainType Enumeration Container)

/-! ## Domains -/

/-- A plain type. -/
def readType (d : Data) : Except Error PlainType :=
  match d.text?.bind PlainType.ofName? with
  | some t => .ok t
  | none => .error (.fault .noKey)

/-- An enumeration: one of the library by its name, or one with given members. -/
def readEnumeration (d : Data) : Except Error Enumeration := do
  match d with
  | .text name => match Enumeration.standard.find? (·.name == name) with
    | some e => return e
    | none => throw (.fault .noKey)
  | d =>
    let members ← (d.field "members").items.mapM fun m => match m.items with
      | [name, v] => .ok (name.textD, v.raw)
      | _ => .error (.fault .badValue)
    return { name := d.word "name", members, short := false }

/-- A container. -/
def readContainer (d : Data) : Container :=
  match d with
  | .text s => .text s
  | d => .list (d.items.map Data.raw)

/-- A domain known by its name. -/
def namedDomain (name : String) : Except Error OptionDomain :=
  match name with
  | "Bool" => .ok .bool
  | "PositiveInt" => .ok (.integer .positive)
  | "NonNegativeInt" => .ok (.integer .nonNegative)
  | "PositiveFloat" => .ok (.real .positive)
  | "NonNegativeFloat" => .ok (.real .nonNegative)
  | "positive_int_or_minus_one" => .ok .limit
  | "SolverResolvable" => .ok (.solver "solver")
  | name => match PlainType.ofName? name with
    | some t => .ok (.plain t)
    | none => .error (.fault .noKey)

/-- The types of an instance test; there must be one. -/
def readTypes (d : Data) : Except Error (List PlainType) := do
  let types ← d.items.mapM readType
  if types.isEmpty then throw (.optionType "IsInstance requires at least one type")
  return types

/-- The field of a record that says which sort of domain it is. -/
def domainSort (fields : List (String × Data)) : Option (String × Data) :=
  fields.find? fun f => ["In", "InEnum", "IsInstance", "ListOf", "SolverResolvable"].contains f.1

/-- The type in a field, if there is one. -/
def optionalType (fields : List (String × Data)) (key : String) : Except Error (Option PlainType) :=
  match (Data.record fields).field key with
  | .null => .ok none
  | d => (readType d).map some

mutual

/-- A domain; none for null. -/
def readDomain : Data → Except Error (Option OptionDomain)
  | .text name => do return some (← namedDomain name)
  | .record fields => do
    match domainSort fields with
    | some ("In", c) => return some (.oneOf (readContainer c) (← optionalType fields "cast"))
    | some ("InEnum", e) => return some (.enumeration (← readEnumeration e))
    | some ("IsInstance", ts) => return some (.instanceOf (← readTypes ts))
    | some ("SolverResolvable", text) => return some (.solver text.textD)
    | some (_, t) => return some (.listOf (← readType t) (← readItemDomain fields) !((Data.record fields).has "lexer"))
    | none => throw (.fault .noKey)
  | _ => .ok none

/-- The domain of the items of a list. -/
def readItemDomain : List (String × Data) → Except Error (Option OptionDomain)
  | [] => .ok none
  | (name, d) :: rest => if name == "domain" then readDomain d else readItemDomain rest

end

mutual

/-- The text of a value; a dictionary answers the texts of its entries. -/
def shownValue : Value → Reply
  | .dict entries => .record (shownFields entries)
  | v => .text v.shown

/-- The texts of the entries of a dictionary. -/
def shownFields : List (Value × Value) → List (String × Reply)
  | [] => []
  | (k, v) :: rest => (k.display, shownValue v) :: shownFields rest

end

/-- The answers of a domain to candidates. -/
def domainAnswers (domain : Option OptionDomain) (candidates : List Value) : Reply :=
  .list (candidates.map fun v => match domain with
    | some d => Reply.ofResult shownValue (d.cast v)
    | none => shownValue v)

/-- Tries candidates in a domain. -/
def tryDomain (d : Data) : Except Error Reply := do
  let domain ← readDomain (d.field "domain")
  let candidates := (d.field "values").items.map (Data.toValue (d.field "special").truth)
  return .record [("name", .text ((domain.map OptionDomain.name).getD "")), ("results", domainAnswers domain candidates)]

/-! ## Scripts -/

/-- Dictionaries that are not part of others, and what identifiers are bound to: one of these, and the way into it. -/
structure Shelf where
  roots : List Config := []
  bindings : List (String × Nat × List String) := []

/-- A step of a script on options. -/
abbrev Step := ExceptT Failure (StateM Shelf)

/-- A computation as step. -/
def lift {α : Type} : Except Error α → Step α
  | .ok a => pure a
  | .error e => throw (.error e)

/-- A place: a root, and the way into it. -/
def place (path : Data) : Step (Nat × List String) := do
  match path.items with
  | [] => lift (.error (.fault .noIndex))
  | id :: keys =>
    match (← get).bindings.find? (·.1 == id.textD) with
    | some (_, root, way) => return (root, way ++ keys.map fun k => k.raw.display)
    | none => throw (.unbound id.textD)

/-- The entry at the end of a way, with its full name. -/
def entryAt (name : String) (c : Config) : List String → Except Error (String × Config)
  | [] => .ok (name, c)
  | k :: ks => match Config.find? k c.entries with
    | some (known, c) => entryAt (Config.fullName name known) c ks
    | none => .error (.fault .noAttribute)

/-- The entry at a place, with its full name. -/
def lookup (p : Nat × List String) : Step (String × Config) := do
  lift (entryAt "" ((← get).roots[p.1]?.getD default) p.2)

/-- Edits the entry at the end of a way. -/
def editAt (e : Edit Config Unit) : List String → Edit Config Unit
  | [] => e
  | k :: ks => Config.onEntry k (editAt e ks)

/-- Edits the entry at a place, given its full name. -/
def edit (p : Nat × List String) (e : (path : String) → Edit Config Unit) : Step Unit := do
  let (name, _) ← lookup p
  let (r, c) := (editAt (e name) p.2).run ((← get).roots[p.1]?.getD default)
  modify fun s => { s with roots := s.roots.set p.1 c }
  lift r

/-- Puts a dictionary on the shelf and binds an identifier to it. -/
def put (id : String) (c : Config) : Step Unit :=
  modify fun s => { roots := s.roots ++ [c], bindings := (id, s.roots.length, []) :: s.bindings }

/-! ## Answers -/

mutual

/-- The values of an option or dictionary. -/
def shown : Config → Reply
  | .option _ _ v _ => shownValue v
  | .dict _ entries => .record (shownEntries entries)

/-- The values of entries. -/
def shownEntries : List (String × Config) → List (String × Reply)
  | [] => []
  | (name, c) :: rest => (name, shown c) :: shownEntries rest

end

/-- The value of the entry at a place. -/
def showAt (p : Nat × List String) : Step Reply := do return shown (← lookup p).2

/-- An entry with its names. -/
def describe (name full : String) (c : Config) : Reply :=
  .list [.text name, .text full, .text c.domainName, shown c]

/-- The entry of a name at a place. -/
def describeEntry (p : Nat × List String) (name : String) : Step Reply := do
  let (full, c) ← lookup p
  match Config.find? name c.entries with
  | some (known, e) => return describe known (Config.fullName full known) e
  | none => return .null

/-! ## Steps -/

/-- A text or the text of anything else. -/
def nameIn (d : Data) (key : String) : String := (d.field key).raw.display

/-- The dictionary of a sort. -/
def ofSort (d : Data) : Except Error Config := do
  match d.field? "class" with
  | none | some (.text "ConfigDict") =>
    return .dict { isOpen := (d.field "implicit").truth, openDomain := ← readDomain (d.field "implicit_domain") } []
  | some (.text "SolverConfig") => return .solver
  | some (.text "BranchAndBoundConfig") => return .branchAndBound
  | some (.text "HighsConfig") => return .highs
  | some (.text "SolverResults") => return .solverResults
  | some (.text "robust_config") => return .robust
  | _ => throw (.fault .noKey)

/-- A new entry. -/
def readEntry (d : Data) : Except Error Config := do
  if d.has "dict" then
    return .dict { isOpen := (d.field "implicit").truth, openDomain := ← readDomain (d.field "implicit_domain") } []
  else Config.make (d.field "default").number (← readDomain (d.field "domain"))

/-- Redirects what is bound to a root to its place in another one. -/
def redirect (root : Nat) (p : Nat × List String) (s : Shelf) : Shelf :=
  { s with bindings := s.bindings.map fun (id, r, way) => if r = root then (id, p.1, p.2 ++ way) else (id, r, way) }

/-- Enters what an identifier refers to: a part of a dictionary is refused there. -/
def enterReferred (p : Nat × List String) (name : String) (path : Data) (add : (path : String) → Edit Config Unit)
    (enter : (path : String) → Config → Edit Config Unit) : Step Unit := do
  let q ← place path
  let (_, c) ← lookup q
  match q.2.dropLast, q.2 with
  | _, [] =>
    edit p fun path => enter path c
    modify (redirect q.1 (p.1, p.2 ++ [name]))
  | owner, _ =>
    let (ownerName, _) ← lookup (q.1, owner)
    edit p fun path => do
      add path
      throw (Config.taken name ownerName path)

/-- Declares an entry. -/
def declare (d : Data) : Step Reply := do
  let p ← place (d.field "at")
  let name := nameIn d "name"
  match (d.field "entry").field? "ref" with
  | some path =>
    enterReferred p name path (fun _ => Config.markDeclared name) fun path c => Config.declare path name c
  | none =>
    let c ← lift (readEntry (d.field "entry"))
    edit p fun path => Config.declare path name c
  describeEntry p name

/-- Adds an entry or a value. -/
def add (d : Data) : Step Reply := do
  let p ← place (d.field "at")
  let name := nameIn d "name"
  match d.field? "entry" with
  | none => edit p fun path => Config.addValue path name (d.field "value").number
  | some entry => match entry.field? "ref" with
    | some path =>
      enterReferred p name path (fun path => Config.checkOpen path name) fun path c => Config.addEntry path name c
    | none =>
      let c ← lift (readEntry entry)
      edit p fun path => Config.addEntry path name c
  describeEntry p name

/-- The value of an entry, or an error if there is none. -/
def valueOf (d : Data) (missing : (sort : String) → Error) : Step Reply := do
  let (_, c) ← lookup (← place (d.field "at"))
  match c.child? (nameIn d "key"), c with
  | some e, _ => return shown e
  | none, .dict head _ => lift (.error (missing head.sort))
  | none, _ => lift (.error (.fault .noAttribute))

/-- An attribute that a dictionary does not have. -/
def noAttribute (name sort : String) : Error :=
  .optionAttribute ("'" ++ sort ++ "' object has no attribute '" ++ name ++ "'")

/-- Sets an entry. -/
def setEntry (d : Data) : Step Reply := do
  let p ← place (d.field "at")
  edit p fun path => Config.assignEntry path (nameIn d "key") (.plain (d.field "value").number)
  showAt p

/-- A dictionary without its dictionaries. -/
def optionsOnly : Config → Config
  | .dict head entries => .dict head (entries.filter fun e => match e.2 with
    | .option .. => true
    | .dict .. => false)
  | c => c

/-- What a dictionary is set from; from itself, its dictionaries stay as they are. -/
def readUpdate (p : Nat × List String) (d : Data) : Step Config.Update := do
  match d.field? "config" with
  | some (.text id) =>
    let q ← place (.list [.text id])
    let (name, c) ← lookup q
    return .options name (if q == p then optionsOnly c else c)
  | _ => return .plain d.number

/-- Sets an option or dictionary. -/
def setValue (d : Data) : Step Reply := do
  let p ← place (d.field "at")
  let u ← readUpdate p (d.field "value")
  edit p fun path => Config.assign path u
  showAt p

/-- The entry of a name, or an option made of a default value. -/
def getEntry (d : Data) : Step Reply := do
  let p ← place (d.field "at")
  match ← describeEntry p (nameIn d "key"), d.field? "default" with
  | .null, some v =>
    let (_, c) ← lookup p
    return describe "" "" (← lift (Config.make v.number c.openDomain?))
  | r, _ => return r

/-- Resets an entry. -/
def resetEntry (d : Data) : Step Reply := do
  let p ← place (d.field "at")
  let q := (p.1, p.2 ++ [nameIn d "key"])
  edit q fun _ => modify Config.reset
  showAt q

/-- Resets an option or dictionary. -/
def resetAll (d : Data) : Step Reply := do
  let p ← place (d.field "at")
  edit p fun _ => modify Config.reset
  showAt p

/-- The lines of a dictionary. -/
def display (d : Data) : Step Reply := do
  let (_, c) ← lookup (← place (d.field "at"))
  let step ← match d.field? "indent" with
    | none => pure 2
    | some n => lift n.nat
  return .texts (Config.linesOf step 0 c.entries ++ [""])

/-- The names and values of a dictionary. -/
def keys (d : Data) : Step Reply := do
  let (_, c) ← lookup (← place (d.field "at"))
  let names := c.entries.map (·.1)
  return .record [("keys", .texts names), ("iter", .texts names), ("len", .int names.length),
    ("values", .list (c.entries.map fun e => shown e.2)),
    ("items", .list (c.entries.map fun e => .list [.text e.1, shown e.2]))]

/-- Which names a dictionary has. -/
def contains (d : Data) : Step Reply := do
  let (_, c) ← lookup (← place (d.field "at"))
  return .list ((d.field "keys").items.map fun k => .bool (c.child? k.raw.display).isSome)

/-- A copy, with some options set. -/
def copy (d : Data) : Step Reply := do
  let (_, c) ← lookup (← place (d.field "at"))
  let c ← match d.field? "value" with
    | none => lift c.copy
    | some v => lift (c.updated (.plain v.number))
  put (d.word "id") c
  return shown c

/-- The text of the results of a solver. -/
def resultsText (d : Data) : Step Reply := do
  let (_, c) ← lookup (← place (d.field "at"))
  return .texts (["termination_condition", "solution_status", "incumbent_objective"].map fun k =>
    k ++ ": " ++ ((c.child? k).map fun e => e.value.display).getD "")

/-- A step. -/
def step (d : Data) : Step Reply := do
  match d.word "do" with
  | "new" => do
    let c ← lift (ofSort d)
    put (d.word "id") c
    return shown c
  | "declare" => declare d
  | "add" => add d
  | "get" => valueOf d fun _ => .fault .noKey
  | "getattr" => valueOf d (noAttribute (nameIn d "key"))
  | "set" | "setattr" => setEntry d
  | "set_value" => setValue d
  | "entry" => getEntry d
  | "entry_reset" => resetEntry d
  | "reset" => resetAll d
  | "value" => showAt (← place (d.field "at"))
  | "display" => display d
  | "user_values" => do
    let (name, c) ← lookup (← place (d.field "at"))
    return .texts (c.givenNames name)
  | "keys" => keys d
  | "contains" => contains d
  | "copy" => copy d
  | "str" => resultsText d
  | _ => lift (.error (.fault .noAttribute))

/-- Runs steps one after another. -/
def run : Shelf → List Data → List Reply
  | _, [] => []
  | s, d :: rest => match (ExceptT.run (step d)).run s with
    | (.ok r, s) => r :: run s rest
    | (.error f, s) => .failed f [] :: run s rest

/-- **Runs a script on options.** -/
def runScript (d : Data) : Reply := .record [("results", .list (run {} (d.field "steps").items))]

end RobustLP.Script.Options
